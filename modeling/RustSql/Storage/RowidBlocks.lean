import RustSql.Foundation.GuardedRun
import Mathlib.Data.Nat.Bitwise

/-! Rowid blocks that threads draw from the high-water mark: the load and the
`compare_exchange` of `reserve_rowids` are steps of their own. Sums wrap, as in a build
without overflow checks, and whether one did is kept. -/

namespace RustSql.Storage.RowidBlocks

open RustSql.Foundation

/-- The arguments of `reserve_rowids`. -/
structure Request where
  viewMax : Int64
  n : Int64
  positive : 1 ≤ n.toInt

/-- `cur.max(view_max)`. -/
def Request.top (request : Request) (cur : Int64) : Int64 := max cur request.viewMax

/-- "database or disk is full". -/
def Request.full (request : Request) (cur : Int64) : Bool :=
  request.top cur = Int64.maxValue || request.top cur + 1 = Int64.maxValue

/-- The base of a block and the high-water mark behind it. -/
def Request.draw (request : Request) (cur : Int64) : Int64 × Int64 :=
  let base := request.top cur + 1
  (base, min (base + request.n - 1) (Int64.maxValue - 1))

/-- Whether `base + n` leaves the range of `i64`. -/
def Request.overflows (request : Request) (cur : Int64) : Bool :=
  2 ^ 63 ≤ (request.top cur).toInt + 1 + request.n.toInt

inductive Phase where
  | idle
  | loading (request : Request)
  | swapping (request : Request) (cur base last : Int64)

structure Block where
  request : Request
  base : Int64

/-- The last rowid the caller takes from its block. -/
def Block.last (block : Block) : Int := block.base.toInt + block.request.n.toInt - 1

structure Shared where
  hw : Int64
  threads : List Phase
  granted : List Block
  overflowed : Bool

def Shared.start (threads : Nat) : Shared := ⟨0, List.replicate threads .idle, [], false⟩

/-- Which thread goes on, and what it asks for if it is idle. -/
structure Turn where
  thread : Nat
  request : Request

namespace Shared

/-- The thread goes on to a phase. -/
def enter (shared : Shared) (thread : Nat) (phase : Phase) : Shared :=
  { shared with threads := shared.threads.set thread phase }

def step (shared : Shared) (turn : Turn) : Shared :=
  match shared.threads[turn.thread]? with
  | none => shared
  | some .idle => shared.enter turn.thread (.loading turn.request)
  | some (.loading request) =>
    if request.full shared.hw then shared.enter turn.thread .idle
    else
      let (base, last) := request.draw shared.hw
      { shared.enter turn.thread (.swapping request shared.hw base last) with
        overflowed := shared.overflowed || request.overflows shared.hw }
  | some (.swapping request cur base last) =>
    if shared.hw = cur then
      { shared.enter turn.thread .idle with
        hw := last
        granted := ⟨request, base⟩ :: shared.granted }
    else shared.enter turn.thread (.loading request)

/-- A draw leaves the last rowid alone. -/
def Room (shared : Shared) (turn : Turn) : Prop :=
  ∀ request, shared.threads[turn.thread]? = some (.loading request) →
    request.full shared.hw = true ∨
      (request.top shared.hw).toInt + request.n.toInt ≤ Int64.maxValue.toInt - 1

/-- No sum overflowed, no two blocks meet, and a block lies above what its caller saw, below
the last rowid and under the high-water mark. -/
structure Sound (shared : Shared) : Prop where
  inRange : shared.overflowed = false
  disjoint : shared.granted.Pairwise fun new old => old.last < new.base.toInt
  above : ∀ block ∈ shared.granted, block.request.viewMax < block.base
  reserved : ∀ block ∈ shared.granted, block.last ≤ shared.hw.toInt
  usable : shared.hw.toInt < Int64.maxValue.toInt

end Shared

/-- What a thread has drawn while nobody else does. -/
def Phase.Drawn : Phase → Prop
  | .swapping request cur base last => cur.toInt < base.toInt ∧
      request.viewMax.toInt < base.toInt ∧ last.toInt = base.toInt + request.n.toInt - 1 ∧
      last.toInt < Int64.maxValue.toInt
  | _ => True

structure Inv (shared : Shared) : Prop where
  sound : shared.Sound
  drawn : ∀ phase ∈ shared.threads, phase.Drawn

theorem overflows_iff (request : Request) (cur : Int64) :
    request.overflows cur = false ↔
      (request.top cur).toInt + request.n.toInt ≤ Int64.maxValue.toInt - 1 := by
  rw [Request.overflows, decide_eq_false_iff_not, show Int64.maxValue.toInt = 2 ^ 63 - 1 from rfl]
  omega

theorem toInt_add {a b : Int64} (low : -2 ^ 63 ≤ a.toInt + b.toInt) (high : a.toInt + b.toInt < 2 ^ 63) :
    (a + b).toInt = a.toInt + b.toInt := by
  rw [Int64.toInt_add]
  exact Int.bmod_eq_of_le (by omega) (by omega)

theorem toInt_sub {a b : Int64} (low : -2 ^ 63 ≤ a.toInt - b.toInt) (high : a.toInt - b.toInt < 2 ^ 63) :
    (a - b).toInt = a.toInt - b.toInt := by
  rw [Int64.toInt_sub]
  exact Int.bmod_eq_of_le (by omega) (by omega)

theorem le_top (request : Request) (cur : Int64) :
    cur.toInt ≤ (request.top cur).toInt ∧ request.viewMax.toInt ≤ (request.top cur).toInt := by
  rw [Request.top, show max cur request.viewMax = if cur ≤ request.viewMax then request.viewMax else cur from rfl]
  split
  next le => exact ⟨Int64.le_iff_toInt_le.mp le, Int.le_refl _⟩
  next gt =>
    rw [Int64.le_iff_toInt_le] at gt
    omega

/-- Where there is room the arithmetic is exact. -/
theorem draw_drawn {request : Request} {cur : Int64}
    (room : (request.top cur).toInt + request.n.toInt ≤ Int64.maxValue.toInt - 1) :
    (Phase.swapping request cur (request.draw cur).1 (request.draw cur).2).Drawn := by
  have positive := request.positive
  obtain ⟨above, clear⟩ := le_top request cur
  have least := (request.top cur).le_toInt
  have one : (1 : Int64).toInt = 1 := rfl
  have most : Int64.maxValue.toInt = 2 ^ 63 - 1 := rfl
  have base : (request.top cur + 1).toInt = (request.top cur).toInt + 1 :=
    toInt_add (by omega) (by omega)
  have sum : (request.top cur + 1 + request.n).toInt = (request.top cur).toInt + 1 + request.n.toInt := by
    rw [toInt_add (by omega) (by omega), base]
  have last : (request.top cur + 1 + request.n - 1).toInt = (request.top cur).toInt + request.n.toInt := by
    rw [toInt_sub (by omega) (by omega), sum, one]
    omega
  have capped : (request.draw cur).2 = request.top cur + 1 + request.n - 1 :=
    if_pos (Int64.le_iff_toInt_le.mpr (by rw [last]; exact room))
  refine ⟨?_, ?_, ?_, ?_⟩
  · show cur.toInt < (request.top cur + 1).toInt
    omega
  · show request.viewMax.toInt < (request.top cur + 1).toInt
    omega
  · show _ = (request.top cur + 1).toInt + request.n.toInt - 1
    rw [capped]
    omega
  · rw [capped]
    omega

namespace Inv

variable {shared : Shared}

theorem enter (inv : Inv shared) (thread : Nat) {phase : Phase} (drawn : phase.Drawn) :
    Inv (shared.enter thread phase) := by
  obtain ⟨inRange, disjoint, above, reserved, usable⟩ := inv.sound
  refine ⟨⟨inRange, disjoint, above, reserved, usable⟩, fun other member => ?_⟩
  rcases List.mem_or_eq_of_mem_set member with old | rfl
  · exact inv.drawn other old
  · exact drawn

theorem step (inv : Inv shared) (turn : Turn) (room : shared.Room turn) : Inv (shared.step turn) := by
  unfold Shared.step
  split
  next => exact inv
  next => exact inv.enter _ trivial
  next request found =>
    split
    next => exact inv.enter _ trivial
    next free =>
      have fits := (room request found).resolve_left free
      have entered := inv.enter turn.thread (draw_drawn fits)
      obtain ⟨inRange, disjoint, above, reserved, usable⟩ := entered.sound
      refine ⟨⟨?_, disjoint, above, reserved, usable⟩, entered.drawn⟩
      rw [Bool.or_eq_false_iff]
      exact ⟨inRange, (overflows_iff request _).mpr fits⟩
  next request cur base last found =>
    split
    next same =>
      obtain ⟨beyond, clear, ends, below⟩ := inv.drawn _ (List.mem_of_getElem? found)
      have entered := inv.enter turn.thread (show Phase.idle.Drawn from trivial)
      obtain ⟨inRange, disjoint, above, reserved, usable⟩ := inv.sound
      have positive := request.positive
      rw [← same] at beyond
      refine ⟨⟨inRange, List.pairwise_cons.mpr ⟨fun old member => ?_, disjoint⟩,
        List.forall_mem_cons.mpr ⟨Int64.lt_iff_toInt_lt.mpr clear, above⟩,
        List.forall_mem_cons.mpr ⟨Int.le_of_eq ends.symm, fun old member => ?_⟩, below⟩, entered.drawn⟩
      · exact Int.lt_of_le_of_lt (reserved old member) beyond
      · have before := reserved old member
        show old.last ≤ last.toInt
        omega
    next => exact inv.enter _ trivial

end Inv

theorem overflowed_step {shared : Shared} {turn : Turn} (kept : (shared.step turn).overflowed = false) :
    shared.overflowed = false ∧ shared.Room turn := by
  unfold Shared.step at kept
  unfold Shared.Room
  split at kept
  next none => exact ⟨kept, fun request found => by rw [none] at found; cases found⟩
  next idle => exact ⟨kept, fun request found => by rw [idle] at found; cases found⟩
  next request loading =>
    split at kept
    next full =>
      refine ⟨kept, fun other found => ?_⟩
      rw [loading] at found
      cases found
      exact .inl full
    next =>
      obtain ⟨before, exact⟩ := Bool.or_eq_false_iff.mp kept
      refine ⟨before, fun other found => ?_⟩
      rw [loading] at found
      cases found
      exact .inr ((overflows_iff request _).mp exact)
  next swapping =>
    refine ⟨?_, fun other found => by rw [swapping] at found; cases found⟩
    split at kept <;> exact kept

theorem overflowed_run {turns : List Turn} {shared : Shared}
    (kept : (turns.foldl Shared.step shared).overflowed = false) : shared.overflowed = false := by
  induction turns generalizing shared with
  | nil => exact kept
  | cons turn rest ih => exact (overflowed_step (ih kept)).1

theorem inv_start (threads : Nat) : Inv (Shared.start threads) :=
  ⟨⟨rfl, .nil, nofun, nofun, (by decide : (0 : Int64).toInt < Int64.maxValue.toInt)⟩, fun phase member => by
    rw [(List.mem_replicate.mp member).2]
    exact trivial⟩

/-- The blocks are sound at the end of a run exactly when every draw had room. -/
theorem reserveRowids_sound (threads : Nat) (turns : List Turn) :
    (turns.foldl Shared.step (Shared.start threads)).Sound ↔
      Run.Along Shared.Room Shared.step (Shared.start threads) turns := by
  have every (shared : Shared) (inv : Inv shared) :
      (turns.foldl Shared.step shared).Sound ↔ Run.Along Shared.Room Shared.step shared turns := by
    induction turns generalizing shared with
    | nil => exact ⟨fun _ => trivial, fun _ => inv.sound⟩
    | cons turn rest ih =>
      constructor
      · intro sound
        have room := (overflowed_step (overflowed_run sound.inRange)).2
        exact ⟨room, (ih _ (inv.step turn room)).mp sound⟩
      · rintro ⟨room, along⟩
        exact (ih _ (inv.step turn room)).mpr along
  exact every _ (inv_start threads)

/-- 64 rowids above a view that ends ten below the last one, twice: the high-water mark
wraps, and the block is handed out again. -/
def nearTheEnd : List Turn :=
  List.replicate 6 ⟨0, Int64.maxValue - 10, 64, by decide⟩

theorem block_twice :
    ¬ (nearTheEnd.foldl Shared.step (Shared.start 1)).Sound ∧
      (nearTheEnd.foldl Shared.step (Shared.start 1)).granted.map Block.base =
        [Int64.maxValue - 9, Int64.maxValue - 9] := by
  refine ⟨fun sound => ?_, by decide⟩
  exact absurd sound.inRange (by decide)

end RustSql.Storage.RowidBlocks
