import Mathlib.Data.List.Count
import Mathlib.Data.Nat.Bitwise

/-! The install gate: readers and writers that meet in one state word. A phase is where a
thread stands between two atomic steps on the word; the spins and the parking between them
only delay. A load may return any value, since a later `compare_exchange` or `fetch_add`
decides. A thread that nests guards is several threads here. -/

namespace RustSql.Storage.InstallGate

def GATE_PENDING : UInt32 := (1 : UInt32) <<< 30

def GATE_ACTIVE : UInt32 := (1 : UInt32) <<< 31

def GATE_COUNT : UInt32 := GATE_PENDING - 1

/-- What a reader yields to: `read` to a pending or an active writer, `read_recursive` to an
active one. -/
inductive Side where
  | plain
  | recursive
deriving DecidableEq, Repr

def Side.mask : Side → UInt32
  | .plain => GATE_PENDING ||| GATE_ACTIVE
  | .recursive => GATE_ACTIVE

/-- A value of the word that a writer may claim from. -/
abbrev Claimable := { seen : UInt32 // seen &&& (GATE_PENDING ||| GATE_ACTIVE) = 0 }

/-- A value of the word from which the pending writer may go in. -/
abbrev Drained := { seen : UInt32 // seen &&& GATE_COUNT = 0 }

inductive Phase where
  | idle
  | backing (side : Side)
  | waiting (side : Side)
  | retrying (side : Side)
  | reading (side : Side)
  | claiming
  | claimable
  | claim (seen : Claimable)
  | draining
  | drainable
  | flip (seen : Drained)
  | writing
deriving DecidableEq, Repr

/-- What an idle thread begins. -/
inductive Start where
  | read
  | readRecursive
  | write
deriving DecidableEq, Repr

/-- `fetch_add` of a reader, and whether it is admitted. -/
def increment (side : Side) (word : UInt32) : UInt32 × Phase :=
  (word + 1, if word &&& side.mask = 0 then .reading side else .backing side)

/-- The next step of a thread: the word after it, and where the thread then stands. A guard
is dropped from `reading` and `writing`. -/
def Phase.step (start : Start) (seen word : UInt32) : Phase → UInt32 × Phase
  | .idle => match start with
    | .read => increment .plain word
    | .readRecursive => increment .recursive word
    | .write => (word, .claiming)
  | .backing side => (word - 1, .waiting side)
  | .waiting side => (word, if seen &&& side.mask ≠ 0 then .waiting side else .retrying side)
  | .retrying side => increment side word
  | .reading _ => (word - 1, .idle)
  | .claiming =>
    (word, if seen &&& (GATE_PENDING ||| GATE_ACTIVE) ≠ 0 then .claiming else .claimable)
  | .claimable =>
    (word, if free : seen &&& (GATE_PENDING ||| GATE_ACTIVE) = 0 then .claim ⟨seen, free⟩ else .claiming)
  | .claim seen =>
    if word = seen then (seen.1 ||| GATE_PENDING, .draining) else (word, .claiming)
  | .draining => (word, if seen &&& GATE_COUNT ≠ 0 then .draining else .drainable)
  | .drainable => (word, if drained : seen &&& GATE_COUNT = 0 then .flip ⟨seen, drained⟩ else .draining)
  | .flip seen =>
    if word = seen then ((seen.1 &&& ~~~ GATE_PENDING) ||| GATE_ACTIVE, .writing)
    else (word, .draining)
  | .writing => (word &&& ~~~ GATE_ACTIVE, .idle)

structure Gate where
  state : UInt32
  threads : List Phase
deriving DecidableEq, Repr

/-- `InstallGate::new`, with so many threads. -/
def Gate.new (threads : Nat) : Gate := ⟨0, List.replicate threads .idle⟩

/-- Which thread goes on, what it begins if it is idle, and what it sees if it loads. -/
structure Turn where
  thread : Nat
  start : Start
  seen : UInt32

def Gate.next (gate : Gate) (turn : Turn) : Gate :=
  match gate.threads[turn.thread]? with
  | none => gate
  | some phase =>
    let (state, after) := phase.step turn.start turn.seen gate.state
    ⟨state, gate.threads.set turn.thread after⟩

def Phase.isAdmitted : Phase → Bool
  | .reading _ => true
  | _ => false

def Phase.isTransient : Phase → Bool
  | .backing _ => true
  | _ => false

def Phase.isPending : Phase → Bool
  | .draining | .drainable | .flip _ => true
  | _ => false

def Phase.isActive : Phase → Bool
  | .writing => true
  | _ => false

namespace Gate

def admitted (gate : Gate) : Nat := gate.threads.countP Phase.isAdmitted

def transient (gate : Gate) : Nat := gate.threads.countP Phase.isTransient

def pending (gate : Gate) : Nat := gate.threads.countP Phase.isPending

def active (gate : Gate) : Nat := gate.threads.countP Phase.isActive

end Gate

/-- The word of so many readers, with the two high bits as a number. -/
def word (readers bits : Nat) : UInt32 := .ofNat (2 ^ 30 * bits + readers)

section Words

variable {readers bits : Nat}

theorem word_toNat (few : readers < 2 ^ 30) (high : bits < 4) :
    (word readers bits).toNat = 2 ^ 30 * bits + readers :=
  UInt32.toNat_ofNat_of_lt' (show _ < 2 ^ 32 by omega)

theorem word_succ : word readers bits + 1 = word (readers + 1) bits := by
  simp only [word, ← Nat.add_assoc, UInt32.ofNat_add]
  rfl

theorem word_pred (inside : 0 < readers) : word readers bits - 1 = word (readers - 1) bits := by
  obtain ⟨readers, rfl⟩ := Nat.exists_eq_succ_of_ne_zero (Nat.ne_of_gt inside)
  rw [← word_succ]
  exact UInt32.add_sub_cancel _ _

/-- The high bits under a mask of them. -/
theorem word_and (few : readers < 2 ^ 30) (high : bits < 4) {mask : UInt32} {low : Nat}
    (masks : mask.toNat = 2 ^ 30 * low) : word readers bits &&& mask = 0 ↔ bits &&& low = 0 := by
  have both : (2 ^ 30 * bits + readers) &&& (2 ^ 30 * low) = 2 ^ 30 * (bits &&& low) := by
    apply Nat.eq_of_testBit_eq
    intro i
    rw [Nat.testBit_and, Nat.testBit_two_pow_mul_add _ few, Nat.testBit_two_pow_mul,
      Nat.testBit_two_pow_mul, Nat.testBit_and]
    by_cases inside : i < 30
    · simp [inside, Nat.not_le.mpr inside]
    · simp [inside, Nat.le_of_not_lt inside]
  rw [← UInt32.toNat_inj, UInt32.toNat_and, word_toNat few high, masks, both]
  show 2 ^ 30 * (bits &&& low) = 0 ↔ _
  omega

theorem word_count (few : readers < 2 ^ 30) (high : bits < 4) :
    (word readers bits &&& GATE_COUNT).toNat = readers := by
  rw [UInt32.toNat_and, word_toNat few high]
  show (2 ^ 30 * bits + readers) &&& 2 ^ 30 - 1 = readers
  rw [Nat.and_two_pow_sub_one_eq_mod]
  omega

theorem word_and_plain (few : readers < 2 ^ 30) (high : bits < 4) :
    word readers bits &&& (GATE_PENDING ||| GATE_ACTIVE) = 0 ↔ bits = 0 := by
  rw [word_and few high (show _ = 2 ^ 30 * 3 from rfl)]
  rcases (by omega : bits = 0 ∨ bits = 1 ∨ bits = 2 ∨ bits = 3) with rfl | rfl | rfl | rfl <;> decide

theorem word_and_active (few : readers < 2 ^ 30) (high : bits < 4) :
    word readers bits &&& GATE_ACTIVE = 0 ↔ bits < 2 := by
  rw [word_and few high (show _ = 2 ^ 30 * 2 from rfl)]
  rcases (by omega : bits = 0 ∨ bits = 1 ∨ bits = 2 ∨ bits = 3) with rfl | rfl | rfl | rfl <;> decide

/-- A claim sets the pending bit. -/
theorem word_claim (few : readers < 2 ^ 30) : word readers 0 ||| GATE_PENDING = word readers 1 := by
  rw [← UInt32.toNat_inj, UInt32.toNat_or, word_toNat few (by decide), word_toNat few (by decide),
    Nat.mul_zero, Nat.zero_add, Nat.or_comm]
  exact (Nat.two_pow_add_eq_or_of_lt few 1).symm

/-- A guard that is dropped clears the active bit. -/
theorem word_drop (few : readers < 2 ^ 30) : word readers 2 &&& ~~~ GATE_ACTIVE = word readers 0 := by
  rw [← UInt32.toNat_inj, UInt32.toNat_and, word_toNat few (by decide), word_toNat few (by decide)]
  show (2 ^ 30 * 2 + readers) &&& 2 ^ 31 - 1 = _
  rw [Nat.and_two_pow_sub_one_eq_mod]
  omega

end Words

/-- The word tells the readers inside and those about to back out, and the writers. -/
structure Inv (gate : Gate) : Prop where
  few : gate.threads.length < 2 ^ 30
  state : gate.state = word (gate.admitted + gate.transient) (gate.pending + 2 * gate.active)
  single : gate.pending + gate.active ≤ 1
  exclusive : gate.active = 0 ∨ gate.admitted = 0

theorem readers_le (threads : List Phase) :
    threads.countP Phase.isAdmitted + threads.countP Phase.isTransient ≤ threads.length := by
  induction threads with
  | nil => exact Nat.le_refl 0
  | cons phase rest ih =>
    simp only [List.countP_cons, List.length_cons]
    cases phase <;> simp only [Phase.isAdmitted, Phase.isTransient] <;> simp <;> omega

/-- One thread moves, and the counts with it. -/
theorem countP_moved (p : Phase → Bool) {threads : List Phase} {i : Nat} {phase : Phase}
    (found : threads[i]? = some phase) (after : Phase) :
    (threads.set i after).countP p + (p phase).toNat = threads.countP p + (p after).toNat := by
  obtain ⟨inside, rfl⟩ := List.getElem?_eq_some_iff.mp found
  have least := @List.boole_getElem_le_countP _ p _ _ inside
  rw [List.countP_set inside]
  cases was : p threads[i] <;> cases p after <;>
    simp only [was, if_true, if_false, Bool.false_eq_true, Bool.toNat_true, Bool.toNat_false] at least ⊢ <;>
    omega

theorem inv_new {threads : Nat} (few : threads < 2 ^ 30) : Inv (Gate.new threads) := by
  refine ⟨by simpa [Gate.new] using few, ?_, ?_, .inl ?_⟩ <;>
    simp [Gate.new, Gate.admitted, Gate.transient, Gate.pending, Gate.active, List.countP_replicate,
      Phase.isAdmitted, Phase.isTransient, Phase.isPending, Phase.isActive, word]

theorem Inv.readers (inv : Inv gate) : gate.admitted + gate.transient < 2 ^ 30 :=
  Nat.lt_of_le_of_lt (readers_le gate.threads) inv.few

/-- What `fetch_add` answers, in terms of the writers. -/
theorem Inv.admits (inv : Inv gate) (side : Side) :
    gate.state &&& side.mask = 0 ↔ gate.active = 0 ∧ (side = .plain → gate.pending = 0) := by
  have single := inv.single
  rw [inv.state]
  cases side with
  | plain =>
    rw [show Side.plain.mask = GATE_PENDING ||| GATE_ACTIVE from rfl, word_and_plain inv.readers (by omega)]
    simp only [forall_const]
    omega
  | recursive =>
    rw [show Side.recursive.mask = GATE_ACTIVE from rfl, word_and_active inv.readers (by omega)]
    simp only [reduceCtorEq, false_implies, and_true]
    omega

/-- One thread moves: the counts after it, and what they have to be. -/
theorem Inv.moved (inv : Inv gate) {i : Nat} {phase : Phase} (found : gate.threads[i]? = some phase)
    {after : Phase} {state : UInt32} {a t p c : Nat}
    (admitted : a + phase.isAdmitted.toNat = gate.admitted + after.isAdmitted.toNat)
    (transient : t + phase.isTransient.toNat = gate.transient + after.isTransient.toNat)
    (pending : p + phase.isPending.toNat = gate.pending + after.isPending.toNat)
    (active : c + phase.isActive.toNat = gate.active + after.isActive.toNat)
    (tells : state = word (a + t) (p + 2 * c)) (single : p + c ≤ 1) (exclusive : c = 0 ∨ a = 0) :
    Inv ⟨state, gate.threads.set i after⟩ := by
  obtain rfl := Nat.add_right_cancel (admitted.trans (countP_moved Phase.isAdmitted found after).symm)
  obtain rfl := Nat.add_right_cancel (transient.trans (countP_moved Phase.isTransient found after).symm)
  obtain rfl := Nat.add_right_cancel (pending.trans (countP_moved Phase.isPending found after).symm)
  obtain rfl := Nat.add_right_cancel (active.trans (countP_moved Phase.isActive found after).symm)
  exact ⟨by simpa using inv.few, tells, single, exclusive⟩

/-- A thread moves without touching the word. -/
theorem Inv.still (inv : Inv gate) {i : Nat} {phase : Phase} (found : gate.threads[i]? = some phase)
    {after : Phase} (admitted : after.isAdmitted = phase.isAdmitted)
    (transient : after.isTransient = phase.isTransient) (pending : after.isPending = phase.isPending)
    (active : after.isActive = phase.isActive) : Inv ⟨gate.state, gate.threads.set i after⟩ :=
  inv.moved found (by rw [admitted]) (by rw [transient]) (by rw [pending]) (by rw [active]) inv.state
    inv.single inv.exclusive

theorem counted (p : Phase → Bool) {threads : List Phase} {i : Nat} {phase : Phase}
    (found : threads[i]? = some phase) (is : p phase = true) : 0 < threads.countP p :=
  List.countP_pos_iff.mpr ⟨phase, List.mem_of_getElem? found, is⟩

/-- A reader counts itself in. -/
theorem Inv.increment (inv : Inv gate) {i : Nat} {phase : Phase} (found : gate.threads[i]? = some phase)
    (outside : phase.isAdmitted = false ∧ phase.isTransient = false ∧ phase.isPending = false ∧
      phase.isActive = false) (side : Side) :
    Inv ⟨(increment side gate.state).1, gate.threads.set i (increment side gate.state).2⟩ := by
  obtain ⟨admitted, transient, pending, active⟩ := outside
  have tells : gate.state + 1 = word (gate.admitted + gate.transient + 1) (gate.pending + 2 * gate.active) := by
    rw [inv.state, word_succ]
  unfold InstallGate.increment
  split
  next free =>
    have idle := ((inv.admits side).mp free).1
    refine @Inv.moved _ inv _ _ found _ _ (gate.admitted + 1) gate.transient _ _ (by rw [admitted]; rfl)
      (by rw [transient]; rfl) (by rw [pending]; rfl) (by rw [active]; rfl) ?_ inv.single (.inl idle)
    rw [tells, Nat.add_right_comm]
  next =>
    exact @Inv.moved _ inv _ _ found _ _ gate.admitted (gate.transient + 1) _ _ (by rw [admitted]; rfl)
      (by rw [transient]; rfl) (by rw [pending]; rfl) (by rw [active]; rfl) tells inv.single inv.exclusive

theorem Inv.next (inv : Inv gate) (turn : Turn) : Inv (gate.next turn) := by
  unfold Gate.next
  cases found : gate.threads[turn.thread]? with
  | none => exact inv
  | some phase =>
    have single := inv.single
    cases phase with
    | idle =>
      dsimp only [Phase.step]
      cases turn.start with
      | read => exact inv.increment found ⟨rfl, rfl, rfl, rfl⟩ .plain
      | readRecursive => exact inv.increment found ⟨rfl, rfl, rfl, rfl⟩ .recursive
      | write => exact inv.still found rfl rfl rfl rfl
    | backing side =>
      have inside : 0 < gate.transient := counted _ found rfl
      refine @Inv.moved _ inv _ _ found _ _ gate.admitted (gate.transient - 1) gate.pending gate.active
        rfl (Nat.sub_add_cancel inside) rfl rfl ?_ single inv.exclusive
      rw [inv.state, word_pred (Nat.add_pos_right _ inside), Nat.add_sub_assoc inside]
    | waiting side => dsimp only [Phase.step]; split <;> exact inv.still found rfl rfl rfl rfl
    | retrying side => exact inv.increment found ⟨rfl, rfl, rfl, rfl⟩ side
    | reading side =>
      have inside : 0 < gate.admitted := counted _ found rfl
      refine @Inv.moved _ inv _ _ found _ _ (gate.admitted - 1) gate.transient gate.pending gate.active
        (Nat.sub_add_cancel inside) rfl rfl rfl ?_ single (by have := inv.exclusive; omega)
      rw [inv.state, word_pred (Nat.add_pos_left inside _), Nat.sub_add_comm inside]
    | claiming => dsimp only [Phase.step]; split <;> exact inv.still found rfl rfl rfl rfl
    | claimable => dsimp only [Phase.step]; split <;> exact inv.still found rfl rfl rfl rfl
    | claim seen =>
      dsimp only [Phase.step]
      split
      next same =>
        have free := seen.2
        rw [← same, inv.state, word_and_plain inv.readers (by omega)] at free
        refine @Inv.moved _ inv _ _ found _ _ gate.admitted gate.transient (gate.pending + 1) gate.active
          rfl rfl rfl rfl ?_ (by omega) inv.exclusive
        rw [← same, inv.state, free, word_claim inv.readers, Nat.add_right_comm, free]
      next => exact inv.still found rfl rfl rfl rfl
    | draining => dsimp only [Phase.step]; split <;> exact inv.still found rfl rfl rfl rfl
    | drainable => dsimp only [Phase.step]; split <;> exact inv.still found rfl rfl rfl rfl
    | flip seen =>
      have inside : 0 < gate.pending := counted _ found rfl
      dsimp only [Phase.step]
      split
      next same =>
        -- the pending writer is alone with the word, so the word is the pending bit
        have bits : gate.pending + 2 * gate.active = 1 := by omega
        have empty := congrArg UInt32.toNat seen.2
        rw [← same, inv.state, word_count inv.readers (by omega)] at empty
        have none : gate.admitted + gate.transient = 0 := empty
        refine @Inv.moved _ inv _ _ found _ _ gate.admitted gate.transient 0 1 rfl rfl
          (by simp only [Phase.isPending, Bool.toNat_true, Bool.toNat_false]; omega)
          (by simp only [Phase.isActive, Bool.toNat_true, Bool.toNat_false]; omega) ?_ (by omega)
          (.inr (by omega))
        rw [← same, inv.state, bits, none]
        decide
      next => exact inv.still found rfl rfl rfl rfl
    | writing =>
      have inside : 0 < gate.active := counted _ found rfl
      have bits : gate.pending + 2 * gate.active = 2 := by omega
      refine @Inv.moved _ inv _ _ found _ _ gate.admitted gate.transient 0 0 rfl rfl
        (by simp only [Phase.isPending, Bool.toNat_false]; omega)
        (by simp only [Phase.isActive, Bool.toNat_true, Bool.toNat_false]; omega) ?_ (by omega) (.inl rfl)
      rw [inv.state, bits, word_drop inv.readers]

def Phase.isPlain : Phase → Bool
  | .reading .plain => true
  | _ => false

/-- What the callers of the gate rely on. -/
structure Excludes (gate : Gate) : Prop where
  oneWriter : gate.active ≤ 1
  onePending : gate.pending ≤ 1
  noReader : 0 < gate.active → gate.admitted = 0
  count : (gate.state &&& GATE_COUNT).toNat = gate.admitted + gate.transient
  pendingBit : gate.state &&& GATE_PENDING ≠ 0 ↔ 0 < gate.pending
  activeBit : gate.state &&& GATE_ACTIVE ≠ 0 ↔ 0 < gate.active
  noBorrow : ∀ phase ∈ gate.threads, phase.isAdmitted || phase.isTransient → gate.state &&& GATE_COUNT ≠ 0
  yields : 0 < gate.pending → ∀ turn,
    (gate.next turn).threads.countP Phase.isPlain ≤ gate.threads.countP Phase.isPlain

theorem Inv.refuses (inv : Inv gate) (waits : 0 < gate.pending) (side : Side) :
    (InstallGate.increment side gate.state).2.isPlain = false := by
  unfold InstallGate.increment
  split
  next free =>
    cases side with
    | plain => exact absurd (((inv.admits .plain).mp free).2 rfl) (Nat.ne_of_gt waits)
    | recursive => rfl
  next => rfl

theorem Inv.excludes (inv : Inv gate) : Excludes gate := by
  have single := inv.single
  have count : (gate.state &&& GATE_COUNT).toNat = gate.admitted + gate.transient := by
    rw [inv.state, word_count inv.readers (by omega)]
  refine ⟨by omega, by omega, fun busy => inv.exclusive.resolve_left (by omega), count, ?_, ?_, ?_, ?_⟩
  · rw [inv.state, ne_eq, word_and inv.readers (by omega) (show _ = 2 ^ 30 * 1 from rfl)]
    rcases (by omega : gate.pending = 0 ∧ gate.active = 0 ∨ gate.pending = 1 ∧ gate.active = 0 ∨
      gate.pending = 0 ∧ gate.active = 1) with ⟨p, a⟩ | ⟨p, a⟩ | ⟨p, a⟩ <;> rw [p, a] <;> decide
  · rw [inv.state, ne_eq, word_and_active inv.readers (by omega)]
    omega
  · intro phase member is empty
    rw [empty] at count
    rcases Bool.or_eq_true _ _ |>.mp is with admitted | transient
    · have some : 0 < gate.admitted := List.countP_pos_iff.mpr ⟨phase, member, admitted⟩
      exact absurd count (by simp; omega)
    · have some : 0 < gate.transient := List.countP_pos_iff.mpr ⟨phase, member, transient⟩
      exact absurd count (by simp; omega)
  · intro waits turn
    unfold Gate.next
    cases found : gate.threads[turn.thread]? with
    | none => exact Nat.le_refl _
    | some phase =>
      have moved := countP_moved Phase.isPlain found (phase.step turn.start turn.seen gate.state).2
      have refused : (phase.step turn.start turn.seen gate.state).2.isPlain = false := by
        cases phase with
        | idle =>
          dsimp only [Phase.step]
          cases turn.start with
          | read => exact inv.refuses waits .plain
          | readRecursive => exact inv.refuses waits .recursive
          | write => rfl
        | retrying side => exact inv.refuses waits side
        | backing side | reading side | writing => rfl
        | _ => dsimp only [Phase.step]; split <;> rfl
      rw [refused] at moved
      exact Nat.le_of_add_right_le (Nat.le_of_eq moved)

/-- In every interleaving of the steps of fewer than 2^30 threads, the gate keeps writers
from readers and from each other. -/
theorem gate_excludes {threads : Nat} (few : threads < 2 ^ 30) (turns : List Turn) :
    Excludes (turns.foldl Gate.next (Gate.new threads)) := by
  have every (gate : Gate) (inv : Inv gate) : Inv (turns.foldl Gate.next gate) := by
    induction turns generalizing gate with
    | nil => exact inv
    | cons turn rest ih => exact ih _ (inv.next turn)
  exact (every _ (inv_new few)).excludes

/-- A writer claims and a reader backs out. -/
theorem gate_excludes_contended :
    Excludes ([⟨0, .write, 0⟩, ⟨0, .write, 0⟩, ⟨0, .write, 0⟩, ⟨0, .write, 0⟩, ⟨1, .read, 0⟩].foldl Gate.next
      (Gate.new 2)) :=
  gate_excludes (by decide) _

def Phase.isBusy (phase : Phase) : Bool := phase != .idle

/-- A thread takes its next step, and a load of it sees the word as it is. -/
def Gate.turn (gate : Gate) (thread : Nat) : Gate := gate.next ⟨thread, .read, gate.state⟩

/-- So many steps of one thread while the others stand still. -/
def alone : Nat → UInt32 → Phase → UInt32 × Phase
  | 0, word, phase => (word, phase)
  | steps + 1, word, phase =>
    alone steps (phase.step .read word word).1 (phase.step .read word word).2

theorem turns_alone {i : Nat} (steps : Nat) {gate : Gate} {phase : Phase}
    (found : gate.threads[i]? = some phase) :
    (List.replicate steps i).foldl Gate.turn gate =
      ⟨(alone steps gate.state phase).1, gate.threads.set i (alone steps gate.state phase).2⟩ := by
  induction steps generalizing gate phase with
  | zero =>
    obtain ⟨inside, rfl⟩ := List.getElem?_eq_some_iff.mp found
    simp [alone]
  | succ steps ih =>
    have moved : gate.turn i = ⟨(phase.step .read gate.state gate.state).1,
        gate.threads.set i (phase.step .read gate.state gate.state).2⟩ := by
      simp only [Gate.turn, Gate.next, found]
    have inside := (List.getElem?_eq_some_iff.mp found).1
    rw [List.replicate_succ, List.foldl_cons, ih (by rw [moved]; exact List.getElem?_set_self inside), moved]
    simp [alone]

/-- A pending writer that is alone with the word goes in and out. -/
theorem alone_pending {phase : Phase} (pending : phase.isPending = true) :
    ∃ steps, (alone steps GATE_PENDING phase).2 = .idle := by
  cases phase with
  | draining => exact ⟨4, by decide⟩
  | drainable => exact ⟨3, by decide⟩
  | flip seen =>
    by_cases same : GATE_PENDING = seen.1
    · obtain rfl : seen = ⟨GATE_PENDING, by decide⟩ := Subtype.ext same.symm
      exact ⟨2, by decide⟩
    · refine ⟨5, ?_⟩
      rw [alone, show Phase.step .read _ _ (.flip seen) = (GATE_PENDING, .draining) from if_neg same]
      decide
  | _ => cases pending

/-- A thread goes through a free gate. -/
theorem alone_free {phase : Phase} (outside : phase.isTransient = false) (idle : phase.isPending = false) :
    ∃ steps, (alone steps 0 phase).2 = .idle := by
  cases phase with
  | idle => exact ⟨0, rfl⟩
  | waiting side => exact ⟨3, by cases side <;> decide⟩
  | retrying side => exact ⟨2, by cases side <;> decide⟩
  | claiming => exact ⟨7, by decide⟩
  | claimable => exact ⟨6, by decide⟩
  | claim seen =>
    by_cases same : 0 = seen.1
    · obtain rfl : seen = ⟨0, by decide⟩ := Subtype.ext same.symm
      exact ⟨5, by decide⟩
    · refine ⟨8, ?_⟩
      rw [alone, show Phase.step .read _ _ (.claim seen) = (0, .claiming) from if_neg same]
      decide
  | reading side | writing => exact ⟨1, rfl⟩
  | backing side => cases outside
  | draining | drainable | flip seen => cases idle

def Phase.work (phase : Phase) : Nat := 2 * phase.isBusy.toNat + phase.isTransient.toNat

/-- The threads at work, and those about to back out once more. -/
def Gate.work (gate : Gate) : Nat := 2 * gate.threads.countP Phase.isBusy + gate.transient

/-- A gate at work has a thread whose next steps leave less to do. -/
theorem Inv.progress (inv : Inv gate) (busy : 0 < gate.threads.countP Phase.isBusy) :
    ∃ order : List Nat, (order.foldl Gate.turn gate).work < gate.work := by
  have standing {p : Phase → Bool} (some : 0 < gate.threads.countP p) :
      ∃ (i : Nat) (phase : Phase), gate.threads[i]? = Option.some phase ∧ p phase = true := by
    obtain ⟨phase, member, is⟩ := List.countP_pos_iff.mp some
    obtain ⟨i, there⟩ := List.mem_iff_getElem?.mp member
    exact ⟨i, phase, there, is⟩
  suffices ∃ (i : Nat) (phase : Phase), gate.threads[i]? = some phase ∧ ∃ steps,
      (alone steps gate.state phase).2.work < phase.work by
    obtain ⟨i, phase, there, steps, less⟩ := this
    refine ⟨List.replicate steps i, ?_⟩
    have moved := countP_moved Phase.isBusy there (alone steps gate.state phase).2
    have backed := countP_moved Phase.isTransient there (alone steps gate.state phase).2
    rw [turns_alone steps there]
    unfold Gate.work Gate.transient
    unfold Phase.work at less
    dsimp only
    omega
  by_cases backing : 0 < gate.transient
  · obtain ⟨i, phase, there, is⟩ := standing backing
    cases phase with
    | backing side => exact ⟨i, _, there, 1, show 2 < 3 by decide⟩
    | _ => cases is
  have leaves {phase : Phase} (works : phase.isBusy = true)
      (out : ∃ steps, (alone steps gate.state phase).2 = .idle) :
      ∃ steps, (alone steps gate.state phase).2.work < phase.work := by
    obtain ⟨steps, idle⟩ := out
    refine ⟨steps, ?_⟩
    rw [idle, Phase.work, Phase.work, works]
    exact Nat.lt_add_right _ (by decide)
  by_cases reading : 0 < gate.admitted
  · obtain ⟨i, phase, there, is⟩ := standing reading
    cases phase with
    | reading side => exact ⟨i, _, there, leaves rfl ⟨1, rfl⟩⟩
    | _ => cases is
  by_cases writing : 0 < gate.active
  · obtain ⟨i, phase, there, is⟩ := standing writing
    cases phase with
    | writing => exact ⟨i, _, there, leaves rfl ⟨1, rfl⟩⟩
    | _ => cases is
  -- nobody holds a guard, so the word is at most the pending bit
  have state : gate.state = word 0 gate.pending := by
    rw [inv.state, show gate.admitted + gate.transient = 0 by omega, show gate.active = 0 by omega]
    rfl
  by_cases pending : 0 < gate.pending
  · obtain ⟨i, phase, there, is⟩ := standing pending
    refine ⟨i, phase, there, leaves (by cases phase <;> trivial) ?_⟩
    rw [state, show gate.pending = 1 by have := inv.single; omega]
    exact alone_pending is
  · obtain ⟨i, phase, there, is⟩ := standing busy
    have outside {p : Phase → Bool} (none : ¬ 0 < gate.threads.countP p) : p phase = false :=
      Bool.eq_false_iff.mpr fun holds => none (counted p there holds)
    refine ⟨i, phase, there, leaves is ?_⟩
    rw [state, Nat.eq_zero_of_not_pos pending]
    exact alone_free (outside backing) (outside pending)

theorem Inv.run {Step : Type} {next : Gate → Step → Gate} (turn : Gate → Step → Turn)
    (same : ∀ gate step, next gate step = gate.next (turn gate step)) (steps : List Step)
    (inv : Inv gate) :
    Inv (steps.foldl next gate) ∧ (steps.foldl next gate).threads.length = gate.threads.length := by
  induction steps generalizing gate with
  | nil => exact ⟨inv, rfl⟩
  | cons step rest ih =>
    have kept : (gate.next (turn gate step)).threads.length = gate.threads.length := by
      unfold Gate.next
      split
      · rfl
      · exact List.length_set
    rw [List.foldl_cons, same, ← kept]
    exact ih (inv.next _)

theorem Inv.settles (inv : Inv gate) :
    ∃ order : List Nat, order.foldl Gate.turn gate = Gate.new gate.threads.length := by
  induction work : gate.work using Nat.strong_induction_on generalizing gate with
  | _ work ih =>
    subst work
    by_cases busy : 0 < gate.threads.countP Phase.isBusy
    · obtain ⟨order, less⟩ := inv.progress busy
      obtain ⟨kept, same⟩ : Inv (order.foldl Gate.turn gate) ∧
          (order.foldl Gate.turn gate).threads.length = gate.threads.length := inv.run
        (fun gate thread => ⟨thread, .read, gate.state⟩) (fun _ _ => rfl) order
      obtain ⟨more, settled⟩ := ih _ less kept rfl
      refine ⟨order ++ more, ?_⟩
      rw [List.foldl_append, settled, same]
    · obtain ⟨state, threads⟩ := gate
      have idle : threads = List.replicate threads.length .idle := by
        refine List.eq_replicate_of_mem fun phase member => ?_
        by_contra works
        exact busy (List.countP_pos_iff.mpr ⟨phase, member, by simpa [Phase.isBusy] using works⟩)
      have told := inv.state
      refine ⟨[], ?_⟩
      rw [idle] at told ⊢
      simp only [Gate.admitted, Gate.transient, Gate.pending, Gate.active, List.countP_replicate,
        Phase.isAdmitted, Phase.isTransient, Phase.isPending, Phase.isActive] at told
      exact congrArg₂ Gate.mk told (by simp)

/-- No interleaving leaves the gate stuck: from every state that one reaches, the threads can
take turns after which all of them are through and the gate is new. -/
theorem gate_settles {threads : Nat} (few : threads < 2 ^ 30) (turns : List Turn) :
    ∃ order : List Nat, order.foldl Gate.turn (turns.foldl Gate.next (Gate.new threads)) =
      Gate.new threads := by
  obtain ⟨inv, same⟩ := (inv_new few).run (fun _ turn => turn) (fun _ _ => rfl) turns
  obtain ⟨order, settled⟩ := inv.settles
  refine ⟨order, ?_⟩
  rw [settled, same]
  simp [Gate.new]

/-- A writer that waits for a reader to leave. -/
theorem gate_settles_waiting : ∃ order : List Nat,
    order.foldl Gate.turn ([⟨1, .read, 0⟩, ⟨0, .write, 0⟩, ⟨0, .write, 0⟩, ⟨0, .write, 1⟩,
      ⟨0, .write, 1⟩].foldl Gate.next (Gate.new 2)) = Gate.new 2 :=
  gate_settles (by decide) _

end RustSql.Storage.InstallGate
