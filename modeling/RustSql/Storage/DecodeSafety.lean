import RustSql.Storage.WalkOrder

/-! Which payloads a decoder gets through without a panic. -/

namespace RustSql.Storage.RowCodec

open RustSql.Foundation RustSql.Types

/-- The bytes of a slice, which never are more than `isize::MAX`. -/
abbrev Payload := { bytes : List UInt8 // bytes.length < 2 ^ 63 }

/-- The decoded lengths and the skipped positions that a walk for the wanted columns meets. -/
def ReadsFit (trusted : Bool) (buf : List UInt8) (rowidAlias : Option Nat) (wanted : List Nat) :
    Nat → Nat → Nat → Prop
  | 0, _, _ => True
  | left + 1, col, pos => (∃ target ∈ wanted, col ≤ target) →
    if rowidAlias = some col then
      (col ∈ wanted → buf[pos]? = some rowidMarker) →
        ReadsFit trusted buf rowidAlias wanted left (col + 1) (pos + 1)
    else if col ∈ wanted then
      (∀ s ∈ claimed (buf.drop pos), s ≤ 2 ^ 64) ∧ ∀ s ∈ stored trusted (buf.drop pos),
        ReadsFit trusted buf rowidAlias wanted left (col + 1) (pos + s)
    else ∀ s ∈ claimed (buf.drop pos), pos + s < 2 ^ 64 ∧
      ReadsFit trusted buf rowidAlias wanted left (col + 1) (pos + s)

/-- The columns at which a walk over any list stops: those above all before them. -/
def peaks : Nat → List Nat → List Nat
  | _, [] => []
  | col, target :: rest =>
    if target < col then peaks col rest else target :: peaks (target + 1) rest

/-- The positions that a walk over whole regions meets. -/
def RegionsFit (payload : List UInt8) (rowidAlias : Option Nat) : Nat → Nat → Nat → Prop
  | 0, _, _ => True
  | left + 1, col, pos =>
    if rowidAlias = some col then
      payload[pos]? = some rowidMarker → RegionsFit payload rowidAlias left (col + 1) (pos + 1)
    else ∀ s ∈ claimed (payload.drop pos), pos + s < 2 ^ 64 ∧
      RegionsFit payload rowidAlias left (col + 1) (pos + s)

/-- The positions that a walk up to a total meets. -/
def SpansFit (bytes : List UInt8) (total : Nat) : Nat → Nat → Prop
  | 0, _ => True
  | left + 1, pos => pos < total → ∀ s ∈ claimed (bytes.drop pos), pos + s < 2 ^ 64 ∧
      SpansFit bytes total left (pos + s)

/-- The positions of a probe, which have to be inside. -/
def ProbeFits (payload : List UInt8) : Nat → Nat → Prop
  | 0, _ => True
  | left + 1, off => off ≤ payload.length ∧
      ∀ s ∈ claimed (payload.drop off), off + s < 2 ^ 64 ∧ ProbeFits payload left (off + s)

section Past

variable {trusted : Bool} {buf : List UInt8} {rowidAlias : Option Nat} {wanted : List Nat}

theorem readsFit_past {left col pos : Nat} (past : buf.length ≤ pos) :
    ReadsFit trusted buf rowidAlias wanted left col pos := by
  induction left generalizing col pos with
  | zero => trivial
  | succ left ih =>
    have empty : buf.drop pos = [] := List.drop_eq_nil_of_le past
    intro _
    rw [empty]
    split
    · exact fun _ => ih (Nat.le_succ_of_le past)
    · split
      · exact ⟨nofun, nofun⟩
      · exact nofun

theorem regionsFit_past {left col pos : Nat} (past : buf.length ≤ pos) :
    RegionsFit buf rowidAlias left col pos := by
  cases left with
  | zero => trivial
  | succ left =>
    rw [RegionsFit, List.drop_eq_nil_of_le past, List.getElem?_eq_none past]
    split <;> exact nofun

end Past

section Front

variable {trusted : Bool} {buf : List UInt8} {pos : Nat}

theorem drop_bounded (bounded : buf.length < 2 ^ 63) : (buf.drop pos).length < 2 ^ 63 := by
  rw [List.length_drop]
  omega

theorem decodeAt_eq_ok (bounded : buf.length < 2 ^ 63) {v : Value} {next : Nat}
    (decoded : decodeAt trusted buf pos = .ok (v, next)) :
    ∃ s, stored trusted (buf.drop pos) = some s ∧ next = pos + s := by
  obtain ⟨bytes, suffix, decoded⟩ := Checked.bind_ok_iff.mp decoded
  obtain ⟨_, rfl⟩ := Checked.sliceFrom_eq_ok.mp suffix
  obtain ⟨⟨w, n⟩, read, decoded⟩ := Checked.bind_ok_iff.mp decoded
  obtain ⟨_, added, decoded⟩ := Checked.bind_ok_iff.mp decoded
  obtain ⟨_, rfl⟩ := Checked.add_eq_ok.mp added
  cases decoded
  exact ⟨n, decodeWithTrust_stored (drop_bounded bounded) (Checked.mapError_eq_ok.mp read), rfl⟩

theorem decodeAt_ok (bounded : buf.length < 2 ^ 63) (inside : pos ≤ buf.length) {v : Value}
    {s : Nat} (decoded : decodeWithTrust trusted (buf.drop pos) = .ok (v, s)) :
    decodeAt trusted buf pos = .ok (v, pos + s) := by
  have found := decodeWithTrust_stored (drop_bounded bounded) decoded
  obtain ⟨_, short, _⟩ := stored_eq_some.mp found
  rw [List.length_drop] at short
  unfold decodeAt
  rw [Checked.sliceFrom_ok inside, Checked.ok_bind, decoded]
  simp only [Checked.mapError, Checked.ok_bind]
  rw [Checked.add_ok (by omega)]
  rfl

theorem safe_decodeAt (bounded : buf.length < 2 ^ 63) (inside : pos ≤ buf.length) :
    Checked.Safe (decodeAt trusted buf pos) ↔ ∀ s ∈ claimed (buf.drop pos), s ≤ 2 ^ 64 := by
  rw [← @safe_decodeWithTrust _ trusted (drop_bounded bounded)]
  unfold decodeAt
  rw [Checked.sliceFrom_ok inside, Checked.ok_bind, Checked.safe_bind, Checked.safe_mapError]
  refine and_iff_left fun ⟨v, n⟩ read => ?_
  have found := decodeWithTrust_stored (drop_bounded bounded) (Checked.mapError_eq_ok.mp read)
  obtain ⟨_, short, _⟩ := stored_eq_some.mp found
  rw [List.length_drop] at short
  rw [Checked.safe_bind, Checked.safe_add]
  exact ⟨by omega, fun _ _ => .ok _⟩

theorem skipAt_eq_ok (bounded : buf.length < 2 ^ 63) (inside : pos ≤ buf.length) {next : Nat} :
    skipAt buf pos = .ok next ↔
      ∃ s, claimed (buf.drop pos) = some s ∧ pos + s < 2 ^ 64 ∧ next = pos + s := by
  unfold skipAt
  rw [Checked.sliceFrom_ok inside, Checked.ok_bind, Checked.bind_ok_iff]
  constructor
  · rintro ⟨s, skipped, added⟩
    obtain ⟨found, _⟩ := (valueEncodedLen_eq_ok (drop_bounded bounded)).mp skipped
    obtain ⟨fits, rfl⟩ := Checked.add_eq_ok.mp added
    exact ⟨s, found, fits, rfl⟩
  · rintro ⟨s, found, fits, rfl⟩
    exact ⟨s, (valueEncodedLen_eq_ok (drop_bounded bounded)).mpr ⟨found, by omega⟩,
      Checked.add_ok fits⟩

theorem safe_skipAt (bounded : buf.length < 2 ^ 63) (inside : pos ≤ buf.length) :
    Checked.Safe (skipAt buf pos) ↔ ∀ s ∈ claimed (buf.drop pos), pos + s < 2 ^ 64 := by
  unfold skipAt
  rw [Checked.sliceFrom_ok inside, Checked.ok_bind, Checked.safe_bind,
    safe_valueEncodedLen (drop_bounded bounded)]
  simp only [Checked.safe_add, valueEncodedLen_eq_ok (drop_bounded bounded)]
  constructor
  · rintro ⟨small, added⟩ s found
    exact added s ⟨found, small s found⟩
  · intro fits
    exact ⟨fun s found => by have := fits s found; omega, fun s found => fits s found.1⟩

end Front

/-- A walk that skips a value and goes on. -/
theorem safe_skip_walk {buf : List UInt8} (bounded : buf.length < 2 ^ 63) {pos : Nat}
    (inside : pos ≤ buf.length) {β : Type} {next : Nat → Checked String β} {fits : Nat → Prop}
    (walk : ∀ s, claimed (buf.drop pos) = some s → (Checked.Safe (next (pos + s)) ↔ fits s)) :
    Checked.Safe (skipAt buf pos >>= next) ↔
      ∀ s ∈ claimed (buf.drop pos), pos + s < 2 ^ 64 ∧ fits s := by
  rw [Checked.safe_bind, safe_skipAt bounded inside]
  simp only [skipAt_eq_ok bounded inside]
  constructor
  · rintro ⟨small, later⟩ s found
    exact ⟨small s found, (walk s found).mp (later _ ⟨s, found, small s found, rfl⟩)⟩
  · intro all
    refine ⟨fun s found => (all s found).1, ?_⟩
    rintro _ ⟨s, found, _, rfl⟩
    exact (walk s found).mpr (all s found).2

/-- A walk that decodes a value and goes on. -/
theorem safe_decode_walk {trusted : Bool} {buf : List UInt8} (bounded : buf.length < 2 ^ 63)
    {pos : Nat} (inside : pos ≤ buf.length) {β : Type} {next : Value × Nat → Checked String β}
    {fits : Nat → Prop}
    (walk : ∀ v s, stored trusted (buf.drop pos) = some s →
      (Checked.Safe (next (v, pos + s)) ↔ fits s)) :
    Checked.Safe (decodeAt trusted buf pos >>= next) ↔
      (∀ s ∈ claimed (buf.drop pos), s ≤ 2 ^ 64) ∧
        ∀ s ∈ stored trusted (buf.drop pos), fits s := by
  rw [Checked.safe_bind, safe_decodeAt bounded inside]
  refine and_congr_right fun _ => ⟨fun later s found => ?_, fun all pair decoded => ?_⟩
  · obtain ⟨v, decoded⟩ := stored_decodes (drop_bounded bounded) found
    exact (walk v s found).mp (later _ (decodeAt_ok bounded inside decoded))
  · obtain ⟨v, next⟩ := pair
    obtain ⟨s, found, rfl⟩ := decodeAt_eq_ok bounded decoded
    exact (walk v s found).mpr (all s found)

section Walks

variable {trusted : Bool} {buf : List UInt8} {rowid : Int64} {rowidAlias : Option Nat}

theorem markerAt_eq_ok {pos : Nat} : markerAt buf pos = .ok () ↔ buf[pos]? = some rowidMarker := by
  unfold markerAt
  rw [Checked.bind_ok_iff]
  constructor
  · rintro ⟨b, found, marked⟩
    split at marked
    next same => exact same ▸ Checked.get_eq_ok.mp found
    next => cases marked
  · intro found
    exact ⟨rowidMarker, Checked.get_eq_ok.mpr found, if_pos rfl⟩

theorem safe_markerAt {pos : Nat} (inside : pos < buf.length) :
    Checked.Safe (markerAt buf pos) := by
  unfold markerAt
  rw [Checked.safe_bind]
  refine ⟨Checked.safe_get.mpr inside, fun b _ => ?_⟩
  split
  · exact .ok _
  · exact .reported _

theorem safe_marker_walk {pos : Nat} (inside : pos < buf.length) {β : Type}
    {next : Unit → Checked String β} {fits : Prop} (walk : Checked.Safe (next ()) ↔ fits) :
    Checked.Safe (markerAt buf pos >>= next) ↔ (buf[pos]? = some rowidMarker → fits) := by
  rw [Checked.safe_bind]
  constructor
  · rintro ⟨_, later⟩ marked
    exact walk.mp (later () (markerAt_eq_ok.mpr marked))
  · intro fits
    exact ⟨safe_markerAt inside, fun _ marked => walk.mpr (fits (markerAt_eq_ok.mp marked))⟩

theorem safe_decodeValues (bounded : buf.length < 2 ^ 63) {nCols left col pos : Nat}
    (columns : col + left = nCols) :
    Checked.Safe (decodeValues trusted buf left pos) ↔
      ReadsFit trusted buf none (List.range nCols) left col pos := by
  induction left generalizing col pos with
  | zero => exact iff_of_true (.ok _) trivial
  | succ left ih =>
    rw [decodeValues]
    split
    next inside =>
      have here : col ∈ List.range nCols := List.mem_range.mpr (by omega)
      have wanted : ∃ target ∈ List.range nCols, col ≤ target := ⟨col, here, Nat.le_refl _⟩
      rw [ReadsFit, forall_prop_of_true wanted, if_neg nofun, if_pos here]
      refine safe_decode_walk bounded inside.le fun v s _ => ?_
      rw [Checked.safe_bind]
      exact (and_iff_left fun _ _ => .ok _).trans (ih (by omega))
    next past => exact iff_of_true (.ok _) (readsFit_past (Nat.le_of_not_lt past))

/-- The pending columns are the wanted ones from a column on. -/
structure Pending {n : Nat} (wanted : List Nat) (col : Nat) (pending : List (Wanted n)) :
    Prop where
  sorted : Sorted pending
  sound : ∀ want ∈ pending, want.1 ∈ wanted
  complete : ∀ target ∈ wanted, col ≤ target → ∃ want ∈ pending, want.1 = target

namespace Pending

variable {n : Nat} {wanted : List Nat} {col : Nat} {pending : List (Wanted n)}

theorem keep (these : Pending wanted col pending) {col' : Nat} (later : col ≤ col')
    {test : Wanted n → Bool} (kept : ∀ want, col' ≤ want.1 → test want = true) :
    Pending wanted col' (pending.filter test) where
  sorted := these.sorted.sublist List.filter_sublist
  sound want member := these.sound want (List.mem_filter.mp member).1
  complete target member above := by
    obtain ⟨want, there, rfl⟩ := these.complete target member (later.trans above)
    exact ⟨want, List.mem_filter.mpr ⟨there, kept want above⟩, rfl⟩

/-- What is left at a column. -/
theorem from_column (these : Pending wanted col pending) :
    Pending wanted col (pending.filter fun want => decide (col ≤ want.1)) :=
  these.keep (Nat.le_refl _) fun _ above => decide_eq_true above

theorem mem_iff (these : Pending wanted col pending) {want : Wanted n} {rest : List (Wanted n)}
    (least : pending = want :: rest) (above : col ≤ want.1) : col ∈ wanted ↔ col = want.1 := by
  constructor
  · intro member
    obtain ⟨other, there, same⟩ := these.complete col member (Nat.le_refl _)
    have sorted := these.sorted
    rw [least] at there sorted
    rcases List.mem_cons.mp there with rfl | later
    · exact same.symm
    · have order := (List.pairwise_cons.mp sorted).1 other later
      omega
  · rintro rfl
    exact these.sound want (least ▸ List.mem_cons_self)

end Pending

theorem safe_selectiveColumns (bounded : buf.length < 2 ^ 63) {n : Nat} {wanted : List Nat}
    {left col pos : Nat} {pending : List (Wanted n)} {out : Fin n → Value}
    (these : Pending wanted col pending) :
    Checked.Safe (selectiveColumns trusted buf rowid rowidAlias left col pos pending out) ↔
      ReadsFit trusted buf rowidAlias wanted left col pos := by
  induction left generalizing col pos pending out with
  | zero => exact iff_of_true (.ok _) trivial
  | succ left ih =>
    rw [selectiveColumns]
    split
    next inside =>
      have left_here := these.from_column
      rw [these.sorted.from_column]
      split
      next nothing =>
        refine iff_of_true (.ok _) ?_
        rintro ⟨target, member, above⟩
        obtain ⟨want, there, _⟩ := left_here.complete target member above
        rw [nothing] at there
        cases there
      next want rest some =>
        have least : ∀ other ∈ want :: rest, col ≤ other.1 := fun other member => by
          rw [← some] at member
          exact of_decide_eq_true (List.mem_filter.mp member).2
        rw [some] at left_here
        have above := least want List.mem_cons_self
        have wants : ∃ target ∈ wanted, col ≤ target :=
          ⟨want.1, left_here.sound want List.mem_cons_self, above⟩
        have here := left_here.mem_iff rfl above
        have skipped : col ≠ want.1 → Pending wanted (col + 1) (want :: rest) := fun other => by
          refine ⟨left_here.sorted, left_here.sound, fun target member later => ?_⟩
          exact left_here.complete target member (Nat.le_of_succ_le later)
        rw [ReadsFit, forall_prop_of_true wants]
        by_cases same : col = want.1
        · have after : Pending wanted (col + 1)
              ((want :: rest).dropWhile fun want => want.1 == col) := by
            rw [left_here.sorted.after_run least]
            exact left_here.keep (Nat.le_succ _) fun want above => bne_iff_ne.mpr (by omega)
          rw [if_pos same]
          by_cases marked : rowidAlias = Option.some col
          · rw [if_pos marked, if_pos marked]
            refine (safe_marker_walk inside (ih after)).trans ?_
            exact ⟨fun fits marker => fits (marker (here.mpr same)), fun fits marker =>
              fits fun _ => marker⟩
          · rw [if_neg marked, if_neg marked, if_pos (here.mpr same)]
            exact safe_decode_walk bounded inside.le fun v s _ => ih after
        · have absent : col ∉ wanted := fun member => same (here.mp member)
          rw [if_neg same]
          by_cases marked : rowidAlias = Option.some col
          · rw [if_pos marked, if_pos marked, ih (skipped same)]
            exact ⟨fun fits _ => fits, fun fits => fits fun member => absurd member absent⟩
          · rw [if_neg marked, if_neg marked, if_neg absent]
            exact safe_skip_walk bounded inside.le fun s _ => ih (skipped same)
    next past => exact iff_of_true (.ok _) (readsFit_past (Nat.le_of_not_lt past))

theorem le_of_mem_peaks {col target : Nat} {wanted : List Nat}
    (member : target ∈ peaks col wanted) : col ≤ target := by
  induction wanted generalizing col with
  | nil => cases member
  | cons first rest ih =>
    rw [peaks] at member
    split at member
    · exact ih member
    · rcases List.mem_cons.mp member with rfl | later
      · omega
      · have := ih later
        omega

theorem peaks_dropWhile (col : Nat) (wanted : List Nat) :
    peaks col (wanted.dropWhile fun target => decide (target < col)) = peaks col wanted := by
  induction wanted with
  | nil => rfl
  | cons first rest ih =>
    by_cases below : first < col
    · rw [List.dropWhile_cons, if_pos (decide_eq_true below), ih, peaks, if_pos below]
    · rw [List.dropWhile_cons, if_neg (by simpa using below)]

theorem safe_wideColumns (bounded : buf.length < 2 ^ 63) {stops : List Nat} {left col pos : Nat}
    {wanted : List Nat} {out : Nat → Value}
    (these : ∀ target, col ≤ target → (target ∈ stops ↔ target ∈ peaks col wanted)) :
    Checked.Safe (wideColumns trusted buf rowid rowidAlias left col pos wanted out) ↔
      ReadsFit trusted buf rowidAlias stops left col pos := by
  induction left generalizing col pos wanted out with
  | zero => exact iff_of_true (.ok _) trivial
  | succ left ih =>
    rw [wideColumns]
    split
    next inside =>
      rw [← peaks_dropWhile] at these
      have from_column : ∀ target ∈ (wanted.dropWhile fun target => decide (target < col)).head?,
          col ≤ target := fun target first => by
        have kept := List.head?_dropWhile_not (fun target => decide (target < col)) wanted
        rw [first] at kept
        simpa using kept
      split
      next nothing =>
        refine iff_of_true (.ok _) ?_
        rintro ⟨target, member, above⟩
        rw [nothing] at these
        cases (these target above).mp member
      next target rest some =>
        rw [some] at these from_column
        have above : col ≤ target := from_column target rfl
        have next : peaks col (target :: rest) = target :: peaks (target + 1) rest := by
          rw [peaks, if_neg (Nat.not_lt.mpr above)]
        rw [next] at these
        have wants : ∃ target ∈ stops, col ≤ target :=
          ⟨target, (these target above).mpr List.mem_cons_self, above⟩
        have here : col ∈ stops ↔ col = target := by
          rw [these col (Nat.le_refl _), List.mem_cons, or_iff_left]
          intro later
          have := le_of_mem_peaks later
          omega
        rw [ReadsFit, forall_prop_of_true wants]
        by_cases same : col = target
        · subst same
          have after : ∀ target, col + 1 ≤ target →
              (target ∈ stops ↔ target ∈ peaks (col + 1) rest) := fun other later => by
            rw [these other (Nat.le_of_succ_le later), List.mem_cons, or_iff_right (by omega)]
          rw [if_pos rfl]
          by_cases marked : rowidAlias = Option.some col
          · rw [if_pos marked, if_pos marked]
            refine (safe_marker_walk inside (ih after)).trans ?_
            exact ⟨fun fits marker => fits (marker (here.mpr rfl)), fun fits marker =>
              fits fun _ => marker⟩
          · rw [if_neg marked, if_neg marked, if_pos (here.mpr rfl)]
            exact safe_decode_walk bounded inside.le fun v s _ => ih after
        · have absent : col ∉ stops := fun member => same (here.mp member)
          have skipped : ∀ other, col + 1 ≤ other →
              (other ∈ stops ↔ other ∈ peaks (col + 1) (target :: rest)) := fun other later => by
            rw [these other (Nat.le_of_succ_le later), peaks, if_neg (by omega)]
          rw [if_neg same]
          by_cases marked : rowidAlias = Option.some col
          · rw [if_pos marked, if_pos marked, ih skipped]
            exact ⟨fun fits _ => fits, fun fits => fits fun member => absurd member absent⟩
          · rw [if_neg marked, if_neg marked, if_neg absent]
            exact safe_skip_walk bounded inside.le fun s _ => ih skipped
    next past => exact iff_of_true (.ok _) (readsFit_past (Nat.le_of_not_lt past))

end Walks

section Layouts

variable {payload : List UInt8} {rowidAlias : Option Nat}

theorem safe_columnRegions (bounded : payload.length < 2 ^ 63) {left col pos : Nat} :
    Checked.Safe (columnRegions payload rowidAlias left col pos) ↔
      RegionsFit payload rowidAlias left col pos := by
  induction left generalizing col pos with
  | zero => exact iff_of_true (.ok _) trivial
  | succ left ih =>
    rw [columnRegions]
    split
    next inside =>
      rw [RegionsFit]
      by_cases marked : rowidAlias = some col
      · rw [if_pos marked, if_pos marked, Checked.safe_bind, Checked.safe_get,
          and_iff_right inside]
        simp only [Checked.get_eq_ok]
        rw [← @ih (col + 1) (pos + 1)]
        constructor
        · intro later marker
          have walk := later _ marker
          rw [if_pos rfl, Checked.safe_bind] at walk
          exact walk.1
        · intro walk b found
          split
          next same =>
            rw [Checked.safe_bind]
            exact ⟨walk (same ▸ found), fun _ _ => .ok _⟩
          next => exact .ok _
      · have suffix := @drop_bounded _ pos bounded
        have skips := valueEncodedLen_skips suffix
        rw [if_neg marked, if_neg marked, Checked.sliceFrom_ok inside.le, Checked.ok_bind]
        generalize valueEncodedLen (payload.drop pos) = outcome at skips
        cases skips with
        | beyond found outside =>
          refine iff_of_false Checked.not_safe_overflow fun fits => ?_
          have := (fits _ found).1
          omega
        | refused missing =>
          refine iff_of_true (.ok _) fun s some => ?_
          cases missing.symm.trans some
        | @size s found small =>
          simp only [Checked.attempt, Checked.ok_bind]
          have only : (∀ t ∈ claimed (payload.drop pos), pos + t < 2 ^ 64 ∧
              RegionsFit payload rowidAlias left (col + 1) (pos + t)) ↔
              pos + s < 2 ^ 64 ∧ RegionsFit payload rowidAlias left (col + 1) (pos + s) := by
            constructor
            · exact fun fits => fits s found
            · intro fits t other
              cases found.symm.trans other
              exact fits
          rw [only, Checked.safe_bind, Checked.safe_add]
          refine and_congr_right fun fits => ?_
          simp only [Checked.add_eq_ok, fits, true_and, forall_eq']
          split
          next past => exact iff_of_true (.ok _) (regionsFit_past past.le)
          next => rw [Checked.safe_bind, ← ih, and_iff_left fun _ _ => .ok _]
    next past => exact iff_of_true (.ok _) (regionsFit_past (Nat.le_of_not_lt past))

theorem spanHeader_claimed (tag : UInt8) (rest : List UInt8) :
    (∃ hdr body, spanHeader tag rest = .ok (hdr, body) ∧ hdr ≤ rest.length ∧
      claimed (tag :: rest) = some (1 + hdr + body)) ∨
    (∃ message, spanHeader tag rest = Checked.fail (.corrupt message) ∧
      claimed (tag :: rest) = none) := by
  unfold spanHeader
  split
  case h_9 kind =>
    have claims : claimed (tag :: rest) = (uvarint rest).map fun read => 1 + read.2 := by
      simp [claimed, kind]
    rcases found : uvarint rest with _ | ⟨z, n⟩
    · obtain ⟨message, failed⟩ := readUvarint_of_none found
      exact .inr ⟨_, by rw [failed]; rfl, by rw [claims, found]; rfl⟩
    · refine .inl ⟨n, 0, ?_, (uvarint_bounds found).2.1, by rw [claims, found]; rfl⟩
      rw [readUvarint_of_some found]
      rfl
  case h_10 kind | h_11 kind | h_12 kind =>
    have claims : claimed (tag :: rest) = (uvarint rest).map fun read => 1 + read.2 + read.1 := by
      simp [claimed, kind]
    rcases found : uvarint rest with _ | ⟨len, n⟩
    · obtain ⟨message, failed⟩ := readUvarint_of_none found
      exact .inr ⟨_, by rw [failed]; rfl, by rw [claims, found]; rfl⟩
    · refine .inl ⟨n, len, ?_, (uvarint_bounds found).2.1, by rw [claims, found]; rfl⟩
      rw [readUvarint_of_some found]
      rfl
  case h_13 => exact .inr ⟨_, rfl, by simp [claimed, *]⟩
  all_goals exact .inl ⟨0, _, rfl, Nat.zero_le _, by simp [claimed, *]⟩

variable {bytes : List UInt8}

theorem columnSpans_past {total left pos : Nat} (past : total ≤ pos) :
    columnSpans bytes total left pos = .ok (List.replicate left none) := by
  induction left with
  | zero => rfl
  | succ left ih =>
    rw [columnSpans, if_pos past, ih]
    rfl

theorem safe_columnSpans (bounded : bytes.length < 2 ^ 63) {total left pos : Nat} :
    Checked.Safe (columnSpans bytes total left pos) ↔ SpansFit bytes total left pos := by
  induction left generalizing pos with
  | zero => exact iff_of_true (.ok _) trivial
  | succ left ih =>
    by_cases past : total ≤ pos
    · rw [columnSpans_past past]
      exact iff_of_true (.ok _) fun before => absurd before (Nat.not_lt.mpr past)
    rw [columnSpans, if_neg past, SpansFit, forall_prop_of_true (Nat.lt_of_not_le past)]
    split
    next cut =>
      refine iff_of_true (.reported _) ?_
      rw [List.drop_eq_nil_of_le cut]
      exact nofun
    next cut =>
      have inside : pos < bytes.length := Nat.lt_of_not_le cut
      have split : bytes.drop pos = bytes[pos] :: bytes.drop (pos + 1) :=
        List.drop_eq_getElem_cons inside
      have tag : @Checked.get LazyError _ bytes pos = .ok bytes[pos] :=
        Checked.get_eq_ok.mpr (List.getElem?_eq_getElem inside)
      rw [tag, Checked.ok_bind, Checked.sliceFrom_ok inside, Checked.ok_bind, split]
      rcases spanHeader_claimed bytes[pos] (bytes.drop (pos + 1)) with
        ⟨hdr, body, header, short, claims⟩ | ⟨message, failed, claims⟩
      · rw [List.length_drop] at short
        simp only [header, Checked.ok_bind, claims, Option.mem_some_iff, forall_eq']
        rw [if_neg (by omega), Checked.safe_bind, Checked.safe_add]
        constructor
        · rintro ⟨size, later⟩
          have walk := later _ (Checked.add_ok size)
          rw [Checked.safe_bind, Checked.safe_add] at walk
          refine ⟨walk.1, ih.mp ?_⟩
          have spans := walk.2 _ (Checked.add_ok walk.1)
          rw [Checked.safe_bind] at spans
          exact spans.1
        · rintro ⟨fits, walk⟩
          refine ⟨by omega, fun len added => ?_⟩
          obtain ⟨_, rfl⟩ := Checked.add_eq_ok.mp added
          rw [Checked.safe_bind, Checked.safe_add]
          refine ⟨fits, fun next added => ?_⟩
          obtain ⟨_, rfl⟩ := Checked.add_eq_ok.mp added
          rw [Checked.safe_bind]
          exact ⟨ih.mpr walk, fun _ _ => .ok _⟩
      · rw [failed, claims]
        exact iff_of_true (.reported _) nofun

theorem safe_encodedSpan (bounded : bytes.length < 2 ^ 63) :
    Checked.Safe (encodedSpan bytes) ↔ ∀ s ∈ claimed bytes, s < 2 ^ 64 := by
  rw [encodedSpan_eq, Checked.safe_mapError, safe_valueEncodedLen bounded]

theorem encodedSpan_eq_ok (bounded : bytes.length < 2 ^ 63) {s : Nat} :
    encodedSpan bytes = .ok s ↔ claimed bytes = some s ∧ s < 2 ^ 64 := by
  rw [encodedSpan_eq, Checked.mapError_eq_ok, valueEncodedLen_eq_ok bounded]

/-- A probe that adds a span and goes on. -/
theorem safe_span_walk (bounded : payload.length < 2 ^ 63) {off : Nat} {β : Type}
    {next : Nat → Checked Unit β} {fits : Nat → Prop}
    (walk : ∀ s, Checked.Safe (next (off + s)) ↔ fits s) :
    Checked.Safe (encodedSpan (payload.drop off) >>= fun span =>
        Checked.add off span >>= next) ↔
      ∀ s ∈ claimed (payload.drop off), off + s < 2 ^ 64 ∧ fits s := by
  have suffix := @drop_bounded _ off bounded
  rw [Checked.safe_bind, safe_encodedSpan suffix]
  simp only [encodedSpan_eq_ok suffix, Checked.safe_bind, Checked.safe_add, Checked.add_eq_ok]
  constructor
  · rintro ⟨small, later⟩ s found
    obtain ⟨inside, walks⟩ := later s ⟨found, small s found⟩
    exact ⟨inside, (walk s).mp (walks _ ⟨inside, rfl⟩)⟩
  · intro all
    refine ⟨fun s found => by have := (all s found).1; omega, fun s found => ?_⟩
    refine ⟨(all s found.1).1, ?_⟩
    rintro _ ⟨_, rfl⟩
    exact (walk s).mpr (all s found.1).2

theorem safe_probeStart (bounded : payload.length < 2 ^ 63) {left off : Nat} :
    Checked.Safe (probeStart payload left off) ↔ ProbeFits payload left off := by
  induction left generalizing off with
  | zero => exact iff_of_true (.ok _) trivial
  | succ left ih =>
    rw [probeStart, ProbeFits, ← safe_span_walk bounded (fun s => @ih (off + s)),
      Checked.safe_bind, Checked.safe_sliceFrom]
    refine and_congr_right fun inside => ?_
    simp only [Checked.sliceFrom_eq_ok, inside, true_and, forall_eq']

theorem safe_textStart (bounded : payload.length < 2 ^ 63) {left off : Nat} :
    Checked.Safe (textStart payload left off) ↔ SpansFit payload payload.length left off := by
  induction left generalizing off with
  | zero => exact iff_of_true (.ok _) trivial
  | succ left ih =>
    rw [textStart, SpansFit, getFrom]
    by_cases inside : off < payload.length
    · rw [if_pos inside.le, forall_prop_of_true inside, Checked.ok_bind]
      exact safe_span_walk bounded fun s => ih
    · refine iff_of_true ?_ fun before => absurd before inside
      split
      · rw [List.drop_eq_nil_of_le (Nat.le_of_not_lt inside)]
        exact .reported _
      · exact .reported _

theorem safe_getRange {start stop : Nat} : Checked.Safe (getRange payload start stop) := by
  unfold getRange
  split
  · exact .ok _
  · exact .reported _

theorem safe_readInt {start n : Nat} (inside : start + n < 2 ^ 64) :
    Checked.Safe (readInt payload start n) := by
  unfold readInt
  rw [Checked.add_ok inside, Checked.ok_bind, Checked.safe_bind]
  exact ⟨safe_getRange, fun _ _ => .ok _⟩

theorem safe_readUvarint : Checked.Safe (readUvarint bytes) := by
  unfold readUvarint
  split
  · exact .ok _
  · exact .reported _

theorem safe_probeIntColumn (bounded : payload.length < 2 ^ 63) {col : Nat} {rowid : Int64} :
    Checked.Safe (probeIntColumn payload col rowid rowidAlias) ↔
      rowidAlias = some col ∨ ProbeFits payload col 0 := by
  unfold probeIntColumn
  by_cases marked : rowidAlias = some col
  · rw [if_pos marked]
    exact iff_of_true (.ok _) (.inl marked)
  rw [if_neg marked, or_iff_right marked, Checked.safe_bind, safe_probeStart bounded]
  refine and_iff_left fun off _ => ?_
  split
  · exact .reported _
  next tag found =>
    obtain ⟨inside, _⟩ := List.getElem?_eq_some_iff.mp found
    rw [Checked.add_ok (by omega), Checked.ok_bind, probeNumber]
    split
    case h_1 => exact .ok _
    case h_2 | h_3 | h_4 | h_5 => exact safe_readInt (by omega)
    case h_6 =>
      rw [Checked.add_ok (by omega), Checked.ok_bind, Checked.safe_bind]
      exact ⟨safe_getRange, fun _ _ => .ok _⟩
    case h_7 =>
      rw [Checked.sliceFrom_ok inside, Checked.ok_bind, Checked.safe_bind, Checked.safe_mapError]
      exact ⟨safe_readUvarint, fun _ _ => .ok _⟩
    case h_8 => exact .reported _

theorem safe_probeTextColumn (bounded : payload.length < 2 ^ 63) {col : Nat} :
    Checked.Safe (probeTextColumn payload col rowidAlias) ↔
      rowidAlias = some col ∨ SpansFit payload payload.length col 0 := by
  unfold probeTextColumn
  by_cases marked : rowidAlias = some col
  · rw [if_pos marked]
    exact iff_of_true (.reported _) (.inl marked)
  rw [if_neg marked, or_iff_right marked, Checked.safe_bind, safe_textStart bounded]
  refine and_iff_left fun off _ => ?_
  split
  · exact .reported _
  next tag found =>
    obtain ⟨inside, _⟩ := List.getElem?_eq_some_iff.mp found
    split
    · exact .reported _
    · have behind : off + 1 ≤ payload.length := inside
      rw [Checked.add_ok (by omega), Checked.ok_bind, getFrom, if_pos behind, Checked.ok_bind]
      rcases header : uvarint (payload.drop (off + 1)) with _ | ⟨len, n⟩
      · obtain ⟨message, failed⟩ := readUvarint_of_none header
        rw [failed]
        exact .reported _
      · have short := (uvarint_bounds header).2.1
        rw [List.length_drop] at short
        rw [readUvarint_of_some header]
        simp only [Checked.mapError, Checked.ok_bind]
        rw [Checked.add_ok (by omega), Checked.ok_bind]
        split
        · exact .reported _
        · exact safe_getRange

end Layouts

theorem safe_decodeRow {trusted : Bool} (payload : Payload) {nCols : Nat} {rowid : Int64}
    {rowidAlias : Option Nat} :
    Checked.Safe (decodeRow trusted payload.1 nCols rowid rowidAlias) ↔
      ReadsFit trusted payload.1 none (List.range nCols) nCols 0 0 := by
  unfold decodeRow
  rw [Checked.safe_bind, safe_decodeValues payload.2 (Nat.zero_add nCols)]
  exact and_iff_left fun _ _ => .ok _

theorem safe_decodeRowSelective {unstable : UnstableSort} {trusted : Bool} (payload : Payload)
    {nColsTotal : Nat} {colIndices : List Nat} {rowid : Int64} {rowidAlias : Option Nat}
    {out : List Value} :
    Checked.Safe (decodeRowSelective unstable trusted payload.1 nColsTotal colIndices rowid
        rowidAlias out) ↔
      ReadsFit trusted payload.1 rowidAlias colIndices nColsTotal 0 0 := by
  unfold decodeRowSelective
  split
  next empty =>
    cases List.length_eq_zero_iff.mp empty
    refine iff_of_true (.ok _) ?_
    cases nColsTotal with
    | zero => trivial
    | succ nColsTotal => exact fun ⟨_, member, _⟩ => absurd member List.not_mem_nil
  next =>
    have these : Pending colIndices 0 (walkOrder unstable colIndices) := by
      refine ⟨walkOrder_sorted _ _, fun want member => ?_, fun target member _ => ?_⟩
      · rw [mem_walkOrder.mp member]
        exact List.get_mem _ _
      · obtain ⟨slot, rfl⟩ := List.mem_iff_get.mp member
        exact ⟨(_, slot), mem_walkOrder.mpr rfl, rfl⟩
    unfold decodeSelectiveWalk
    rw [Checked.safe_bind, Checked.safe_bind, safe_selectiveColumns payload.2 these]
    exact (and_iff_left fun _ _ => .ok _).trans (and_iff_left fun _ _ => .ok _)

theorem safe_decodeRowSelectiveWide {trusted : Bool} (payload : Payload) {nColsTotal : Nat}
    {wanted : List Nat} {rowid : Int64} {rowidAlias : Option Nat} :
    Checked.Safe (decodeRowSelectiveWide trusted payload.1 nColsTotal wanted rowid rowidAlias) ↔
      ReadsFit trusted payload.1 rowidAlias (peaks 0 wanted) nColsTotal 0 0 := by
  unfold decodeRowSelectiveWide
  rw [Checked.safe_bind, safe_wideColumns payload.2 fun _ _ => Iff.rfl]
  exact and_iff_left fun _ _ => .ok _

/-- A text of the largest length. -/
def hugeText : List UInt8 := [7, 255, 255, 255, 255, 255, 255, 255, 255, 255, 1]

end RustSql.Storage.RowCodec
