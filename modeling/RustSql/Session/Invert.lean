import RustSql.Session.ReadBack
import RustSql.Session.RowApply

/-! Inversion of a changeset: inserts and deletes change places, updates swap their records. -/

namespace RustSql.Session

open RustSql.Foundation RustSql.Types

structure InvertState where
  pos : Nat
  nCol : Nat
  abPk : List Bool

/-- The old record of an inverted update: the key stays, the other columns are the new ones. -/
def swapOld {α : Type} (abPk : List Bool) (old new : List α) : List α :=
  List.zipWith (fun pk column => if pk then column.1 else column.2) abPk (old.zip new)

/-- The new record of an inverted update: the old columns without the key. -/
def swapNew {α : Type} (undef : α) (abPk : List Bool) (old : List α) : List α :=
  List.zipWith (fun pk column => if pk then undef else column) abPk old

/-- So many fields from a position on are skipped. -/
def skipFields (cs : List UInt8) : Nat → Nat → Checked String Nat
  | 0, pos => .ok pos
  | n + 1, pos => do
    let l ← serialLen (cs.drop pos)
    let next ← Checked.add pos l
    if cs.length < next then Checked.fail corruptChangeset else skipFields cs n next

/-- A table header, from its first byte on: it is copied through. -/
def invertHeader (cs : List UInt8) (pos : Nat) : Checked String (List UInt8 × InvertState) := do
  let (nCol, used) := getVarint (cs.drop (pos + 1))
  let flags := pos + 1 + used
  if nCol = 0 then Checked.fail corruptChangeset
  else
    let name ← Checked.add flags nCol
    if cs.length < name then Checked.fail corruptChangeset
    else
      let abPk ← Checked.sliceRange cs flags name
      match (cs.drop name).findIdx? (· = 0) with
      | none => Checked.fail corruptChangeset
      | some nameEnd =>
        let hdrEnd := name + (nameEnd + 1)
        let header ← Checked.sliceRange cs pos hdrEnd
        .ok (header, ⟨hdrEnd, nCol, abPk.map (· != 0)⟩)

/-- A record that changes its kind. -/
def invertRecord (cs : List UInt8) (st : InvertState) (flipped : Op) :
    Checked String (List UInt8 × InvertState) := do
  let indirect ← Checked.get cs (st.pos + 1)
  let stop ← skipFields cs st.nCol (st.pos + 2)
  let record ← Checked.sliceRange cs (st.pos + 2) stop
  .ok (flipped.code :: indirect :: record, { st with pos := stop })

/-- The two records of an update; each is written again, field by field. -/
def invertUpdate (cs : List UInt8) (st : InvertState) :
    Checked String (List UInt8 × InvertState) := do
  let indirect ← Checked.get cs (st.pos + 1)
  let (old, oldLen) ← parseRecord cs (st.pos + 2) st.nCol
  let (new, newLen) ← parseRecord cs (st.pos + 2 + oldLen) st.nCol
  .ok (Op.update.code :: indirect :: ((swapOld st.abPk old new).flatMap written ++
    (swapNew .undef st.abPk old).flatMap written), { st with pos := st.pos + 2 + oldLen + newLen })

/-- One turn of the loop, at the byte of a header or of a change. -/
def invertStep (cs : List UInt8) (st : InvertState) (e : UInt8) :
    Checked String (List UInt8 × InvertState) :=
  if e = 0x54 then invertHeader cs st.pos
  else
    match Op.ofCode e with
    | some .insert => invertRecord cs st .delete
    | some .delete => invertRecord cs st .insert
    | some .update => invertUpdate cs st
    | none => Checked.fail corruptChangeset

theorem skipFields_pos {cs : List UInt8} {n pos stop : Nat} (done : skipFields cs n pos = .ok stop) :
    pos ≤ stop := by
  induction n generalizing pos with
  | zero =>
    cases done
    exact Nat.le_refl _
  | succ n ih =>
    obtain ⟨l, _, done⟩ := Checked.bind_ok_iff.mp done
    obtain ⟨next, added, done⟩ := Checked.bind_ok_iff.mp done
    obtain ⟨_, rfl⟩ := Checked.add_eq_ok.mp added
    split at done
    · cases done
    · exact (Nat.le_add_right _ _).trans (ih done)

theorem invertStep_pos {cs : List UInt8} {st st' : InvertState} {e : UInt8} {out : List UInt8}
    (done : invertStep cs st e = .ok (out, st')) : st.pos < st'.pos := by
  have record {flipped : Op} (done : invertRecord cs st flipped = .ok (out, st')) :
      st.pos < st'.pos := by
    obtain ⟨_, _, done⟩ := Checked.bind_ok_iff.mp done
    obtain ⟨stop, skipped, done⟩ := Checked.bind_ok_iff.mp done
    obtain ⟨_, _, done⟩ := Checked.bind_ok_iff.mp done
    cases done
    exact Nat.lt_of_lt_of_le (by omega) (skipFields_pos skipped)
  unfold invertStep at done
  split at done
  · unfold invertHeader at done
    simp only at done
    split at done
    · cases done
    · obtain ⟨name, added, done⟩ := Checked.bind_ok_iff.mp done
      obtain ⟨_, rfl⟩ := Checked.add_eq_ok.mp added
      split at done
      · cases done
      · obtain ⟨_, _, done⟩ := Checked.bind_ok_iff.mp done
        split at done
        · cases done
        · obtain ⟨_, _, done⟩ := Checked.bind_ok_iff.mp done
          cases done
          dsimp only
          omega
  · split at done
    · exact record done
    · exact record done
    · obtain ⟨_, _, done⟩ := Checked.bind_ok_iff.mp done
      obtain ⟨_, _, done⟩ := Checked.bind_ok_iff.mp done
      obtain ⟨_, _, done⟩ := Checked.bind_ok_iff.mp done
      cases done
      dsimp only
      omega
    · cases done

def invertFrom (cs : List UInt8) (st : InvertState) : Checked String (List UInt8) :=
  if inside : st.pos < cs.length then
    match _read : invertStep cs st cs[st.pos] with
    | .error fault => .error fault
    | .ok (out, st') => do
      let rest ← invertFrom cs st'
      .ok (out ++ rest)
  else .ok []
termination_by cs.length - st.pos
decreasing_by
  have later := invertStep_pos _read
  omega

/-- `invert`. -/
def invert (cs : List UInt8) : Checked String (List UInt8) := invertFrom cs ⟨0, 0, []⟩

/-- The length in front of a text or a blob is in its shortest form. -/
def Canonical (field : Field) : Prop :=
  ∀ e header payload, field.1 = e :: (header ++ payload) → e = typeText ∨ e = typeBlob →
    Header header payload.length → header = putVarint payload.length

structure FlatChange where
  op : Op
  indirect : UInt8
  fields : List Field

structure FlatTable where
  name : Name
  abPk : List UInt8
  changes : List FlatChange

def FlatChange.bytes (c : FlatChange) : List UInt8 :=
  c.op.code :: c.indirect :: recordOf c.fields

namespace FlatTable

/-- The table as a header names it. -/
def head (t : FlatTable) : GroupTable := ⟨t.name, t.abPk.length, t.abPk, false, .empty, 0⟩

def bytes (t : FlatTable) : List UInt8 :=
  ChangeGroup.headerBytes t.head ++ t.changes.flatMap FlatChange.bytes

/-- A table with a header that can be read, and with sound changes of canonical fields. -/
structure WellFormed (t : FlatTable) : Prop where
  headed : ChangesetIter.Headed t.name t.abPk.length t.abPk
  sound : ∀ c ∈ t.changes, Sound t.abPk (c.op, c.fields)
  canonical : ∀ c ∈ t.changes, ∀ field ∈ c.fields, Canonical field

end FlatTable

def changesetBytes (tables : List FlatTable) : List UInt8 := tables.flatMap FlatTable.bytes

def keyFlags (abPk : List UInt8) : List Bool := abPk.map (· != 0)

namespace FlatChange

def inverse (abPk : List UInt8) (c : FlatChange) : FlatChange :=
  match c.op with
  | .insert => { c with op := .delete }
  | .delete => { c with op := .insert }
  | .update =>
    let old := c.fields.take abPk.length
    { c with fields := swapOld (keyFlags abPk) old (c.fields.drop abPk.length) ++
      swapNew undefField (keyFlags abPk) old }

end FlatChange

def FlatTable.inverse (t : FlatTable) : FlatTable :=
  { t with changes := t.changes.map (FlatChange.inverse t.abPk) }

section Columns

variable {α : Type} {abPk : List UInt8}

theorem swapOld_cons (pk : UInt8) (o n : α) (old new : List α) :
    swapOld (keyFlags (pk :: abPk)) (o :: old) (n :: new) =
      (if pk ≠ 0 then o else n) :: swapOld (keyFlags abPk) old new := by
  by_cases key : pk = 0 <;> simp [swapOld, keyFlags, key]

theorem swapNew_cons (undef : α) (pk : UInt8) (o : α) (old : List α) :
    swapNew undef (keyFlags (pk :: abPk)) (o :: old) =
      (if pk ≠ 0 then undef else o) :: swapNew undef (keyFlags abPk) old := by
  by_cases key : pk = 0 <;> simp [swapNew, keyFlags, key]

theorem swapOld_map {β : Type} (f : α → β) (flags : List Bool) (old new : List α) :
    swapOld flags (old.map f) (new.map f) = (swapOld flags old new).map f := by
  induction flags generalizing old new with
  | nil => rfl
  | cons pk flags ih =>
    match old, new with
    | [], _ => rfl
    | _ :: _, [] => rfl
    | o :: old, n :: new =>
      have rest := ih old new
      simp only [swapOld, List.map_cons, List.zip_cons_cons, List.zipWith_cons_cons] at rest ⊢
      rw [rest]
      cases pk <;> rfl

theorem swapNew_map {β : Type} (f : α → β) (undef : α) (flags : List Bool) (old : List α) :
    swapNew (f undef) flags (old.map f) = (swapNew undef flags old).map f := by
  induction flags generalizing old with
  | nil => rfl
  | cons pk flags ih =>
    match old with
    | [] => rfl
    | o :: old =>
      have rest := ih old
      simp only [swapNew, List.map_cons, List.zipWith_cons_cons] at rest ⊢
      rw [rest]
      cases pk <;> rfl

end Columns

variable {abPk : List UInt8} {old new row : List Field}

theorem SoundColumns.widths (sound : SoundColumns abPk old new) :
    old.length = abPk.length ∧ new.length = abPk.length := by
  induction abPk generalizing old new with
  | nil =>
    match old, new, sound with
    | [], [], _ => exact ⟨rfl, rfl⟩
  | cons pk abPk ih =>
    match old, new, sound with
    | o :: old, n :: new, ⟨_, rest⟩ =>
      obtain ⟨olds, news⟩ := ih rest
      exact ⟨congrArg Nat.succ olds, congrArg Nat.succ news⟩

/-- The columns of an inverted update are sound, as wide, and inverted again the first ones. -/
theorem SoundColumns.inverse (sound : SoundColumns abPk old new) :
    SoundColumns abPk (swapOld (keyFlags abPk) old new) (swapNew undefField (keyFlags abPk) old) ∧
      swapOld (keyFlags abPk) (swapOld (keyFlags abPk) old new)
        (swapNew undefField (keyFlags abPk) old) = old ∧
      swapNew undefField (keyFlags abPk) (swapOld (keyFlags abPk) old new) = new ∧
      (recordOf (swapOld (keyFlags abPk) old new)).length +
        (recordOf (swapNew undefField (keyFlags abPk) old)).length =
          (recordOf old).length + (recordOf new).length := by
  induction abPk generalizing old new with
  | nil =>
    match old, new, sound with
    | [], [], _ => exact ⟨trivial, rfl, rfl, rfl⟩
  | cons pk abPk ih =>
    match old, new, sound with
    | o :: old, n :: new, ⟨column, rest⟩ =>
      obtain ⟨again, olds, news, length⟩ := ih rest
      simp only [swapOld_cons, swapNew_cons, olds, news, recordOf_cons, List.length_append]
      by_cases key : pk ≠ 0
      · rw [if_pos key] at column
        simp only [if_pos key]
        rw [undefined_eq column.2]
        exact ⟨⟨by rw [if_pos key]; exact ⟨column.1, rfl⟩, again⟩, trivial, rfl, by omega⟩
      · rw [if_neg key] at column
        simp only [if_neg key]
        exact ⟨⟨by rw [if_neg key]; exact column.symm, again⟩, trivial, trivial, by omega⟩

/-- An inverted update leads back. -/
theorem SoundColumns.undo (sound : SoundColumns abPk old new) (agree : agrees old row = true) :
    agrees (swapOld (keyFlags abPk) old new) (overlay row new) = true ∧
      overlay (overlay row new) (swapNew undefField (keyFlags abPk) old) = row := by
  induction abPk generalizing old new row with
  | nil =>
    match old, new, row, sound, agree with
    | [], [], [], _, _ => exact ⟨rfl, rfl⟩
  | cons pk abPk ih =>
    match old, new, row, sound, agree with
    | o :: old, n :: new, r :: row, ⟨column, rest⟩, agree =>
      rw [agrees, Bool.and_eq_true] at agree
      obtain ⟨agree', back⟩ := ih rest agree.2
      have here := agree.1
      rw [swapOld_cons, swapNew_cons, overlay_cons, overlay_cons, agrees, agree', back, Bool.and_true]
      by_cases key : pk ≠ 0
      · rw [if_pos key] at column
        rw [if_pos key, if_pos key, column.2, defined_undefField]
        exact ⟨here, rfl⟩
      · rw [if_neg key] at column
        rw [if_neg key, if_neg key, ← column]
        by_cases there : defined o.1 = true
        · rw [there, Bool.not_true, Bool.false_or, beq_iff_eq] at here
          rw [there, here]
          simp
        · rw [Bool.not_eq_true] at there
          rw [there]
          simp

end RustSql.Session
