import RustSql.Session.GroupEntries

/-! The coalescing of two changes of one row, by their fields. -/

namespace RustSql.Session

open RustSql.Foundation RustSql.Types

/-- The fields a record of a table has. -/
def entryWidth (abPk : List UInt8) (patch : Bool) (op : Op) : Nat :=
  if patch then (if op = .delete then abPk.countP (· ≠ 0) else abPk.length)
  else if op = .update then 2 * abPk.length else abPk.length

/-- The key among the fields of a record. -/
def keyOf (abPk : List UInt8) (patch : Bool) (op : Op) (fields : List Field) : List Field :=
  keyPart (bPkOnlyEntry op patch) abPk fields

/-- The fields of a whole record, with a key that can be hashed. -/
structure Filled (abPk : List UInt8) (patch : Bool) (op : Op) (fields : List Field) : Prop where
  wide : fields.length = entryWidth abPk patch op
  keyable : ∀ field ∈ keyOf abPk patch op fields, Keyable field.1

/-- The fields of a record that reaches as far as its key, which can be hashed. -/
structure Keyed (abPk : List UInt8) (patch : Bool) (op : Op) (fields : List Field) : Prop where
  wide : needed (bPkOnlyEntry op patch) abPk ≤ fields.length
  keyable : ∀ field ∈ keyOf abPk patch op fields, Keyable field.1

/-- Every new key field that is defined is the old one. -/
def KeepsKey (abPk : List UInt8) (old new : List Field) : Prop :=
  ∀ column ∈ columnsOf abPk old new, column.1 ≠ 0 → defined column.2.2.1 = true →
    column.2.2 = column.2.1

/-- The merge of two records of one key: none keeps the first, and no fields drop the entry. -/
def mergedFields (abPk : List UInt8) (patch : Bool) (op1 : Op) (fields1 : List Field) (op2 : Op)
    (fields2 : List Field) : Option (Op × Option (List Field)) :=
  let n := abPk.length
  match op1, op2 with
  | .insert, .insert | .update, .insert | .delete, .update | .delete, .delete => none
  | .insert, .delete => some (.insert, none)
  | .insert, .update =>
    some (.insert, some (overlay fields1 (if patch then fields2 else fields2.drop n)))
  | .delete, .insert =>
    some (.update, if patch then some fields2 else updateFields abPk fields1 fields2)
  | .update, .update =>
    some (.update, if patch then some (overlay fields1 fields2)
      else updateFields abPk (overlay (fields2.take n) (fields1.take n))
        (overlay (fields1.drop n) (fields2.drop n)))
  | .update, .delete =>
    some (.delete, some (if patch then fields2 else overlay fields2 (fields1.take n)))

variable {abPk : List UInt8}

theorem pickKey_append {α : Type} {xs : List α} (wide : abPk.length ≤ xs.length) (ys : List α) :
    pickKey abPk (xs ++ ys) = pickKey abPk xs := by
  induction abPk generalizing xs with
  | nil => rfl
  | cons pk abPk ih =>
    match xs with
    | x :: xs =>
      rw [List.cons_append, pickKey, pickKey, ih (Nat.le_of_succ_le_succ wide)]

theorem pickKey_zipWith {α β γ : Type} (f : α → β → γ) (abPk : List UInt8) (xs : List α)
    (ys : List β) (same : xs.length = ys.length) :
    pickKey abPk (List.zipWith f xs ys) = List.zipWith f (pickKey abPk xs) (pickKey abPk ys) := by
  induction abPk generalizing xs ys with
  | nil => rfl
  | cons pk abPk ih =>
    match xs, ys with
    | [], [] => rfl
    | x :: xs, y :: ys =>
      rw [List.zipWith_cons_cons, pickKey, pickKey, pickKey, ih xs ys (Nat.succ.inj same)]
      split <;> rfl

theorem overlay_self (fields : List Field) : overlay fields fields = fields := by
  induction fields with
  | nil => rfl
  | cons field fields ih =>
    rw [overlay] at ih ⊢
    rw [List.zipWith_cons_cons, ih, ite_self]

/-- Fields with one key are merged to fields with that key. -/
theorem pickKey_overlay {left right : List Field} (same : left.length = right.length)
    (key : pickKey abPk left = pickKey abPk right) :
    pickKey abPk (overlay left right) = pickKey abPk left := by
  have both : pickKey abPk (overlay left right) =
      overlay (pickKey abPk left) (pickKey abPk right) := pickKey_zipWith _ _ _ _ same
  rw [both, ← key, overlay_self]

theorem pickKey_keeps {left right : List Field} (wide : left.length = abPk.length)
    (wide' : right.length = abPk.length) {mine : List Field} (width : mine.length = abPk.length)
    (key : pickKey abPk mine = pickKey abPk left) (keeps : KeepsKey abPk left right) :
    pickKey abPk (overlay mine right) = pickKey abPk mine := by
  induction abPk generalizing left right mine with
  | nil => rfl
  | cons pk abPk ih =>
    match mine, left, right with
    | m :: mine, l :: left, r :: right =>
      have rest : KeepsKey abPk left right := fun column member =>
        keeps column (List.mem_cons_of_mem _ member)
      have first := keeps (pk, l, r) List.mem_cons_self
      rw [pickKey, pickKey] at key
      have overlaid : overlay (m :: mine) (r :: right) =
          (if defined r.1 = true then r else m) :: overlay mine right := rfl
      rw [overlaid, pickKey, pickKey]
      by_cases flag : pk ≠ 0
      · rw [if_pos flag, if_pos flag] at key
        obtain ⟨head, tail⟩ := List.cons.inj key
        rw [if_pos flag, if_pos flag, ih (Nat.succ.inj wide) (Nat.succ.inj wide')
          (Nat.succ.inj width) tail rest]
        congr 1
        split
        next there => exact (first flag there).trans head.symm
        next => rfl
      · rw [if_neg flag, if_neg flag] at key
        rw [if_neg flag, if_neg flag, ih (Nat.succ.inj wide) (Nat.succ.inj wide')
          (Nat.succ.inj width) key rest]

theorem columnsOf_length {old new : List Field} (wide : old.length = abPk.length)
    (wide' : new.length = abPk.length) : (columnsOf abPk old new).length = abPk.length := by
  rw [columnsOf, List.length_zip, List.length_zip, wide, wide', Nat.min_self, Nat.min_self]

theorem oldFields_length {old new : List Field} (wide : old.length = abPk.length)
    (wide' : new.length = abPk.length) : (oldFields abPk old new).length = abPk.length := by
  rw [oldFields, List.length_map, columnsOf_length wide wide']

theorem newFields_length {old new : List Field} (wide : old.length = abPk.length)
    (wide' : new.length = abPk.length) : (newFields abPk old new).length = abPk.length := by
  rw [newFields, List.length_map, columnsOf_length wide wide']

theorem pickKey_oldFields {old new : List Field} (wide : old.length = abPk.length)
    (wide' : new.length = abPk.length) :
    pickKey abPk (oldFields abPk old new) = pickKey abPk old := by
  induction abPk generalizing old new with
  | nil => rfl
  | cons pk abPk ih =>
    match old, new with
    | o :: old, n :: new =>
      have rest := ih (Nat.succ.inj wide) (Nat.succ.inj wide')
      have first : oldFields (pk :: abPk) (o :: old) (n :: new) =
          (if pk ≠ 0 ∨ o ≠ n then o else undefField) :: oldFields abPk old new := rfl
      rw [first, pickKey, pickKey, rest]
      by_cases flag : pk ≠ 0
      · rw [if_pos flag, if_pos flag, if_pos (.inl flag)]
      · rw [if_neg flag, if_neg flag]

theorem needed_le_width (abPk : List UInt8) (patch : Bool) (op : Op) :
    needed (bPkOnlyEntry op patch) abPk ≤ entryWidth abPk patch op := by
  cases patch <;> cases op <;> simp [needed, bPkOnlyEntry, entryWidth]
  omega

theorem keyOf_full {patch : Bool} {op : Op} (fields : List Field)
    (full : bPkOnlyEntry op patch = false) : keyOf abPk patch op fields = pickKey abPk fields := by
  rw [keyOf, full, keyPart_full]

variable {abPk : List UInt8} {patch : Bool}

theorem Filled.halves {fields : List Field} (filled : Filled abPk false .update fields) :
    ∃ old new, fields = old ++ new ∧ old.length = abPk.length ∧ new.length = abPk.length ∧
      fields.take abPk.length = old ∧ fields.drop abPk.length = new := by
  have wide : fields.length = 2 * abPk.length := filled.wide
  refine ⟨fields.take abPk.length, fields.drop abPk.length, (List.take_append_drop _ _).symm, ?_, ?_,
    rfl, rfl⟩
  · rw [List.length_take]
    omega
  · rw [List.length_drop]
    omega

theorem Filled.keyed {op : Op} {fields : List Field} (filled : Filled abPk patch op fields) :
    Keyed abPk patch op fields :=
  ⟨by rw [filled.wide]; exact needed_le_width _ _ _, filled.keyable⟩

/-- Two records of a table are compared by their keys. -/
theorem Keyed.changeEqual {op1 op2 : Op} {fields1 fields2 : List Field}
    (first : Keyed abPk patch op1 fields1) (second : Keyed abPk patch op2 fields2) :
    changeEqual (bPkOnlyEntry op1 patch) (bPkOnlyEntry op2 patch) abPk (recordOf fields1)
        (recordOf fields2) =
      .ok (decide ((keyOf abPk patch op1 fields1).map Subtype.val =
        (keyOf abPk patch op2 fields2).map Subtype.val)) := by
  have compared := changeEqual_fields first.wide second.wide [] []
  rwa [List.append_nil, List.append_nil] at compared

theorem Keyed.recordPkHash {op : Op} {fields : List Field} (keyed : Keyed abPk patch op fields)
    (nBucket : Nat) :
    recordPkHash abPk (recordOf fields) (bPkOnlyEntry op patch) nBucket =
      bucketOf (keyHash 0 ((keyOf abPk patch op fields).map Subtype.val)) nBucket := by
  have hashed := recordPkHashFrom_part keyed.wide keyed.keyable [] 0
  rw [List.append_nil] at hashed
  rw [Session.recordPkHash, hashed, Checked.ok_bind]
  rfl

theorem Filled.keyFields {op : Op} {fields : List Field} (filled : Filled abPk patch op fields) :
    keyFields (bPkOnlyEntry op patch) abPk (recordOf fields) =
      .ok ((keyOf abPk patch op fields).map Subtype.val) := by
  have read := @keyFields_part (bPkOnlyEntry op patch) abPk fields
    (by rw [filled.wide]; exact needed_le_width _ _ _) []
  rwa [List.append_nil] at read

/-- The code merges the fields. -/
theorem changeMerge_fields {op1 op2 : Op} {fields1 fields2 : List Field}
    (first : Filled abPk patch op1 fields1) (second : Filled abPk patch op2 fields2)
    (indirect1 indirect2 : Bool) :
    ∃ indirect, changeMerge abPk abPk.length false patch ⟨op1, indirect1, recordOf fields1⟩ op2
        indirect2 (recordOf fields2) =
      .ok ((mergedFields abPk patch op1 fields1 op2 fields2).map fun merged =>
        (merged.1, indirect, merged.2.map recordOf)) := by
  have wide := first.wide
  have wide' := second.wide
  have all : abPk.take abPk.length = abPk := List.take_length
  unfold changeMerge mergedFields
  cases op1 <;> cases op2 <;> cases patch
  case insert.insert.false | insert.insert.true | insert.delete.false | insert.delete.true |
    delete.delete.false | delete.delete.true | delete.update.false | delete.update.true |
    update.insert.false | update.insert.true => exact ⟨false, rfl⟩
  case insert.update.false =>
    obtain ⟨old, new, rfl, old_wide, new_wide, _, dropped⟩ := second.halves
    have half := @newHalf_fields abPk.length old new old_wide []
    have merged := @mergeRecord_fields abPk.length fields1 new wide new_wide [] []
    rw [List.append_nil, List.append_nil] at half merged
    exact ⟨_, by simp only [Bool.false_eq_true, if_false, half, Checked.ok_bind, merged, dropped]; rfl⟩
  case insert.update.true =>
    have merged := @mergeRecord_fields abPk.length fields1 fields2 wide wide' [] []
    rw [List.append_nil, List.append_nil] at merged
    exact ⟨_, by
      simp only [Bool.false_eq_true, if_false, newHalf, if_true, Checked.ok_bind, merged]; rfl⟩
  case delete.insert.false =>
    have merged := @mergeUpdate_fields abPk none none fields1 fields2 wide wide' (by simp) (by simp) [] []
    rw [List.append_nil, List.append_nil] at merged
    simp only [Option.map_none] at merged
    exact ⟨_, by
      simp only [Bool.false_eq_true, if_false, all, merged, Checked.ok_bind, overlayWith]; rfl⟩
  case delete.insert.true => exact ⟨_, rfl⟩
  case update.update.false =>
    obtain ⟨old1, new1, rfl, old1_wide, new1_wide, taken1, dropped1⟩ := first.halves
    obtain ⟨old2, new2, rfl, old2_wide, new2_wide, taken2, dropped2⟩ := second.halves
    have half1 := @newHalf_fields abPk.length old1 new1 old1_wide []
    have half2 := @newHalf_fields abPk.length old2 new2 old2_wide []
    have merged := @mergeUpdate_fields abPk (some (old1, recordOf new1))
      (some (new2, [])) old2 new1 old2_wide new1_wide (fun r same => by cases same; exact old1_wide)
      (fun r same => by cases same; exact new2_wide) (recordOf new2) []
    rw [List.append_nil] at half1 half2 merged
    simp only [List.append_nil, Option.map_some, ← recordOf_append] at half1 half2 merged
    exact ⟨_, by
      simp only [Bool.false_eq_true, if_false, half1, half2, Checked.ok_bind, all, merged, taken1,
        taken2, dropped1, dropped2, overlayWith]
      rfl⟩
  case update.update.true =>
    have merged := @mergeUpdate_patch abPk (some (fields1, [])) (some (fields2, [])) fields2 fields1
      wide' wide (fun r same => by cases same; exact wide)
      (fun r same => by cases same; exact wide') [] []
    simp only [List.append_nil, Option.map_some] at merged
    exact ⟨_, by
      simp only [Bool.false_eq_true, if_false, newHalf, if_true, Checked.ok_bind, all, merged,
        overlayWith]
      rfl⟩
  case update.delete.false =>
    obtain ⟨old, new, rfl, old_wide, new_wide, taken, _⟩ := first.halves
    have merged := @mergeRecord_fields abPk.length fields2 old wide' old_wide [] (recordOf new)
    rw [List.append_nil, ← recordOf_append] at merged
    exact ⟨_, by simp only [Bool.false_eq_true, if_false, merged, Checked.ok_bind, taken]; rfl⟩
  case update.delete.true => exact ⟨_, rfl⟩

/-- A merged record is whole and has the key of the two. -/
theorem mergedFields_filled {op1 op2 op : Op} {fields1 fields2 fields : List Field}
    (first : Filled abPk patch op1 fields1) (second : Filled abPk patch op2 fields2)
    (same : keyOf abPk patch op1 fields1 = keyOf abPk patch op2 fields2)
    (keeps : patch = false → op1 = .insert → op2 = .update →
      KeepsKey abPk (fields2.take abPk.length) (fields2.drop abPk.length))
    (merged : mergedFields abPk patch op1 fields1 op2 fields2 = some (op, some fields)) :
    Filled abPk patch op fields ∧ keyOf abPk patch op fields = keyOf abPk patch op1 fields1 := by
  have whole : ∀ {op fields}, fields.length = entryWidth abPk patch op →
      keyOf abPk patch op fields = keyOf abPk patch op1 fields1 →
      Filled abPk patch op fields ∧ keyOf abPk patch op fields = keyOf abPk patch op1 fields1 :=
    fun wide key => ⟨⟨wide, by rw [key]; exact first.keyable⟩, key⟩
  have wide := first.wide
  have wide' := second.wide
  unfold mergedFields at merged
  cases op1 <;> cases op2 <;> cases patch <;>
    simp only [reduceCtorEq, Option.some.injEq, Prod.mk.injEq, Bool.false_eq_true, if_false, if_true,
      and_false] at merged
  case insert.update.false =>
    obtain ⟨rfl, rfl⟩ := merged
    obtain ⟨old, new, rfl, old_wide, new_wide, taken, dropped⟩ := second.halves
    rw [taken, dropped] at keeps
    rw [dropped]
    apply whole
    · exact (overlay_length ((wide : fields1.length = abPk.length).trans new_wide.symm)).trans wide
    · rw [keyOf_full _ rfl, keyOf_full _ rfl] at same ⊢
      rw [pickKey_append old_wide.ge] at same
      exact pickKey_keeps old_wide new_wide wide same (keeps rfl rfl rfl)
  case insert.update.true =>
    obtain ⟨rfl, rfl⟩ := merged
    apply whole
    · exact (overlay_length ((wide : fields1.length = abPk.length).trans wide'.symm)).trans wide
    · rw [keyOf_full _ rfl, keyOf_full _ rfl] at same ⊢
      exact pickKey_overlay ((wide : fields1.length = abPk.length).trans wide'.symm) same
  case delete.insert.false =>
    obtain ⟨rfl, updated⟩ := merged
    unfold updateFields at updated
    split at updated
    · cases updated
      apply whole
      · rw [List.length_append, oldFields_length wide wide', newFields_length wide wide']
        simp only [entryWidth, Bool.false_eq_true, if_false, if_true]
        omega
      · rw [keyOf_full _ rfl, keyOf_full _ rfl, pickKey_append (oldFields_length wide wide').ge,
          pickKey_oldFields wide wide']
    · cases updated
  case delete.insert.true =>
    obtain ⟨rfl, rfl⟩ := merged
    apply whole
    · exact wide'
    · exact same.symm
  case update.update.false =>
    obtain ⟨rfl, updated⟩ := merged
    obtain ⟨old1, new1, rfl, old1_wide, new1_wide, taken1, dropped1⟩ := first.halves
    obtain ⟨old2, new2, rfl, old2_wide, new2_wide, taken2, dropped2⟩ := second.halves
    rw [taken1, dropped1, taken2, dropped2] at updated
    have olds := (overlay_length (old2_wide.trans old1_wide.symm)).trans old2_wide
    have news := (overlay_length (new1_wide.trans new2_wide.symm)).trans new1_wide
    rw [keyOf_full _ rfl, keyOf_full _ rfl, pickKey_append old1_wide.ge,
      pickKey_append old2_wide.ge] at same
    unfold updateFields at updated
    split at updated
    · cases updated
      apply whole
      · rw [List.length_append, oldFields_length olds news, newFields_length olds news]
        simp only [entryWidth, Bool.false_eq_true, if_false, if_true]
        omega
      · rw [keyOf_full _ rfl, keyOf_full _ rfl, pickKey_append (oldFields_length olds news).ge,
          pickKey_oldFields olds news, pickKey_append old1_wide.ge,
          pickKey_overlay (old2_wide.trans old1_wide.symm) same.symm, same]
    · cases updated
  case update.update.true =>
    obtain ⟨rfl, rfl⟩ := merged
    apply whole
    · exact (overlay_length ((wide : fields1.length = abPk.length).trans wide'.symm)).trans wide
    · rw [keyOf_full _ rfl, keyOf_full _ rfl] at same ⊢
      exact pickKey_overlay ((wide : fields1.length = abPk.length).trans wide'.symm) same
  case update.delete.false =>
    obtain ⟨rfl, rfl⟩ := merged
    obtain ⟨old, new, rfl, old_wide, new_wide, taken, _⟩ := first.halves
    rw [taken]
    apply whole
    · exact (overlay_length ((wide' : fields2.length = abPk.length).trans old_wide.symm)).trans wide'
    · rw [keyOf_full _ rfl, keyOf_full _ rfl, pickKey_append old_wide.ge] at same ⊢
      rw [pickKey_overlay ((wide' : fields2.length = abPk.length).trans old_wide.symm) same.symm,
        same]
  case update.delete.true =>
    obtain ⟨rfl, rfl⟩ := merged
    apply whole
    · exact wide'
    · exact same.symm

end RustSql.Session
