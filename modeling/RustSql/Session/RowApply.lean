import RustSql.Session.GroupKept

/-! What changes do to rows, and that combined changes do what the two do one after the other. -/

namespace RustSql.Session

open RustSql.Foundation RustSql.Types

abbrev Row := List Field

/-- Every defined field is the one of the row. -/
def agrees : List Field → Row → Bool
  | [], [] => true
  | o :: old, r :: row => (!defined o.1 || o == r) && agrees old row
  | _, _ => false

/-- A change of one row: an insert needs no row, and the others need one that agrees with their old
fields. -/
def rowApply (n : Nat) : Option Body → Option Row → Option (Option Row)
  | none, row => some row
  | some (.insert, fields), none => some (some fields)
  | some (.delete, fields), some row => if agrees fields row then some none else none
  | some (.update, fields), some row =>
    if agrees (fields.take n) row then some (some (overlay row (fields.drop n))) else none
  | _, _ => none

/-- The columns of an update: the key has its old fields only, and the other columns both or none. -/
def SoundColumns : List UInt8 → List Field → List Field → Prop
  | [], [], [] => True
  | pk :: abPk, o :: old, n :: new =>
    (if pk ≠ 0 then defined o.1 = true ∧ defined n.1 = false else defined o.1 = defined n.1) ∧
      SoundColumns abPk old new
  | _, _, _ => False

/-- The fields a change of each kind has. -/
def Sound (abPk : List UInt8) : Body → Prop
  | (.update, fields) =>
    fields.length = 2 * abPk.length ∧
      SoundColumns abPk (fields.take abPk.length) (fields.drop abPk.length)
  | (_, fields) => fields.length = abPk.length ∧ ∀ field ∈ fields, defined field.1 = true

theorem undefined_eq {field : Field} (undefined : defined field.1 = false) : field = undefField := by
  obtain ⟨bytes, shape⟩ := field
  have first : bytes.headD 0 = typeUndef := by
    simpa only [defined, bne_eq_false_iff_eq] using undefined
  cases shape with
  | bare kind =>
    rw [List.headD_cons] at first
    subst first
    rfl
  | word kind eight =>
    rw [List.headD_cons] at first
    subst first
    rcases kind with bad | bad <;> exact absurd bad (by decide)
  | sized kind headed fits =>
    rw [List.headD_cons] at first
    subst first
    rcases kind with bad | bad <;> exact absurd bad (by decide)

theorem defined_undefField : defined undefField.1 = false := rfl

/-- A full record agrees with its own row only. -/
theorem agrees_full {old row : List Field} (full : ∀ field ∈ old, defined field.1 = true) :
    agrees old row = true ↔ old = row := by
  induction old generalizing row with
  | nil => cases row <;> simp [agrees]
  | cons o old ih =>
    cases row with
    | nil => simp [agrees]
    | cons r row =>
      rw [agrees, full o List.mem_cons_self, Bool.not_true, Bool.false_or, Bool.and_eq_true,
        beq_iff_eq, ih fun field member => full field (List.mem_cons_of_mem _ member),
        List.cons.injEq]

theorem overlay_cons (l r : Field) (left right : List Field) :
    overlay (l :: left) (r :: right) = (if defined r.1 then r else l) :: overlay left right := rfl

/-- The old and new fields of a merge lead from a row to another: where neither is defined, and in
the key, the row stays. -/
def Carries : List UInt8 → List Field → List Field → Row → Row → Prop
  | [], [], [], [], [] => True
  | pk :: abPk, o :: old, n :: new, r :: row, r' :: row' =>
    (if pk ≠ 0 then defined o.1 = true ∧ o = r ∧ r' = r
      else (defined o.1 = true ∧ defined n.1 = true ∧ o = r ∧ n = r') ∨
        (defined o.1 = false ∧ o = n ∧ r' = r)) ∧
      Carries abPk old new row row'
  | _, _, _, _, _ => False

variable {abPk : List UInt8}

variable {old new row row' : List Field}

/-- What a merged update does. -/
theorem Carries.update (carries : Carries abPk old new row row') :
    agrees (oldFields abPk old new) row = true ∧ overlay row (newFields abPk old new) = row' ∧
      SoundColumns abPk (oldFields abPk old new) (newFields abPk old new) := by
  induction abPk generalizing old new row row' with
  | nil =>
    match old, new, row, row', carries with
    | [], [], [], [], _ => exact ⟨rfl, rfl, trivial⟩
  | cons pk abPk ih =>
    match old, new, row, row', carries with
    | o :: old, n :: new, r :: row, r' :: row', ⟨column, rest⟩ =>
      obtain ⟨agree, result, sound⟩ := ih rest
      have olds : oldFields (pk :: abPk) (o :: old) (n :: new) =
          (if pk ≠ 0 ∨ o ≠ n then o else undefField) :: oldFields abPk old new := rfl
      have news : newFields (pk :: abPk) (o :: old) (n :: new) =
          (if pk ≠ 0 ∨ o = n then undefField else n) :: newFields abPk old new := rfl
      rw [olds, news, agrees, overlay_cons, result, agree, Bool.and_true, SoundColumns]
      by_cases key : pk ≠ 0
      · rw [if_pos key] at column
        obtain ⟨there, rfl, rfl⟩ := column
        have stays : pk ≠ 0 ∨ r' = n := .inl key
        have kept : pk ≠ 0 ∨ r' ≠ n := .inl key
        rw [if_pos kept, if_pos stays, if_pos key, defined_undefField]
        exact ⟨by simp, rfl, ⟨there, rfl⟩, sound⟩
      · rw [if_neg key] at column
        rw [if_neg key]
        by_cases same : o = n
        · have stays : pk ≠ 0 ∨ o = n := .inr same
          have dropped : ¬ (pk ≠ 0 ∨ o ≠ n) := fun either => either.elim key fun apart => apart same
          rw [if_neg dropped, if_pos stays, defined_undefField]
          refine ⟨rfl, ?_, rfl, sound⟩
          rcases column with ⟨_, _, rfl, rfl⟩ | ⟨_, _, rfl⟩
          · rw [same]
            rfl
          · rfl
        · have moves : ¬ (pk ≠ 0 ∨ o = n) := fun either => either.elim key same
          have kept : pk ≠ 0 ∨ o ≠ n := .inr same
          rcases column with ⟨there, there', rfl, rfl⟩ | ⟨_, equal, _⟩
          · rw [if_pos kept, if_neg moves, there, there']
            exact ⟨by simp, rfl, rfl, sound⟩
          · exact absurd equal same

/-- A merge without a changed column does nothing. -/
theorem Carries.unchanged (carries : Carries abPk old new row row')
    (same : changed abPk old new = false) : row' = row := by
  induction abPk generalizing old new row row' with
  | nil =>
    match old, new, row, row', carries with
    | [], [], [], [], _ => rfl
  | cons pk abPk ih =>
    match old, new, row, row', carries with
    | o :: old, n :: new, r :: row, r' :: row', ⟨column, rest⟩ =>
      have split : changed (pk :: abPk) (o :: old) (n :: new) =
          ((pk == 0 && o != n) || changed abPk old new) := rfl
      rw [split, Bool.or_eq_false_iff] at same
      rw [ih rest same.2]
      congr 1
      by_cases key : pk ≠ 0
      · rw [if_pos key] at column
        exact column.2.2
      · rw [if_neg key] at column
        rcases column with ⟨_, _, rfl, rfl⟩ | ⟨_, _, rfl⟩
        · have zero : pk = 0 := not_not.mp key
          have equal := same.1
          rw [zero, beq_self_eq_true, Bool.true_and, bne_eq_false_iff_eq] at equal
          exact equal.symm
        · rfl

/-- Two updates, one after the other. -/
theorem carries_updates {old1 new1 old2 new2 row : List Field}
    (sound1 : SoundColumns abPk old1 new1) (sound2 : SoundColumns abPk old2 new2)
    (agree1 : agrees old1 row = true) (agree2 : agrees old2 (overlay row new1) = true) :
    Carries abPk (overlay old2 old1) (overlay new1 new2) row (overlay (overlay row new1) new2) := by
  induction abPk generalizing old1 new1 old2 new2 row with
  | nil =>
    match old1, new1, old2, new2, row, sound1, sound2, agree1 with
    | [], [], [], [], [], _, _, _ => trivial
  | cons pk abPk ih =>
    match old1, new1, old2, new2, row, sound1, sound2, agree1 with
    | o1 :: old1, n1 :: new1, o2 :: old2, n2 :: new2, r :: row, ⟨column1, rest1⟩, ⟨column2, rest2⟩,
        first =>
      rw [agrees, Bool.and_eq_true] at first
      rw [overlay_cons, agrees, Bool.and_eq_true] at agree2
      simp only [overlay_cons]
      refine ⟨?_, ih rest1 rest2 first.2 agree2.2⟩
      have here := first.1
      have there := agree2.1
      by_cases key : pk ≠ 0
      · rw [if_pos key] at column1 column2 ⊢
        rw [column1.1, Bool.not_true, Bool.false_or, beq_iff_eq] at here
        rw [if_pos column1.1, if_neg (by rw [column2.2]; exact nofun),
          if_neg (by rw [column1.2]; exact nofun)]
        exact ⟨column1.1, here, rfl⟩
      · rw [if_neg key] at column1 column2 ⊢
        by_cases d1 : defined o1.1 = true
        · rw [d1, Bool.not_true, Bool.false_or, beq_iff_eq] at here
          rw [d1] at column1
          rw [if_pos d1, if_pos column1.symm]
          refine .inl ⟨d1, ?_, here, rfl⟩
          split
          next d2 => exact d2
          · exact column1.symm
        · rw [Bool.not_eq_true] at d1
          have absent : defined n1.1 = false := column1.symm.trans d1
          simp only [d1, absent, Bool.false_eq_true, if_false] at there ⊢
          by_cases d2 : defined o2.1 = true
          · rw [d2, Bool.not_true, Bool.false_or, beq_iff_eq] at there
            have present : defined n2.1 = true := column2.symm.trans d2
            simp only [present, if_true]
            exact .inl ⟨d2, trivial, there, trivial⟩
          · rw [Bool.not_eq_true] at d2
            have missing : defined n2.1 = false := column2.symm.trans d2
            simp only [missing, Bool.false_eq_true, if_false]
            exact .inr ⟨d2, (undefined_eq d2).trans (undefined_eq absent).symm, trivial⟩

/-- A row that is deleted and inserted again. -/
theorem carries_reinsert {old new : List Field} (wide : old.length = abPk.length)
    (wide' : new.length = abPk.length) (full : ∀ field ∈ old, defined field.1 = true)
    (full' : ∀ field ∈ new, defined field.1 = true) (key : pickKey abPk old = pickKey abPk new) :
    Carries abPk old new old new := by
  induction abPk generalizing old new with
  | nil =>
    rw [List.length_eq_zero_iff.mp wide, List.length_eq_zero_iff.mp wide']
    trivial
  | cons pk abPk ih =>
    match old, new with
    | o :: old, n :: new =>
      have there := full o List.mem_cons_self
      have there' := full' n List.mem_cons_self
      have rest := fun same => ih (Nat.succ.inj wide) (Nat.succ.inj wide')
        (fun field member => full field (List.mem_cons_of_mem _ member))
        (fun field member => full' field (List.mem_cons_of_mem _ member)) same
      rw [pickKey, pickKey] at key
      by_cases isPk : pk ≠ 0
      · rw [if_pos isPk, if_pos isPk, List.cons.injEq] at key
        refine ⟨?_, rest key.2⟩
        rw [if_pos isPk]
        exact ⟨there, rfl, key.1.symm⟩
      · rw [if_neg isPk, if_neg isPk] at key
        refine ⟨?_, rest key⟩
        rw [if_neg isPk]
        exact .inl ⟨there, there', rfl, rfl⟩

/-- The row behind an update, with the old fields of the update, is the row in front of it. -/
theorem overlay_back {old new row : List Field} (sound : SoundColumns abPk old new)
    (agree : agrees old row = true) : overlay (overlay row new) old = row := by
  induction abPk generalizing old new row with
  | nil =>
    match old, new, row, sound, agree with
    | [], [], [], _, _ => rfl
  | cons pk abPk ih =>
    match old, new, row, sound, agree with
    | o :: old, n :: new, r :: row, ⟨column, rest⟩, agree =>
      rw [agrees, Bool.and_eq_true] at agree
      rw [overlay_cons, overlay_cons, ih rest agree.2]
      congr 1
      have here := agree.1
      by_cases there : defined o.1 = true
      · rw [there, Bool.not_true, Bool.false_or, beq_iff_eq] at here
        rw [if_pos there, here]
      · have absent : defined n.1 = false := by
          by_cases key : pk ≠ 0
          · rw [if_pos key] at column
            exact column.2
          · rw [if_neg key] at column
            rw [← column]
            exact Bool.eq_false_iff.mpr there
        rw [if_neg there, if_neg (by rw [absent]; exact nofun)]

variable {abPk : List UInt8}

variable {fields : List Field}

theorem rowApply_insert {n : Nat} {row : Option Row} {result : Option Row}
    (applied : rowApply n (some (.insert, fields)) row = some result) :
    row = none ∧ result = some fields := by
  cases row with
  | none => exact ⟨rfl, (Option.some.inj applied).symm⟩
  | some r => cases applied

theorem rowApply_delete {n : Nat} {row result : Option Row}
    (applied : rowApply n (some (.delete, fields)) row = some result) :
    ∃ r, row = some r ∧ agrees fields r = true ∧ result = none := by
  cases row with
  | none => cases applied
  | some r =>
    rw [rowApply] at applied
    split at applied
    next agree => exact ⟨r, rfl, agree, (Option.some.inj applied).symm⟩
    · cases applied

theorem rowApply_update {n : Nat} {row result : Option Row}
    (applied : rowApply n (some (.update, fields)) row = some result) :
    ∃ r, row = some r ∧ agrees (fields.take n) r = true ∧
      result = some (overlay r (fields.drop n)) := by
  cases row with
  | none => cases applied
  | some r =>
    rw [rowApply] at applied
    split at applied
    next agree => exact ⟨r, rfl, agree, (Option.some.inj applied).symm⟩
    · cases applied

/-- A merged update does what it carries, or nothing is left of it. -/
theorem rowApply_updateFields (carries : Carries abPk old new row row')
    (wide : old.length = abPk.length) (wide' : new.length = abPk.length) {body : Option Body}
    (merged : body = (updateFields abPk old new).map fun fields => (.update, fields)) :
    rowApply abPk.length body (some row) = some (some row') ∧ ∀ b, body = some b → Sound abPk b := by
  subst merged
  unfold updateFields
  split
  next change =>
    obtain ⟨agree, result, sound⟩ := carries.update
    have cut := oldFields_length wide wide'
    have taken : (oldFields abPk old new ++ newFields abPk old new).take abPk.length =
        oldFields abPk old new := List.take_left' cut
    have dropped : (oldFields abPk old new ++ newFields abPk old new).drop abPk.length =
        newFields abPk old new := List.drop_left' cut
    constructor
    · rw [Option.map_some, rowApply, taken, dropped, if_pos agree, result]
    · intro b same
      cases same
      refine ⟨?_, by rw [taken, dropped]; exact sound⟩
      rw [List.length_append, cut, newFields_length wide wide']
      omega
  next same =>
    refine ⟨?_, nofun⟩
    rw [Option.map_none, rowApply, carries.unchanged (Bool.not_eq_true _ ▸ same)]

theorem combine_reinsert (fields fields' : List Field) :
    combine abPk false (some (.delete, fields)) (.insert, fields') =
      (updateFields abPk fields fields').map fun fields => (.update, fields) := by
  simp only [combine, mergedFields, Bool.false_eq_true, if_false]
  cases updateFields abPk fields fields' <;> rfl

theorem combine_updates (fields fields' : List Field) :
    combine abPk false (some (.update, fields)) (.update, fields') =
      (updateFields abPk (overlay (fields'.take abPk.length) (fields.take abPk.length))
        (overlay (fields.drop abPk.length) (fields'.drop abPk.length))).map
          fun fields => (.update, fields) := by
  simp only [combine, mergedFields, Bool.false_eq_true, if_false]
  cases updateFields abPk _ _ <;> rfl

theorem overlay_full {left right : List Field} (full : ∀ field ∈ left, defined field.1 = true) :
    ∀ field ∈ overlay left right, defined field.1 = true := by
  induction left generalizing right with
  | nil => nofun
  | cons l left ih =>
    cases right with
    | nil => nofun
    | cons r right =>
      rw [overlay_cons]
      intro field member
      rcases List.mem_cons.mp member with rfl | later
      · split
        next there => exact there
        · exact full l List.mem_cons_self
      · exact ih (fun field member => full field (List.mem_cons_of_mem _ member)) field later

/-- The two halves of an update are as wide as the table. -/
theorem sound_halves (sound : Sound abPk (.update, fields)) :
    (fields.take abPk.length).length = abPk.length ∧ (fields.drop abPk.length).length = abPk.length := by
  have wide := sound.1
  rw [List.length_take, List.length_drop]
  omega

/-- A combined change does what the two changes do, one after the other. -/
theorem rowApply_combine {old : Option Body} {new : Body}
    (soundOld : ∀ body, old = some body → Sound abPk body) (soundNew : Sound abPk new)
    (key : ∀ body, old = some body → pickKey abPk body.2 = pickKey abPk new.2)
    {row row' row'' : Option Row} (first : rowApply abPk.length old row = some row')
    (second : rowApply abPk.length (some new) row' = some row'') :
    rowApply abPk.length (combine abPk false old new) row = some row'' ∧
      ∀ body, combine abPk false old new = some body → Sound abPk body := by
  match old with
  | none =>
    cases first
    exact ⟨second, fun body same => by cases same; exact soundNew⟩
  | some (op, fields) =>
    obtain ⟨op', fields'⟩ := new
    have sound := soundOld _ rfl
    have keys := key _ rfl
    cases op <;> cases op'
    case insert.insert =>
      obtain ⟨_, rfl⟩ := rowApply_insert first
      obtain ⟨none, _⟩ := rowApply_insert second
      cases none
    case update.insert =>
      obtain ⟨_, _, _, rfl⟩ := rowApply_update first
      obtain ⟨none, _⟩ := rowApply_insert second
      cases none
    case delete.update =>
      obtain ⟨_, _, _, rfl⟩ := rowApply_delete first
      obtain ⟨_, some, _⟩ := rowApply_update second
      cases some
    case delete.delete =>
      obtain ⟨_, _, _, rfl⟩ := rowApply_delete first
      obtain ⟨_, some, _⟩ := rowApply_delete second
      cases some
    case insert.delete =>
      obtain ⟨rfl, rfl⟩ := rowApply_insert first
      obtain ⟨_, _, _, rfl⟩ := rowApply_delete second
      exact ⟨rfl, nofun⟩
    case insert.update =>
      obtain ⟨rfl, rfl⟩ := rowApply_insert first
      obtain ⟨_, same, _, rfl⟩ := rowApply_update second
      cases same
      refine ⟨rfl, fun body result => ?_⟩
      cases result
      have wide := (overlay_length (sound.1.trans (sound_halves soundNew).2.symm)).trans sound.1
      exact ⟨wide, overlay_full sound.2⟩
    case delete.insert =>
      obtain ⟨r, rfl, agree, rfl⟩ := rowApply_delete first
      obtain ⟨_, rfl⟩ := rowApply_insert second
      have same := (agrees_full sound.2).mp agree
      subst same
      exact rowApply_updateFields (carries_reinsert sound.1 soundNew.1 sound.2 soundNew.2 keys)
        sound.1 soundNew.1 (combine_reinsert fields fields')
    case update.update =>
      obtain ⟨r, rfl, agree, rfl⟩ := rowApply_update first
      obtain ⟨_, same, agree', rfl⟩ := rowApply_update second
      cases same
      obtain ⟨old_wide, new_wide⟩ := sound_halves sound
      obtain ⟨old_wide', new_wide'⟩ := sound_halves soundNew
      exact rowApply_updateFields (carries_updates sound.2 soundNew.2 agree agree')
        ((overlay_length (old_wide'.trans old_wide.symm)).trans old_wide')
        ((overlay_length (new_wide.trans new_wide'.symm)).trans new_wide)
        (combine_updates fields fields')
    case update.delete =>
      obtain ⟨r, rfl, agree, rfl⟩ := rowApply_update first
      obtain ⟨_, same, agree', rfl⟩ := rowApply_delete second
      cases same
      have deleted := (agrees_full soundNew.2).mp agree'
      have back := overlay_back sound.2 agree
      rw [← deleted] at back
      have full := @overlay_full _ (fields.take abPk.length) soundNew.2
      have wide := (overlay_length (soundNew.1.trans (sound_halves sound).1.symm)).trans soundNew.1
      have result : combine abPk false (some (.update, fields)) (.delete, fields') =
          some (.delete, overlay fields' (fields.take abPk.length)) := rfl
      rw [result]
      refine ⟨?_, fun body same => by cases same; exact ⟨wide, full⟩⟩
      rw [rowApply, if_pos ((agrees_full full).mpr back)]

end RustSql.Session
