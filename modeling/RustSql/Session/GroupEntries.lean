import RustSql.Session.Group

/-! What the merges of a group do to the fields of its records. -/

namespace RustSql.Session

open RustSql.Foundation RustSql.Types

variable {ε : Type}

def undefField : Field := ⟨[typeUndef], .bare (.inl rfl)⟩

/-- The right fields where they are defined, else the left ones. -/
def overlay (left right : List Field) : List Field :=
  List.zipWith (fun l r => if defined r.1 then r else l) left right

theorem overlay_length {left right : List Field} (same : left.length = right.length) :
    (overlay left right).length = left.length := by
  rw [overlay, List.length_zipWith, ← same, Nat.min_self]

theorem cutField_field (field : Field) (rest : List UInt8) :
    cutField (field.1 ++ rest) = .ok (field.1, rest) := by
  have room : field.1.length ≤ (field.1 ++ rest).length := by
    rw [List.length_append]
    omega
  rw [cutField, serialLen_field, Checked.ok_bind, Checked.sliceRange_ok (Nat.zero_le _) room,
    Checked.ok_bind, Checked.sliceFrom_ok room, Checked.ok_bind, drop_field, List.drop_zero,
    Nat.sub_zero, List.take_left]

theorem mergeRecord_fields {n : Nat} {left right : List Field} (wide : left.length = n)
    (wide' : right.length = n) (a b : List UInt8) :
    mergeRecord n (recordOf left ++ a) (recordOf right ++ b) =
      .ok (recordOf (overlay left right)) := by
  induction n generalizing left right with
  | zero =>
    rw [List.length_eq_zero_iff.mp wide]
    rfl
  | succ n ih =>
    match left, right with
    | l :: left, r :: right =>
      rw [recordOf_cons, recordOf_cons, List.append_assoc, List.append_assoc, mergeRecord,
        cutField_field, Checked.ok_bind]
      simp only
      rw [cutField_field, Checked.ok_bind]
      simp only
      rw [ih (Nat.succ.inj wide) (Nat.succ.inj wide'), Checked.ok_bind, overlay, overlay,
        List.zipWith_cons_cons, recordOf_cons]
      split <;> rfl

/-- The fields a value is merged from, with what follows them. -/
def overlayWith (left : List Field) (right : Option (List Field × List UInt8)) : List Field :=
  match right with
  | none => left
  | some (right, _) => overlay left right

theorem mergeValue_field {l : Field} {left : List Field} (a : List UInt8)
    (right : Option (List Field × List UInt8)) (wide : ∀ r ∈ right, r.1.length = left.length + 1) :
    ∃ f right', mergeValue (recordOf (l :: left) ++ a) (right.map fun r => recordOf r.1 ++ r.2) =
        .ok (f.1, recordOf left ++ a, right'.map fun r => recordOf r.1 ++ r.2) ∧
      (∀ r ∈ right', r.1.length = left.length) ∧
      overlayWith (l :: left) right = f :: overlayWith left right' := by
  rw [recordOf_cons, List.append_assoc, mergeValue, cutField_field, Checked.ok_bind]
  match right with
  | none => exact ⟨l, none, rfl, nofun, rfl⟩
  | some (r :: right, b) =>
    refine ⟨if defined r.1 then r else l, some (right, b), ?_, ?_, rfl⟩
    · simp only [Option.map_some]
      rw [recordOf_cons, List.append_assoc, cutField_field, Checked.ok_bind]
      simp only
      split <;> rfl
    · intro r' same
      cases same
      exact Nat.succ.inj (wide _ rfl)
  | some ([], b) =>
    have length := wide _ rfl
    cases length

/-- The columns of an update: the flag of each, and its old and new field. -/
def columnsOf (abPk : List UInt8) (old new : List Field) : List (UInt8 × Field × Field) :=
  abPk.zip (old.zip new)

variable {abPk : List UInt8} {o2 n2 : Option (List Field × List UInt8)}

theorem mergeColumns_fields {o1 n1 : List Field} (oldWide : o1.length = abPk.length)
    (newWide : n1.length = abPk.length) (oldWide' : ∀ r ∈ o2, r.1.length = abPk.length)
    (newWide' : ∀ r ∈ n2, r.1.length = abPk.length) (a b : List UInt8) :
    mergeColumns abPk (recordOf o1 ++ a) (o2.map fun r => recordOf r.1 ++ r.2)
        (recordOf n1 ++ b) (n2.map fun r => recordOf r.1 ++ r.2) =
      .ok ((columnsOf abPk (overlayWith o1 o2) (overlayWith n1 n2)).map
        fun column => (column.1, column.2.1.1, column.2.2.1)) := by
  induction abPk generalizing o1 n1 o2 n2 with
  | nil => rfl
  | cons pk abPk ih =>
    match o1, n1 with
    | o :: o1, n :: n1 =>
      have narrow := Nat.succ.inj oldWide
      have narrow' := Nat.succ.inj newWide
      obtain ⟨old, o2', merged, rest, overlaid⟩ := @mergeValue_field o o1 a o2 fun r member => by
        rw [oldWide' r member, narrow, List.length_cons]
      obtain ⟨new, n2', merged', rest', overlaid'⟩ := @mergeValue_field n n1 b n2 fun r member => by
        rw [newWide' r member, narrow', List.length_cons]
      rw [mergeColumns, merged, Checked.ok_bind]
      simp only
      rw [merged', Checked.ok_bind]
      simp only
      rw [ih narrow narrow' (fun r member => (rest r member).trans narrow)
        (fun r member => (rest' r member).trans narrow'), Checked.ok_bind, overlaid, overlaid']
      rfl

/-- Does a column outside the key change? -/
def changed (abPk : List UInt8) (old new : List Field) : Bool :=
  (columnsOf abPk old new).any fun column => column.1 == 0 && column.2.1 != column.2.2

def oldFields (abPk : List UInt8) (old new : List Field) : List Field :=
  (columnsOf abPk old new).map fun column =>
    if column.1 ≠ 0 ∨ column.2.1 ≠ column.2.2 then column.2.1 else undefField

def newFields (abPk : List UInt8) (old new : List Field) : List Field :=
  (columnsOf abPk old new).map fun column =>
    if column.1 ≠ 0 ∨ column.2.1 = column.2.2 then undefField else column.2.2

/-- The fields of a merged update; none when nothing changes. -/
def updateFields (abPk : List UInt8) (old new : List Field) : Option (List Field) :=
  if changed abPk old new then some (oldFields abPk old new ++ newFields abPk old new) else none

theorem recordOf_map {α : Type} (f : α → Field) (xs : List α) :
    recordOf (xs.map f) = xs.flatMap fun x => (f x).1 := by
  rw [recordOf, List.flatMap_map]

theorem mergeUpdate_fields {o1 n1 : List Field} (oldWide : o1.length = abPk.length)
    (newWide : n1.length = abPk.length) (oldWide' : ∀ r ∈ o2, r.1.length = abPk.length)
    (newWide' : ∀ r ∈ n2, r.1.length = abPk.length) (a b : List UInt8) :
    mergeUpdate abPk false (recordOf o1 ++ a) (o2.map fun r => recordOf r.1 ++ r.2)
        (recordOf n1 ++ b) (n2.map fun r => recordOf r.1 ++ r.2) =
      .ok ((updateFields abPk (overlayWith o1 o2) (overlayWith n1 n2)).map recordOf) := by
  rw [mergeUpdate, mergeColumns_fields oldWide newWide oldWide' newWide', Checked.ok_bind,
    if_neg (by decide)]
  generalize old : overlayWith o1 o2 = os
  generalize new : overlayWith n1 n2 = ns
  have asked : (∃ column ∈ (columnsOf abPk os ns).map
      (fun column => (column.1, column.2.1.1, column.2.2.1)),
      column.1 = 0 ∧ column.2.1 ≠ column.2.2) ↔ changed abPk os ns = true := by
    simp only [changed, List.any_eq_true, List.mem_map, Bool.and_eq_true, beq_iff_eq, bne_iff_ne]
    constructor
    · rintro ⟨_, ⟨column, member, rfl⟩, key, differ⟩
      exact ⟨column, member, key, fun same => differ (congrArg Subtype.val same)⟩
    · rintro ⟨column, member, key, differ⟩
      exact ⟨_, ⟨column, member, rfl⟩, key, fun same => differ (Subtype.ext same)⟩
  unfold updateFields
  by_cases change : changed abPk os ns = true
  · rw [if_pos (asked.mpr change), if_pos change, Option.map_some, recordOf_append, oldFields,
      newFields, recordOf_map, recordOf_map, List.flatMap_map, List.flatMap_map]
    congr 3
    · congr 1
      funext column
      simp only [oldOut, ne_eq, Subtype.ext_iff]
      split <;> rfl
    · congr 1
      funext column
      simp only [newOut, true_and, ne_eq, Subtype.ext_iff]
      split <;> rfl
  · rw [if_neg (fun some => change (asked.mp some)), if_neg change, Option.map_none]

theorem mergeUpdate_patch {o1 n1 : List Field} (oldWide : o1.length = abPk.length)
    (newWide : n1.length = abPk.length) (oldWide' : ∀ r ∈ o2, r.1.length = abPk.length)
    (newWide' : ∀ r ∈ n2, r.1.length = abPk.length) (a b : List UInt8) :
    mergeUpdate abPk true (recordOf o1 ++ a) (o2.map fun r => recordOf r.1 ++ r.2)
        (recordOf n1 ++ b) (n2.map fun r => recordOf r.1 ++ r.2) =
      .ok (some (recordOf (overlayWith n1 n2))) := by
  have overlays : ∀ {xs : List Field} {ys : Option (List Field × List UInt8)},
      xs.length = abPk.length → (∀ r ∈ ys, r.1.length = abPk.length) →
      (overlayWith xs ys).length = abPk.length := by
    intro xs ys wide wide'
    match ys with
    | none => exact wide
    | some r => exact (overlay_length (wide.trans (wide' r rfl).symm)).trans wide
  have old := overlays oldWide oldWide'
  have new := overlays newWide newWide'
  rw [mergeUpdate, mergeColumns_fields oldWide newWide oldWide' newWide', Checked.ok_bind,
    if_pos rfl]
  congr 2
  generalize overlayWith o1 o2 = os at old ⊢
  generalize overlayWith n1 n2 = ns at new ⊢
  have lasts : (columnsOf abPk os ns).map (fun column => column.2.2) = ns := by
    have outer : (columnsOf abPk os ns).map Prod.snd = os.zip ns := by
      rw [columnsOf, List.map_snd_zip]
      rw [List.length_zip, old, new, Nat.min_self]
    have inner : (os.zip ns).map Prod.snd = ns := by
      rw [List.map_snd_zip]
      rw [old, new]
    have both := congrArg (List.map Prod.snd) outer
    rw [inner, List.map_map] at both
    exact both
  conv_rhs => rw [← lasts, recordOf_map]
  rw [List.flatMap_map]
  rfl

theorem skipRecord_fields (front : List UInt8) (fields : List Field) (rest : List UInt8) :
    skipRecord (front ++ (recordOf fields ++ rest)) front.length fields.length =
      .ok (front.length + (recordOf fields).length) := by
  induction fields generalizing front with
  | nil => rfl
  | cons field fields ih =>
    have moved := ih (front ++ field.1)
    rw [List.length_append, List.append_assoc, ← List.append_assoc field.1] at moved
    rw [List.length_cons, skipRecord, List.drop_left, recordOf_cons, List.append_assoc,
      serialLen_field, Checked.ok_bind, ← List.append_assoc field.1, moved, List.length_append,
      Nat.add_assoc]

theorem skip_fields (fields : List Field) (rest : List UInt8) :
    skipRecord (recordOf fields ++ rest) 0 fields.length = .ok (recordOf fields).length := by
  have skipped := skipRecord_fields [] fields rest
  rwa [List.nil_append, List.length_nil, Nat.zero_add] at skipped

theorem newHalf_fields {n : Nat} {old new : List Field} (wide : old.length = n) (rest : List UInt8) :
    newHalf false n (recordOf (old ++ new) ++ rest) = .ok (recordOf new ++ rest) := by
  rw [newHalf, if_neg (by decide), recordOf_append, List.append_assoc, ← wide, skip_fields,
    Checked.ok_bind, Checked.sliceFrom_ok (by rw [List.length_append]; omega), List.drop_left]

/-- Past a column outside the key the key is the same. -/
theorem skipUnkeyed_fields {only : Bool} {fs : List Field} (rest : List UInt8)
    (room : needed only abPk + (if only = true ∧ (0 : UInt8) = 0 then 0 else 1) ≤ fs.length) :
    ∃ fs', skipUnkeyed only (recordOf fs ++ rest) = .ok (recordOf fs' ++ rest) ∧
      needed only abPk ≤ fs'.length ∧
      (if only = true ∧ (0 : UInt8) = 0 then keyPart only abPk fs
        else (if (0 : UInt8) ≠ 0 then fs.head?.toList else []) ++ keyPart only abPk fs.tail) =
        keyPart only abPk fs' := by
  cases only with
  | true =>
    rw [if_pos ⟨rfl, rfl⟩] at room
    exact ⟨fs, if_pos rfl, room, if_pos ⟨rfl, rfl⟩⟩
  | false =>
    rw [if_neg (by simp)] at room
    match fs with
    | f :: fs =>
      refine ⟨fs, ?_, Nat.le_of_succ_le_succ room, ?_⟩
      · rw [skipUnkeyed, if_neg (by decide), recordOf_cons, List.append_assoc, serialLen_field,
          Checked.ok_bind, Checked.sliceFrom_ok (by rw [List.length_append]; omega), drop_field]
      · rw [if_neg (by simp), if_neg (not_not.mpr rfl), List.nil_append, List.tail_cons]

theorem changeEqual_fields {left right : Bool} {ls rs : List Field}
    (wide : needed left abPk ≤ ls.length) (wide' : needed right abPk ≤ rs.length) (a b : List UInt8) :
    changeEqual left right abPk (recordOf ls ++ a) (recordOf rs ++ b) =
      .ok (decide ((keyPart left abPk ls).map Subtype.val =
        (keyPart right abPk rs).map Subtype.val)) := by
  induction abPk generalizing ls rs with
  | nil => rfl
  | cons pk abPk ih =>
    rw [needed_cons] at wide wide'
    rw [keyPart, keyPart, changeEqual]
    by_cases key : pk = 0
    · subst key
      obtain ⟨ls', cut, room, part⟩ := skipUnkeyed_fields a wide
      obtain ⟨rs', cut', room', part'⟩ := skipUnkeyed_fields b wide'
      rw [if_neg (not_not.mpr rfl), cut, Checked.ok_bind, cut', Checked.ok_bind, ih room room', part,
        part']
    · have absent : ∀ {only : Bool}, ¬ (only = true ∧ pk = 0) := fun both => key both.2
      rw [if_neg absent] at wide wide'
      obtain ⟨l, ls, rfl⟩ := List.exists_cons_of_length_pos (Nat.zero_lt_of_lt wide)
      obtain ⟨r, rs, rfl⟩ := List.exists_cons_of_length_pos (Nat.zero_lt_of_lt wide')
      rw [if_pos key, if_neg absent, if_neg absent, if_pos key, if_pos key, recordOf_cons,
        recordOf_cons, List.append_assoc, List.append_assoc, serialLen_field, Checked.ok_bind,
        serialLen_field, Checked.ok_bind, List.tail_cons, List.tail_cons, drop_field, drop_field,
        ih (Nat.le_of_succ_le_succ wide) (Nat.le_of_succ_le_succ wide')]
      have cut : ∀ (f : Field) (c : List UInt8),
          @Checked.sliceRange String _ (f.1 ++ c) 0 f.1.length = .ok f.1 := by
        intro f c
        rw [Checked.sliceRange_ok (Nat.zero_le _) (by rw [List.length_append]; omega),
          List.drop_zero, Nat.sub_zero, List.take_left]
      simp only [List.head?_cons, Option.toList_some, List.singleton_append, List.map_cons]
      by_cases length : l.1.length = r.1.length
      · rw [if_neg (not_not.mpr length), cut, Checked.ok_bind, cut, Checked.ok_bind]
        by_cases same : l.1 = r.1
        · rw [if_neg (not_not.mpr same), same]
          simp only [List.cons.injEq, true_and]
        · rw [if_pos same, decide_eq_false (by simp [same])]
      · rw [if_pos length, decide_eq_false]
        intro both
        exact length (by rw [(List.cons.inj both).1])

end RustSql.Session
