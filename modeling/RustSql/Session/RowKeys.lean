import RustSql.Session.State

/-! The key of an event and the key of a stored record: hashed alike and compared alike. -/

namespace RustSql.Session

open RustSql.Foundation RustSql.Types

abbrev RowKey := List (List UInt8)

namespace SessionTable

/-- The serialized key of an event at a table; none without a side or with a NULL in it. -/
def rowKey (t : SessionTable) (rowid : Int64) (side : Option (List Datum)) : Option RowKey :=
  if t.bRowid then some [typeInt :: putI64 rowid.toUInt64]
  else
    match side with
    | some s =>
      if s.length = t.nDbCol ∧ ∀ v ∈ pickKey t.abPk s, v.1 ≠ .null then
        some ((pickKey t.abPk s).map fun v => fieldOf (some v.1))
      else none
    | none => none

/-- The serialized key of a stored change. -/
def entryKey (t : SessionTable) (e : SessionChange) : Checked String RowKey :=
  keyFields false t.abPk e.record

end SessionTable

/-- The hash of a live rowid. -/
def rowidHash (key : RowKey) : UInt32 :=
  match key with
  | [field] =>
    match @getI64 String (field.drop 1) with
    | .ok i => hashI64 0 i
    | .error _ => 0
  | _ => 0

/-- The hash events use for a key. -/
def chainHash (bRowid : Bool) (key : Checked String RowKey) : Nat :=
  match key with
  | .ok key => (if bRowid then rowidHash key else keyHash 0 key).toNat
  | .error _ => 0

/-- A model its table resolves to. -/
structure Modelled (t : SessionTable) : Prop where
  wide : t.abPk.length = t.nCol
  rowid : t.bRowid = true → ∃ n, t.abPk = 1 :: List.replicate n 0

def rowidField (rowid : Int64) : Field := Field.of (some ⟨.integer rowid, trivial⟩)

/-- The fields of a stored record. -/
structure Stored (t : SessionTable) (e : SessionChange) (fields : List Field) : Prop where
  record : e.record = recordOf fields
  wide : fields.length = t.nCol
  keyable : ∀ field ∈ pickKey t.abPk fields, Keyable field.1
  rowid : t.bRowid = true → ∃ i, fields.head? = some (rowidField i)

theorem pickKey_zeros {α : Type} (n : Nat) (xs : List α) :
    pickKey (List.replicate n 0) xs = [] := by
  induction n generalizing xs with
  | zero => rfl
  | succ n ih =>
    cases xs with
    | nil => rfl
    | cons x xs =>
      rw [List.replicate_succ, pickKey, if_neg (by simp), ih]

theorem Modelled.pick_rowid {t : SessionTable} (modelled : Modelled t) (rowid : t.bRowid = true)
    {α : Type} (x : α) (xs : List α) : pickKey t.abPk (x :: xs) = [x] := by
  obtain ⟨n, flags⟩ := modelled.rowid rowid
  rw [flags, pickKey, if_pos (by decide), pickKey_zeros]

theorem Stored.entryKey {t : SessionTable} {e : SessionChange} {fields : List Field}
    (stored : Stored t e fields) (modelled : Modelled t) :
    t.entryKey e = .ok ((pickKey t.abPk fields).map Subtype.val) := by
  have whole := @keyFields_part false t.abPk fields
    (by rw [needed, if_neg (by decide), modelled.wide, stored.wide]) []
  rwa [List.append_nil, ← stored.record, keyPart_full] at whole

theorem keyStep_word {e : UInt8} (kind : e = typeInt ∨ e = typeReal) (h : UInt32) (v : UInt64) :
    keyStep h (e :: putI64 v) = hashI64 (hashType h e) v := by
  have hashed := hashKeyField_word kind (putI64_length v) h []
  have back := @getI64_putI64 String v []
  rw [getI64_append (putI64_length v)] at back
  rw [List.append_nil, Except.ok.inj back] at hashed
  rw [keyStep, hashed]

theorem keyStep_sized {e : UInt8} (kind : e = typeText ∨ e = typeBlob) {payload : List UInt8}
    (fits : payload.length < 2 ^ 63) (h : UInt32) :
    keyStep h (e :: (putVarint payload.length ++ payload)) = hashBlob (hashType h e) payload := by
  have header := @putVarint_length payload.length (by omega)
  have headed := @header_putVarint payload.length (by omega)
  have hashed := hashKeyField_sized kind headed (by omega) h []
  rw [List.append_nil] at hashed
  rw [keyStep, hashed]

/-- A live value hashes as its field does. -/
theorem hashValue_eq (v : Datum) (h : UInt32) :
    hashValue h v.1 = if v.1 = .null then none else some (keyStep h (fieldOf (some v.1))) := by
  obtain ⟨value, fits⟩ := v
  cases value with
  | null => rfl
  | integer i => rw [if_neg (by simp), fieldOf, keyStep_word (.inl rfl), hashValue]
  | real r => rw [if_neg (by simp), fieldOf, keyStep_word (.inr rfl), hashValue]
  | text bytes =>
    rw [if_neg (by simp), fieldOf, keyStep_sized (.inl rfl) (by rw [asStr_length]; exact fits),
      hashValue]
  | blob bytes => rw [if_neg (by simp), fieldOf, keyStep_sized (.inr rfl) fits, hashValue]

theorem hashSide_eq {abPk : List UInt8} {side : List Datum} (wide : abPk.length = side.length)
    (h : UInt32) : hashSide abPk side h =
      if ∀ v ∈ pickKey abPk side, v.1 ≠ .null then
        some (keyHash h ((pickKey abPk side).map fun v => fieldOf (some v.1)))
      else none := by
  induction side generalizing abPk h with
  | nil =>
    have nothing := List.length_eq_zero_iff.mp wide
    rw [nothing]
    rfl
  | cons v side ih =>
    match abPk with
    | flag :: abPk =>
      have narrower : abPk.length = side.length := Nat.succ.inj wide
      rw [hashSide, pickKey, List.headD_cons, List.tail_cons]
      by_cases key : flag = 0
      · rw [if_pos key, if_neg (not_not.mpr key), ih narrower]
      · rw [if_neg key, if_pos key, hashValue_eq]
        by_cases null : v.1 = .null
        · rw [if_pos null, if_neg (by simp [null])]
          rfl
        · rw [if_neg null, Option.bind_some, ih narrower]
          simp only [List.mem_cons, forall_eq_or_imp, null, ne_eq, not_false_eq_true, true_and,
            List.map_cons, keyHash, List.foldl_cons]

/-- An event is hashed by its key, and ignored without one. -/
theorem SessionTable.eventHash_eq {t : SessionTable} (modelled : Modelled t) (rowid : Int64)
    (side : Option (List Datum)) :
    t.eventHash rowid side = (t.rowKey rowid side).map fun key =>
      if t.bRowid then rowidHash key else keyHash 0 key := by
  unfold SessionTable.eventHash SessionTable.rowKey
  by_cases implicit : t.bRowid = true
  · rw [if_pos implicit, if_pos implicit, Option.map_some]
    have back := @getI64_putI64 String rowid.toUInt64 []
    rw [List.append_nil] at back
    simp only [implicit, if_true, rowidHash, List.drop_one, List.tail_cons, back]
  · rw [if_neg implicit, if_neg implicit]
    cases side with
    | none => rfl
    | some s =>
      have flags : t.nDbCol = t.abPk.length := by
        rw [SessionTable.nDbCol, SessionTable.offset, if_neg implicit, modelled.wide, Nat.sub_zero]
      by_cases wide : s.length = t.nDbCol
      · simp only [wide, true_and, if_true]
        rw [hashSide_eq (by rw [← flags, wide])]
        split
        · rw [Option.map_some]
        · rfl
      · simp only [wide, false_and, if_false, Option.map_none]

theorem chainHash_ok (bRowid : Bool) (key : RowKey) :
    chainHash bRowid (.ok key) = (if bRowid then rowidHash key else keyHash 0 key).toNat := rfl

theorem chainHash_declared (key : RowKey) : chainHash false (.ok key) = (keyHash 0 key).toNat := rfl

/-- The hash of a record at a table with a declared key is the hash of an event at that key. -/
theorem Stored.recordPkHash {t : SessionTable} {e : SessionChange} {fields : List Field}
    (stored : Stored t e fields) (modelled : Modelled t) (declared : t.bRowid = false) {n : Nat}
    (positive : 0 < n) (small : n < 2 ^ 32) :
    recordPkHash t.abPk e.record false n = .ok (chainHash t.bRowid (t.entryKey e) % n) := by
  have hashed := @recordPkHashFrom_part false t.abPk fields
    (by rw [needed, if_neg (by decide), modelled.wide, stored.wide])
    (by rw [keyPart_full]; exact stored.keyable) [] 0
  rw [List.append_nil, ← stored.record, keyPart_full] at hashed
  rw [Session.recordPkHash, hashed, Checked.ok_bind, bucketOf_ok positive small,
    stored.entryKey modelled, chainHash_ok, declared]
  rfl

theorem matchesFrom_eq {side : List Datum} {i : Nat} {abPk : List UInt8} {fields : List Field}
    (wide : fields.length = abPk.length) (rest : i + abPk.length = side.length)
    (after : List UInt8) :
    matchesFrom side 0 i abPk (recordOf fields ++ after) =
      .ok (decide ((pickKey abPk fields).map Subtype.val =
        (pickKey abPk (side.drop i)).map fun v => fieldOf (some v.1))) := by
  induction abPk generalizing i fields with
  | nil => rfl
  | cons flag abPk ih =>
    match fields with
    | field :: fields =>
      have narrower : fields.length = abPk.length := Nat.succ.inj wide
      rw [List.length_cons] at rest
      have inside : i < side.length := by omega
      rw [recordOf_cons, List.append_assoc, matchesFrom, List.drop_eq_getElem_cons inside, pickKey,
        pickKey, serialLen_field]
      by_cases key : flag ≠ 0
      · rw [if_pos key, if_pos key, if_pos key, if_neg (Nat.not_lt_zero i), Nat.sub_zero,
          Checked.get, List.getElem?_eq_getElem inside]
        simp only [Checked.ok_bind]
        rw [Checked.sliceRange_ok (Nat.zero_le _) (by rw [List.length_append]; omega),
          List.drop_zero, Nat.sub_zero, List.take_left, Checked.ok_bind, List.map_cons,
          List.map_cons]
        by_cases same : field.1 = fieldOf (some side[i].1)
        · rw [if_neg (not_not.mpr same), drop_field, ih narrower (by omega), same]
          simp only [List.cons.injEq, true_and]
        · rw [if_pos same, decide_eq_false (by simp [same])]
      · rw [if_neg key, if_neg key, if_neg key, Checked.ok_bind, drop_field,
          ih narrower (by omega)]

theorem keyable_fieldOf {v : Datum} (value : v.1 ≠ .null) : Keyable (fieldOf (some v.1)) := by
  obtain ⟨value', fits⟩ := v
  cases value' with
  | null => exact absurd rfl value
  | integer i => exact ⟨_, _, rfl, .inl rfl⟩
  | real r => exact ⟨_, _, rfl, .inr (.inl rfl)⟩
  | text bytes => exact ⟨_, _, rfl, .inr (.inr (.inl rfl))⟩
  | blob bytes => exact ⟨_, _, rfl, .inr (.inr (.inr rfl))⟩

theorem putI64_injective {v w : UInt64} (same : putI64 v = putI64 w) : v = w := by
  have left := @getI64_putI64 String v []
  have right := @getI64_putI64 String w []
  rw [same, right] at left
  exact (Except.ok.inj left).symm

/-- A stored record is at the key of an event exactly when its key is that key. -/
theorem Stored.sameKey {t : SessionTable} {e : SessionChange} {fields : List Field}
    (stored : Stored t e fields) (modelled : Modelled t) {rowid : Int64}
    {side : Option (List Datum)} {key : RowKey} (keyed : t.rowKey rowid side = some key) :
    t.sameKey rowid side e = .ok (decide (t.entryKey e = .ok key)) := by
  rw [stored.entryKey modelled]
  unfold SessionTable.rowKey at keyed
  unfold SessionTable.sameKey
  by_cases implicit : t.bRowid = true
  · rw [if_pos implicit] at keyed ⊢
    cases keyed
    obtain ⟨i, first⟩ := stored.rowid implicit
    match fields, first with
    | _ :: fields, rfl =>
      have front : e.record = (typeInt :: putI64 i.toUInt64) ++ recordOf fields := by
        rw [stored.record, recordOf_cons]
        rfl
      have head : (typeInt :: putI64 i.toUInt64 ++ recordOf fields).head? = some typeInt := rfl
      rw [modelled.pick_rowid implicit, front, if_pos head, List.drop_one, List.cons_append,
        List.tail_cons, getI64_putI64, Checked.ok_bind]
      congr 1
      rw [Bool.eq_iff_iff, beq_iff_eq, decide_eq_true_iff]
      refine ⟨fun same => by rw [← same]; rfl, fun same => ?_⟩
      have cells := Except.ok.inj same
      simp only [List.map_cons, List.map_nil, List.cons.injEq, and_true] at cells
      exact putI64_injective (List.cons.inj cells).2
  · rw [if_neg implicit] at keyed ⊢
    have none : t.offset = 0 := if_neg implicit
    cases side with
    | none => cases keyed
    | some s =>
      simp only at keyed
      split at keyed
      next fits =>
        cases keyed
        have columns : s.length = t.nCol := by rw [fits.1, SessionTable.nDbCol, none, Nat.sub_zero]
        have walked := @matchesFrom_eq s 0 t.abPk fields (by rw [stored.wide, modelled.wide])
          (by rw [modelled.wide, columns, Nat.zero_add]) []
        rw [List.append_nil, List.drop_zero, ← stored.record] at walked
        simp only [SessionTable.recordMatchesPk, none, Nat.add_zero, columns, if_true, walked]
        congr 2
        simp only [Except.ok.injEq]
      · cases keyed

end RustSql.Session
