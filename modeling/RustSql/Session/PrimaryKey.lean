import RustSql.Session.Codec

/-! The primary key inside a record, and its hash. -/

namespace RustSql.Session

open RustSql.Foundation RustSql.Types

/-- The key field at the front goes into the hash; and the bytes it takes. -/
def hashKeyField (h : UInt32) (rec : List UInt8) : Checked String (UInt32 × Nat) := do
  let e ← Checked.get rec 0
  let h := hashType h e
  if e = typeInt ∨ e = typeReal then
    let i ← getI64 (rec.drop 1)
    .ok (hashI64 h i, 9)
  else
    let (n, hdr) := getVarint (rec.drop 1)
    let stop ← Checked.add hdr n
    let z ← Checked.sliceRange (rec.drop 1) hdr stop
    .ok (hashBlob h z, 1 + stop)

/-- The loop of `record_pk_hash`. -/
def recordPkHashFrom (pkOnly : Bool) : List UInt8 → List UInt8 → UInt32 → Checked String UInt32
  | [], _, h => .ok h
  | isPk :: abPk, rec, h =>
    if pkOnly ∧ isPk = 0 then recordPkHashFrom pkOnly abPk rec h
    else if isPk ≠ 0 then do
      let (h, n) ← hashKeyField h rec
      recordPkHashFrom pkOnly abPk (rec.drop n) h
    else do
      let n ← serialLen rec
      recordPkHashFrom pkOnly abPk (rec.drop n) h

/-- `h % len as u32`: a length that wraps to zero divides nothing. -/
def bucketOf (h : UInt32) (len : Nat) : Checked String Nat :=
  if len % 2 ^ 32 = 0 then .error .overflow else .ok (h.toNat % (len % 2 ^ 32))

def recordPkHash (abPk rec : List UInt8) (pkOnly : Bool) (nBucket : Nat) : Checked String Nat := do
  let h ← recordPkHashFrom pkOnly abPk rec 0
  bucketOf h nBucket

theorem bucketOf_ok {len : Nat} (positive : 0 < len) (small : len < 2 ^ 32) (h : UInt32) :
    bucketOf h len = .ok (h.toNat % len) := by
  rw [bucketOf, Nat.mod_eq_of_lt small, if_neg positive.ne']

/-- The serialized key fields of a record. -/
def keyFields (pkOnly : Bool) : List UInt8 → List UInt8 → Checked String (List (List UInt8))
  | [], _ => .ok []
  | isPk :: abPk, rec =>
    if pkOnly ∧ isPk = 0 then keyFields pkOnly abPk rec
    else do
      let n ← serialLen rec
      let rest ← keyFields pkOnly abPk (rec.drop n)
      .ok (if isPk ≠ 0 then rec.take n :: rest else rest)

/-- What stands in the key columns. -/
def pickKey {α : Type} : List UInt8 → List α → List α
  | isPk :: abPk, x :: xs => if isPk ≠ 0 then x :: pickKey abPk xs else pickKey abPk xs
  | _, _ => []

theorem pickKey_map {α β : Type} (f : α → β) (abPk : List UInt8) (xs : List α) :
    pickKey abPk (xs.map f) = (pickKey abPk xs).map f := by
  induction abPk generalizing xs with
  | nil => rfl
  | cons isPk abPk ih =>
    cases xs with
    | nil => rfl
    | cons x xs =>
      rw [List.map_cons, pickKey, pickKey, ih]
      split <;> rfl

theorem drop_field (field : Field) (rest : List UInt8) :
    (field.1 ++ rest).drop field.1.length = rest := List.drop_left

/-- The key among the fields of a record, which may have no others. -/
def keyPart {α : Type} (pkOnly : Bool) : List UInt8 → List α → List α
  | [], _ => []
  | isPk :: abPk, xs =>
    if pkOnly ∧ isPk = 0 then keyPart pkOnly abPk xs
    else (if isPk ≠ 0 then xs.head?.toList else []) ++ keyPart pkOnly abPk xs.tail

/-- The fields a record needs for its key to be read. -/
def needed (pkOnly : Bool) (abPk : List UInt8) : Nat :=
  if pkOnly then abPk.countP (· ≠ 0) else abPk.length

theorem needed_cons (pkOnly : Bool) (isPk : UInt8) (abPk : List UInt8) :
    needed pkOnly (isPk :: abPk) =
      needed pkOnly abPk + if pkOnly = true ∧ isPk = 0 then 0 else 1 := by
  cases pkOnly with
  | false => simp [needed]
  | true =>
    simp only [needed, if_true, List.countP_cons, true_and]
    by_cases key : isPk = 0 <;> simp [key]

theorem keyPart_full {α : Type} (abPk : List UInt8) (xs : List α) :
    keyPart false abPk xs = pickKey abPk xs := by
  induction abPk generalizing xs with
  | nil => rfl
  | cons isPk abPk ih =>
    rw [keyPart, if_neg (by simp), ih]
    cases xs with
    | nil =>
      have none : ∀ flags, pickKey flags ([] : List α) = [] := fun flags => by cases flags <;> rfl
      rw [List.tail_nil, none, none]
      split <;> rfl
    | cons x xs =>
      rw [pickKey]
      split <;> rfl

/-- A record holds its key in its key columns. -/
theorem keyFields_part {pkOnly : Bool} {abPk : List UInt8} {fields : List Field}
    (wide : needed pkOnly abPk ≤ fields.length) (rest : List UInt8) :
    keyFields pkOnly abPk (recordOf fields ++ rest) =
      .ok ((keyPart pkOnly abPk fields).map Subtype.val) := by
  induction abPk generalizing fields with
  | nil => rfl
  | cons isPk abPk ih =>
    rw [needed_cons] at wide
    rw [keyFields, keyPart]
    by_cases absent : pkOnly = true ∧ isPk = 0
    · rw [if_pos absent] at wide ⊢
      rw [if_pos absent, ih wide]
    · rw [if_neg absent] at wide ⊢
      match fields with
      | field :: fields =>
        rw [if_neg absent, recordOf_cons, List.append_assoc, serialLen_field, Checked.ok_bind,
          drop_field, ih (Nat.le_of_succ_le_succ wide), Checked.ok_bind, List.tail_cons]
        by_cases key : isPk ≠ 0
        · rw [if_pos key, if_pos key, List.take_left]
          rfl
        · rw [if_neg key, if_neg key, List.nil_append]

/-- A field with a payload to hash. -/
def Keyable (field : List UInt8) : Prop :=
  ∃ e body, field = e :: body ∧ (e = typeInt ∨ e = typeReal ∨ e = typeText ∨ e = typeBlob)

def keyStep (h : UInt32) (field : List UInt8) : UInt32 :=
  match hashKeyField h field with
  | .ok (h, _) => h
  | .error _ => h

def keyHash (h : UInt32) (key : List (List UInt8)) : UInt32 := key.foldl keyStep h

theorem hashKeyField_word {e : UInt8} {body : List UInt8} (kind : e = typeInt ∨ e = typeReal)
    (eight : body.length = 8) (h : UInt32) (rest : List UInt8) :
    hashKeyField h (e :: body ++ rest) =
      .ok (hashI64 (hashType h e) (UInt64.ofNat (fromLittleEndian body.reverse)), 9) := by
  simp only [hashKeyField, Checked.get, List.cons_append, List.getElem?_cons_zero]
  rw [Checked.ok_bind, if_pos kind, List.drop_one, List.tail_cons, getI64_append eight]
  rfl

theorem hashKeyField_sized {e : UInt8} {header payload : List UInt8}
    (kind : e = typeText ∨ e = typeBlob) (headed : Header header payload.length)
    (fits : header.length + 1 + payload.length < 2 ^ 64) (h : UInt32) (rest : List UInt8) :
    hashKeyField h (e :: (header ++ payload) ++ rest) =
      .ok (hashBlob (hashType h e) payload, (e :: (header ++ payload)).length) := by
  have cut : ((header ++ (payload ++ rest)).drop header.length).take
      (header.length + payload.length - header.length) = payload := by
    rw [List.drop_left, Nat.add_sub_cancel_left, List.take_left]
  simp only [hashKeyField, Checked.get, List.cons_append, List.getElem?_cons_zero]
  rw [Checked.ok_bind, if_neg (by rcases kind with rfl | rfl <;> decide), List.drop_one,
    List.tail_cons, List.append_assoc, headed]
  simp only
  rw [Checked.add_ok (by omega), Checked.ok_bind,
    Checked.sliceRange_ok (by omega) (by simp only [List.length_append]; omega), cut,
    Checked.ok_bind, List.length_cons, List.length_append, Nat.add_comm 1]

/-- The hash of a key field does not depend on what follows it. -/
theorem hashKeyField_append {field : Field} (keyable : Keyable field.1) (h : UInt32)
    (rest : List UInt8) : hashKeyField h (field.1 ++ rest) = .ok (keyStep h field.1, field.1.length) := by
  obtain ⟨bytes, shape⟩ := field
  cases shape with
  | bare kind =>
    obtain ⟨e, body, same, key⟩ := keyable
    cases same
    rcases kind with rfl | rfl | rfl <;> exact absurd key (by decide)
  | word kind eight =>
    have alone := hashKeyField_word kind eight h []
    rw [List.append_nil] at alone
    rw [keyStep, alone, hashKeyField_word kind eight, List.length_cons, eight]
  | sized kind headed fits =>
    have alone := hashKeyField_sized kind headed fits h []
    rw [List.append_nil] at alone
    rw [keyStep, alone, hashKeyField_sized kind headed fits]

theorem recordPkHashFrom_part {pkOnly : Bool} {abPk : List UInt8} {fields : List Field}
    (wide : needed pkOnly abPk ≤ fields.length)
    (keyable : ∀ field ∈ keyPart pkOnly abPk fields, Keyable field.1) (rest : List UInt8)
    (h : UInt32) :
    recordPkHashFrom pkOnly abPk (recordOf fields ++ rest) h =
      .ok (keyHash h ((keyPart pkOnly abPk fields).map Subtype.val)) := by
  induction abPk generalizing fields h with
  | nil => rfl
  | cons isPk abPk ih =>
    rw [needed_cons] at wide
    rw [keyPart] at keyable ⊢
    rw [recordPkHashFrom]
    by_cases absent : pkOnly = true ∧ isPk = 0
    · rw [if_pos absent] at wide keyable ⊢
      rw [if_pos absent, ih wide keyable]
    · rw [if_neg absent] at wide keyable ⊢
      match fields with
      | field :: fields =>
        have narrower := Nat.le_of_succ_le_succ wide
        rw [if_neg absent, recordOf_cons, List.append_assoc]
        rw [List.tail_cons] at keyable ⊢
        by_cases key : isPk ≠ 0
        · rw [if_pos key] at keyable ⊢
          rw [if_pos key, hashKeyField_append (keyable field List.mem_cons_self), Checked.ok_bind]
          simp only [drop_field]
          rw [ih narrower fun other member => keyable other (List.mem_cons_of_mem _ member)]
          rfl
        · rw [if_neg key, List.nil_append] at keyable
          rw [if_neg key, if_neg key, List.nil_append, serialLen_field, Checked.ok_bind, drop_field,
            ih narrower keyable]

end RustSql.Session
