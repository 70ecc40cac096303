import RustSql.Foundation.Checked
import RustSql.Types.MaskedText
import RustSql.Types.RowCodec

/-! The bytes of session records: one field after another, each a type byte and what it holds.
Records are lists of fields, which may stand anywhere in the bytes. -/

namespace RustSql.Session

open RustSql.Foundation RustSql.Types

def typeUndef : UInt8 := 0x00
def typeInt : UInt8 := 0x01
def typeReal : UInt8 := 0x02
def typeText : UInt8 := 0x03
def typeBlob : UInt8 := 0x04
def typeNull : UInt8 := 0x05
def typeReplaced : UInt8 := 0xFF

/-- The kinds of a change. -/
inductive Op where
  | insert
  | delete
  | update
deriving DecidableEq, Repr

namespace Op

def code : Op → UInt8
  | insert => 18
  | delete => 9
  | update => 23

def ofCode (b : UInt8) : Option Op :=
  if b = 18 then some insert else if b = 9 then some delete
  else if b = 23 then some update else none

@[simp] theorem ofCode_code (op : Op) : ofCode op.code = some op := by
  cases op <;> rfl

end Op

def corruptRecord : String := "corrupt changeset record"

/-- `put_i64`. -/
def putI64 (v : UInt64) : List UInt8 := (littleEndian 8 v.toNat).reverse

/-- `get_i64` at the front. -/
def getI64 (a : List UInt8) : Checked ε UInt64 := do
  let b ← Checked.sliceRange a 0 8
  .ok (UInt64.ofNat (fromLittleEndian b.reverse))

/-- The groups of seven bits, lowest first. -/
def septets (x : Nat) : List Nat := if x = 0 then [] else x % 128 :: septets (x / 128)
termination_by x
decreasing_by omega

def putVarint (v : Nat) : List UInt8 :=
  if v ≤ 0x7f then [UInt8.ofNat v]
  else if v ≤ 0x00ffffffffffffff then
    match septets v with
    | [] => []
    | low :: high => high.reverse.map (fun g => UInt8.ofNat (g + 128)) ++ [UInt8.ofNat low]
  else
    [57, 50, 43, 36, 29, 22, 15, 8].map (fun s => UInt8.ofNat (v / 2 ^ s % 128 + 128)) ++
      [UInt8.ofNat (v % 256)]

/-- `get_varint` with `i` bytes behind it: the value and the bytes it takes. -/
def getVarintFrom (i v : Nat) : List UInt8 → Nat × Nat
  | [] => (v, i)
  | b :: rest =>
    if i = 8 then (v * 256 + b.toNat, 9)
    else if b.toNat < 128 then (v * 128 + b.toNat, i + 1)
    else getVarintFrom (i + 1) (v * 128 + b.toNat % 128) rest

def getVarint (a : List UInt8) : Nat × Nat := getVarintFrom 0 0 a

/-- `serial_len` of the field at the front. -/
def serialLen (a : List UInt8) : Checked ε Nat := do
  let e ← Checked.get a 0
  if e = typeUndef ∨ e = typeReplaced ∨ e = typeNull then .ok 1
  else if e = typeInt ∨ e = typeReal then .ok 9
  else
    let (n, hdr) := getVarint (a.drop 1)
    Checked.add (hdr + 1) n

/-- `append_value`: what a value is written as. -/
def fieldOf : Option Value → List UInt8
  | none => [typeUndef]
  | some .null => [typeNull]
  | some (.integer i) => typeInt :: putI64 i.toUInt64
  | some (.real r) => typeReal :: putI64 r.bits
  | some (.text t) => typeText :: (putVarint (asStr t).length ++ asStr t)
  | some (.blob b) => typeBlob :: (putVarint b.length ++ b)

/-- A parsed field. -/
inductive SessVal where
  | undef
  | replaced
  | null
  | int (i : UInt64)
  | real (bits : UInt64)
  | text (bytes : List UInt8)
  | blob (bytes : List UInt8)
deriving DecidableEq, Repr

/-- The payload of a text or a blob behind its varint. -/
def parsePayload (build : List UInt8 → SessVal) (a : List UInt8) (pos : Nat) :
    Checked String SessVal := do
  let (n, hdr) := getVarint (a.drop (pos + 1))
  let start := pos + 1 + hdr
  let stop ← Checked.add start n
  if a.length < stop then Checked.fail corruptRecord
  else do
    let bytes ← Checked.sliceRange a start stop
    .ok (build bytes)

def parseValue (a : List UInt8) (pos : Nat) : Checked String (SessVal × Nat) := do
  if a.length ≤ pos then Checked.fail corruptRecord
  else
    let e ← Checked.get a pos
    let len ← serialLen (a.drop pos)
    let stop ← Checked.add pos len
    if a.length < stop then Checked.fail corruptRecord
    else do
      let v ←
        if e = typeUndef then .ok .undef
        else if e = typeReplaced then .ok .replaced
        else if e = typeNull then .ok .null
        else if e = typeInt then do .ok (.int (← getI64 (a.drop (pos + 1))))
        else if e = typeReal then do .ok (.real (← getI64 (a.drop (pos + 1))))
        else if e = typeText then parsePayload .text a pos
        else if e = typeBlob then parsePayload .blob a pos
        else Checked.fail corruptRecord
      .ok (v, len)

/-- `parse_record`: so many fields and the bytes they take. -/
def parseRecord (a : List UInt8) : Nat → Nat → Checked String (List SessVal × Nat)
  | _, 0 => .ok ([], 0)
  | pos, n + 1 => do
    let (v, l) ← parseValue a pos
    let (out, used) ← parseRecord a (pos + l) n
    .ok (v :: out, l + used)

def hashAppend (h add : UInt32) : UInt32 := (h <<< 3) ^^^ h ^^^ add

/-- `hash_i64`: the low word, then the high one. -/
def hashI64 (h : UInt32) (i : UInt64) : UInt32 :=
  hashAppend (hashAppend h i.toUInt32) (i >>> 32).toUInt32

def hashBlob (h : UInt32) (z : List UInt8) : UInt32 :=
  z.foldl (fun h b => hashAppend h b.toUInt32) h

def hashType (h : UInt32) (eType : UInt8) : UInt32 := hashAppend h eType.toUInt32

end RustSql.Session

namespace RustSql.Session

open RustSql.Foundation RustSql.Types

/-- Groups that are not the last pass into the value. -/
theorem getVarintFrom_groups (groups : List Nat) (small : ∀ g ∈ groups, g < 128) {i : Nat} (v : Nat)
    (room : i + groups.length ≤ 8) (rest : List UInt8) :
    getVarintFrom i v (groups.map (fun g => UInt8.ofNat (g + 128)) ++ rest) =
      getVarintFrom (i + groups.length) (groups.foldl (fun v g => v * 128 + g) v) rest := by
  induction groups generalizing i v with
  | nil => rfl
  | cons g groups ih =>
    have below := small g List.mem_cons_self
    have byte : (UInt8.ofNat (g + 128)).toNat = g + 128 := by
      rw [UInt8.toNat_ofNat', Nat.mod_eq_of_lt (by omega)]
    rw [List.length_cons] at room
    rw [List.map_cons, List.cons_append, getVarintFrom, byte, if_neg (by omega), if_neg (by omega),
      ih (fun g member => small g (List.mem_cons_of_mem _ member)) _ (by omega), List.foldl_cons,
      List.length_cons, Nat.add_mod_right, Nat.mod_eq_of_lt below, Nat.add_assoc i, Nat.add_comm 1]

theorem septets_lt {v : Nat} : ∀ g ∈ septets v, g < 128 := by
  induction v using Nat.strongRecOn with
  | ind v ih =>
    rw [septets]
    split
    · simp
    · intro g member
      rcases List.mem_cons.mp member with rfl | high
      · exact Nat.mod_lt _ (by decide)
      · exact ih (v / 128) (by omega) g high

theorem septets_value (v : Nat) : (septets v).foldr (fun g acc => acc * 128 + g) 0 = v := by
  induction v using Nat.strongRecOn with
  | ind v ih =>
    rw [septets]
    split
    next zero => exact zero.symm
    next positive =>
      rw [List.foldr_cons, ih (v / 128) (by omega)]
      omega

theorem septets_length {v k : Nat} (small : v < 128 ^ k) : (septets v).length ≤ k := by
  induction k generalizing v with
  | zero =>
    have zero : v = 0 := by omega
    rw [zero, septets]
    simp
  | succ k ih =>
    rw [septets]
    split
    · simp
    · rw [List.length_cons]
      exact Nat.succ_le_succ (ih (by rw [pow_succ] at small; omega))

/-- The nine bytes of a large number hold all of its bits. -/
theorem nineBytes_value {v : Nat} (small : v < 2 ^ 64) :
    ([57, 50, 43, 36, 29, 22, 15, 8].map fun s => v / 2 ^ s % 128).foldl
      (fun v g => v * 128 + g) 0 * 256 + v % 256 = v := by
  have group (s : Nat) : v / 2 ^ (s + 7) * 128 + v / 2 ^ s % 128 = v / 2 ^ s := by
    rw [Nat.pow_add, ← Nat.div_div_eq_div_mul]
    exact Nat.div_add_mod' _ 128
  have top : v / 2 ^ 57 % 128 = v / 2 ^ 57 := Nat.mod_eq_of_lt (by omega)
  simp only [List.map_cons, List.map_nil, List.foldl_cons, List.foldl_nil, Nat.zero_mul,
    Nat.zero_add, top, group 50, group 43, group 36, group 29, group 22, group 15, group 8]
  exact Nat.div_add_mod' v 256

/-- A varint that ends by itself, whatever follows it. -/
def Header (header : List UInt8) (n : Nat) : Prop :=
  ∀ rest, getVarint (header ++ rest) = (n, header.length)

theorem header_putVarint {v : Nat} (small : v < 2 ^ 64) : Header (putVarint v) v := by
  intro rest
  unfold putVarint getVarint
  split
  next tiny =>
    have byte : (UInt8.ofNat v).toNat = v := by
      rw [UInt8.toNat_ofNat', Nat.mod_eq_of_lt (by omega)]
    rw [List.singleton_append, getVarintFrom, byte, if_neg (by decide), if_pos (by omega)]
    simp
  · split
    next middle =>
      have value := septets_value v
      have groups := @septets_lt v
      have length := @septets_length v 8 (by omega)
      match parts : septets v with
      | [] =>
        rw [parts] at value
        exact absurd value (by simp only [List.foldr_nil]; omega)
      | low :: high =>
        rw [parts] at value groups length
        have last : low < 128 := groups low List.mem_cons_self
        have byte : (UInt8.ofNat low).toNat = low := by
          rw [UInt8.toNat_ofNat', Nat.mod_eq_of_lt (by omega)]
        rw [List.length_cons] at length
        simp only [List.append_assoc]
        rw [getVarintFrom_groups _ (fun g member => groups g (List.mem_cons_of_mem _
          (List.mem_reverse.mp member))) 0 (by rw [List.length_reverse]; omega),
          List.singleton_append, getVarintFrom, byte, List.length_reverse,
          if_neg (by omega), if_pos last, List.foldl_reverse]
        rw [List.foldr_cons] at value
        simp [value]
    next large =>
      have byte : (UInt8.ofNat (v % 256)).toNat = v % 256 := by simp
      have split : ([57, 50, 43, 36, 29, 22, 15, 8].map fun s => UInt8.ofNat (v / 2 ^ s % 128 + 128)) =
          ([57, 50, 43, 36, 29, 22, 15, 8].map fun s => v / 2 ^ s % 128).map
            fun g => UInt8.ofNat (g + 128) := by
        rw [List.map_map]
        rfl
      rw [split, List.append_assoc, getVarintFrom_groups _ (by
        intro g member
        obtain ⟨s, _, rfl⟩ := List.mem_map.mp member
        exact Nat.mod_lt _ (by decide)) 0 (by simp), List.singleton_append, getVarintFrom, byte]
      simp only [List.length_map, List.length_cons, List.length_nil, Nat.zero_add, if_true,
        nineBytes_value small, List.length_append]

theorem putVarint_length {v : Nat} (small : v < 2 ^ 64) : (putVarint v).length ≤ 9 := by
  unfold putVarint
  split
  · simp
  · split
    next middle =>
      have length := @septets_length v 8 (by omega)
      split
      · simp
      next parts =>
        rw [parts, List.length_cons] at length
        simp only [List.length_append, List.length_map, List.length_reverse, List.length_singleton]
        omega
    · simp

/-- The bytes of one field, with a length of its own. -/
inductive Shape : List UInt8 → Prop where
  | bare {e : UInt8} : e = typeUndef ∨ e = typeReplaced ∨ e = typeNull → Shape [e]
  | word {e : UInt8} {body : List UInt8} : e = typeInt ∨ e = typeReal → body.length = 8 →
      Shape (e :: body)
  | sized {e : UInt8} {header payload : List UInt8} : e = typeText ∨ e = typeBlob →
      Header header payload.length → header.length + 1 + payload.length < 2 ^ 64 →
      Shape (e :: (header ++ payload))

/-- A field. -/
abbrev Field := { bytes : List UInt8 // Shape bytes }

namespace Shape

variable {bytes : List UInt8}

theorem ne_nil (shape : Shape bytes) : bytes ≠ [] := by
  cases shape <;> exact nofun

/-- The length of a field is its own. -/
theorem serialLen_append (shape : Shape bytes) (rest : List UInt8) :
    @serialLen ε (bytes ++ rest) = .ok bytes.length := by
  cases shape with
  | bare kind =>
    simp only [serialLen, Checked.get, List.singleton_append, List.getElem?_cons_zero]
    exact if_pos kind
  | word kind eight =>
    simp only [serialLen, Checked.get, List.cons_append, List.getElem?_cons_zero]
    rw [Checked.ok_bind, if_neg (by rcases kind with rfl | rfl <;> decide), if_pos kind,
      List.length_cons, eight]
  | sized kind headed fits =>
    simp only [serialLen, Checked.get, List.cons_append, List.getElem?_cons_zero]
    rw [Checked.ok_bind, if_neg (by rcases kind with rfl | rfl <;> decide),
      if_neg (by rcases kind with rfl | rfl <;> decide), List.drop_one, List.tail_cons,
      List.append_assoc, headed]
    simp only
    rw [Checked.add_ok fits, List.length_cons, List.length_append]
    congr 1
    omega

end Shape

theorem serialLen_field (field : Field) (rest : List UInt8) :
    @serialLen ε (field.1 ++ rest) = .ok field.1.length :=
  field.2.serialLen_append rest

/-- A value no longer than an allocation can be. -/
def Allocated : Value → Prop
  | .text bytes | .blob bytes => bytes.length < 2 ^ 63
  | _ => True

abbrev Datum := { value : Value // Allocated value }

theorem putI64_length (v : UInt64) : (putI64 v).length = 8 := by
  simp [putI64]

theorem shape_payload {e : UInt8} (kind : e = typeText ∨ e = typeBlob) {payload : List UInt8}
    (fits : payload.length < 2 ^ 63) : Shape (e :: (putVarint payload.length ++ payload)) := by
  have header := @putVarint_length payload.length (by omega)
  exact .sized kind (header_putVarint (by omega)) (by omega)

theorem shape_fieldOf (datum : Option Datum) : Shape (fieldOf (datum.map Subtype.val)) := by
  match datum with
  | none => exact .bare (.inl rfl)
  | some ⟨.null, _⟩ => exact .bare (.inr (.inr rfl))
  | some ⟨.integer i, _⟩ => exact .word (.inl rfl) (putI64_length _)
  | some ⟨.real r, _⟩ => exact .word (.inr rfl) (putI64_length _)
  | some ⟨.text t, fits⟩ => exact shape_payload (.inl rfl) (by rw [asStr_length]; exact fits)
  | some ⟨.blob b, fits⟩ => exact shape_payload (.inr rfl) fits

def Field.of (datum : Option Datum) : Field := ⟨fieldOf (datum.map Subtype.val), shape_fieldOf datum⟩

/-- The record of a list of fields. -/
def recordOf (fields : List Field) : List UInt8 := fields.flatMap Subtype.val

@[simp] theorem recordOf_nil : recordOf [] = [] := rfl

@[simp] theorem recordOf_cons (field : Field) (fields : List Field) :
    recordOf (field :: fields) = field.1 ++ recordOf fields := List.flatMap_cons

@[simp] theorem recordOf_append (front back : List Field) :
    recordOf (front ++ back) = recordOf front ++ recordOf back := List.flatMap_append

theorem getI64_append {a rest : List UInt8} (eight : a.length = 8) :
    @getI64 ε (a ++ rest) = .ok (UInt64.ofNat (fromLittleEndian a.reverse)) := by
  have taken : (a ++ rest).take 8 = a := by rw [← eight, List.take_left]
  rw [getI64, Checked.sliceRange_ok (Nat.zero_le 8) (by rw [List.length_append]; omega),
    List.drop_zero, Nat.sub_zero, taken]
  rfl

theorem getI64_putI64 (v : UInt64) (rest : List UInt8) : @getI64 ε (putI64 v ++ rest) = .ok v := by
  rw [getI64_append (putI64_length v), putI64, List.reverse_reverse,
    fromLittleEndian_littleEndian, Nat.mod_eq_of_lt (by have := v.toNat_lt; omega),
    UInt64.ofNat_toNat]

end RustSql.Session
