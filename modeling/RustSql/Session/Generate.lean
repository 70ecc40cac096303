import RustSql.Session.ReadBack

/-! Values written to a record and read from it again, and the generation of a changeset: each
captured change against the row that is in the database now. -/

namespace RustSql.Session

open RustSql.Foundation RustSql.Types

namespace SessVal

/-- `to_value`. -/
def toValue : SessVal → Option Value
  | undef | replaced => none
  | null => some .null
  | int i => some (.integer i.toInt64)
  | real bits => some (.real ⟨bits⟩)
  | text t => if validUtf8 t then some (.text t) else none
  | blob b => some (.blob b)

/-- The field a value is written as. -/
def ofValue : Value → SessVal
  | .null => null
  | .integer i => int i.toUInt64
  | .real r => real r.bits
  | .text t => text (asStr t)
  | .blob b => blob b

end SessVal

/-- The value as `as_str` shows it. -/
def shownValue : Value → Value
  | .text t => .text (asStr t)
  | v => v

/-- A text is a string. -/
def Readable : Value → Prop
  | .text t => validUtf8 t = true
  | _ => True

theorem shownValue_eq_self {v : Value} : shownValue v = v ↔ Readable v := by
  cases v with
  | text t =>
    rw [shownValue, Value.text.injEq]
    exact asStr_eq_self
  | null | integer | real | blob => exact ⟨fun _ => trivial, fun _ => rfl⟩

theorem SessVal.toValue_ofValue (v : Value) :
    (SessVal.ofValue v).toValue = some (shownValue v) := by
  cases v with
  | text t => exact if_pos (validUtf8_asStr t)
  | null | integer | real | blob => rfl

theorem word_putI64 (v : UInt64) : UInt64.ofNat (fromLittleEndian (putI64 v).reverse) = v := by
  rw [putI64, List.reverse_reverse, fromLittleEndian_littleEndian,
    Nat.mod_eq_of_lt (by have := v.toNat_lt; omega), UInt64.ofNat_toNat]

theorem payload_putVarint {payload : List UInt8} (fits : payload.length < 2 ^ 63) :
    (putVarint payload.length ++ payload).drop
      (getVarint (putVarint payload.length ++ payload)).2 = payload := by
  rw [header_putVarint (by omega) payload, List.drop_left]

/-- A written field holds its value. -/
theorem valueOf_fieldOf (v : Datum) : valueOf (fieldOf (some v.1)) = SessVal.ofValue v.1 := by
  obtain ⟨v, fits⟩ := v
  cases v with
  | null => rfl
  | integer i => exact congrArg SessVal.int (word_putI64 _)
  | real r => exact congrArg SessVal.real (word_putI64 _)
  | text t =>
    rw [Allocated, ← asStr_length] at fits
    exact congrArg SessVal.text (payload_putVarint fits)
  | blob b => exact congrArg SessVal.blob (payload_putVarint fits)

/-- What a value loses on its way through a record. -/
theorem toValue_field (v : Datum) :
    (valueOf (Field.of (some v)).1).toValue = some (shownValue v.1) := by
  rw [← SessVal.toValue_ofValue, ← valueOf_fieldOf]
  rfl

/-- A value is read back as it was, and what is read ends where it was written to. -/
structure Lossless (v : Datum) (suffix : List UInt8) : Prop where
  value : ∃ field, parseValue (fieldOf (some v.1) ++ suffix) 0 =
    .ok (field, (fieldOf (some v.1)).length) ∧ field.toValue = some v.1
  length : @serialLen String (fieldOf (some v.1) ++ suffix) = .ok (fieldOf (some v.1)).length
  varint : ∀ n : UInt64,
    getVarint (putVarint n.toNat ++ suffix) = (n.toNat, (putVarint n.toNat).length)

/-- Only texts that are no strings are lost. -/
theorem codec_lossless (v : Datum) (suffix : List UInt8)
    (fits : (fieldOf (some v.1) ++ suffix).length < 2 ^ 63) :
    Lossless v suffix ↔ Readable v.1 := by
  have read : parseValue (fieldOf (some v.1) ++ suffix) 0 =
      .ok (valueOf (fieldOf (some v.1)), (fieldOf (some v.1)).length) :=
    parseValue_field (Field.of (some v)) (by omega) rfl
  have shown := toValue_field v
  constructor
  · intro lossless
    obtain ⟨field, same, kept⟩ := lossless.value
    rw [read, Except.ok.injEq, Prod.mk.injEq] at same
    rw [← same.1] at kept
    exact shownValue_eq_self.mp (Option.some.inj (shown.symm.trans kept))
  · intro readable
    refine ⟨⟨_, read, ?_⟩, serialLen_field (Field.of (some v)) suffix, fun n => ?_⟩
    · rw [shownValue_eq_self.mpr readable] at shown
      exact shown
    · exact header_putVarint n.toNat_lt suffix

theorem codec_lossless_accent : Lossless ⟨.text [0xC3, 0xA9], by simp [Allocated]⟩ [0x05] :=
  (codec_lossless ⟨.text [0xC3, 0xA9], by simp [Allocated]⟩ [0x05] (by decide)).mpr (show validUtf8 _ = true by decide)

/-- The byte `C3` alone comes back as the mask. -/
theorem codec_masks : ¬ Lossless ⟨.text [0xC3], by simp [Allocated]⟩ [] := by
  intro lossless
  obtain ⟨field, read, kept⟩ := lossless.value
  have masked : parseValue (fieldOf (some (.text [0xC3])) ++ []) 0 = .ok (.text [0x1A], 3) := by
    decide
  rw [masked, Except.ok.injEq, Prod.mk.injEq] at read
  rw [← read.1] at kept
  exact absurd kept (by decide)

end RustSql.Session

namespace RustSql.Session

open RustSql.Foundation RustSql.Types

/-- Why a generation fails. -/
inductive GenError where
  | runtime (text : Name)
  | notFound (text : Name)
  | corruption (text : Name)
  | sql (text : Name)
deriving DecidableEq, Repr

def quoteIdent (name : Name) : Name :=
  0x22 :: name.flatMap (fun c => if c = 0x22 then [0x22, 0x22] else [c]) ++ [0x22]

/-- One equation of the WHERE clause: a column, and the number of its placeholder. -/
structure Term where
  column : Name
  number : Nat
deriving DecidableEq, Repr

/-- What a database makes of an equation: the values are bound by their numbers. -/
def Term.bound (term : Term) (vals : List Value) : Option Value := vals[term.number - 1]?

namespace SessionTable

/-- The equations of the WHERE clause; each flag has its name in `azCol`. -/
def whereTerms (t : SessionTable) : List Term :=
  (List.range t.abPk.length).filterMap fun i =>
    if t.abPk.getD i 0 ≠ 0 then some ⟨t.azCol.getD i [], i + 1⟩ else none

/-- The loop of `pk_values_of`, from a field on. -/
def pkValuesFrom (rec : List UInt8) : Nat → List UInt8 → Checked GenError (Option (List Value))
  | _, [] => .ok (some [])
  | pos, pk :: abPk => do
    match ← Checked.attempt (parseValue rec pos) with
    | none => .ok none
    | some (v, l) =>
      if pk ≠ 0 then
        match v.toValue with
        | none => .ok none
        | some x => do
          let vals ← pkValuesFrom rec (pos + l) abPk
          .ok (vals.map (x :: ·))
      else pkValuesFrom rec (pos + l) abPk

def pkValuesOf (t : SessionTable) (rec : List UInt8) : Checked GenError (Option (List Value)) :=
  pkValuesFrom rec 0 t.abPk

end SessionTable

/-- `values_equal`: texts by what `as_str` shows. -/
def valuesEqual : Value → Value → Bool
  | .null, .null => true
  | .integer x, .integer y => x == y
  | .real x, .real y => x.partialCmp y == some .eq
  | .text x, .text y => asStr x == asStr y
  | .blob x, .blob y => x == y
  | _, _ => false

/-- The places of the fields of a record, from one on. -/
def fieldSpans (rec : List UInt8) : Nat → Nat → Checked ε (List (Nat × Nat))
  | _, 0 => .ok []
  | pos, n + 1 => do
    let l ← serialLen (rec.drop pos)
    let next ← Checked.add pos l
    let spans ← fieldSpans rec next n
    .ok ((pos, l) :: spans)

/-- A stored field against the current value: what has no value counts as changed. -/
def differs (rec : List UInt8) (start : Nat) (current : Value) : Checked ε Bool := do
  match ← Checked.attempt (parseValue rec start) with
  | none => .ok true
  | some (v, _) =>
    match v.toValue with
    | none => .ok true
    | some old => .ok (!valuesEqual old current)

def indirectByte (indirect : Bool) : UInt8 := if indirect then 1 else 0

namespace SessionTable

variable (t : SessionTable)

/-- `append_table_hdr`. -/
def appendTableHdr (patchset : Bool) : List UInt8 :=
  (if patchset then 0x50 else 0x54) :: (putVarint t.nCol ++ t.abPk ++ t.name ++ [0])

def isKey (i : Nat) : Bool := t.abPk.getD i 0 != 0

/-- A field of the old record, copied as it is. -/
def oldField (rec : List UInt8) (spans : List (Nat × Nat)) (changed : List Bool) (i : Nat) :
    Checked ε (List UInt8) :=
  if t.isKey i ∨ changed.getD i false then
    let span := spans.getD i (0, 0)
    Checked.sliceRange rec span.1 (span.1 + span.2)
  else .ok [typeUndef]

def newField (patchset : Bool) (current : List Datum) (changed : List Bool) (i : Nat) : List UInt8 :=
  if changed.getD i false ∨ patchset ∧ t.isKey i then fieldOf (current[i]?.map Subtype.val)
  else [typeUndef]

/-- `append_update`; nothing when no field changed. -/
def appendUpdate (patchset : Bool) (entry : SessionChange) (current : List Datum) :
    Checked GenError (Option (List UInt8)) := do
  let spans ← fieldSpans entry.record 0 t.nCol
  let changed ← (spans.zip current).mapM fun (span, now) => differs entry.record span.1 now.1
  if changed.any id then
    let old ← if patchset then .ok [] else
      (List.range t.nCol).mapM (t.oldField entry.record spans changed)
    let new := (List.range t.nCol).flatMap (t.newField patchset current changed)
    .ok (some (Op.update.code :: indirectByte entry.indirect :: (old.flatten ++ new)))
  else .ok none

/-- The key fields of a record, from one on. -/
def keyBytes (rec : List UInt8) : Nat → List UInt8 → Checked ε (List UInt8)
  | _, [] => .ok []
  | pos, pk :: abPk => do
    let l ← serialLen (rec.drop pos)
    let next ← Checked.add pos l
    let field ← if pk ≠ 0 then Checked.sliceRange rec pos next else .ok []
    let rest ← keyBytes rec next abPk
    .ok (field ++ rest)

/-- `append_delete`. -/
def appendDelete (patchset : Bool) (entry : SessionChange) : Checked GenError (List UInt8) := do
  let rec ← if patchset then keyBytes entry.record 0 t.abPk else .ok entry.record
  .ok (Op.delete.code :: indirectByte entry.indirect :: rec)

def resolutionWidth : Name := ascii "session resolution width"

/-- What a change is written as, given the row of its key. -/
def emit (patchset : Bool) (entry : SessionChange) (current : Option (List Datum)) :
    Checked GenError (Option (List UInt8)) :=
  match entry.op, current with
  | .insert, some row =>
    if row.length ≠ t.nCol then Checked.fail (.corruption resolutionWidth)
    else .ok (some (Op.insert.code :: indirectByte entry.indirect ::
      row.flatMap fun v => fieldOf (some v.1)))
  | .insert, none => .ok none
  | _, some row =>
    if row.length ≠ t.nCol then Checked.fail (.corruption resolutionWidth)
    else t.appendUpdate patchset entry row
  | _, none => do
    let change ← t.appendDelete patchset entry
    .ok (some change)

theorem emit_insert {patchset : Bool} {entry : SessionChange} (kind : entry.op = .insert)
    (row : List Datum) :
    t.emit patchset entry (some row) =
      if row.length ≠ t.nCol then Checked.fail (.corruption resolutionWidth)
      else .ok (some (Op.insert.code :: indirectByte entry.indirect ::
        row.flatMap fun v => fieldOf (some v.1))) := by
  obtain ⟨op, indirect, record⟩ := entry
  cases kind
  rfl

theorem emit_current {patchset : Bool} {entry : SessionChange} (kind : entry.op ≠ .insert)
    (row : List Datum) :
    t.emit patchset entry (some row) =
      if row.length ≠ t.nCol then Checked.fail (.corruption resolutionWidth)
      else t.appendUpdate patchset entry row := by
  obtain ⟨op, indirect, record⟩ := entry
  cases op
  case insert => exact absurd rfl kind
  all_goals rfl

theorem emit_gone {patchset : Bool} {entry : SessionChange} (kind : entry.op ≠ .insert) :
    t.emit patchset entry none =
      t.appendDelete patchset entry >>= fun written => .ok (some written) := by
  obtain ⟨op, indirect, record⟩ := entry
  cases op
  case insert => exact absurd rfl kind
  all_goals rfl

/-- The buffer of a table: rewound when nothing is written under its header. -/
def generateTable (patchset : Bool)
    (resolve : SessionChange → Checked GenError (Option (Option (List Datum))))
    (entries : List SessionChange) : Checked GenError (List UInt8) := do
  let parts ← entries.mapM fun entry => do
    match ← resolve entry with
    | none => .ok none
    | some current => t.emit patchset entry current
  .ok (if parts.reduceOption = [] then []
    else t.appendTableHdr patchset ++ parts.reduceOption.flatten)

end SessionTable

end RustSql.Session
