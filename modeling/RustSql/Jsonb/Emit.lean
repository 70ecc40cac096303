import RustSql.Jsonb.Parser
import RustSql.Jsonb.ReaderAgreement

/-! The parser that writes JSONB without a tree. A container's header is one byte until
its payload is there. -/

namespace RustSql.Jsonb

open RustSql.Foundation RustSql.Types

def emitLit (lit : List UInt8) (typ : UInt8) (out : List UInt8) (p : JParser) :
    Except Nat (List UInt8 × JParser) :=
  if p.startsWith lit then .ok (out ++ [typ], p.advance lit.length) else .error p.err

/-- `open_container`: where the payload starts. -/
def openContainer (out : List UInt8) : List UInt8 × Nat := (out ++ [0], out.length + 1)

/-- `close_container`: the placeholder becomes the header's first byte, the others are
spliced in behind it. -/
def closeContainer (out : List UInt8) (start : Nat) (typ : UInt8) : List UInt8 :=
  let hdr := pushHeader typ (out.length - start)
  let out := out.set (start - 1) (hdr.headD 0)
  if hdr.length > 1 then out.take start ++ hdr.tail ++ out.drop start else out

def emitTok (out : List UInt8) : NumTok → List UInt8
  | .null => out ++ [Typ.code .null]
  | .payload kind text => out ++ pushHeader kind.code text.length ++ text

mutual

def emitValue (strict : Bool) : (fuel : Nat) → (out : List UInt8) → JParser →
    Except Nat (List UInt8 × JParser)
  | 0, _, p => .error p.err
  | fuel + 1, out, p =>
    let p := p.skipWs strict
    match p.peek with
    | none => .error p.err
    | some c =>
      if c = 0x7B then emitObject strict fuel out p
      else if c = 0x5B then emitArray strict fuel out p
      else if c = 0x22 then do
        let (kind, text, q) ← scanString strict 0x22 p
        return (out ++ pushHeader kind.code text.length ++ text, q)
      else if c = 0x27 ∧ !strict then do
        let (kind, text, q) ← scanString strict 0x27 p
        return (out ++ pushHeader kind.code text.length ++ text, q)
      else if c = 0x74 then emitLit (ascii "true") (Typ.code (.truth true)) out p
      else if c = 0x66 then emitLit (ascii "false") (Typ.code (.truth false)) out p
      else if c = 0x6E then emitLit (ascii "null") (Typ.code .null) out p
      else if c = 0x4E ∧ !strict then emitLit (ascii "NaN") (Typ.code .null) out p
      else if c = 0x49 ∧ !strict then
        if p.startsWith (ascii "Infinity") then
          .ok (out ++ pushHeader NumKind.float.code 5 ++ ascii "9e999", p.advance 8)
        else .error p.err
      else if startsNumber c then do
        let (tok, q) ← scanNumber strict p
        return (emitTok out tok, q)
      else .error p.err

def emitArray (strict : Bool) : (fuel : Nat) → (out : List UInt8) → JParser →
    Except Nat (List UInt8 × JParser)
  | 0, _, p => .error p.err
  | fuel + 1, out, p =>
    let (out, start) := openContainer out
    let p := (p.advance 1).skipWs strict
    if p.peek = some 0x5D then .ok (closeContainer out start (Typ.code .array), p.advance 1)
    else emitItems strict start fuel out p

/-- The items of an array from one of them on, up to and with the bracket. -/
def emitItems (strict : Bool) (start : Nat) : (fuel : Nat) → (out : List UInt8) → JParser →
    Except Nat (List UInt8 × JParser)
  | 0, _, p => .error p.err
  | fuel + 1, out, p => do
    let (out, q) ← emitValue strict fuel out p
    let q := q.skipWs strict
    if q.peek = some 0x2C then
      let q := (q.advance 1).skipWs strict
      if q.peek = some 0x5D ∧ !strict then
        return (closeContainer out start (Typ.code .array), q.advance 1)
      else emitItems strict start fuel out q
    else if q.peek = some 0x5D then
      return (closeContainer out start (Typ.code .array), q.advance 1)
    else .error q.err

def emitObject (strict : Bool) : (fuel : Nat) → (out : List UInt8) → JParser →
    Except Nat (List UInt8 × JParser)
  | 0, _, p => .error p.err
  | fuel + 1, out, p =>
    let (out, start) := openContainer out
    let p := (p.advance 1).skipWs strict
    if p.peek = some 0x7D then .ok (closeContainer out start (Typ.code .object), p.advance 1)
    else emitMembers strict start fuel out p

/-- The members of an object from one of them on, up to and with the brace. -/
def emitMembers (strict : Bool) (start : Nat) : (fuel : Nat) → (out : List UInt8) → JParser →
    Except Nat (List UInt8 × JParser)
  | 0, _, p => .error p.err
  | fuel + 1, out, p => do
    let (kind, text, q) ← scanKey strict (p.skipWs strict)
    let out := out ++ pushHeader kind.code text.length ++ text
    let q := q.skipWs strict
    if q.peek ≠ some 0x3A then .error q.err
    else do
      let (out, q) ← emitValue strict fuel out (q.advance 1)
      let q := q.skipWs strict
      if q.peek = some 0x2C then
        let q := (q.advance 1).skipWs strict
        if q.peek = some 0x7D ∧ !strict then
          return (closeContainer out start (Typ.code .object), q.advance 1)
        else emitMembers strict start fuel out q
      else if q.peek = some 0x7D then
        return (closeContainer out start (Typ.code .object), q.advance 1)
      else .error q.err

end

def parseLenientToJsonb (b : List UInt8) : Except Nat (List UInt8) := do
  let (out, p) ← emitValue false (parseFuel b) [] ⟨b, 0⟩
  let p := p.skipWs false
  if p.rest ≠ [] then .error p.err else return out

theorem closeContainer_eq (out payload : List UInt8) (typ : UInt8) :
    closeContainer (out ++ [0] ++ payload) (out.length + 1) typ =
      out ++ (pushHeader typ payload.length ++ payload) := by
  have length : (out ++ [0] ++ payload).length - (out.length + 1) = payload.length := by
    simp only [List.length_append, List.length_singleton]
    omega
  have header := length_pushHeader typ payload.length
  rw [closeContainer, length]
  cases split : pushHeader typ payload.length with
  | nil =>
    rw [split, List.length_nil] at header
    omega
  | cons first others =>
    have placed : (out ++ [0] ++ payload).set (out.length + 1 - 1) first = out ++ [first] ++ payload := by
      simp
    have front : out.length + 1 = (out ++ [first]).length := by simp
    simp only [List.headD_cons, List.tail_cons, placed]
    split
    · rw [front, List.take_left, List.drop_left]
      simp
    · rename_i short
      have none : others = [] := by
        rw [List.length_cons] at short
        exact List.length_eq_zero_iff.mp (by omega)
      simp [none]

theorem emitTok_eq (out : List UInt8) (tok : NumTok) : emitTok out tok = out ++ encodeElem tok.jb := by
  cases tok <;> simp [emitTok, NumTok.jb, encodeElem]

theorem string_eq (strict : Bool) (quote : UInt8) (out : List UInt8) (p : JParser) :
    (do
      let (kind, text, q) ← scanString strict quote p
      return (out ++ pushHeader kind.code text.length ++ text, q)) =
      (do
        let (kind, text, q) ← scanString strict quote p
        return (Jb.string kind text, q) : Except Nat (Jb × JParser)).map
          fun (t, q) => (out ++ encodeElem t, q) := by
  cases scanString strict quote p with
  | error e => rfl
  | ok found => simp [bind, Except.bind, pure, Except.pure, Except.map, encodeElem]

theorem lit_eq (lit : List UInt8) (v : Jb) {typ : UInt8} (out : List UInt8) (p : JParser)
    (encoded : encodeElem v = [typ]) :
    emitLit lit typ out p = (parseLit lit v p).map fun (t, q) => (out ++ encodeElem t, q) := by
  unfold emitLit parseLit
  split
  · rw [← encoded]
    rfl
  · rfl

theorem ite_map {α β : Type} {c : Prop} [Decidable c] {a b : Except Nat β} {x y : Except Nat α} {f : α → β}
    (taken : a = x.map f) (other : b = y.map f) : (if c then a else b) = (if c then x else y).map f := by
  split
  · exact taken
  · exact other

theorem emitValue_eq {strict : Bool} {fuel : Nat}
    (array : ∀ out p, emitArray strict fuel out p =
      (parseArray strict fuel p).map fun (t, q) => (out ++ encodeElem t, q))
    (object : ∀ out p, emitObject strict fuel out p =
      (parseObject strict fuel p).map fun (t, q) => (out ++ encodeElem t, q))
    (out : List UInt8) (p : JParser) : emitValue strict (fuel + 1) out p =
      (parseValue strict (fuel + 1) p).map fun (t, q) => (out ++ encodeElem t, q) := by
  rw [emitValue, parseValue]
  dsimp only
  cases (p.skipWs strict).peek with
  | none => rfl
  | some c =>
    refine ite_map (object _ _) ?_
    refine ite_map (array _ _) ?_
    refine ite_map (string_eq strict 0x22 out _) ?_
    refine ite_map (string_eq strict 0x27 out _) ?_
    refine ite_map (lit_eq _ _ out _ rfl) ?_
    refine ite_map (lit_eq _ _ out _ rfl) ?_
    refine ite_map (lit_eq _ _ out _ rfl) ?_
    refine ite_map (lit_eq _ _ out _ rfl) ?_
    refine ite_map ?_ ?_
    · rw [List.append_assoc]
      exact ite_map rfl rfl
    refine ite_map ?_ rfl
    cases scanNumber strict (p.skipWs strict) with
    | error e => rfl
    | ok found => exact congrArg (fun bytes => Except.ok (bytes, found.2)) (emitTok_eq out found.1)

theorem emit_eq (strict : Bool) (fuel : Nat) :
    (∀ out p, emitValue strict fuel out p =
      (parseValue strict fuel p).map fun (t, q) => (out ++ encodeElem t, q)) ∧
    (∀ out p, emitArray strict fuel out p =
      (parseArray strict fuel p).map fun (t, q) => (out ++ encodeElem t, q)) ∧
    (∀ start out p, emitItems strict start fuel out p =
      (parseItems strict fuel p).map fun (items, q) =>
        (closeContainer (out ++ encodeItems items) start (Typ.code .array), q)) ∧
    (∀ out p, emitObject strict fuel out p =
      (parseObject strict fuel p).map fun (t, q) => (out ++ encodeElem t, q)) ∧
    (∀ start out p, emitMembers strict start fuel out p =
      (parseMembers strict fuel p).map fun (pairs, q) =>
        (closeContainer (out ++ encodePairs pairs) start (Typ.code .object), q)) := by
  induction fuel with
  | zero =>
    refine ⟨?_, ?_, ?_, ?_, ?_⟩ <;> intros <;>
      simp only [emitValue, parseValue, emitArray, parseArray, emitItems, parseItems, emitObject,
        parseObject, emitMembers, parseMembers, Except.map]
  | succ fuel ih =>
    obtain ⟨value, array, items, object, members⟩ := ih
    refine ⟨emitValue_eq array object, ?_, ?_, ?_, ?_⟩
    · intro out p
      rw [emitArray, parseArray]
      refine ite_map (congrArg (fun bytes => Except.ok (bytes, _))
        (by simpa [encodeElem, encodeItems] using closeContainer_eq out [] _)) ?_
      rw [items]
      cases parseItems strict fuel ((p.advance 1).skipWs strict) with
      | error e => rfl
      | ok found =>
        exact congrArg (fun bytes => Except.ok (bytes, found.2)) (closeContainer_eq out _ _)
    · intro start out p
      rw [emitItems, parseItems, value]
      cases parseValue strict fuel p with
      | error e => rfl
      | ok found =>
        obtain ⟨v, q⟩ := found
        refine ite_map (ite_map ?_ ?_) (ite_map ?_ rfl)
        · simp [encodeItems, pure, Except.pure, Except.map]
        · rw [items]
          cases parseItems strict fuel (((q.skipWs strict).advance 1).skipWs strict) with
          | error e => rfl
          | ok found => simp [encodeItems, Except.map, bind, Except.bind, pure, Except.pure]
        · simp [encodeItems, pure, Except.pure, Except.map]
    · intro out p
      rw [emitObject, parseObject]
      refine ite_map (congrArg (fun bytes => Except.ok (bytes, _))
        (by simpa [encodeElem, encodePairs] using closeContainer_eq out [] _)) ?_
      rw [members]
      cases parseMembers strict fuel ((p.advance 1).skipWs strict) with
      | error e => rfl
      | ok found =>
        exact congrArg (fun bytes => Except.ok (bytes, found.2)) (closeContainer_eq out _ _)
    · intro start out p
      rw [emitMembers, parseMembers]
      cases scanKey strict (p.skipWs strict) with
      | error e => rfl
      | ok key =>
        obtain ⟨kind, text, q⟩ := key
        refine ite_map rfl ?_
        rw [value]
        cases parseValue strict fuel ((q.skipWs strict).advance 1) with
        | error e => rfl
        | ok found =>
          obtain ⟨v, r⟩ := found
          refine ite_map (ite_map ?_ ?_) (ite_map ?_ rfl)
          · simp [encodePairs, encodeElem, pure, Except.pure, Except.map]
          · rw [members]
            cases parseMembers strict fuel (((r.skipWs strict).advance 1).skipWs strict) with
            | error e => rfl
            | ok found => simp [encodePairs, encodeElem, Except.map, bind, Except.bind, pure, Except.pure]
          · simp [encodePairs, encodeElem, pure, Except.pure, Except.map]

end RustSql.Jsonb
