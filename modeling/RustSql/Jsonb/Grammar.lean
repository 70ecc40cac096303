import RustSql.Jsonb.Reading

/-! The grammar of RFC 8259 with the tree of every text, and that the strict parser
accepts exactly its documents. The lenient parser makes the same tree of them. -/

namespace RustSql.Jsonb

namespace Rfc

/-- Whitespace: spaces, tabs and line ends. -/
def Ws (text : List UInt8) : Prop := ∀ b ∈ text, isWs b = true

/-- What may stand between the quotes of a string. -/
inductive StringBody : List UInt8 → Prop
  | nil : StringBody []
  | plain {c rest} (printable : 0x20 ≤ c) (notQuote : c ≠ 0x22) (notBackslash : c ≠ 0x5C)
      (behind : StringBody rest) : StringBody (c :: rest)
  | escape {e rest} (known : e ∈ ascii "\"\\/bfnrt") (behind : StringBody rest) :
      StringBody (0x5C :: e :: rest)
  | unicode {ds rest} (four : ds.length = 4) (hex : ∀ b ∈ ds, isHexDigit b = true)
      (behind : StringBody rest) : StringBody (0x5C :: 0x75 :: (ds ++ rest))

/-- A string keeps its text, and whether there are escapes in it. -/
def string (body : List UInt8) : Jb := .string (if 0x5C ∈ body then .textJ else .text) body

/-- A minus sign or none, digits without leading zeros, and digits in the fraction and the
exponent when these are there. -/
structure Number (d : Decimal) : Prop where
  sign : d.sign = [] ∨ d.sign = [0x2D]
  int : d.int ≠ [] ∧ ∀ b ∈ d.int, isDigit b = true
  noLeadingZero : 1 < d.int.length → d.int.head? ≠ some 0x30
  frac : ∀ ds ∈ d.frac, ds ≠ [] ∧ ∀ b ∈ ds, isDigit b = true
  exp : ∀ e sign ds, d.exp = some (e, sign, ds) →
    (e = 0x65 ∨ e = 0x45) ∧ (sign = [] ∨ sign = [0x2D] ∨ sign = [0x2B]) ∧
      ds ≠ [] ∧ ∀ b ∈ ds, isDigit b = true

/-- A number keeps its text, and whether it is an integer. -/
def number (d : Decimal) : Jb :=
  .number (if d.frac.isSome || d.exp.isSome then .float else .int) d.text

mutual

inductive Value : List UInt8 → Jb → Prop
  | nullText : Value (ascii "null") .null
  | trueText : Value (ascii "true") (.truth true)
  | falseText : Value (ascii "false") (.truth false)
  | number {d} (formed : Number d) : Value d.text (number d)
  | string {body} (between : StringBody body) : Value ([0x22] ++ body ++ [0x22]) (string body)
  | emptyArray {spaces} (ws : Ws spaces) : Value ([0x5B] ++ spaces ++ [0x5D]) (.array [])
  | array {text items} (inner : Elements text items) : Value ([0x5B] ++ text ++ [0x5D]) (.array items)
  | emptyObject {spaces} (ws : Ws spaces) : Value ([0x7B] ++ spaces ++ [0x7D]) (.object [])
  | object {text pairs} (inner : Members text pairs) :
      Value ([0x7B] ++ text ++ [0x7D]) (.object pairs)

/-- Values with whitespace around each of them and commas between them. -/
inductive Elements : List UInt8 → List Jb → Prop
  | one {l text v r} (left : Ws l) (value : Value text v) (right : Ws r) :
      Elements (l ++ text ++ r) [v]
  | more {l text v r rest items} (left : Ws l) (value : Value text v) (right : Ws r)
      (others : Elements rest items) : Elements (l ++ text ++ r ++ [0x2C] ++ rest) (v :: items)

/-- Strings, colons and values. -/
inductive Members : List UInt8 → List (Jb × Jb) → Prop
  | one {l key m n text v r} (left : Ws l) (named : StringBody key) (before : Ws m) (behind : Ws n)
      (value : Value text v) (right : Ws r) :
      Members (l ++ ([0x22] ++ key ++ [0x22]) ++ m ++ [0x3A] ++ n ++ text ++ r) [(Rfc.string key, v)]
  | more {l key m n text v r rest pairs} (left : Ws l) (named : StringBody key) (before : Ws m)
      (behind : Ws n) (value : Value text v) (right : Ws r) (others : Members rest pairs) :
      Members (l ++ ([0x22] ++ key ++ [0x22]) ++ m ++ [0x3A] ++ n ++ text ++ r ++ [0x2C] ++ rest)
        ((Rfc.string key, v) :: pairs)

end

/-- A value with whitespace around it. -/
def Document (b : List UInt8) (t : Jb) : Prop :=
  ∃ l text r, b = l ++ text ++ r ∧ Ws l ∧ Value text t ∧ Ws r

end Rfc

open Rfc

theorem isPlainEscape_iff (e : UInt8) : isPlainEscape e = true ↔ e ∈ ascii "\"\\/bfnrt" := by
  simp [isPlainEscape, ascii, or_assoc]

theorem stringBody_of_spelled {ps : List Piece} (spelled : Spelled true 0x22 ps) :
    StringBody (piecesText ps) := by
  induction ps with
  | nil => exact .nil
  | cons p ps ih =>
    obtain ⟨good, _, others⟩ := spelled
    rw [piecesText_cons]
    cases p with
    | plain c => exact .plain (good.2.2.2 rfl) good.1 good.2.1 (ih others)
    | escape e => exact .escape ((isPlainEscape_iff e).mp good) (ih others)
    | unicode ds => exact .unicode good.1 good.2 (ih others)
    | hex ds => cases good.1
    | char e => cases good.1
    | joined line => cases good.1

/-- The pieces of a string, of which one is an escape when there is a backslash. -/
theorem spelled_of_stringBody {body : List UInt8} (between : StringBody body) :
    ∃ ps, Spelled true 0x22 ps ∧ piecesText ps = body := by
  induction between with
  | nil => exact ⟨[], trivial, rfl⟩
  | @plain c rest printable notQuote notBackslash _ ih =>
    obtain ⟨ps, spelled, rfl⟩ := ih
    have notNul : c ≠ 0 := by
      rintro rfl
      exact absurd printable (by decide)
    exact ⟨.plain c :: ps, ⟨⟨notQuote, notBackslash, notNul, fun _ => printable⟩, trivial, spelled⟩, rfl⟩
  | @escape e rest known _ ih =>
    obtain ⟨ps, spelled, rfl⟩ := ih
    exact ⟨.escape e :: ps, ⟨(isPlainEscape_iff e).mpr known, trivial, spelled⟩, rfl⟩
  | @unicode ds rest four hex _ ih =>
    obtain ⟨ps, spelled, rfl⟩ := ih
    exact ⟨.unicode ds :: ps, ⟨⟨four, hex⟩, trivial, spelled⟩, rfl⟩

theorem string_of_spelled {ps : List Piece} (spelled : Spelled true 0x22 ps) :
    Jb.string (stringKind (ps.any Piece.escaped) false) (piecesText ps) = Rfc.string (piecesText ps) := by
  have backslash : ps.any Piece.escaped = decide (0x5C ∈ piecesText ps) := by
    induction ps with
    | nil => rfl
    | cons p ps ih =>
      obtain ⟨good, _, others⟩ := spelled
      rw [piecesText_cons, List.any_cons, ih others]
      cases p with
      | plain c => simp [Piece.escaped, Piece.text, good.2.1.symm]
      | _ => simp [Piece.escaped, Piece.text]
  rw [Rfc.string, backslash]
  by_cases escaped : 0x5C ∈ piecesText ps <;> simp [stringKind, escaped]

theorem number_iff (d : Decimal) : Number d ↔ d.Formed ∧ d.canonical = true := by
  constructor
  · rintro ⟨sign, int, zero, frac, exp⟩
    refine ⟨⟨?_, int.2, fun ds is => (frac ds is).2, ?_, fun none => absurd none int.1, zero⟩, ?_⟩
    · exact sign.imp_right .inl
    · intro e sign ds is
      obtain ⟨letter, signed, filled, all⟩ := exp e sign ds is
      exact ⟨letter, signed, all, filled⟩
    · have noPlus : d.sign ≠ [0x2B] := by
        rcases sign with is | is <;> rw [is] <;> decide
      have filled : d.frac ≠ some [] := fun is => (frac [] is).1 rfl
      simp [Decimal.canonical, noPlus, int.1, filled]
  · rintro ⟨formed, canonical⟩
    simp only [Decimal.canonical, Bool.and_eq_true, bne_iff_ne, ne_eq] at canonical
    obtain ⟨⟨noPlus, some_⟩, filled⟩ := canonical
    refine ⟨?_, ⟨some_, formed.int⟩, formed.noLeadingZero, ?_, ?_⟩
    · rcases formed.sign with none | minus | plus
      · exact .inl none
      · exact .inr minus
      · exact absurd plus noPlus
    · intro ds is
      exact ⟨fun empty => filled (empty ▸ is), formed.frac ds is⟩
    · intro e sign ds is
      obtain ⟨letter, signed, all, filled⟩ := formed.exp e sign ds is
      exact ⟨letter, signed, filled, all⟩

theorem number_tok {d : Decimal} (canonical : d.canonical = true) : d.tok.jb = Rfc.number d := by
  have noPlus : d.sign ≠ [0x2B] := by
    rintro plus
    simp [Decimal.canonical, plus] at canonical
  simp [Decimal.tok, NumTok.jb, Decimal.kind, Decimal.payload, Rfc.number, canonical, noPlus]

section Soundness

variable {p q : JParser}

theorem skipWs_ws (p : JParser) : ∃ spaces, Ws spaces ∧ Took p spaces (p.skipWs true) := by
  obtain ⟨run, all, took, _⟩ := run_took isWs p
  rw [skipWs_strict]
  exact ⟨run, all, took⟩

theorem ws_append {xs ys : List UInt8} (left : Ws xs) (right : Ws ys) : Ws (xs ++ ys) :=
  List.forall_mem_append.mpr ⟨left, right⟩

theorem Rfc.Elements.spaced {spaces text : List UInt8} {items : List Jb} (ws : Ws spaces)
    (elements : Elements text items) : Elements (spaces ++ text) items := by
  cases elements with
  | one left value right =>
    simp only [List.append_assoc]
    simpa only [List.append_assoc] using Elements.one (ws_append ws left) value right
  | more left value right others =>
    simpa only [List.append_assoc] using Elements.more (ws_append ws left) value right others

theorem Rfc.Members.spaced {spaces text : List UInt8} {pairs : List (Jb × Jb)} (ws : Ws spaces)
    (members : Members text pairs) : Members (spaces ++ text) pairs := by
  cases members with
  | one left named before behind value right =>
    simpa only [List.append_assoc] using
      Members.one (ws_append ws left) named before behind value right
  | more left named before behind value right others =>
    simpa only [List.append_assoc] using
      Members.more (ws_append ws left) named before behind value right others

theorem literal_value {lit : List UInt8} {v : Jb} (known : (lit, v) ∈ literals true) : Value lit v := by
  have values : (lit = ascii "true" ∧ v = .truth true) ∨ (lit = ascii "false" ∧ v = .truth false) ∨
      (lit = ascii "null" ∧ v = .null) := by
    simpa [literals] using known
  rcases values with ⟨rfl, rfl⟩ | ⟨rfl, rfl⟩ | ⟨rfl, rfl⟩
  · exact .trueText
  · exact .falseText
  · exact .nullText

theorem scanString_value {kind : StrKind} {text : List UInt8}
    (scanned : scanString true 0x22 p = .ok (kind, text, q)) :
    StringBody text ∧ Jb.string kind text = Rfc.string text ∧ Took p ([0x22] ++ text ++ [0x22]) q := by
  obtain ⟨ps, spelled, rfl, rfl, took⟩ := scanString_took scanned
  rw [spelled.rfc, string_of_spelled spelled]
  exact ⟨stringBody_of_spelled spelled, rfl, took⟩

theorem scanKey_value {kind : StrKind} {text : List UInt8}
    (scanned : scanKey true p = .ok (kind, text, q)) :
    StringBody text ∧ Jb.string kind text = Rfc.string text ∧ Took p ([0x22] ++ text ++ [0x22]) q := by
  unfold scanKey at scanned
  split at scanned
  · exact scanString_value scanned
  · cases scanned

theorem scanNumber_value {tok : NumTok} (scanned : scanNumber true p = .ok (tok, q)) :
    ∃ text, Value text tok.jb ∧ Took p text q := by
  obtain ⟨taken, number, took⟩ := scanNumber_took scanned
  cases number with
  | @decimal d formed canonical =>
    refine ⟨d.text, ?_, took⟩
    rw [number_tok (canonical rfl)]
    exact .number ((number_iff d).mpr ⟨formed, canonical rfl⟩)
  | hex lenient => cases lenient
  | infinity lenient => cases lenient
  | nan lenient => cases lenient

mutual

theorem ReadsValue.value {p q : JParser} {v : Jb} : ReadsValue true p v q →
    ∃ spaces text, Ws spaces ∧ Value text v ∧ Took p (spaces ++ text) q
  | .literal known starts => by
    obtain ⟨spaces, ws, took⟩ := skipWs_ws p
    exact ⟨spaces, _, ws, literal_value known, took_append took (took_startsWith starts)⟩
  | .string quoted scanned => by
    rcases quoted with rfl | ⟨_, lenient⟩
    · obtain ⟨spaces, ws, took⟩ := skipWs_ws p
      obtain ⟨between, is, behind⟩ := scanString_value scanned
      rw [is]
      exact ⟨spaces, _, ws, .string between, took_append took behind⟩
    · cases lenient
  | .number _ _ scanned => by
    obtain ⟨spaces, ws, took⟩ := skipWs_ws p
    obtain ⟨text, value, behind⟩ := scanNumber_value scanned
    exact ⟨spaces, text, ws, value, took_append took behind⟩
  | .emptyArray opens closes => by
    obtain ⟨spaces, ws, took⟩ := skipWs_ws p
    obtain ⟨inside, ws', took'⟩ := skipWs_ws ((p.skipWs true).advance 1)
    exact ⟨spaces, _, ws, .emptyArray ws', took_append took
      (took_append (took_append (took_peek opens) took') (took_peek closes))⟩
  | .array opens _ inner => by
    obtain ⟨spaces, ws, took⟩ := skipWs_ws p
    obtain ⟨inside, ws', took'⟩ := skipWs_ws ((p.skipWs true).advance 1)
    obtain ⟨text, elements, behind⟩ := inner.elements
    refine ⟨spaces, _, ws, .array (elements.spaced ws'), took_append took ?_⟩
    simpa only [List.append_assoc] using
      took_append (took_append (took_peek opens) took') behind
  | .emptyObject opens closes => by
    obtain ⟨spaces, ws, took⟩ := skipWs_ws p
    obtain ⟨inside, ws', took'⟩ := skipWs_ws ((p.skipWs true).advance 1)
    exact ⟨spaces, _, ws, .emptyObject ws', took_append took
      (took_append (took_append (took_peek opens) took') (took_peek closes))⟩
  | .object opens _ inner => by
    obtain ⟨spaces, ws, took⟩ := skipWs_ws p
    obtain ⟨inside, ws', took'⟩ := skipWs_ws ((p.skipWs true).advance 1)
    obtain ⟨text, members, behind⟩ := inner.members
    refine ⟨spaces, _, ws, .object (members.spaced ws'), took_append took ?_⟩
    simpa only [List.append_assoc] using
      took_append (took_append (took_peek opens) took') behind

theorem ReadsItems.elements {p q : JParser} {items : List Jb} : ReadsItems true p items q →
    ∃ text, Elements text items ∧ Took p (text ++ [0x5D]) q
  | .last (q := r) value closes => by
    obtain ⟨left, text, ws, value, took⟩ := value.value
    obtain ⟨right, ws', took'⟩ := skipWs_ws r
    exact ⟨_, .one ws value ws', took_append (took_append took took') (took_peek closes)⟩
  | .more (q := r) value comma _ others => by
    obtain ⟨left, text, ws, value, took⟩ := value.value
    obtain ⟨right, ws', took'⟩ := skipWs_ws r
    obtain ⟨spaces, ws'', took''⟩ := skipWs_ws ((r.skipWs true).advance 1)
    obtain ⟨rest, elements, behind⟩ := others.elements
    refine ⟨_, .more ws value ws' (elements.spaced ws''), ?_⟩
    simpa only [List.append_assoc] using
      took_append (took_append took took') (took_append (took_append (took_peek comma) took'') behind)

theorem ReadsMembers.members {p q : JParser} {pairs : List (Jb × Jb)} : ReadsMembers true p pairs q →
    ∃ text, Members text pairs ∧ Took p (text ++ [0x7D]) q
  | .last (k := k) (q := r) key colon value closes => by
    obtain ⟨left, ws, took⟩ := skipWs_ws p
    obtain ⟨named, is, keyTook⟩ := scanKey_value key
    obtain ⟨before, ws₁, took₁⟩ := skipWs_ws k
    obtain ⟨behind, text, ws₂, value, took₂⟩ := value.value
    obtain ⟨right, ws₃, took₃⟩ := skipWs_ws r
    rw [is]
    refine ⟨_, .one ws named ws₁ ws₂ value ws₃, ?_⟩
    simpa only [List.append_assoc] using
      took_append (took_append (took_append took keyTook) (took_append took₁ (took_peek colon)))
        (took_append (took_append took₂ took₃) (took_peek closes))
  | .more (k := k) (q := r) key colon value comma _ others => by
    obtain ⟨left, ws, took⟩ := skipWs_ws p
    obtain ⟨named, is, keyTook⟩ := scanKey_value key
    obtain ⟨before, ws₁, took₁⟩ := skipWs_ws k
    obtain ⟨behind, text, ws₂, value, took₂⟩ := value.value
    obtain ⟨right, ws₃, took₃⟩ := skipWs_ws r
    obtain ⟨spaces, ws₄, took₄⟩ := skipWs_ws ((r.skipWs true).advance 1)
    obtain ⟨rest, members, took₅⟩ := others.members
    rw [is]
    refine ⟨_, .more ws named ws₁ ws₂ value ws₃ (members.spaced ws₄), ?_⟩
    simpa only [List.append_assoc] using
      took_append (took_append (took_append took keyTook) (took_append took₁ (took_peek colon)))
        (took_append (took_append took₂ took₃)
          (took_append (took_append (took_peek comma) took₄) took₅))

end

end Soundness

section Completeness

variable {strict : Bool}

/-- A byte that is neither whitespace nor the first of whitespace or a comment of JSON5. -/
def isToken (b : UInt8) : Bool := 0x20 < b && b < 0x80 && b != 0x2F

/-- The first byte of a value. -/
def startsValue (b : UInt8) : Bool :=
  b == 0x22 || b == 0x5B || b == 0x7B || b == 0x74 || b == 0x66 || b == 0x6E || b == 0x2D || isDigit b

theorem startsValue_token {b : UInt8} (starts : startsValue b = true) :
    isToken b = true ∧ b ≠ 0x5D ∧ b ≠ 0x7D := by
  grind [startsValue, isToken, isDigit]

theorem isToken_solid {b : UInt8} (token : isToken b = true) (rest : List UInt8) :
    isWs b = false ∧ json5WsLen (b :: rest) = 0 := by
  have bytes : isToken b = true → isWs b = false ∧
      b ∉ [0x0B, 0x0C, 0x2F, 0xC2, 0xE1, 0xE2, 0xE3, 0xEF] :=
    Foundation.forall_byte (by decide +kernel) b
  obtain ⟨solid, other⟩ := bytes token
  simp only [List.mem_cons, List.not_mem_nil, or_false, not_or] at other
  refine ⟨solid, ?_⟩
  unfold json5WsLen
  split <;> simp_all

theorem skipWs_run {spaces rest : List UInt8} {pos : Nat} (ws : Ws spaces)
    (token : ∀ b ∈ rest.head?, isToken b = true) :
    (⟨spaces ++ rest, pos⟩ : JParser).skipWs strict = ⟨rest, pos + spaces.length⟩ := by
  have solid : ∀ b ∈ rest.head?, isWs b = false :=
    fun b first => (isToken_solid (token b first) []).1
  have skipped : (⟨spaces ++ rest, pos⟩ : JParser).skipSpaces = ⟨rest, pos + spaces.length⟩ := by
    rw [JParser.skipSpaces, takeWhile_run ws solid, advance_mk]
  have none : json5WsLen rest = 0 := by
    cases rest with
    | nil => rfl
    | cons b rest => exact (isToken_solid (token b rfl) rest).2
  unfold JParser.skipWs
  cases (⟨spaces ++ rest, pos⟩ : JParser).rest.length with
  | zero => exact skipped
  | succ fuel =>
    rw [skipWsFrom, skipped]
    dsimp only
    rw [none]
    split <;> rfl

/-- Whitespace in front of a token is skipped. -/
theorem skipWs_rest {p : JParser} {spaces rest : List UInt8} (input : p.rest = spaces ++ rest)
    (ws : Ws spaces) (token : ∀ b ∈ rest.head?, isToken b = true) :
    p.skipWs strict = ⟨rest, p.pos + spaces.length⟩ := by
  obtain ⟨_, pos⟩ := p
  dsimp only at input
  rw [input]
  exact skipWs_run ws token

theorem ws_continues {spaces rest : List UInt8} (ws : Ws spaces)
    (ends : ∀ b ∈ rest.head?, continuesNumber b = false) :
    ∀ b ∈ (spaces ++ rest).head?, continuesNumber b = false := by
  cases spaces with
  | nil => exact ends
  | cons b spaces =>
    rintro _ ⟨⟩
    have bytes : isWs b = true → continuesNumber b = false := Foundation.forall_byte (by decide +kernel) b
    exact bytes (ws b List.mem_cons_self)

theorem number_first {d : Decimal} (formed : Number d) :
    ∃ b tail, d.text = b :: tail ∧ (isDigit b = true ∨ b = 0x2D) := by
  obtain ⟨b, tail, int⟩ := List.exists_cons_of_ne_nil formed.int.1
  rcases formed.sign with none | minus
  · refine ⟨b, tail ++ (fracText d.frac ++ expText d.exp), ?_, .inl ?_⟩
    · rw [Decimal.text, Decimal.body, none, int]
      rfl
    · exact formed.int.2 b (by rw [int]; exact List.mem_cons_self)
  · exact ⟨0x2D, d.body, by rw [Decimal.text, minus]; rfl, .inr rfl⟩

theorem Rfc.Value.first {text : List UInt8} {v : Jb} (value : Value text v) :
    ∃ b tail, text = b :: tail ∧ startsValue b = true := by
  cases value with
  | nullText | trueText | falseText => exact ⟨_, _, rfl, by decide⟩
  | number formed =>
    obtain ⟨b, tail, text, first⟩ := number_first formed
    exact ⟨b, tail, text, by rcases first with digit | rfl <;> simp [startsValue, *]⟩
  | string | emptyArray | array | emptyObject | object => exact ⟨_, _, rfl, by decide⟩

theorem Rfc.Value.token {text rest : List UInt8} {v : Jb} (value : Value text v) :
    ∀ b ∈ (text ++ rest).head?, isToken b = true ∧ b ≠ 0x5D ∧ b ≠ 0x7D := by
  obtain ⟨b, tail, rfl, starts⟩ := value.first
  rintro _ ⟨⟩
  exact startsValue_token starts

theorem scanString_body {p : JParser} {body rest : List UInt8} (between : StringBody body)
    (input : p.rest = [0x22] ++ body ++ [0x22] ++ rest) :
    ∃ kind q, scanString strict 0x22 p = .ok (kind, body, q) ∧ q.rest = rest ∧
      Jb.string kind body = Rfc.string body := by
  obtain ⟨ps, spelled, rfl⟩ := spelled_of_stringBody between
  obtain ⟨_, pos⟩ := p
  dsimp only at input
  subst input
  exact ⟨_, _, scanString_run spelled, rfl, string_of_spelled spelled⟩

/-- Where a byte that is no whitespace stands behind whitespace. -/
theorem skipWs_byte {p : JParser} {spaces rest : List UInt8} {b : UInt8}
    (input : p.rest = spaces ++ b :: rest) (ws : Ws spaces) (token : isToken b = true) :
    (p.skipWs strict).rest = b :: rest ∧ (p.skipWs strict).peek = some b ∧
      ((p.skipWs strict).advance 1).rest = rest := by
  have token : ∀ c ∈ (b :: rest).head?, isToken c = true := by
    rintro _ ⟨⟩
    exact token
  rw [skipWs_rest input ws token]
  exact ⟨rfl, rfl, rfl⟩

/-- The whitespace in front of an element, which is not the array's end. -/
theorem element_opens {p : JParser} {l text rest : List UInt8} {v : Jb} (left : Ws l)
    (value : Value text v) (input : p.rest = l ++ (text ++ rest)) :
    (p.skipWs strict).rest = text ++ rest ∧ (p.skipWs strict).peek ≠ some 0x5D := by
  have token := @Rfc.Value.token _ rest _ value
  rw [skipWs_rest input left fun b first => (token b first).1]
  exact ⟨rfl, fun closes => (token _ closes).2.1 rfl⟩

/-- A key in quotes and the colon behind it: the parser does not see the object's end, scans the
key and comes to what follows. -/
theorem scanKey_named {p : JParser} {l key m rest : List UInt8} (left : Ws l)
    (named : StringBody key) (before : Ws m)
    (input : p.rest = l ++ 0x22 :: (key ++ 0x22 :: (m ++ 0x3A :: rest))) :
    (p.skipWs strict).peek ≠ some 0x7D ∧ ∃ kind k,
      scanKey strict ((p.skipWs strict).skipWs strict) = .ok (kind, key, k) ∧
      Jb.string kind key = Rfc.string key ∧ (k.skipWs strict).peek = some 0x3A ∧
      ((k.skipWs strict).advance 1).rest = rest := by
  obtain ⟨quoted, opens, _⟩ := @skipWs_byte strict _ _ _ _ input left (by decide)
  obtain ⟨again, next, _⟩ := @skipWs_byte strict _ [] _ _ quoted nofun (by decide)
  obtain ⟨kind, k, scanned, behind, is⟩ := @scanString_body strict
    ((p.skipWs strict).skipWs strict) key (m ++ 0x3A :: rest) named (by simp [again])
  obtain ⟨_, colon, following⟩ := @skipWs_byte strict _ _ _ _ behind before (by decide)
  refine ⟨?_, kind, k, ?_, is, colon, following⟩
  · rw [opens]
    decide
  · rw [scanKey, if_pos next, scanned]

theorem literal_reads {p : JParser} {lit spaces rest : List UInt8} {v : Jb}
    (known : (lit, v) ∈ literals strict) (input : p.rest = spaces ++ lit ++ rest) (ws : Ws spaces)
    (token : ∀ b ∈ (lit ++ rest).head?, isToken b = true) :
    ∃ q, q.rest = rest ∧ ReadsValue strict p v q := by
  rw [List.append_assoc] at input
  have skipped := @skipWs_rest strict _ _ _ input ws token
  have starts : (p.skipWs strict).startsWith lit = true := by
    rw [skipped]
    exact List.isPrefixOf_iff_prefix.mpr (List.prefix_append lit rest)
  refine ⟨_, ?_, .literal known starts⟩
  rw [skipped, advance_mk]

mutual

theorem Rfc.Value.reads {text : List UInt8} {v : Jb} : Value text v → ∀ (p : JParser) spaces rest,
    p.rest = spaces ++ text ++ rest → Ws spaces → (∀ b ∈ rest.head?, continuesNumber b = false) →
    ∃ q, q.rest = rest ∧ ReadsValue strict p v q
  | .nullText, p, spaces, rest, input, ws, _ =>
    literal_reads (by simp [literals]) input ws fun b first => (Value.nullText.token b first).1
  | .trueText, p, spaces, rest, input, ws, _ =>
    literal_reads (by simp [literals]) input ws fun b first => (Value.trueText.token b first).1
  | .falseText, p, spaces, rest, input, ws, _ =>
    literal_reads (by simp [literals]) input ws fun b first => (Value.falseText.token b first).1
  | .number (d := d) formed, p, spaces, rest, input, ws, ends => by
    obtain ⟨decimal, canonical⟩ := (number_iff d).mp formed
    obtain ⟨b, tail, text, first⟩ := number_first formed
    have token := fun b first => (@Rfc.Value.token _ rest _ (.number formed) b first).1
    rw [List.append_assoc] at input
    have skipped := @skipWs_rest strict _ _ _ input ws token
    have scanned := @scanNumber_decimal strict _ _ (p.pos + spaces.length) decimal
        (fun _ => canonical) ends
    rw [← skipped] at scanned
    have next : (p.skipWs strict).peek = some b := by
      rw [skipped, text]
      rfl
    have starts : startsNumber b = true := by
      rcases first with digit | rfl <;> simp [startsNumber, *]
    rw [← number_tok canonical]
    exact ⟨_, rfl, .number next starts scanned⟩
  | .string between, p, spaces, rest, input, ws, _ => by
    have value := Value.string between
    have token := fun b first => (@Rfc.Value.token _ rest _ value b first).1
    rw [List.append_assoc] at input
    have skipped := @skipWs_rest strict _ _ _ input ws token
    obtain ⟨kind, q, scanned, behind, is⟩ := @scanString_body strict (p.skipWs strict) _ _
        between (by rw [skipped])
    rw [← is]
    exact ⟨q, behind, .string (.inl rfl) scanned⟩
  | @Value.emptyArray inside inner, p, spaces, rest, input, ws, _ => by
    have input : p.rest = spaces ++ 0x5B :: (inside ++ 0x5D :: rest) := by simp [input]
    obtain ⟨_, opens, behind⟩ := @skipWs_byte strict _ _ _ _ input ws (by decide)
    obtain ⟨_, closes, rest_⟩ := @skipWs_byte strict _ _ _ _ behind inner (by decide)
    exact ⟨_, rest_, .emptyArray opens closes⟩
  | @Value.array inside _ inner, p, spaces, rest, input, ws, _ => by
    have input : p.rest = spaces ++ 0x5B :: (inside ++ 0x5D :: rest) := by simp [input]
    obtain ⟨_, opens, behind⟩ := @skipWs_byte strict _ _ _ _ input ws (by decide)
    obtain ⟨filled, q, rest_, items⟩ := inner.reads _ rest behind
    exact ⟨q, rest_, .array opens filled items⟩
  | @Value.emptyObject inside inner, p, spaces, rest, input, ws, _ => by
    have input : p.rest = spaces ++ 0x7B :: (inside ++ 0x7D :: rest) := by simp [input]
    obtain ⟨_, opens, behind⟩ := @skipWs_byte strict _ _ _ _ input ws (by decide)
    obtain ⟨_, closes, rest_⟩ := @skipWs_byte strict _ _ _ _ behind inner (by decide)
    exact ⟨_, rest_, .emptyObject opens closes⟩
  | @Value.object inside _ inner, p, spaces, rest, input, ws, _ => by
    have input : p.rest = spaces ++ 0x7B :: (inside ++ 0x7D :: rest) := by simp [input]
    obtain ⟨_, opens, behind⟩ := @skipWs_byte strict _ _ _ _ input ws (by decide)
    obtain ⟨filled, q, rest_, pairs⟩ := inner.reads _ rest behind
    exact ⟨q, rest_, .object opens filled pairs⟩

theorem Rfc.Elements.reads {text : List UInt8} {items : List Jb} : Elements text items →
    ∀ (p : JParser) rest, p.rest = text ++ 0x5D :: rest →
    (p.skipWs strict).peek ≠ some 0x5D ∧ ∃ q, q.rest = rest ∧ ReadsItems strict (p.skipWs strict) items q
  | @Elements.one l text _ r left value right, p, rest, input => by
    have input : p.rest = l ++ (text ++ (r ++ 0x5D :: rest)) := by simp [input]
    obtain ⟨skipped, opens⟩ := element_opens left value input
    refine ⟨opens, ?_⟩
    have ends := @ws_continues _ (0x5D :: rest) right (by rintro _ ⟨⟩; decide)
    obtain ⟨q, behind, read⟩ := value.reads (p.skipWs strict) [] (r ++ 0x5D :: rest)
      skipped nofun ends
    obtain ⟨_, closes, rest_⟩ := @skipWs_byte strict _ _ _ _ behind right (by decide)
    exact ⟨_, rest_, .last read closes⟩
  | @Elements.more l text _ r others _ left value right inner, p, rest, input => by
    have input : p.rest = l ++ (text ++ (r ++ 0x2C :: (others ++ 0x5D :: rest))) := by simp [input]
    obtain ⟨skipped, opens⟩ := element_opens left value input
    refine ⟨opens, ?_⟩
    have ends := @ws_continues _ (0x2C :: (others ++ 0x5D :: rest)) right (by rintro _ ⟨⟩; decide)
    obtain ⟨q, behind, read⟩ := value.reads (p.skipWs strict) [] (r ++ 0x2C :: (others ++ 0x5D :: rest))
      skipped nofun ends
    obtain ⟨_, comma, next⟩ := @skipWs_byte strict _ _ _ _ behind right (by decide)
    obtain ⟨filled, s, rest_, items⟩ := inner.reads _ rest next
    exact ⟨s, rest_, .more read comma (fun closes => absurd closes filled) items⟩

theorem Rfc.Members.reads {text : List UInt8} {pairs : List (Jb × Jb)} : Members text pairs →
    ∀ (p : JParser) rest, p.rest = text ++ 0x7D :: rest →
    (p.skipWs strict).peek ≠ some 0x7D ∧
      ∃ q, q.rest = rest ∧ ReadsMembers strict (p.skipWs strict) pairs q
  | @Members.one l key m n text _ r left named before behind
      value right, p, rest, input => by
    have input : p.rest = l ++ 0x22 :: (key ++ 0x22 :: (m ++ 0x3A :: (n ++ text ++ (r ++ 0x7D :: rest)))) := by
      simp [input]
    obtain ⟨opens, kind, k, scanned, is, colon, next⟩ := scanKey_named left named before input
    refine ⟨opens, ?_⟩
    have ends := @ws_continues _ (0x7D :: rest) right (by rintro _ ⟨⟩; decide)
    obtain ⟨q, others, read⟩ := value.reads _ n _ next behind ends
    obtain ⟨_, closes, last⟩ := @skipWs_byte strict _ _ _ _ others right (by decide)
    rw [← is]
    exact ⟨_, last, .last scanned colon read closes⟩
  | @Members.more l key m n text _ r others _ left named
      before behind value right inner, p, rest, input => by
    have input : p.rest = l ++ 0x22 :: (key ++ 0x22 ::
        (m ++ 0x3A :: (n ++ text ++ (r ++ 0x2C :: (others ++ 0x7D :: rest))))) := by
      simp [input]
    obtain ⟨opens, kind, k, scanned, is, colon, next⟩ := scanKey_named left named before input
    refine ⟨opens, ?_⟩
    have ends := @ws_continues _ (0x2C :: (others ++ 0x7D :: rest)) right (by rintro _ ⟨⟩; decide)
    obtain ⟨q, behindValue, read⟩ := value.reads _ n _ next behind ends
    obtain ⟨_, comma, following⟩ := @skipWs_byte strict _ _ _ _ behindValue right (by decide)
    obtain ⟨filled, s, last, pairs⟩ := inner.reads _ rest following
    rw [← is]
    exact ⟨s, last, .more scanned colon read comma (fun closes => absurd closes filled) pairs⟩

end

/-- A document is read by both parsers. -/
theorem Rfc.Document.parsed {b : List UInt8} {t : Jb} (document : Document b t) :
    parseBytes strict b = .ok t := by
  obtain ⟨l, text, r, rfl, left, value, right⟩ := document
  rw [parseBytes_eq_ok_iff]
  have ends := @ws_continues _ [] right nofun
  rw [List.append_nil] at ends
  obtain ⟨q, behind, read⟩ := @Rfc.Value.reads strict _ _ value ⟨l ++ text ++ r, 0⟩ l r rfl left ends
  rw [← List.append_nil r] at behind
  refine ⟨q, read, ?_⟩
  rw [skipWs_rest behind right nofun]

theorem document_of_strict {b : List UInt8} {t : Jb} (parsed : parseStrictBytes b = .ok t) :
    Document b t := by
  obtain ⟨q, read, done⟩ := parseBytes_eq_ok_iff.mp parsed
  obtain ⟨left, text, ws, value, took⟩ := read.value
  obtain ⟨right, ws', took'⟩ := skipWs_ws q
  have whole := (took_append took took').1
  rw [done, List.append_nil] at whole
  exact ⟨left, text, right, whole, ws, value, ws'⟩

/-- The strict parser accepts exactly the documents of RFC 8259, and the lenient parser
makes the same tree of them. -/
theorem parseStrictBytes_iff (b : List UInt8) :
    (∀ t, parseStrictBytes b = .ok t ↔ Document b t) ∧
      ∀ t, parseStrictBytes b = .ok t → parseLenientBytes b = .ok t :=
  ⟨fun _ => ⟨document_of_strict, fun document => document.parsed⟩,
    fun _ parsed => (document_of_strict parsed).parsed⟩

/-- An array of one number with a space behind it. -/
theorem parseStrictBytes_iff_array :
    parseLenientBytes (ascii "[1 ]") = .ok (.array [.number .int (ascii "1")]) :=
  (parseStrictBytes_iff (ascii "[1 ]")).2 _ rfl

end Completeness

end RustSql.Jsonb
