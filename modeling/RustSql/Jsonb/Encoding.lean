import RustSql.Jsonb.Emit
import RustSql.Jsonb.Reading
import RustSql.Types.NumberParse

/-! Encoding a tree with the shortest headers, and what the parser makes: its trees are
encoded to blobs that decode to them. -/

namespace RustSql.Jsonb

open RustSql.Foundation RustSql.Types

mutual

/-- The layout of a tree whose headers are the shortest. -/
def layoutOf : Jb → Layout
  | .null => .null .inline
  | .truth value => .truth .inline value
  | .number kind s => .number (.shortest s.length) kind s
  | .string kind s => .string (.shortest s.length) kind s
  | .array items => .array (.shortest (encodeItems items).length) (layoutsOf items)
  | .object pairs => .object (.shortest (encodePairs pairs).length) (layoutPairsOf pairs)

def layoutsOf : List Jb → List Layout
  | [] => []
  | item :: rest => layoutOf item :: layoutsOf rest

def layoutPairsOf : List (Jb × Jb) → List (Layout × Layout)
  | [] => []
  | (key, value) :: rest => (layoutOf key, layoutOf value) :: layoutPairsOf rest

end

mutual

/-- What a blob can hold: numbers in UTF-8, and strings as keys. -/
def Jb.Storable : Jb → Prop
  | .null | .truth _ | .string _ _ => True
  | .number _ s => validUtf8 s = true
  | .array items => itemsStorable items
  | .object pairs => pairsStorable pairs

def itemsStorable : List Jb → Prop
  | [] => True
  | item :: rest => item.Storable ∧ itemsStorable rest

def pairsStorable : List (Jb × Jb) → Prop
  | [] => True
  | (key, value) :: rest =>
    key.Storable ∧ key.isString = true ∧ value.Storable ∧ pairsStorable rest

end

mutual

theorem layoutOf_tree : (t : Jb) → (layoutOf t).tree = t
  | .null | .truth _ | .number _ _ | .string _ _ => by rw [layoutOf, Layout.tree]
  | .array items => by rw [layoutOf, Layout.tree, layoutsOf_trees items]
  | .object pairs => by rw [layoutOf, Layout.tree, layoutPairsOf_trees pairs]

theorem layoutsOf_trees : (items : List Jb) → itemTrees (layoutsOf items) = items
  | [] => rfl
  | item :: rest => by rw [layoutsOf, itemTrees, layoutOf_tree item, layoutsOf_trees rest]

theorem layoutPairsOf_trees : (pairs : List (Jb × Jb)) → pairTrees (layoutPairsOf pairs) = pairs
  | [] => rfl
  | (key, value) :: rest => by
    rw [layoutPairsOf, pairTrees, layoutOf_tree key, layoutOf_tree value, layoutPairsOf_trees rest]

end

mutual

theorem layoutOf_bytes : (t : Jb) → (layoutOf t).bytes = encodeElem t
  | .null => rfl
  | .truth value => by cases value <;> rfl
  | .number kind s | .string kind s => by
    rw [layoutOf, Layout.bytes, encodeElem, Width.pushHeader_eq]
  | .array items => by
    rw [layoutOf, Layout.bytes, encodeElem, layoutsOf_bytes items]
    simp only [Width.pushHeader_eq]
  | .object pairs => by
    rw [layoutOf, Layout.bytes, encodeElem, layoutPairsOf_bytes pairs]
    simp only [Width.pushHeader_eq]

theorem layoutsOf_bytes : (items : List Jb) → itemBytes (layoutsOf items) = encodeItems items
  | [] => rfl
  | item :: rest => by rw [layoutsOf, itemBytes, encodeItems, layoutOf_bytes item, layoutsOf_bytes rest]

theorem layoutPairsOf_bytes : (pairs : List (Jb × Jb)) →
    pairBytes (layoutPairsOf pairs) = encodePairs pairs
  | [] => rfl
  | (key, value) :: rest => by
    rw [layoutPairsOf, pairBytes, encodePairs, layoutOf_bytes key, layoutOf_bytes value,
      layoutPairsOf_bytes rest]

end

theorem layoutOf_isString (t : Jb) : (layoutOf t).isString = t.isString := by
  cases t <;> rw [layoutOf] <;> rfl

mutual

theorem layoutOf_fits : (t : Jb) → t.Storable → (encodeElem t).length < 2 ^ 64 → (layoutOf t).Fits
  | .null, _, _ | .truth _, _, _ => Nat.zero_le _
  | .number kind s, storable, small => by
    rw [encodeElem, List.length_append] at small
    rw [layoutOf]
    exact ⟨Width.fits_shortest (by omega), storable⟩
  | .string kind s, _, small => by
    rw [encodeElem, List.length_append] at small
    rw [layoutOf]
    exact Width.fits_shortest (by omega)
  | .array items, storable, small => by
    rw [encodeElem, List.length_append] at small
    rw [layoutOf, Layout.Fits, layoutsOf_bytes]
    exact ⟨Width.fits_shortest (by omega), layoutsOf_fit items storable (by omega)⟩
  | .object pairs, storable, small => by
    rw [encodeElem, List.length_append] at small
    rw [layoutOf, Layout.Fits, layoutPairsOf_bytes]
    exact ⟨Width.fits_shortest (by omega), layoutPairsOf_fit pairs storable (by omega)⟩

theorem layoutsOf_fit : (items : List Jb) → itemsStorable items →
    (encodeItems items).length < 2 ^ 64 → itemsFit (layoutsOf items)
  | [], _, _ => trivial
  | item :: rest, storable, small => by
    rw [encodeItems, List.length_append] at small
    exact ⟨layoutOf_fits item storable.1 (by omega), layoutsOf_fit rest storable.2 (by omega)⟩

theorem layoutPairsOf_fit : (pairs : List (Jb × Jb)) → pairsStorable pairs →
    (encodePairs pairs).length < 2 ^ 64 → pairsFit (layoutPairsOf pairs)
  | [], _, _ => trivial
  | (key, value) :: rest, storable, small => by
    obtain ⟨keyStorable, isString, valueStorable, others⟩ := storable
    rw [encodePairs, List.length_append, List.length_append] at small
    exact ⟨layoutOf_fits key keyStorable (by omega), by rw [layoutOf_isString, isString],
      layoutOf_fits value valueStorable (by omega), layoutPairsOf_fit rest others (by omega)⟩

end

/-- The bytes of a tree that can be stored decode to it. -/
theorem jbFromBytes_encode {t : Jb} (storable : t.Storable) (small : (jbToBytes t).length < 2 ^ 64) :
    jbFromBytes (jbToBytes t) = some t := by
  have known : blobLayout (jbToBytes t) = some (layoutOf t) :=
    blobLayout_eq_some_iff.mpr ⟨layoutOf_fits t storable small, layoutOf_bytes t⟩
  rw [jbFromBytes_eq, known, Option.map_some, layoutOf_tree]

mutual

/-- What the parser makes: numbers and strings by the text they come from. -/
def Jb.Parsed : Jb → Prop
  | .null | .truth _ => True
  | .number kind s => ∃ taken, NumberText false (.payload kind s) taken
  | .string kind s => StringText kind s
  | .array items => itemsParsed items
  | .object pairs => pairsParsed pairs

def itemsParsed : List Jb → Prop
  | [] => True
  | item :: rest => item.Parsed ∧ itemsParsed rest

def pairsParsed : List (Jb × Jb) → Prop
  | [] => True
  | (key, value) :: rest =>
    (key.Parsed ∧ key.isString = true) ∧ value.Parsed ∧ pairsParsed rest

end

section

variable {strict : Bool}

theorem literal_parsed {lit : List UInt8} {v : Jb} (known : (lit, v) ∈ literals strict) : v.Parsed := by
  have values : v = .truth true ∨ v = .truth false ∨ v = .null ∨ v = .number .float (ascii "9e999") := by
    cases strict <;> simp [literals] at known <;> tauto
  rcases values with rfl | rfl | rfl | rfl
  · trivial
  · trivial
  · trivial
  · exact ⟨_, .infinity rfl (.inr rfl)⟩

theorem scanString_text {quote : UInt8} {kind : StrKind} {text : List UInt8} {p q : JParser}
    (quoted : quote = 0x22 ∨ quote = 0x27)
    (scanned : scanString strict quote p = .ok (kind, text, q)) : StringText kind text := by
  obtain ⟨ps, spelled, is, rfl, _⟩ := scanString_took scanned
  exact ⟨quote, quoted, ps, spelled.lenient, is, rfl⟩

theorem scanKey_text {kind : StrKind} {text : List UInt8} {p k : JParser}
    (scanned : scanKey strict p = .ok (kind, text, k)) : StringText kind text := by
  unfold scanKey at scanned
  split at scanned
  · exact scanString_text (.inl rfl) scanned
  split at scanned
  · cases scanned
  split at scanned
  · exact scanString_text (.inr rfl) scanned
  · exact (scanIdentKey_took scanned).1

theorem scanNumber_parsed {p q : JParser} {tok : NumTok} (scanned : scanNumber strict p = .ok (tok, q)) :
    tok.jb.Parsed := by
  obtain ⟨taken, number, _⟩ := scanNumber_took scanned
  cases tok with
  | null => trivial
  | payload kind text => exact ⟨taken, number.lenient⟩

mutual

theorem ReadsValue.parsed {p q : JParser} {v : Jb} : ReadsValue strict p v q → v.Parsed
  | .literal known _ => literal_parsed known
  | .string quoted scanned => scanString_text (quoted.imp_right And.left) scanned
  | .number _ _ scanned => scanNumber_parsed scanned
  | .emptyArray _ _ | .emptyObject _ _ => trivial
  | .array _ _ inner => inner.parsed
  | .object _ _ inner => inner.parsed

theorem ReadsItems.parsed {p q : JParser} {items : List Jb} :
    ReadsItems strict p items q → itemsParsed items
  | .last value _ | .trailing _ value _ _ => ⟨value.parsed, trivial⟩
  | .more value _ _ others => ⟨value.parsed, others.parsed⟩

theorem ReadsMembers.parsed {p q : JParser} {pairs : List (Jb × Jb)} :
    ReadsMembers strict p pairs q → pairsParsed pairs
  | .last key _ value _ | .trailing _ key _ value _ _ => ⟨⟨scanKey_text key, rfl⟩, value.parsed, trivial⟩
  | .more key _ value _ _ others => ⟨⟨scanKey_text key, rfl⟩, value.parsed, others.parsed⟩

end

mutual

theorem Jb.Parsed.storable : (t : Jb) → t.Parsed → t.Storable
  | .null, _ | .truth _, _ | .string _ _, _ => trivial
  | .number kind s, parsed => by
    obtain ⟨taken, number⟩ := parsed
    exact asStr_eq_self.mp (asStr_ascii number.payload_ascii)
  | .array items, parsed => itemsParsed.storable items parsed
  | .object pairs, parsed => pairsParsed.storable pairs parsed

theorem itemsParsed.storable : (items : List Jb) → itemsParsed items → itemsStorable items
  | [], _ => trivial
  | item :: rest, parsed => ⟨Jb.Parsed.storable item parsed.1, itemsParsed.storable rest parsed.2⟩

theorem pairsParsed.storable : (pairs : List (Jb × Jb)) → pairsParsed pairs → pairsStorable pairs
  | [], _ => trivial
  | (key, value) :: rest, parsed =>
    ⟨Jb.Parsed.storable key parsed.1.1, parsed.1.2, Jb.Parsed.storable value parsed.2.1,
      pairsParsed.storable rest parsed.2.2⟩

end

theorem parseBytes_parsed {b : List UInt8} {t : Jb} (parsed : parseBytes strict b = .ok t) :
    t.Parsed := by
  obtain ⟨q, read, _⟩ := parseBytes_eq_ok_iff.mp parsed
  exact read.parsed

/-- Emitting JSONB from a text is parsing it and encoding the tree, errors included. -/
theorem parseLenientToJsonb_eq (b : List UInt8) :
    parseLenientToJsonb b = (parseLenientBytes b).map jbToBytes := by
  unfold parseLenientToJsonb parseLenientBytes parseBytes
  rw [(emit_eq false (parseFuel b)).1]
  cases parseValue false (parseFuel b) ⟨b, 0⟩ with
  | error at_ => rfl
  | ok found =>
    dsimp only [Except.map, bind, Except.bind, pure, Except.pure]
    split <;> rfl

/-- The emitted bytes are those of the parsed tree, and decode to it as long as their
number is a machine word. -/
theorem parseLenientToJsonb_decodes (b : List UInt8) :
    parseLenientToJsonb b = (parseLenientBytes b).map jbToBytes ∧
      ∀ t, parseLenientBytes b = .ok t → (jbToBytes t).length < 2 ^ 64 →
        jbFromBytes (jbToBytes t) = some t :=
  ⟨parseLenientToJsonb_eq b, fun _ parsed small =>
    jbFromBytes_encode (Jb.Parsed.storable _ (parseBytes_parsed parsed)) small⟩

/-- Hexadecimal in an array with a comma too many. -/
theorem parseLenientToJsonb_decodes_hex :
    jbFromBytes (jbToBytes (.array [.number .int5 (ascii "0x1F")])) =
      some (.array [.number .int5 (ascii "0x1F")]) :=
  (parseLenientToJsonb_decodes (ascii "[0x1F,]")).2 _ rfl (by decide)

end

end RustSql.Jsonb
