import RustSql.Jsonb.NumberRendering

/-! Rendering a parsed tree: the text is a document of RFC 8259 for the same value, and
rendering that again changes nothing, unless a hexadecimal number stays as it is. -/

namespace RustSql.Jsonb

set_option maxRecDepth 4000

open Rfc

/-- The pieces of RFC 8259 for a piece of JSON5. -/
def Piece.rfc : Piece → List Piece
  | plain c =>
    if c = 0x22 then [escape 0x22]
    else if c = 0x08 then [escape 0x62]
    else if c = 0x0C then [escape 0x66]
    else if c = 0x0A then [escape 0x6E]
    else if c = 0x0D then [escape 0x72]
    else if c = 0x09 then [escape 0x74]
    else if c < 0x20 then [unicode (hexDigits4 c)]
    else [plain c]
  | escape e => [escape e]
  | unicode ds => [unicode ds]
  | hex ds => [unicode (0x30 :: 0x30 :: ds)]
  | char e =>
    if e = 0x30 then [unicode (ascii "0000")]
    else if e = 0x76 then [unicode (ascii "000b")]
    else [plain e]
  | joined _ => []

section Strings

variable {strict : Bool} {quote : UInt8}

theorem piecesText_append (ps qs : List Piece) : piecesText (ps ++ qs) = piecesText ps ++ piecesText qs :=
  List.flatMap_append

theorem hexDigits4_spec {c : UInt8} (control : c < 0x20) :
    ((hexDigits4 c).length = 4 ∧ ∀ b ∈ hexDigits4 c, isHexDigit b = true) ∧
      Symbol.unit (hexNumber (hexDigits4 c)) = symbolOf c := by
  have all : ∀ n : Fin 32, ((hexDigits4 (UInt8.ofNat n)).length = 4 ∧
      (hexDigits4 (UInt8.ofNat n)).all isHexDigit = true) ∧
        Symbol.unit (hexNumber (hexDigits4 (UInt8.ofNat n))) = symbolOf (UInt8.ofNat n) := by
    decide
  have small : c.toNat < 32 := control
  simpa only [UInt8.ofNat_toNat, List.all_eq_true] using all ⟨c.toNat, small⟩

/-- The pieces of RFC 8259 stand for the same and may stand in any string. -/
theorem Piece.rfc_spec {p : Piece} (good : p.Good strict quote) :
    (∀ q ∈ p.rfc, q.Good true 0x22) ∧ p.rfc.flatMap Piece.symbols = p.symbols := by
  cases p with
  | plain c =>
    by_cases double : c = 0x22
    · subst double
      decide
    by_cases backspace : c = 0x08
    · subst backspace
      decide
    by_cases formFeed : c = 0x0C
    · subst formFeed
      decide
    by_cases lineFeed : c = 0x0A
    · subst lineFeed
      decide
    by_cases carriageReturn : c = 0x0D
    · subst carriageReturn
      decide
    by_cases tab : c = 0x09
    · subst tab
      decide
    simp only [Piece.rfc, double, backspace, formFeed, lineFeed, carriageReturn, tab, if_false]
    by_cases control : c < 0x20
    · obtain ⟨digits, same⟩ := hexDigits4_spec control
      rw [if_pos control]
      simp only [List.mem_singleton, forall_eq, List.flatMap_singleton]
      exact ⟨digits, congrArg (fun symbol => [symbol]) same⟩
    · rw [if_neg control]
      simp only [List.mem_singleton, forall_eq, List.flatMap_singleton, and_true]
      exact ⟨double, good.2.1, good.2.2.1, fun _ => UInt8.not_lt.mp control⟩
  | escape e =>
    simp only [Piece.rfc, List.mem_singleton, forall_eq, List.flatMap_singleton, and_true]
    exact good
  | unicode ds =>
    simp only [Piece.rfc, List.mem_singleton, forall_eq, List.flatMap_singleton, and_true]
    exact good
  | hex ds =>
    obtain ⟨_, two, all⟩ := good
    have same : hexNumber (0x30 :: 0x30 :: ds) = hexNumber ds := rfl
    simp only [Piece.rfc, List.mem_singleton, forall_eq, List.flatMap_singleton, Piece.symbols, same,
      and_true]
    exact ⟨by simp [two], List.forall_mem_cons.mpr ⟨by decide, List.forall_mem_cons.mpr ⟨by decide, all⟩⟩⟩
  | char e =>
    rcases good.2 with rfl | rfl | rfl <;> decide
  | joined line => exact ⟨nofun, rfl⟩

theorem writeJson5_plain {c : UInt8} (rest : List UInt8) (notBackslash : c ≠ 0x5C) :
    writeJson5AsJson (c :: rest) = piecesText (Piece.plain c).rfc ++ writeJson5AsJson rest := by
  by_cases double : c = 0x22
  · subst double
    rw [writeJson5AsJson]
    rfl
  · have head : writeJson5AsJson (c :: rest) =
        (if c < 0x20 then writeEscapedString [c] else [c]) ++ writeJson5AsJson rest := by
      rw [writeJson5AsJson] <;> intros <;> simp_all
    rw [head]
    congr 1
    simp only [writeEscapedString, List.flatMap_singleton, escapedByte, Piece.rfc, double, notBackslash,
      if_false]
    by_cases control : c < 0x20
    · rw [if_pos control]
      split_ifs <;> rfl
    · have printable {b : UInt8} (small : b < 0x20) : c ≠ b := fun is => control (is ▸ small)
      rw [if_neg control, if_neg (printable (by decide)), if_neg (printable (by decide)),
        if_neg (printable (by decide)), if_neg (printable (by decide)), if_neg (printable (by decide)),
        if_neg control]
      rfl

theorem writeJson5_escape {e : UInt8} (rest : List UInt8) (known : isPlainEscape e = true) :
    writeJson5AsJson (0x5C :: e :: rest) = [0x5C, e] ++ writeJson5AsJson rest := by
  simp only [isPlainEscape, Bool.or_eq_true, beq_iff_eq] at known
  rcases known with ((((((is | is) | is) | is) | is) | is) | is) | is <;> subst is <;>
    rw [writeJson5AsJson] <;> intros <;> simp_all

theorem writeJson5_joined {line rest : List UInt8} (known : line ∈ lineEnds)
    (ends : line = [0x0D] → rest.head? ≠ some 0x0A) :
    writeJson5AsJson (0x5C :: (line ++ rest)) = writeJson5AsJson rest := by
  simp only [lineEnds, List.mem_cons, List.not_mem_nil, or_false] at known
  rcases known with rfl | rfl | rfl | rfl | rfl
  · rw [List.singleton_append, writeJson5AsJson]
  · have alone := ends rfl
    rw [List.singleton_append, writeJson5AsJson]
    rintro more rfl
    exact alone rfl
  · simp only [List.cons_append, List.nil_append, writeJson5AsJson]
  · simp only [List.cons_append, List.nil_append, writeJson5AsJson]
  · simp only [List.cons_append, List.nil_append, writeJson5AsJson]

/-- The digits of an escape are written as they are. -/
theorem writeJson5_digits {ds rest : List UInt8} (all : ∀ b ∈ ds, isHexDigit b = true) :
    writeJson5AsJson (ds ++ rest) = ds ++ writeJson5AsJson rest := by
  induction ds with
  | nil => rfl
  | cons d ds ih =>
    obtain ⟨digit, others⟩ := List.forall_mem_cons.mp all
    have bytes : isHexDigit d = true → d ≠ 0x5C ∧ piecesText (Piece.plain d).rfc = [d] :=
      Foundation.forall_byte (by decide) d
    obtain ⟨notBackslash, same⟩ := bytes digit
    rw [List.cons_append, writeJson5_plain _ notBackslash, same, ih others]
    rfl

theorem writeJson5_pieces {ps : List Piece} (spelled : Spelled strict quote ps) :
    writeJson5AsJson (piecesText ps) = piecesText (ps.flatMap Piece.rfc) := by
  induction ps with
  | nil => rfl
  | cons p ps ih =>
    obtain ⟨good, ends, others⟩ := spelled
    rw [piecesText_cons, List.flatMap_cons, piecesText_append, ← ih others]
    cases p with
    | plain c => exact writeJson5_plain _ good.2.1
    | escape e => exact writeJson5_escape _ good
    | unicode ds =>
      have head : writeJson5AsJson (0x5C :: 0x75 :: (ds ++ piecesText ps)) =
          [0x5C, 0x75] ++ writeJson5AsJson (ds ++ piecesText ps) := by
        rw [writeJson5AsJson] <;> intros <;> simp_all
      rw [writeJson5_digits good.2] at head
      simpa [Piece.text, Piece.rfc, piecesText] using head
    | hex ds =>
      obtain ⟨x, y, rfl⟩ := two_digits good.2.1
      rfl
    | char e =>
      rcases good.2 with rfl | rfl | rfl
      · simp [Piece.text, Piece.rfc, piecesText, writeJson5AsJson, ascii]
      · simp [Piece.text, Piece.rfc, piecesText, writeJson5AsJson, ascii]
      · simp [Piece.text, Piece.rfc, piecesText, writeJson5AsJson]
    | joined line => exact writeJson5_joined good.2 ends

/-- Pieces of RFC 8259 need nothing of what follows. -/
theorem spelled_of_good {ps : List Piece} (good : ∀ p ∈ ps, p.Good true 0x22) : Spelled true 0x22 ps := by
  induction ps with
  | nil => trivial
  | cons p ps ih =>
    obtain ⟨first, others⟩ := List.forall_mem_cons.mp good
    refine ⟨first, ?_, ih others⟩
    cases p with
    | char e => cases first.1
    | joined line => cases first.1
    | _ => trivial

theorem good_of_rfc {p : Piece} (good : p.Good strict quote) (rfc : p.json5 = false) :
    p.Good true 0x22 := by
  cases p with
  | plain c =>
    simp only [Piece.json5, Bool.or_eq_false_iff, beq_eq_false_iff_ne, decide_eq_false_iff_not] at rfc
    exact ⟨rfc.1, good.2.1, good.2.2.1, fun _ => UInt8.not_lt.mp rfc.2⟩
  | escape e => exact good
  | unicode ds => exact good
  | hex ds => cases rfc
  | char e => cases rfc
  | joined line => cases rfc

theorem Spelled.good {ps : List Piece} (spelled : Spelled strict quote ps) :
    ∀ p ∈ ps, p.Good strict quote := by
  induction ps with
  | nil => nofun
  | cons p ps ih => exact List.forall_mem_cons.mpr ⟨spelled.1, ih spelled.2.2⟩

/-- A string is rendered as one of RFC 8259 with the same content. -/
theorem renderString_rfc {kind : StrKind} {s : List UInt8} (string : StringText kind s) :
    ∃ body, StringBody body ∧ renderString kind s = [0x22] ++ body ++ [0x22] ∧
      symbols body = contentOf kind s := by
  obtain ⟨quote, _, ps, spelled, rfl, rfl⟩ := string
  have content : ∀ kind, kind ≠ StrKind.textRaw → contentOf kind (piecesText ps) = symbols (piecesText ps) :=
    fun kind notRaw => if_neg notRaw
  cases json5 : ps.any Piece.json5 with
  | true =>
    have good : ∀ q ∈ ps.flatMap Piece.rfc, q.Good true 0x22 := by
      intro q member
      obtain ⟨p, inside, part⟩ := List.mem_flatMap.mp member
      exact (Piece.rfc_spec (spelled.good p inside)).1 q part
    have rfc := spelled_of_good good
    have same : (ps.flatMap Piece.rfc).flatMap Piece.symbols = ps.flatMap Piece.symbols := by
      rw [List.flatMap_assoc]
      exact List.flatMap_congr fun p inside => (Piece.rfc_spec (spelled.good p inside)).2
    refine ⟨_, stringBody_of_spelled rfc, ?_, ?_⟩
    · rw [← writeJson5_pieces spelled]
      rfl
    · rw [symbols_piecesText rfc, same, stringKind, if_pos rfl, content .text5 (by decide),
        symbols_piecesText spelled]
  | false =>
    have rfc : Spelled true 0x22 ps := by
      refine spelled_of_good fun p inside => good_of_rfc (spelled.good p inside) ?_
      exact Bool.eq_false_iff.mpr fun is => by simpa [json5] using List.any_eq_true.mpr ⟨p, inside, is⟩
    refine ⟨_, stringBody_of_spelled rfc, ?_, ?_⟩
    · cases ps.any Piece.escaped <;> rfl
    · cases ps.any Piece.escaped with
      | false => exact (content .text (by decide)).symm
      | true => exact (content .textJ (by decide)).symm

end Strings

mutual

/-- Is there a hexadecimal number that is rendered as it stands? -/
def Jb.hexBeyond : Jb → Bool
  | .null | .truth _ | .string _ _ => false
  | .number kind s => Jsonb.hexBeyond kind s
  | .array items => itemsBeyond items
  | .object pairs => pairsBeyond pairs

def itemsBeyond : List Jb → Bool
  | [] => false
  | item :: rest => item.hexBeyond || itemsBeyond rest

def pairsBeyond : List (Jb × Jb) → Bool
  | [] => false
  | (_, value) :: rest => value.hexBeyond || pairsBeyond rest

end

theorem renderItems_cons (item : Jb) {rest : List Jb} (filled : rest ≠ []) :
    renderItems (item :: rest) = item.render ++ [0x2C] ++ renderItems rest := by
  obtain ⟨_, _, rfl⟩ := List.exists_cons_of_ne_nil filled
  rw [renderItems]
  simp

theorem renderPairs_cons (key value : Jb) {rest : List (Jb × Jb)} (filled : rest ≠ []) :
    renderPairs ((key, value) :: rest) =
      key.render ++ [0x3A] ++ value.render ++ [0x2C] ++ renderPairs rest := by
  obtain ⟨_, _, rfl⟩ := List.exists_cons_of_ne_nil filled
  rw [renderPairs]
  simp

theorem rfc_string_render {body : List UInt8} :
    (Rfc.string body).render = [0x22] ++ body ++ [0x22] := by
  unfold Rfc.string
  split <;> rfl

theorem rfc_string_value {body : List UInt8} : (Rfc.string body).value = .string (symbols body) := by
  unfold Rfc.string
  split <;> rfl

theorem rfc_number_render (d : Decimal) : (Rfc.number d).render = d.text := by
  unfold Rfc.number
  split <;> rfl

/-- The text of a tree is a value of RFC 8259 that is the same and is rendered the same. -/
def RendersTo (text : List UInt8) (v : Json) : Prop :=
  ∃ t, Value text t ∧ t.value = v ∧ t.render = text

theorem string_renders {kind : StrKind} {s : List UInt8} (parsed : StringText kind s) :
    ∃ body, StringBody body ∧ (Jb.string kind s).render = [0x22] ++ body ++ [0x22] ∧
      (Rfc.string body).value = (Jb.string kind s).value ∧
      (Rfc.string body).render = (Jb.string kind s).render := by
  obtain ⟨body, between, rendered, same⟩ := renderString_rfc parsed
  have text : (Jb.string kind s).render = [0x22] ++ body ++ [0x22] := by rw [Jb.render, rendered]
  refine ⟨body, between, text, ?_, ?_⟩
  · rw [rfc_string_value, Jb.value, same]
  · rw [rfc_string_render, text]

theorem key_renders {key : Jb} (parsed : key.Parsed) (isString : key.isString = true) :
    ∃ body, StringBody body ∧ key.render = [0x22] ++ body ++ [0x22] ∧
      (Rfc.string body).value = key.value ∧ (Rfc.string body).render = key.render := by
  cases key with
  | string kind s => exact string_renders parsed
  | _ => cases isString

theorem elements_filled {text : List UInt8} {items : List Jb} (elements : Elements text items) :
    items ≠ [] := by
  cases elements <;> nofun

theorem members_filled {text : List UInt8} {pairs : List (Jb × Jb)} (members : Members text pairs) :
    pairs ≠ [] := by
  cases members <;> nofun

mutual

theorem render_rfc : (t : Jb) → t.Parsed → t.hexBeyond = false → RendersTo t.render t.value
  | .null, _, _ => ⟨.null, .nullText, rfl, rfl⟩
  | .truth true, _, _ => ⟨.truth true, .trueText, rfl, rfl⟩
  | .truth false, _, _ => ⟨.truth false, .falseText, rfl, rfl⟩
  | .number kind s, parsed, within => by
    obtain ⟨taken, number⟩ := parsed
    obtain ⟨d, formed, rendered, same⟩ := renderNumber_rfc number within
    rw [Jb.render, rendered]
    refine ⟨Rfc.number d, .number formed, ?_, rfc_number_render d⟩
    rw [Rfc.number, Jb.value, Jb.value, same]
  | .string kind s, parsed, _ => by
    obtain ⟨body, between, text, value, again⟩ := string_renders parsed
    refine ⟨Rfc.string body, ?_, value, again⟩
    rw [text]
    exact .string between
  | .array [], _, _ => ⟨.array [], @Rfc.Value.emptyArray [] nofun, rfl, rfl⟩
  | .array (item :: rest), parsed, within => by
    obtain ⟨items, elements, values, again⟩ :=
      renderItems_rfc (item :: rest) (List.cons_ne_nil _ _) parsed within
    refine ⟨.array items, .array elements, ?_, ?_⟩
    · rw [Jb.value, values, Jb.value]
    · rw [Jb.render, again, Jb.render]
  | .object [], _, _ => ⟨.object [], @Rfc.Value.emptyObject [] nofun, rfl, rfl⟩
  | .object (pair :: rest), parsed, within => by
    obtain ⟨pairs, members, values, again⟩ :=
      renderPairs_rfc (pair :: rest) (List.cons_ne_nil _ _) parsed within
    refine ⟨.object pairs, .object members, ?_, ?_⟩
    · rw [Jb.value, values, Jb.value]
    · rw [Jb.render, again, Jb.render]

theorem renderItems_rfc : (items : List Jb) → items ≠ [] → itemsParsed items → itemsBeyond items = false →
    ∃ ts, Elements (renderItems items) ts ∧ itemValues ts = itemValues items ∧
      renderItems ts = renderItems items
  | [], filled, _, _ => absurd rfl filled
  | [item], _, parsed, within => by
    have within := (Bool.or_eq_false_iff.mp within).1
    obtain ⟨t, value, same, again⟩ := render_rfc item parsed.1 within
    refine ⟨[t], ?_, by rw [itemValues, same]; rfl, again⟩
    have element := Elements.one (l := []) (r := []) nofun value nofun
    rwa [List.append_nil, List.nil_append] at element
  | item :: next :: rest, _, parsed, within => by
    obtain ⟨first, others⟩ := Bool.or_eq_false_iff.mp within
    obtain ⟨t, value, same, again⟩ := render_rfc item parsed.1 first
    obtain ⟨ts, elements, values, againItems⟩ :=
      renderItems_rfc (next :: rest) (List.cons_ne_nil _ _) parsed.2 others
    refine ⟨t :: ts, ?_, ?_, ?_⟩
    · have element := Elements.more (l := []) (r := []) nofun value nofun elements
      rwa [List.append_nil, List.nil_append] at element
    · rw [itemValues, same, values, itemValues.eq_2 item]
    · rw [renderItems_cons t (elements_filled elements), again, againItems,
        renderItems_cons item (List.cons_ne_nil _ _)]

theorem renderPairs_rfc : (pairs : List (Jb × Jb)) → pairs ≠ [] → pairsParsed pairs →
    pairsBeyond pairs = false →
    ∃ ts, Members (renderPairs pairs) ts ∧ pairValues ts = pairValues pairs ∧
      renderPairs ts = renderPairs pairs
  | [], filled, _, _ => absurd rfl filled
  | [(key, value)], _, parsed, within => by
    have within := (Bool.or_eq_false_iff.mp within).1
    obtain ⟨body, between, text, keySame, keyAgain⟩ := key_renders parsed.1.1 parsed.1.2
    obtain ⟨t, valueText, same, again⟩ := render_rfc value parsed.2.1 within
    refine ⟨[(Rfc.string body, t)], ?_, by rw [pairValues, keySame, same]; rfl, ?_⟩
    · have member := Members.one (l := []) (m := []) (n := []) (r := []) nofun between nofun nofun valueText
        nofun
      simpa only [renderPairs, text, List.append_nil, List.nil_append] using member
    · rw [renderPairs, keyAgain, again, renderPairs]
  | (key, value) :: next :: rest, _, parsed, within => by
    obtain ⟨first, others⟩ := Bool.or_eq_false_iff.mp within
    obtain ⟨body, between, text, keySame, keyAgain⟩ := key_renders parsed.1.1 parsed.1.2
    obtain ⟨t, valueText, same, again⟩ := render_rfc value parsed.2.1 first
    obtain ⟨ts, members, values, againPairs⟩ :=
      renderPairs_rfc (next :: rest) (List.cons_ne_nil _ _) parsed.2.2 others
    refine ⟨(Rfc.string body, t) :: ts, ?_, ?_, ?_⟩
    · have member := Members.more (l := []) (m := []) (n := []) (r := []) nofun between nofun nofun
        valueText nofun members
      rw [renderPairs_cons key value (List.cons_ne_nil _ _), text]
      simpa only [List.append_nil, List.nil_append] using member
    · rw [pairValues, keySame, same, values]
      rfl
    · rw [renderPairs_cons _ _ (members_filled members), keyAgain, again, againPairs,
        renderPairs_cons key value (List.cons_ne_nil _ _)]

end

/-- Where a text stands: between its strings, in one, or behind a backslash in one. -/
inductive Mode where
  | bare | inside | escape
deriving DecidableEq, Repr

def Mode.step : Mode → UInt8 → Mode
  | bare, c => if c = 0x22 then inside else bare
  | inside, c => if c = 0x22 then bare else if c = 0x5C then escape else inside
  | escape, _ => inside

def Mode.after (m : Mode) (s : List UInt8) : Mode := s.foldl Mode.step m

/-- Does the letter of hexadecimal numbers stand between the strings? -/
def seesX : Mode → List UInt8 → Bool
  | _, [] => false
  | m, c :: rest => (m == .bare && (c == 0x78 || c == 0x58)) || seesX (m.step c) rest

theorem after_append (m : Mode) (xs ys : List UInt8) : m.after (xs ++ ys) = (m.after xs).after ys :=
  List.foldl_append

theorem seesX_append (m : Mode) (xs ys : List UInt8) :
    seesX m (xs ++ ys) = (seesX m xs || seesX (m.after xs) ys) := by
  induction xs generalizing m with
  | nil => rfl
  | cons c xs ih =>
    rw [List.cons_append, seesX, ih, seesX, Bool.or_assoc]
    rfl

/-- A text that begins and ends between strings, and whether it has the letter there. -/
def Marks (s : List UInt8) (found : Bool) : Prop := Mode.bare.after s = .bare ∧ seesX .bare s = found

section Marked

variable {xs ys : List UInt8} {found found' : Bool}

theorem Marks.append (first : Marks xs found) (second : Marks ys found') :
    Marks (xs ++ ys) (found || found') := by
  refine ⟨?_, ?_⟩
  · rw [after_append, first.1, second.1]
  · rw [seesX_append, first.1, first.2, second.2]

theorem marks_nil : Marks [] false := ⟨rfl, rfl⟩

/-- A text without quotes. -/
theorem marks_bytes (plain : ∀ b ∈ xs, b ≠ 0x22) : Marks xs (xs.any fun b => b == 0x78 || b == 0x58) := by
  induction xs with
  | nil => exact marks_nil
  | cons b xs ih =>
    obtain ⟨notQuote, others⟩ := List.forall_mem_cons.mp plain
    have stays : Mode.bare.step b = .bare := if_neg notQuote
    obtain ⟨after, sees⟩ := ih others
    refine ⟨?_, ?_⟩
    · rw [Mode.after, List.foldl_cons, stays]
      exact after
    · rw [seesX, stays, sees, List.any_cons]
      rfl

theorem marks_quiet (plain : ∀ b ∈ xs, b ≠ 0x22 ∧ b ≠ 0x78 ∧ b ≠ 0x58) : Marks xs false := by
  have none : (xs.any fun b => b == 0x78 || b == 0x58) = false := by
    rw [List.any_eq_false]
    intro b member
    simp [(plain b member).2]
  exact none ▸ marks_bytes fun b member => (plain b member).1

theorem marks_ws (ws : Ws xs) : Marks xs false := by
  refine marks_quiet fun b member => ?_
  have bytes : isWs b = true → b ≠ 0x22 ∧ b ≠ 0x78 ∧ b ≠ 0x58 := Foundation.forall_byte (by decide) b
  exact bytes (ws b member)

/-- The digits of an escape end no string. -/
theorem inside_digits {ds : List UInt8} (all : ∀ b ∈ ds, isHexDigit b = true) :
    Mode.inside.after ds = .inside ∧ seesX .inside ds = false := by
  induction ds with
  | nil => exact ⟨rfl, rfl⟩
  | cons d ds ih =>
    obtain ⟨digit, others⟩ := List.forall_mem_cons.mp all
    have stays : Mode.inside.step d = .inside := by
      rw [Mode.step, if_neg, if_neg]
      · rintro rfl
        exact absurd digit (by decide)
      · rintro rfl
        exact absurd digit (by decide)
    rw [Mode.after, List.foldl_cons, seesX, stays]
    exact ih others

theorem inside_body {body : List UInt8} (between : StringBody body) :
    Mode.inside.after body = .inside ∧ seesX .inside body = false := by
  induction between with
  | nil => exact ⟨rfl, rfl⟩
  | plain _ notQuote notBackslash _ ih =>
    have stays := (if_neg notQuote).trans (if_neg notBackslash) (a := Mode.inside.step _)
    rw [Mode.after, List.foldl_cons, seesX, stays]
    exact ih
  | escape _ _ ih => exact ih
  | @unicode ds rest _ hex _ ih =>
    obtain ⟨after, sees⟩ := inside_digits hex
    have start : Mode.inside.after (0x5C :: 0x75 :: (ds ++ rest)) = Mode.inside.after (ds ++ rest) := rfl
    have quiet : seesX .inside (0x5C :: 0x75 :: (ds ++ rest)) = seesX .inside (ds ++ rest) := rfl
    rw [start, quiet, after_append, seesX_append, after, sees, Bool.false_or]
    exact ih

theorem marks_string {body : List UInt8} (between : StringBody body) :
    Marks ([0x22] ++ body ++ [0x22]) false := by
  obtain ⟨after, sees⟩ := inside_body between
  have start : Mode.bare.after [0x22] = .inside := rfl
  have quiet : seesX .bare [0x22] = false := rfl
  refine ⟨?_, ?_⟩
  · rw [after_append, after_append, start, after]
    rfl
  · rw [seesX_append, seesX_append, after_append, start, quiet, after, sees]
    rfl

mutual

/-- No text of RFC 8259 has the letter between its strings. -/
theorem value_marks {text : List UInt8} {v : Jb} : Value text v → Marks text false
  | .nullText => ⟨rfl, rfl⟩
  | .trueText => ⟨rfl, rfl⟩
  | .falseText => ⟨rfl, rfl⟩
  | .number formed => marks_quiet (number_bytes formed)
  | .string between => marks_string between
  | .emptyArray ws | .emptyObject ws =>
    ((marks_quiet (by decide)).append (marks_ws ws)).append (marks_quiet (by decide))
  | .array inner => ((marks_quiet (by decide)).append (elements_mark inner)).append (marks_quiet (by decide))
  | .object inner => ((marks_quiet (by decide)).append (members_mark inner)).append (marks_quiet (by decide))

theorem elements_mark {text : List UInt8} {items : List Jb} : Elements text items → Marks text false
  | .one left value right => ((marks_ws left).append (value_marks value)).append (marks_ws right)
  | .more left value right others =>
    ((((marks_ws left).append (value_marks value)).append (marks_ws right)).append
      (marks_quiet (by decide))).append (elements_mark others)

theorem members_mark {text : List UInt8} {pairs : List (Jb × Jb)} : Members text pairs → Marks text false
  | .one left named before behind value right =>
    ((((((marks_ws left).append (marks_string named)).append (marks_ws before)).append
      (marks_quiet (by decide))).append (marks_ws behind)).append (value_marks value)).append
      (marks_ws right)
  | .more left named before behind value right others =>
    ((((((((marks_ws left).append (marks_string named)).append (marks_ws before)).append
      (marks_quiet (by decide))).append (marks_ws behind)).append (value_marks value)).append
      (marks_ws right)).append (marks_quiet (by decide))).append (members_mark others)

end

theorem key_marks {key : Jb} (parsed : key.Parsed) (isString : key.isString = true) :
    Marks key.render false := by
  obtain ⟨body, between, text, _, _⟩ := key_renders parsed isString
  rw [text]
  exact marks_string between

mutual

/-- A rendered tree has the letter when a hexadecimal number is left in it. -/
theorem render_marks : (t : Jb) → t.Parsed → Marks t.render t.hexBeyond
  | .null, _ => ⟨rfl, rfl⟩
  | .truth true, _ => ⟨rfl, rfl⟩
  | .truth false, _ => ⟨rfl, rfl⟩
  | .number kind s, parsed => by
    obtain ⟨taken, number⟩ := parsed
    rw [Jb.render, Jb.hexBeyond]
    cases beyond : hexBeyond kind s with
    | false =>
      obtain ⟨d, formed, rendered, _⟩ := renderNumber_rfc number beyond
      rw [rendered]
      exact marks_quiet (number_bytes formed)
    | true =>
      obtain ⟨⟨b, member, letter⟩, plain⟩ := renderNumber_beyond number beyond
      have found : ((renderNumber kind s).any fun b => b == 0x78 || b == 0x58) = true :=
        List.any_eq_true.mpr ⟨b, member, by simpa using letter⟩
      exact found ▸ marks_bytes plain
  | .string kind s, parsed => @key_marks (.string kind s) parsed rfl
  | .array items, parsed => by
    have inner := ((@marks_quiet [0x5B] (by decide)).append (renderItems_mark items parsed)).append
      (@marks_quiet [0x5D] (by decide))
    rwa [Bool.false_or, Bool.or_false] at inner
  | .object pairs, parsed => by
    have inner := ((@marks_quiet [0x7B] (by decide)).append (renderPairs_mark pairs parsed)).append
      (@marks_quiet [0x7D] (by decide))
    rwa [Bool.false_or, Bool.or_false] at inner

theorem renderItems_mark : (items : List Jb) → itemsParsed items → Marks (renderItems items) (itemsBeyond items)
  | [], _ => marks_nil
  | [item], parsed => by
    rw [renderItems, itemsBeyond, itemsBeyond, Bool.or_false]
    exact render_marks item parsed.1
  | item :: next :: rest, parsed => by
    have inner := ((render_marks item parsed.1).append (@marks_quiet [0x2C] (by decide))).append
      (renderItems_mark (next :: rest) parsed.2)
    rwa [Bool.or_false] at inner

theorem renderPairs_mark : (pairs : List (Jb × Jb)) → pairsParsed pairs →
    Marks (renderPairs pairs) (pairsBeyond pairs)
  | [], _ => marks_nil
  | [(key, value)], parsed => by
    have inner := ((key_marks parsed.1.1 parsed.1.2).append (@marks_quiet [0x3A] (by decide))).append
      (render_marks value parsed.2.1)
    rw [renderPairs, pairsBeyond, pairsBeyond, Bool.or_false]
    rwa [Bool.false_or, Bool.false_or] at inner
  | (key, value) :: next :: rest, parsed => by
    have inner := ((((key_marks parsed.1.1 parsed.1.2).append (@marks_quiet [0x3A] (by decide))).append
      (render_marks value parsed.2.1)).append (@marks_quiet [0x2C] (by decide))).append
      (renderPairs_mark (next :: rest) parsed.2.2)
    rwa [Bool.false_or, Bool.false_or, Bool.or_false] at inner

end

end Marked

/-- The strict parser takes the rendered text for the same value, and rendering what it
makes of it gives the same bytes. -/
def Canonicalises (t : Jb) : Prop :=
  ∃ u, parseStrictBytes t.render = .ok u ∧ u.value = t.value ∧ u.render = t.render

/-- Rendering canonicalises a parsed text exactly when no hexadecimal number with a minus
sign or of 2^128 or more is in it. -/
theorem canonicalises_iff {b : List UInt8} {t : Jb} (parsed : parseLenientBytes b = .ok t) :
    Canonicalises t ↔ t.hexBeyond = false := by
  have made := parseBytes_parsed parsed
  constructor
  · rintro ⟨u, accepted, _, _⟩
    obtain ⟨l, text, r, whole, left, value, right⟩ := document_of_strict accepted
    have quiet := ((marks_ws left).append (value_marks value)).append (marks_ws right)
    rw [← whole] at quiet
    exact (render_marks t made).2.symm.trans quiet.2
  · intro within
    obtain ⟨u, value, same, again⟩ := render_rfc t made within
    have document : Document t.render u := ⟨[], t.render, [], by simp, nofun, value, nofun⟩
    exact ⟨u, document.parsed, same, again⟩

/-- A hexadecimal number with a plus sign is rewritten. -/
theorem canonicalises_hex : Canonicalises (.array [.number .int5 (ascii "+0x1F")]) :=
  (canonicalises_iff (b := ascii "[+0x1F]") rfl).mpr (by decide)

/-- One with a minus sign is rendered as it stands, and refused. -/
theorem canonicalises_minus :
    parseLenientBytes (ascii "-0x1") = .ok (.number .int5 (ascii "-0x1")) ∧
      ¬ Canonicalises (.number .int5 (ascii "-0x1")) := by
  refine ⟨rfl, ?_⟩
  rintro ⟨u, accepted, _⟩
  have refused : parseStrictBytes (Jb.render (.number .int5 (ascii "-0x1"))) = .error 2 := rfl
  rw [refused] at accepted
  cases accepted

end RustSql.Jsonb
