import RustSql.Jsonb.Scanning

/-! The strings the scanner accepts, by the pieces they are made of: single bytes, the
escapes of RFC 8259 and those of JSON5. -/

namespace RustSql.Jsonb

/-- What stands between two quotes, one piece of it. -/
inductive Piece where
  | plain (c : UInt8)
  | escape (e : UInt8)
  | unicode (digits : List UInt8)
  | hex (digits : List UInt8)
  | char (e : UInt8)
  | joined (line : List UInt8)
deriving DecidableEq, Repr

/-- The line ends a backslash takes out of a string. -/
def lineEnds : List (List UInt8) :=
  [[0x0A], [0x0D], [0x0D, 0x0A], [0xE2, 0x80, 0xA8], [0xE2, 0x80, 0xA9]]

namespace Piece

def text : Piece → List UInt8
  | plain c => [c]
  | escape e => [0x5C, e]
  | unicode ds => 0x5C :: 0x75 :: ds
  | hex ds => 0x5C :: 0x78 :: ds
  | char e => [0x5C, e]
  | joined line => 0x5C :: line

/-- Does it start with a backslash? -/
def escaped : Piece → Bool
  | plain _ => false
  | _ => true

/-- Is it none of RFC 8259? -/
def json5 : Piece → Bool
  | plain c => c == 0x22 || c < 0x20
  | escape _ | unicode _ => false
  | hex _ | char _ | joined _ => true

/-- The piece may stand between these quotes. -/
def Good (strict : Bool) (quote : UInt8) : Piece → Prop
  | plain c => c ≠ quote ∧ c ≠ 0x5C ∧ c ≠ 0 ∧ (strict = true → 0x20 ≤ c)
  | escape e => isPlainEscape e = true
  | unicode ds => ds.length = 4 ∧ ∀ b ∈ ds, isHexDigit b = true
  | hex ds => strict = false ∧ ds.length = 2 ∧ ∀ b ∈ ds, isHexDigit b = true
  | char e => strict = false ∧ (e = 0x76 ∨ e = 0x30 ∨ e = 0x27)
  | joined line => strict = false ∧ line ∈ lineEnds

instance (strict : Bool) (quote : UInt8) : (p : Piece) → Decidable (p.Good strict quote)
  | plain c =>
    inferInstanceAs (Decidable (c ≠ quote ∧ c ≠ 0x5C ∧ c ≠ 0 ∧ (strict = true → 0x20 ≤ c)))
  | escape e => inferInstanceAs (Decidable (isPlainEscape e = true))
  | unicode ds => inferInstanceAs (Decidable (ds.length = 4 ∧ ∀ b ∈ ds, isHexDigit b = true))
  | hex ds =>
    inferInstanceAs (Decidable (strict = false ∧ ds.length = 2 ∧ ∀ b ∈ ds, isHexDigit b = true))
  | char e => inferInstanceAs (Decidable (strict = false ∧ (e = 0x76 ∨ e = 0x30 ∨ e = 0x27)))
  | joined line => inferInstanceAs (Decidable (strict = false ∧ line ∈ lineEnds))

/-- What follows in the input does not belong to the piece. -/
def Ends : Piece → List UInt8 → Prop
  | char e, rest => e = 0x30 → ∀ b ∈ rest.head?, isDigit b = false
  | joined line, rest => line = [0x0D] → rest.head? ≠ some 0x0A
  | _, _ => True

end Piece

def piecesText (ps : List Piece) : List UInt8 := ps.flatMap Piece.text

/-- Each piece is good and ends where the next one starts. -/
def Spelled (strict : Bool) (quote : UInt8) : List Piece → Prop
  | [] => True
  | p :: rest => p.Good strict quote ∧ p.Ends (piecesText rest) ∧ Spelled strict quote rest

section Pieces

variable {strict : Bool} {quote : UInt8}

theorem piecesText_cons (p : Piece) (ps : List Piece) :
    piecesText (p :: ps) = p.text ++ piecesText ps := List.flatMap_cons

/-- A piece that ends in front of a text ends in front of the beginning of it. -/
theorem Piece.Ends.front {p : Piece} {xs ys : List UInt8} (ends : p.Ends (xs ++ ys)) : p.Ends xs := by
  cases xs with
  | nil => cases p <;> first | trivial | (intro _; simp)
  | cons x xs => cases p <;> exact ends

theorem scanHexDigits_took {n : Nat} {p q : JParser} (scanned : scanHexDigits n p = .ok q) :
    ∃ ds : List UInt8, ds.length = n ∧ (∀ b ∈ ds, isHexDigit b = true) ∧ Took p ds q := by
  induction n generalizing p with
  | zero =>
    cases scanned
    exact ⟨[], rfl, nofun, took_nil _⟩
  | succ n ih =>
    rw [scanHexDigits] at scanned
    cases next : p.peek with
    | none =>
      rw [next] at scanned
      cases scanned
    | some h =>
      rw [next] at scanned
      dsimp only at scanned
      split at scanned
      · rename_i digit
        obtain ⟨ds, length, all, took⟩ := ih scanned
        refine ⟨h :: ds, by rw [List.length_cons, length], ?_, took_append (took_peek next) took⟩
        exact List.forall_mem_cons.mpr ⟨digit, all⟩
      · cases scanned

theorem scanHexDigits_run {ds rest : List UInt8} {pos : Nat} (all : ∀ b ∈ ds, isHexDigit b = true) :
    scanHexDigits ds.length ⟨ds ++ rest, pos⟩ = .ok ⟨rest, pos + ds.length⟩ := by
  induction ds generalizing pos with
  | nil => rfl
  | cons d ds ih =>
    obtain ⟨digit, others⟩ := List.forall_mem_cons.mp all
    have behind : (⟨d :: ds ++ rest, pos⟩ : JParser).advance 1 = ⟨ds ++ rest, pos + 1⟩ := rfl
    rw [List.length_cons, scanHexDigits, show (⟨d :: ds ++ rest, pos⟩ : JParser).peek = some d from rfl]
    dsimp only
    rw [if_pos digit, behind, ih others, Nat.add_right_comm, Nat.add_assoc]

theorem isLineSeparator_front {behind : List UInt8} (separator : isLineSeparator behind = true) :
    ∃ c rest, behind = 0x80 :: c :: rest ∧ (c = 0xA8 ∨ c = 0xA9) := by
  unfold isLineSeparator at separator
  split at separator
  · exact ⟨_, _, rfl, .inl rfl⟩
  · exact ⟨_, _, rfl, .inr rfl⟩
  · cases separator

/-- An escape is one piece without its backslash. -/
theorem scanEscape_took {only5 : Bool} {p q : JParser}
    (scanned : scanEscape strict p = .ok (only5, q)) :
    ∃ piece : Piece, ∃ tail, piece.text = 0x5C :: tail ∧ piece.escaped = true ∧
      piece.json5 = only5 ∧ piece.Good strict quote ∧ piece.Ends q.rest ∧ Took p tail q := by
  obtain ⟨rest, pos⟩ := p
  unfold scanEscape at scanned
  cases rest with
  | nil => cases scanned
  | cons e behind =>
    dsimp only at scanned
    have first : Took ⟨e :: behind, pos⟩ [e] (JParser.advance ⟨e :: behind, pos⟩ 1) := took_peek rfl
    split at scanned
    · rename_i isEscape
      cases scanned
      exact ⟨.escape e, [e], rfl, rfl, rfl, isEscape, trivial, first⟩
    split at scanned
    · rename_i isUnicode
      subst isUnicode
      cases digits : scanHexDigits 4 (JParser.advance ⟨0x75 :: behind, pos⟩ 1) with
      | error at_ =>
        rw [digits] at scanned
        cases scanned
      | ok r =>
        rw [digits] at scanned
        cases scanned
        obtain ⟨ds, length, all, took⟩ := scanHexDigits_took digits
        exact ⟨.unicode ds, 0x75 :: ds, rfl, rfl, rfl, ⟨length, all⟩, trivial, took_append first took⟩
    split at scanned
    · rename_i separator
      obtain ⟨rfl, lenient, separator⟩ := separator
      obtain ⟨c, rest, rfl, isLast⟩ := isLineSeparator_front separator
      cases scanned
      refine ⟨.joined [0xE2, 0x80, c], [0xE2, 0x80, c], rfl, rfl, rfl, ⟨by simpa using lenient, ?_⟩, ?_,
        took_mk [0xE2, 0x80, c] rest pos⟩
      · rcases isLast with rfl | rfl <;> decide
      · intro cr
        cases cr
    split at scanned
    · rename_i isJson5
      split at scanned
      · cases scanned
      rename_i refused
      simp only [Bool.or_eq_true, not_or, Bool.and_eq_true, not_and, Bool.not_eq_true] at refused
      obtain ⟨lenient, zero⟩ := refused
      split at scanned
      · rename_i both
        obtain ⟨rfl, lineFeed⟩ := both
        cases behind with
        | nil => cases lineFeed
        | cons b rest =>
          cases lineFeed
          cases scanned
          exact ⟨.joined [0x0D, 0x0A], [0x0D, 0x0A], rfl, rfl, rfl, ⟨lenient, by decide⟩, nofun,
            took_mk [0x0D, 0x0A] rest pos⟩
      rename_i single
      split at scanned
      · rename_i isHex
        subst isHex
        cases digits : scanHexDigits 2 (JParser.advance ⟨0x78 :: behind, pos⟩ 1) with
        | error at_ =>
          rw [digits] at scanned
          cases scanned
        | ok r =>
          rw [digits] at scanned
          cases scanned
          obtain ⟨ds, length, all, took⟩ := scanHexDigits_took digits
          exact ⟨.hex ds, 0x78 :: ds, rfl, rfl, rfl, ⟨lenient, length, all⟩, trivial,
            took_append first took⟩
      rename_i notHex
      cases scanned
      have values : e = 0x76 ∨ e = 0x30 ∨ e = 0x0A ∨ e = 0x0D ∨ e = 0x27 := by
        simp only [isJson5Escape, Bool.or_eq_true, beq_iff_eq] at isJson5
        tauto
      rcases values with rfl | rfl | rfl | rfl | rfl
      · exact ⟨.char 0x76, [0x76], rfl, rfl, rfl, ⟨lenient, by decide⟩, nofun, first⟩
      · refine ⟨.char 0x30, [0x30], rfl, rfl, rfl, ⟨lenient, by decide⟩, ?_, first⟩
        intro _ b next
        have none := zero (by decide)
        rw [show behind.head? = some b from next] at none
        exact none
      · exact ⟨.joined [0x0A], [0x0A], rfl, rfl, rfl, ⟨lenient, by decide⟩, nofun, first⟩
      · exact ⟨.joined [0x0D], [0x0D], rfl, rfl, rfl, ⟨lenient, by decide⟩,
          fun _ lineFeed => single ⟨rfl, lineFeed⟩, first⟩
      · exact ⟨.char 0x27, [0x27], rfl, rfl, rfl, ⟨lenient, by decide⟩, nofun, first⟩
    · cases scanned

theorem scanStringFrom_took {fuel : Nat} {escaped json5 : Bool} {p stop : JParser} {kind : StrKind}
    (scanned : scanStringFrom strict quote fuel escaped json5 p = .ok (kind, stop)) :
    ∃ ps : List Piece, Spelled strict quote ps ∧
      kind = stringKind (escaped || ps.any Piece.escaped) (json5 || ps.any Piece.json5) ∧
      Took p (piecesText ps) stop ∧ stop.peek = some quote := by
  induction fuel generalizing escaped json5 p with
  | zero => cases scanned
  | succ fuel ih =>
    rw [scanStringFrom] at scanned
    -- one byte that is a piece by itself, and the pieces behind it
    have single {c : UInt8} {json5' : Bool} (next : p.peek = some c) (good : (Piece.plain c).Good strict quote)
        (known : json5' = (json5 || (Piece.plain c).json5))
        (scanned : scanStringFrom strict quote fuel escaped json5' (p.advance 1) = .ok (kind, stop)) :
        ∃ ps : List Piece, Spelled strict quote ps ∧
          kind = stringKind (escaped || ps.any Piece.escaped) (json5 || ps.any Piece.json5) ∧
          Took p (piecesText ps) stop ∧ stop.peek = some quote := by
      obtain ⟨ps, spelled, rfl, took, closes⟩ := ih scanned
      refine ⟨.plain c :: ps, ⟨good, trivial, spelled⟩, ?_, took_append (took_peek next) took, closes⟩
      rw [known, List.any_cons, List.any_cons, Bool.or_assoc]
      rfl
    cases next : p.peek with
    | none =>
      rw [next] at scanned
      cases scanned
    | some c =>
      rw [next] at scanned
      dsimp only at scanned
      by_cases isDouble : c = 0x22 ∧ quote ≠ 0x22
      · rw [if_pos isDouble] at scanned
        obtain ⟨rfl, other⟩ := isDouble
        exact single next ⟨other.symm, by decide, by decide, fun _ => by decide⟩ (by simp [Piece.json5])
          scanned
      rw [if_neg isDouble] at scanned
      by_cases isQuote : c = quote
      · rw [if_pos isQuote] at scanned
        cases scanned
        exact ⟨[], trivial, by simp, took_nil _, isQuote ▸ next⟩
      rw [if_neg isQuote] at scanned
      have notDouble : c ≠ 0x22 := fun is => isDouble ⟨is, fun same => isQuote (is.trans same.symm)⟩
      by_cases isBackslash : c = 0x5C
      · rw [if_pos isBackslash] at scanned
        subst isBackslash
        cases escape : scanEscape strict (p.advance 1) with
        | error at_ =>
          rw [escape] at scanned
          cases scanned
        | ok found =>
          obtain ⟨only5, r⟩ := found
          rw [escape] at scanned
          dsimp only [bind, Except.bind] at scanned
          obtain ⟨piece, tail, text, isEscaped, rfl, good, ends, first⟩ :=
            @scanEscape_took _ quote _ _ _ escape
          obtain ⟨ps, spelled, rfl, took, closes⟩ := ih scanned
          rw [took.1] at ends
          refine ⟨piece :: ps, ⟨good, ends.front, spelled⟩, ?_, ?_, closes⟩
          · rw [List.any_cons, List.any_cons, isEscaped, Bool.true_or, Bool.or_true,
              Bool.or_assoc]
          · rw [piecesText_cons, text]
            exact took_append (took_append (took_peek next) first) took
      rw [if_neg isBackslash] at scanned
      by_cases isNul : c = 0
      · rw [if_pos isNul] at scanned
        cases scanned
      rw [if_neg isNul] at scanned
      by_cases control : c < 0x20
      · rw [if_pos control] at scanned
        split at scanned
        · cases scanned
        · rename_i lenient
          exact single next ⟨isQuote, isBackslash, isNul, fun isStrict => absurd isStrict lenient⟩
            (by simp [Piece.json5, control]) scanned
      · rw [if_neg control] at scanned
        exact single next ⟨isQuote, isBackslash, isNul, fun _ => UInt8.not_lt.mp control⟩
          (by simp [Piece.json5, control, notDouble]) scanned

/-- A text between quotes, or a name that is a key. -/
def StringText (kind : StrKind) (text : List UInt8) : Prop :=
  ∃ quote, (quote = 0x22 ∨ quote = 0x27) ∧ ∃ ps, Spelled false quote ps ∧
    kind = stringKind (ps.any Piece.escaped) (ps.any Piece.json5) ∧ text = piecesText ps

theorem Piece.Good.lenient {p : Piece} (good : p.Good strict quote) : p.Good false quote := by
  cases p with
  | plain c => exact ⟨good.1, good.2.1, good.2.2.1, nofun⟩
  | escape e => exact good
  | unicode ds => exact good
  | hex ds => exact ⟨rfl, good.2⟩
  | char e => exact ⟨rfl, good.2⟩
  | joined line => exact ⟨rfl, good.2⟩

theorem Spelled.lenient {ps : List Piece} (spelled : Spelled strict quote ps) :
    Spelled false quote ps := by
  induction ps with
  | nil => trivial
  | cons p ps ih => exact ⟨spelled.1.lenient, spelled.2.1, ih spelled.2.2⟩

/-- What the scanner accepts is its pieces between two quotes. -/
theorem scanString_took {kind : StrKind} {text : List UInt8} {p q : JParser}
    (scanned : scanString strict quote p = .ok (kind, text, q)) :
    ∃ ps : List Piece, Spelled strict quote ps ∧
      kind = stringKind (ps.any Piece.escaped) (ps.any Piece.json5) ∧ text = piecesText ps ∧
      Took p ([quote] ++ text ++ [quote]) q := by
  unfold scanString at scanned
  split at scanned
  · cases scanned
  · rename_i opens
    have opens := not_not.mp opens
    dsimp only at scanned
    cases found : scanStringFrom strict quote ((p.advance 1).rest.length + 1) false false (p.advance 1) with
    | error at_ =>
      rw [found] at scanned
      cases scanned
    | ok whole =>
      obtain ⟨kind, stop⟩ := whole
      rw [found] at scanned
      cases scanned
      obtain ⟨ps, spelled, is, took, closes⟩ := scanStringFrom_took found
      rw [span_of_took took]
      refine ⟨ps, spelled, ?_, rfl, took_append (took_append (took_peek opens) took) (took_peek closes)⟩
      rwa [Bool.false_or, Bool.false_or] at is

theorem Piece.Good.rfc {p : Piece} (good : p.Good true 0x22) : p.json5 = false := by
  cases p with
  | plain c =>
    obtain ⟨notQuote, _, _, printable⟩ := good
    simp only [Piece.json5, Bool.or_eq_false_iff, beq_eq_false_iff_ne, decide_eq_false_iff_not]
    exact ⟨notQuote, UInt8.not_lt.mpr (printable rfl)⟩
  | escape e => rfl
  | unicode ds => rfl
  | hex ds => cases good.1
  | char e => cases good.1
  | joined line => cases good.1

theorem Spelled.rfc {ps : List Piece} (spelled : Spelled true 0x22 ps) :
    ps.any Piece.json5 = false := by
  induction ps with
  | nil => rfl
  | cons p ps ih => rw [List.any_cons, spelled.1.rfc, ih spelled.2.2, Bool.false_or]

theorem scanEscape_run {p : Piece} {tail rest : List UInt8} {pos : Nat} (good : p.Good true 0x22)
    (text : p.text = 0x5C :: tail) (escaped : p.escaped = true) :
    scanEscape strict ⟨tail ++ rest, pos⟩ = .ok (false, ⟨rest, pos + tail.length⟩) := by
  cases p with
  | plain c => cases escaped
  | escape e =>
    cases text
    unfold scanEscape
    dsimp only [List.cons_append, List.nil_append]
    rw [if_pos (show isPlainEscape e = true from good)]
    rfl
  | unicode ds =>
    cases text
    have behind : (⟨0x75 :: (ds ++ rest), pos⟩ : JParser).advance 1 = ⟨ds ++ rest, pos + 1⟩ := rfl
    have digits := @scanHexDigits_run _ rest (pos + 1) good.2
    rw [good.1] at digits
    unfold scanEscape
    dsimp only [List.cons_append]
    rw [if_neg (by decide), if_pos rfl, behind, digits, List.length_cons, good.1]
    rfl
  | hex ds => cases good.1
  | char e => cases good.1
  | joined line => cases good.1

theorem scanStringFrom_run {ps : List Piece} {fuel pos : Nat} {escaped json5 : Bool}
    {rest : List UInt8} (spelled : Spelled true 0x22 ps) (enough : (piecesText ps).length < fuel) :
    scanStringFrom strict 0x22 fuel escaped json5 ⟨piecesText ps ++ 0x22 :: rest, pos⟩ =
      .ok (stringKind (escaped || ps.any Piece.escaped) json5,
        ⟨0x22 :: rest, pos + (piecesText ps).length⟩) := by
  induction ps generalizing fuel escaped pos with
  | nil =>
    obtain ⟨fuel, rfl⟩ := Nat.exists_eq_succ_of_ne_zero (Nat.ne_of_gt enough)
    rw [scanStringFrom, List.any_nil, Bool.or_false]
    rfl
  | cons p ps ih =>
    obtain ⟨good, _, others⟩ := spelled
    rw [piecesText_cons, List.length_append] at enough
    obtain ⟨fuel, rfl⟩ := Nat.exists_eq_succ_of_ne_zero (Nat.ne_zero_of_lt enough)
    rw [piecesText_cons, List.append_assoc, List.length_append, List.any_cons, scanStringFrom]
    cases isEscaped : p.escaped with
    | false =>
      cases p with
      | plain c =>
        obtain ⟨notQuote, notBackslash, notNul, printable⟩ := good
        have behind : (⟨[c] ++ (piecesText ps ++ 0x22 :: rest), pos⟩ : JParser).advance 1 =
            ⟨piecesText ps ++ 0x22 :: rest, pos + 1⟩ := rfl
        rw [show (⟨(Piece.plain c).text ++ (piecesText ps ++ 0x22 :: rest), pos⟩ : JParser).peek =
          some c from rfl]
        dsimp only [Piece.text]
        dsimp only [Piece.text, List.length_singleton] at enough
        rw [if_neg (fun both => both.2 rfl), if_neg notQuote, if_neg notBackslash, if_neg notNul,
          if_neg (UInt8.not_lt.mpr (printable rfl)), behind, ih others (by omega), Bool.false_or,
          List.length_singleton, Nat.add_assoc]
      | _ => cases isEscaped
    | true =>
      obtain ⟨tail, text⟩ : ∃ tail, p.text = 0x5C :: tail := by
        cases p with
        | plain c => cases isEscaped
        | _ => exact ⟨_, rfl⟩
      have behind : (⟨0x5C :: tail ++ (piecesText ps ++ 0x22 :: rest), pos⟩ : JParser).advance 1 =
          ⟨tail ++ (piecesText ps ++ 0x22 :: rest), pos + 1⟩ := rfl
      rw [text, List.length_cons] at enough
      rw [text, show (⟨0x5C :: tail ++ (piecesText ps ++ 0x22 :: rest), pos⟩ : JParser).peek =
        some 0x5C from rfl]
      dsimp only
      rw [if_neg (fun both => absurd both.1 (by decide)), if_neg (by decide), if_pos rfl, behind,
        scanEscape_run good text isEscaped]
      dsimp only [bind, Except.bind]
      rw [Bool.or_false, ih others (by omega), Bool.true_or, Bool.or_true, List.length_cons]
      simp only [Except.ok.injEq, Prod.mk.injEq, JParser.mk.injEq, true_and]
      omega

/-- A string of RFC 8259 is scanned up to its second quote. -/
theorem scanString_run {ps : List Piece} {pos : Nat} {rest : List UInt8}
    (spelled : Spelled true 0x22 ps) :
    scanString strict 0x22 ⟨[0x22] ++ piecesText ps ++ [0x22] ++ rest, pos⟩ =
      .ok (stringKind (ps.any Piece.escaped) false, piecesText ps,
        ⟨rest, pos + ((piecesText ps).length + 2)⟩) := by
  have input : [0x22] ++ piecesText ps ++ [0x22] ++ rest =
      0x22 :: (piecesText ps ++ 0x22 :: rest) := by
    simp
  have behind : (⟨0x22 :: (piecesText ps ++ 0x22 :: rest), pos⟩ : JParser).advance 1 =
      ⟨piecesText ps ++ 0x22 :: rest, pos + 1⟩ := rfl
  have enough : (piecesText ps).length < (piecesText ps ++ 0x22 :: rest).length + 1 := by
    rw [List.length_append]
    omega
  rw [scanString, input, if_neg (fun other => other rfl)]
  dsimp only
  rw [behind]
  dsimp only
  rw [scanStringFrom_run spelled enough]
  dsimp only [bind, Except.bind, pure, Except.pure]
  rw [Bool.false_or, span_of_took (took_mk (piecesText ps) (0x22 :: rest) (pos + 1)),
    show pos + ((piecesText ps).length + 2) = pos + 1 + (piecesText ps).length + 1 by omega]
  rfl

theorem isId1_plain {c : UInt8} (isName : (isId1 c || isDigit c) = true) :
    (Piece.plain c).Good true 0x22 ∧ (Piece.plain c).json5 = false := by
  have bytes : (isId1 c || isDigit c) = true →
      (c ≠ 0x22 ∧ c ≠ 0x5C ∧ c ≠ 0 ∧ 0x20 ≤ c) ∧ (Piece.plain c).json5 = false :=
    Foundation.forall_byte (by decide +kernel) c
  obtain ⟨⟨double, backslash, nul, printable⟩, rfc⟩ := bytes isName
  exact ⟨⟨double, backslash, nul, fun _ => printable⟩, rfc⟩

theorem scanIdentFrom_took {start fuel : Nat} {escaped : Bool} {p : JParser} :
    ∃ ps : List Piece, Spelled true 0x22 ps ∧ ps.any Piece.json5 = false ∧
      (scanIdentFrom start fuel escaped p).1 = (escaped || ps.any Piece.escaped) ∧
      Took p (piecesText ps) (scanIdentFrom start fuel escaped p).2 := by
  induction fuel generalizing escaped p with
  | zero => exact ⟨[], trivial, rfl, (Bool.or_false _).symm, took_nil p⟩
  | succ fuel ih =>
    rw [scanIdentFrom]
    obtain ⟨rest, pos⟩ := p
    cases rest with
    | nil => exact ⟨[], trivial, rfl, (Bool.or_false _).symm, took_nil _⟩
    | cons c behind =>
      dsimp only
      split
      · rename_i isName
        obtain ⟨ps, spelled, rfc, isEscaped, took⟩ :=
          @ih escaped (JParser.advance ⟨c :: behind, pos⟩ 1)
        have named : (isId1 c || isDigit c) = true := by
          simp only [Bool.and_eq_true, Bool.or_eq_true] at isName ⊢
          tauto
        obtain ⟨good, notJson5⟩ := isId1_plain named
        refine ⟨.plain c :: ps, ⟨good, trivial, spelled⟩, ?_, isEscaped, took_append (took_peek rfl) took⟩
        rw [List.any_cons, notJson5, rfc]
        rfl
      · split
        · rename_i isUnicode
          obtain ⟨rfl, second, four⟩ := isUnicode
          obtain ⟨ps, spelled, rfc, isEscaped, took⟩ :=
            @ih true (JParser.advance ⟨0x5C :: behind, pos⟩ 6)
          cases behind with
          | nil => cases second
          | cons u digits =>
            cases second
            simp only [is4Hex, List.drop_succ_cons, List.drop_zero, Bool.and_eq_true,
              decide_eq_true_eq] at four
            have length : (digits.take 4).length = 4 := by
              rw [List.length_take]
              omega
            have first : Took ⟨0x5C :: 0x75 :: digits, pos⟩ (Piece.unicode (digits.take 4)).text
                (JParser.advance ⟨0x5C :: 0x75 :: digits, pos⟩ 6) := by
              refine ⟨?_, ?_⟩
              · exact congrArg (0x5C :: 0x75 :: ·) (List.take_append_drop 4 digits).symm
              · simp [Piece.text, length, JParser.advance]
            refine ⟨.unicode (digits.take 4) :: ps,
              ⟨⟨length, List.all_eq_true.mp four.2⟩, trivial, spelled⟩, rfc, ?_,
              took_append first took⟩
            rw [isEscaped, Bool.true_or, List.any_cons]
            exact (Bool.or_true _).symm
        · exact ⟨[], trivial, rfl, (Bool.or_false _).symm, took_nil _⟩

theorem scanIdentKey_took {kind : StrKind} {text : List UInt8} {p q : JParser}
    (scanned : scanIdentKey p = .ok (kind, text, q)) :
    StringText kind text ∧ Took p text q ∧ text ≠ [] := by
  obtain ⟨ps, spelled, rfc, isEscaped, took⟩ :=
    @scanIdentFrom_took p.pos p.rest.length false p
  unfold scanIdentKey at scanned
  dsimp only at scanned
  split at scanned
  · cases scanned
  · rename_i moved
    cases scanned
    rw [span_of_took took]
    refine ⟨⟨0x22, .inl rfl, ps, spelled.lenient, ?_, rfl⟩, took, ?_⟩
    · rw [rfc, isEscaped, Bool.false_or]
      rfl
    · intro empty
      rw [empty] at took
      exact moved took.2

end Pieces

end RustSql.Jsonb
