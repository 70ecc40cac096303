import RustSql.Jsonb.Scanning

/-! The numbers the scanner accepts: decimal ones by their parts, hexadecimal ones, and
the names of JSON5. -/

namespace RustSql.Jsonb

/-- A decimal number by its parts. The fraction is there when the dot is. -/
structure Decimal where
  sign : List UInt8
  int : List UInt8
  frac : Option (List UInt8)
  exp : Option (UInt8 × List UInt8 × List UInt8)
deriving DecidableEq, Repr

def digits (text : List UInt8) : Prop := ∀ b ∈ text, isDigit b = true

def isSign (sign : List UInt8) : Prop := sign = [] ∨ sign = [0x2D] ∨ sign = [0x2B]

def fracText : Option (List UInt8) → List UInt8
  | none => []
  | some ds => 0x2E :: ds

def expText : Option (UInt8 × List UInt8 × List UInt8) → List UInt8
  | none => []
  | some (e, sign, ds) => e :: (sign ++ ds)

namespace Decimal

/-- All that stands behind the sign. -/
def body (d : Decimal) : List UInt8 := d.int ++ (fracText d.frac ++ expText d.exp)

def text (d : Decimal) : List UInt8 := d.sign ++ d.body

/-- RFC 8259 or JSON5: digits before or behind the dot, no leading zeros, digits in the
exponent. -/
structure Formed (d : Decimal) : Prop where
  sign : isSign d.sign
  int : digits d.int
  frac : ∀ ds ∈ d.frac, digits ds
  exp : ∀ e sign ds, d.exp = some (e, sign, ds) →
    (e = 0x65 ∨ e = 0x45) ∧ isSign sign ∧ digits ds ∧ ds ≠ []
  some : d.int = [] → ∃ ds, d.frac = Option.some ds ∧ ds ≠ []
  noLeadingZero : 1 < d.int.length → d.int.head? ≠ Option.some 0x30

/-- RFC 8259 only: no plus sign, and digits on both sides of the dot. -/
def canonical (d : Decimal) : Bool := d.sign != [0x2B] && d.int != [] && d.frac != some []

/-- The payload: a plus sign is left out. -/
def payload (d : Decimal) : List UInt8 := if d.sign = [0x2B] then d.body else d.text

def kind (d : Decimal) : NumKind :=
  if d.frac.isSome || d.exp.isSome then (if d.canonical then .float else .float5) else .int

def tok (d : Decimal) : NumTok := .payload d.kind d.payload

end Decimal

/-- What may not follow a decimal number in the input. -/
def continuesDecimal (b : UInt8) : Bool := isDigit b || b == 0x2E || b == 0x65 || b == 0x45

section Parts

variable {p q : JParser} {rest : List UInt8} {pos : Nat}

theorem skipDigits_run {run : List UInt8} (all : digits run)
    (stop : ∀ b ∈ rest.head?, isDigit b = false) :
    (⟨run ++ rest, pos⟩ : JParser).skipDigits = ⟨rest, pos + run.length⟩ := by
  rw [JParser.skipDigits, takeWhile_run all stop, advance_mk]

theorem skipDigits_took (p : JParser) :
    ∃ run, digits run ∧ Took p run p.skipDigits ∧
      ∀ b ∈ p.skipDigits.rest.head?, isDigit b = false :=
  run_took isDigit p

/-- A fraction is a dot and the digits behind it. -/
theorem scanFraction_took {dot : Bool} {count : Nat} (scanned : scanFraction p = (dot, count, q)) :
    ∃ frac : Option (List UInt8), (∀ ds ∈ frac, digits ds) ∧ dot = frac.isSome ∧
      count = (frac.getD []).length ∧ Took p (fracText frac) q := by
  unfold scanFraction at scanned
  split at scanned
  · rename_i next
    obtain ⟨run, all, took, _⟩ := skipDigits_took (p.advance 1)
    cases scanned
    refine ⟨some run, fun ds is => by cases is; exact all, rfl, ?_, took_append (took_peek next) took⟩
    have := took.2
    simp only [JParser.advance] at this ⊢
    simp only [Option.getD_some]
    omega
  · cases scanned
    exact ⟨none, by simp, rfl, rfl, took_nil p⟩

theorem scanFraction_run {frac : Option (List UInt8)} (all : ∀ ds ∈ frac, digits ds)
    (stop : ∀ b ∈ rest.head?, isDigit b = false) (noDot : frac = none → rest.head? ≠ some 0x2E) :
    scanFraction ⟨fracText frac ++ rest, pos⟩ =
      (frac.isSome, (frac.getD []).length, ⟨rest, pos + (fracText frac).length⟩) := by
  cases frac with
  | none =>
    unfold scanFraction
    rw [if_neg (show ¬ (⟨fracText none ++ rest, pos⟩ : JParser).peek = some 0x2E from noDot rfl)]
    rfl
  | some ds =>
    have run := @skipDigits_run _ (pos + 1) _ (all ds rfl) stop
    unfold scanFraction
    rw [if_pos (show (⟨fracText (some ds) ++ rest, pos⟩ : JParser).peek = some 0x2E from rfl),
      show (⟨fracText (some ds) ++ rest, pos⟩ : JParser).advance 1 = ⟨ds ++ rest, pos + 1⟩ from rfl, run]
    simp only [Option.isSome_some, Option.getD_some, fracText, List.length_cons, Prod.mk.injEq,
      JParser.mk.injEq, true_and]
    omega

theorem skipSign_took (p : JParser) : ∃ sign, isSign sign ∧ Took p sign p.skipSign := by
  unfold JParser.skipSign
  split
  · rename_i signed
    rcases signed with next | next
    · exact ⟨_, .inr (.inr rfl), took_peek next⟩
    · exact ⟨_, .inr (.inl rfl), took_peek next⟩
  · exact ⟨[], .inl rfl, took_nil _⟩

theorem skipSign_run {sign : List UInt8} (isSign : isSign sign)
    (stop : ∀ b ∈ rest.head?, isDigit b = true) :
    (⟨sign ++ rest, pos⟩ : JParser).skipSign = ⟨rest, pos + sign.length⟩ := by
  unfold JParser.skipSign
  rcases isSign with rfl | rfl | rfl
  · rw [if_neg]
    · rfl
    · rintro (plus | minus)
      · exact absurd (stop _ plus) (by decide)
      · exact absurd (stop _ minus) (by decide)
  · rw [if_pos (.inr rfl)]
    rfl
  · rw [if_pos (.inl rfl)]
    rfl

/-- An exponent is its letter, a sign and digits. -/
theorem scanExponent_took {hasExp : Bool} (scanned : scanExponent p = .ok (hasExp, q)) :
    ∃ exp : Option (UInt8 × List UInt8 × List UInt8),
      (∀ e sign ds, exp = some (e, sign, ds) →
        (e = 0x65 ∨ e = 0x45) ∧ isSign sign ∧ digits ds ∧ ds ≠ []) ∧
      hasExp = exp.isSome ∧ Took p (expText exp) q := by
  unfold scanExponent at scanned
  split at scanned
  · rename_i letter
    have first : ∃ e, (e = 0x65 ∨ e = 0x45) ∧ Took p [e] (p.advance 1) := by
      rcases letter with next | next
      · exact ⟨_, .inl rfl, took_peek next⟩
      · exact ⟨_, .inr rfl, took_peek next⟩
    obtain ⟨e, isE, took⟩ := first
    obtain ⟨sign, isSign, signTook⟩ := skipSign_took (p.advance 1)
    obtain ⟨run, all, runTook, _⟩ := skipDigits_took (p.advance 1).skipSign
    simp only at scanned
    split at scanned
    · cases scanned
    · rename_i moved
      cases scanned
      refine ⟨some (e, sign, run), ?_, rfl, took_append took (took_append signTook runTook)⟩
      rintro _ _ _ ⟨⟩
      refine ⟨isE, isSign, all, ?_⟩
      rintro rfl
      exact moved runTook.2
  · cases scanned
    exact ⟨none, nofun, rfl, took_nil p⟩

theorem scanExponent_run {exp : Option (UInt8 × List UInt8 × List UInt8)}
    (formed : ∀ e sign ds, exp = some (e, sign, ds) →
      (e = 0x65 ∨ e = 0x45) ∧ isSign sign ∧ digits ds ∧ ds ≠ [])
    (stop : ∀ b ∈ rest.head?, isDigit b = false)
    (noLetter : exp = none → rest.head? ≠ some 0x65 ∧ rest.head? ≠ some 0x45) :
    scanExponent ⟨expText exp ++ rest, pos⟩ =
      .ok (exp.isSome, ⟨rest, pos + (expText exp).length⟩) := by
  cases exp with
  | none =>
    unfold scanExponent
    rw [if_neg (not_or.mpr (show ¬ (⟨expText none ++ rest, pos⟩ : JParser).peek = some 0x65 ∧
      ¬ (⟨expText none ++ rest, pos⟩ : JParser).peek = some 0x45 from noLetter rfl))]
    rfl
  | some parts =>
    obtain ⟨e, sign, ds⟩ := parts
    obtain ⟨isE, isSign, all, filled⟩ := formed e sign ds rfl
    have digit : ∀ b ∈ (ds ++ rest).head?, isDigit b = true := by
      cases ds with
      | nil => exact absurd rfl filled
      | cons d ds =>
        rintro b ⟨⟩
        exact all _ List.mem_cons_self
    have letter : (⟨expText (some (e, sign, ds)) ++ rest, pos⟩ : JParser).peek = some 0x65 ∨
        (⟨expText (some (e, sign, ds)) ++ rest, pos⟩ : JParser).peek = some 0x45 := by
      rcases isE with rfl | rfl
      · exact .inl rfl
      · exact .inr rfl
    have behind : (⟨expText (some (e, sign, ds)) ++ rest, pos⟩ : JParser).advance 1 =
        ⟨sign ++ (ds ++ rest), pos + 1⟩ := by
      simp [JParser.advance, expText]
    have positive := List.length_pos_iff.mpr filled
    unfold scanExponent
    rw [if_pos letter]
    simp only [behind, skipSign_run isSign digit, skipDigits_run all stop]
    rw [if_neg (by omega)]
    simp only [Option.isSome_some, expText, List.length_cons, List.length_append, Except.ok.injEq,
      Prod.mk.injEq, JParser.mk.injEq, true_and]
    omega

theorem advance_of_took {b : UInt8} (took : Took p [b] q) : p.advance 1 = q := by
  obtain ⟨behind, at_⟩ := q
  obtain ⟨rest, pos⟩ := took
  dsimp only at rest pos
  rw [JParser.advance, rest, pos]
  rfl

/-- What the scanner makes of the parts of a number. -/
def Decimal.judge (strict : Bool) (d : Decimal) (q : JParser) (start first : Nat) :
    Except Nat (NumTok × JParser) :=
  if d.int = [] ∧ d.frac.getD [] = [] then .error start
  else if 1 < d.int.length ∧ d.int.head? = some 0x30 then .error first
  else if strict && !d.canonical then .error start
  else .ok (d.tok, q)

theorem scanDecimal_parts {strict : Bool} {start : JParser} {d : Decimal} {p₁ p₂ p₃ : JParser}
    (signTook : Took start d.sign p) (plus : d.sign = [0x2B] ↔ start.peek = some 0x2B)
    (unsigned : strict = true → d.sign ≠ [0x2B])
    (int : p.skipDigits = p₁) (intTook : Took p d.int p₁)
    (frac : scanFraction p₁ = (d.frac.isSome, (d.frac.getD []).length, p₂))
    (fracTook : Took p₁ (fracText d.frac) p₂)
    (exp : scanExponent p₂ = .ok (d.exp.isSome, p₃)) (expTook : Took p₂ (expText d.exp) p₃) :
    scanDecimal strict start p = d.judge strict p₃ start.err p.err := by
  have whole : Took start d.text p₃ :=
    took_append signTook (took_append intTook (took_append fracTook expTook))
  have bodyTook : Took p d.body p₃ := took_append intTook (took_append fracTook expTook)
  have count : p₁.pos - p.pos = d.int.length := by
    rw [intTook.2, Nat.add_sub_cancel_left]
  have payload : (if (start.peek == some 0x2B) = true then start.advance 1 else start).span p₃ =
      d.payload := by
    rw [Decimal.payload]
    by_cases isPlus : d.sign = [0x2B]
    · rw [if_pos isPlus, if_pos (beq_iff_eq.mpr (plus.mp isPlus))]
      rw [isPlus] at signTook
      rw [advance_of_took signTook, span_of_took bodyTook]
    · rw [if_neg isPlus, if_neg (fun same => isPlus (plus.mpr (beq_iff_eq.mp same))),
        span_of_took whole]
  have canonical : (!(start.peek == some 0x2B) && decide (d.int.length > 0) &&
      (!d.frac.isSome || decide ((d.frac.getD []).length > 0))) = d.canonical := by
    have sign : (start.peek == some 0x2B) = (d.sign == [0x2B]) := by
      rw [Bool.eq_iff_iff, beq_iff_eq, beq_iff_eq, plus]
    rw [sign, Decimal.canonical]
    cases d.int <;> cases d.frac with
    | none => simp [bne]
    | some ds => cases ds <;> simp [bne]
  have empty : d.int.length = 0 ∧ (d.frac.getD []).length = 0 ↔ d.int = [] ∧ d.frac.getD [] = [] := by
    rw [List.length_eq_zero_iff, List.length_eq_zero_iff]
  have zero : d.int.length > 1 ∧ p.peek = some 0x30 ↔
      1 < d.int.length ∧ d.int.head? = some 0x30 := by
    have first : 1 < d.int.length → p.peek = d.int.head? := by
      intro long
      rw [JParser.peek, intTook.1]
      cases is : d.int with
      | nil => simp [is] at long
      | cons b rest => rfl
    constructor
    · rintro ⟨long, next⟩
      exact ⟨long, first long ▸ next⟩
    · rintro ⟨long, next⟩
      exact ⟨long, (first long).trans next⟩
  unfold scanDecimal Decimal.judge
  simp only [int, count, frac, exp, bind, Except.bind, empty, zero, canonical, payload]
  split
  · rfl
  · rename_i filled
    split
    · rfl
    · cases real : (d.frac.isSome || d.exp.isSome) with
      | true =>
        cases isCanonical : d.canonical with
        | true =>
          have noPlus : d.sign ≠ [0x2B] := by
            rintro isPlus
            simp [Decimal.canonical, isPlus] at isCanonical
          simp [Decimal.tok, Decimal.kind, real, isCanonical, span_of_took whole, Decimal.payload,
            noPlus]
        | false => cases strict <;> simp [Decimal.tok, Decimal.kind, real, isCanonical]
      | false =>
        obtain ⟨noFrac, noExp⟩ := Bool.or_eq_false_iff.mp real
        rw [Option.isSome_eq_false_iff, Option.isNone_iff_eq_none] at noFrac
        have some_ : d.int ≠ [] := fun none => filled ⟨none, by rw [noFrac]; rfl⟩
        have accepted : (strict && !d.canonical) = false := by
          cases strict with
          | false => rfl
          | true => simp [Decimal.canonical, unsigned rfl, some_, noFrac]
        simp [accepted, Decimal.tok, Decimal.kind, real]

end Parts

/-- A hexadecimal number with its sign. -/
structure Hex where
  sign : List UInt8
  letter : UInt8
  run : List UInt8

namespace Hex

def text (h : Hex) : List UInt8 := h.sign ++ (0x30 :: h.letter :: h.run)

structure Formed (h : Hex) : Prop where
  sign : isSign h.sign
  letter : h.letter = 0x78 ∨ h.letter = 0x58
  run : ∀ b ∈ h.run, isHexDigit b = true
  some : h.run ≠ []

end Hex

/-- A number the scanner accepts, by its text. -/
inductive NumberText (strict : Bool) : NumTok → List UInt8 → Prop
  | decimal {d : Decimal} (formed : d.Formed) (canonical : strict = true → d.canonical = true) :
      NumberText strict d.tok d.text
  | hex {h : Hex} (lenient : strict = false) (formed : h.Formed) :
      NumberText strict (.payload .int5 h.text) h.text
  | infinity {sign : List UInt8} (lenient : strict = false) (signed : sign = [0x2D] ∨ sign = [0x2B]) :
      NumberText strict
        (.payload .float (if sign = [0x2D] then ascii "-9e999" else ascii "9e999"))
        (sign ++ ascii "Infinity")
  | nan (lenient : strict = false) : NumberText strict .null (ascii "-NaN")

section Whole

variable {p q : JParser} {strict : Bool}

theorem took_startsWith {lit : List UInt8} (starts : p.startsWith lit = true) :
    Took p lit (p.advance lit.length) := by
  have front := List.isPrefixOf_iff_prefix.mp starts
  have took := took_advance front.length_le
  rwa [← List.prefix_iff_eq_take.mp front] at took

theorem scanSign_took {found : JParser ⊕ (NumTok × JParser)}
    (scanned : scanSign strict p = .ok found) :
    (∃ sign q, found = .inl q ∧ isSign sign ∧ Took p sign q ∧
      (sign = [0x2B] ↔ p.peek = some 0x2B) ∧ (strict = true → sign ≠ [0x2B])) ∨
    (∃ tok q taken, found = .inr (tok, q) ∧ NumberText strict tok taken ∧ Took p taken q) := by
  unfold scanSign at scanned
  split at scanned
  · rename_i minus
    dsimp only at scanned
    split at scanned
    · rename_i infinity
      obtain ⟨lenient, starts⟩ := Bool.and_eq_true_iff.mp infinity
      cases scanned
      exact .inr ⟨_, _, _, rfl, .infinity (by simpa using lenient) (.inl rfl),
        took_append (took_peek minus) (took_startsWith starts)⟩
    · split at scanned
      · rename_i nan
        obtain ⟨lenient, starts⟩ := Bool.and_eq_true_iff.mp nan
        cases scanned
        exact .inr ⟨_, _, _, rfl, .nan (by simpa using lenient),
          took_append (took_peek minus) (took_startsWith starts)⟩
      · cases scanned
        refine .inl ⟨_, _, rfl, .inr (.inl rfl), took_peek minus, ?_, fun _ => by decide⟩
        simp [minus]
  · rename_i plus
    split at scanned
    · cases scanned
    · rename_i lenient
      dsimp only at scanned
      split at scanned
      · rename_i starts
        cases scanned
        exact .inr ⟨_, _, _, rfl, .infinity (by simpa using lenient) (.inr rfl),
          took_append (took_peek plus) (took_startsWith starts)⟩
      · cases scanned
        refine .inl ⟨_, _, rfl, .inr (.inr rfl), took_peek plus, by simp [plus], ?_⟩
        exact fun strict => absurd strict lenient
  · rename_i noMinus noPlus
    cases scanned
    refine .inl ⟨_, _, rfl, .inl rfl, took_nil p, ?_, fun _ => by decide⟩
    constructor
    · rintro ⟨⟩
    · intro plus
      exact absurd plus noPlus

theorem startsHex_took (starts : startsHex p = true) :
    ∃ letter, (letter = 0x78 ∨ letter = 0x58) ∧ Took p [0x30, letter] (p.advance 2) := by
  obtain ⟨rest, pos⟩ := p
  unfold startsHex at starts
  split at starts
  · rename_i behind is
    dsimp only at is
    subst is
    exact ⟨_, .inl rfl, took_mk [0x30, 0x78] behind pos⟩
  · rename_i behind is
    dsimp only at is
    subst is
    exact ⟨_, .inr rfl, took_mk [0x30, 0x58] behind pos⟩
  · cases starts

variable {tok : NumTok}

theorem scanHexNumber_took {start : JParser} {sign : List UInt8} (isSign : isSign sign)
    (signTook : Took start sign p) (starts : startsHex p = true)
    (scanned : scanHexNumber strict start p = .ok (tok, q)) :
    ∃ taken, NumberText strict tok taken ∧ Took start taken q := by
  obtain ⟨letter, isLetter, took⟩ := startsHex_took starts
  obtain ⟨run, all, runTook, _⟩ := run_took isHexDigit (p.advance 2)
  unfold scanHexNumber at scanned
  split at scanned
  · cases scanned
  · rename_i lenient
    dsimp only at scanned
    split at scanned
    · cases scanned
    · rename_i moved
      cases scanned
      have whole : Took start (Hex.text ⟨sign, letter, run⟩) (p.advance 2).skipHexDigits :=
        took_append signTook (took_append took runTook)
      refine ⟨_, ?_, whole⟩
      rw [span_of_took whole]
      refine .hex (by simpa using lenient) ⟨isSign, isLetter, all, ?_⟩
      rintro rfl
      exact moved runTook.2

theorem scanDecimal_took {start : JParser} {sign : List UInt8} (isSign : isSign sign)
    (signTook : Took start sign p) (plus : sign = [0x2B] ↔ start.peek = some 0x2B)
    (unsigned : strict = true → sign ≠ [0x2B]) (scanned : scanDecimal strict start p = .ok (tok, q)) :
    ∃ taken, NumberText strict tok taken ∧ Took start taken q := by
  obtain ⟨run, all, intTook, _⟩ := skipDigits_took p
  rcases hfrac : scanFraction p.skipDigits with ⟨dot, count, p₂⟩
  obtain ⟨frac, fracAll, rfl, rfl, fracTook⟩ := scanFraction_took hfrac
  cases hexp : scanExponent p₂ with
  | error e =>
    simp only [scanDecimal, hfrac, hexp, bind, Except.bind] at scanned
    cases scanned
  | ok found =>
    obtain ⟨hasExp, p₃⟩ := found
    obtain ⟨exp, expFormed, rfl, expTook⟩ := scanExponent_took hexp
    have judged := scanDecimal_parts (d := ⟨sign, run, frac, exp⟩) signTook plus unsigned rfl intTook
      hfrac fracTook hexp expTook
    rw [judged, Decimal.judge] at scanned
    split at scanned
    · cases scanned
    · rename_i filled
      split at scanned
      · cases scanned
      · rename_i zero
        split at scanned
        · cases scanned
        · rename_i accepted
          cases scanned
          refine ⟨_, .decimal ⟨isSign, all, fracAll, expFormed, ?_, ?_⟩ ?_,
            took_append signTook (took_append intTook (took_append fracTook expTook))⟩
          · intro none
            cases frac with
            | none => exact absurd ⟨none, rfl⟩ filled
            | some ds => exact ⟨ds, rfl, fun empty => filled ⟨none, empty⟩⟩
          · exact fun long first => zero ⟨long, first⟩
          · intro isStrict
            simpa [isStrict] using accepted

/-- What the scanner accepts is a number, and all of its bytes are gone over. -/
theorem scanNumber_took (scanned : scanNumber strict p = .ok (tok, q)) :
    ∃ taken, NumberText strict tok taken ∧ Took p taken q := by
  unfold scanNumber at scanned
  cases signed : scanSign strict p with
  | error e =>
    rw [signed] at scanned
    cases scanned
  | ok found =>
    simp only [signed, bind, Except.bind] at scanned
    rcases scanSign_took signed with ⟨sign, r, rfl, isSign, took, plus, unsigned⟩ |
      ⟨tok', r, taken, rfl, number, took⟩
    · dsimp only at scanned
      split at scanned
      · rename_i starts
        exact scanHexNumber_took isSign took starts scanned
      · exact scanDecimal_took isSign took plus unsigned scanned
    · cases scanned
      exact ⟨taken, number, took⟩

/-- What may not follow a number in the input. -/
def continuesNumber (b : UInt8) : Bool := continuesDecimal b || b == 0x78 || b == 0x58

theorem continuesDecimal_digit {b : UInt8} (ends : continuesNumber b = false) : isDigit b = false := by
  simp only [continuesNumber, continuesDecimal, Bool.or_eq_false_iff] at ends
  exact ends.1.1.1.1.1

variable {d : Decimal}

/-- The first byte of what stands behind the sign. -/
theorem Decimal.body_first (formed : d.Formed) :
    ∃ b tail, d.body = b :: tail ∧ (isDigit b = true ∨ b = 0x2E) := by
  cases is : d.int with
  | nil =>
    obtain ⟨ds, frac, _⟩ := formed.some is
    exact ⟨0x2E, ds ++ expText d.exp, by rw [Decimal.body, is, frac]; rfl, .inr rfl⟩
  | cons b tail =>
    refine ⟨b, tail ++ (fracText d.frac ++ expText d.exp), by rw [Decimal.body, is]; rfl, .inl ?_⟩
    exact formed.int b (by rw [is]; exact List.mem_cons_self)

theorem startsWith_first {b c : UInt8} {tail lit rest : List UInt8} {pos : Nat}
    (differ : c ≠ b) : (⟨b :: (tail ++ rest), pos⟩ : JParser).startsWith (c :: lit) = false :=
  Bool.eq_false_iff.mpr fun starts =>
    differ (List.cons_prefix_cons.mp (List.isPrefixOf_iff_prefix.mp starts)).1

theorem scanSign_run {rest : List UInt8} {pos : Nat} (formed : d.Formed)
    (unsigned : strict = true → d.sign ≠ [0x2B]) :
    scanSign strict ⟨d.text ++ rest, pos⟩ =
      .ok (.inl ⟨d.body ++ rest, pos + d.sign.length⟩) := by
  obtain ⟨b, tail, body, first⟩ := Decimal.body_first formed
  have notI : (0x49 : UInt8) ≠ b := by
    rintro rfl
    rcases first with digit | dot
    · exact absurd digit (by decide)
    · exact absurd dot (by decide)
  have notN : (0x4E : UInt8) ≠ b := by
    rintro rfl
    rcases first with digit | dot
    · exact absurd digit (by decide)
    · exact absurd dot (by decide)
  have infinity : (⟨b :: (tail ++ rest), pos + 1⟩ : JParser).startsWith (ascii "Infinity") = false :=
    startsWith_first notI
  have nan : (⟨b :: (tail ++ rest), pos + 1⟩ : JParser).startsWith (ascii "NaN") = false :=
    startsWith_first notN
  rw [Decimal.text, body]
  rcases formed.sign with none | minus | plus
  · rw [none, List.nil_append, List.cons_append, List.length_nil, Nat.add_zero]
    unfold scanSign
    split
    · rename_i minus
      cases minus
      rcases first with digit | dot
      · exact absurd digit (by decide)
      · exact absurd dot (by decide)
    · rename_i plus
      cases plus
      rcases first with digit | dot
      · exact absurd digit (by decide)
      · exact absurd dot (by decide)
    · rfl
  · rw [minus]
    have behind : (⟨[0x2D] ++ b :: tail ++ rest, pos⟩ : JParser).advance 1 =
        ⟨b :: (tail ++ rest), pos + 1⟩ := rfl
    unfold scanSign
    simp only [behind, infinity, nan, Bool.and_false]
    rfl
  · have lenient : strict = false := by
      cases strict with
      | false => rfl
      | true => exact absurd plus (unsigned rfl)
    rw [plus, lenient]
    have behind : (⟨[0x2B] ++ b :: tail ++ rest, pos⟩ : JParser).advance 1 =
        ⟨b :: (tail ++ rest), pos + 1⟩ := rfl
    unfold scanSign
    simp only [behind, infinity]
    rfl

theorem startsHex_run {rest : List UInt8} {pos : Nat} (formed : d.Formed)
    (ends : ∀ b ∈ rest.head?, continuesNumber b = false) :
    startsHex ⟨d.body ++ rest, pos⟩ = false := by
  cases starts : startsHex ⟨d.body ++ rest, pos⟩ with
  | false => rfl
  | true =>
    exfalso
    obtain ⟨letter, isLetter, took⟩ := startsHex_took starts
    have notDigit : isDigit letter = false := by
      rcases isLetter with rfl | rfl <;> decide
    have whole : d.int ++ (fracText d.frac ++ (expText d.exp ++ rest)) =
        0x30 :: letter :: (JParser.advance ⟨d.body ++ rest, pos⟩ 2).rest := by
      have := took.1
      simpa [Decimal.body] using this
    rcases int : d.int with _ | ⟨c, _ | ⟨c', more⟩⟩
    · obtain ⟨ds, frac, _⟩ := formed.some int
      rw [int, frac] at whole
      exact absurd (List.cons.inj whole).1 (by decide)
    · rw [int] at whole
      have behind := (List.cons.inj whole).2
      cases frac : d.frac with
      | some ds =>
        rw [frac] at behind
        rcases isLetter with rfl | rfl <;> exact absurd (List.cons.inj behind).1 (by decide)
      | none =>
        rw [frac] at behind
        cases exp : d.exp with
        | some parts =>
          obtain ⟨e, sign, ds⟩ := parts
          rw [exp] at behind
          have same := (List.cons.inj behind).1
          rcases (formed.exp e sign ds exp).1 with rfl | rfl <;> rcases isLetter with rfl | rfl <;>
            exact absurd same (by decide)
        | none =>
          rw [exp] at behind
          have follows := ends letter (by rw [show rest = _ from behind]; rfl)
          rcases isLetter with rfl | rfl <;> exact absurd follows (by decide)
    · rw [int] at whole
      have same := (List.cons.inj (List.cons.inj whole).2).1
      have digit := formed.int c' (by rw [int]; simp)
      rw [same, notDigit] at digit
      cases digit

theorem scanNumber_decimal {rest : List UInt8} {pos : Nat} (formed : d.Formed)
    (canonical : strict = true → d.canonical = true)
    (ends : ∀ b ∈ rest.head?, continuesNumber b = false) :
    scanNumber strict ⟨d.text ++ rest, pos⟩ = .ok (d.tok, ⟨rest, pos + d.text.length⟩) := by
  have unsigned : strict = true → d.sign ≠ [0x2B] := by
    rintro isStrict plus
    have := canonical isStrict
    simp [Decimal.canonical, plus] at this
  have notLetter {b : UInt8} (ends : continuesNumber b = false) : b ≠ 0x2E ∧ b ≠ 0x65 ∧ b ≠ 0x45 := by
    simp only [continuesNumber, continuesDecimal, Bool.or_eq_false_iff, beq_eq_false_iff_ne] at ends
    exact ⟨ends.1.1.1.1.2, ends.1.1.1.2, ends.1.1.2⟩
  have digitStop : ∀ b ∈ rest.head?, isDigit b = false :=
    fun b first => continuesDecimal_digit (ends b first)
  -- what stands in front of each part's end
  have expStop : ∀ b ∈ (expText d.exp ++ rest).head?, isDigit b = false := by
    cases exp : d.exp with
    | none => exact digitStop
    | some parts =>
      obtain ⟨e, sign, ds⟩ := parts
      rintro b ⟨⟩
      rcases (formed.exp e sign ds exp).1 with rfl | rfl <;> decide
  have fracStop : ∀ b ∈ (fracText d.frac ++ (expText d.exp ++ rest)).head?, isDigit b = false := by
    cases d.frac with
    | none => exact expStop
    | some ds =>
      rintro b ⟨⟩
      decide
  have noDot : d.frac = none → (expText d.exp ++ rest).head? ≠ some 0x2E := by
    intro _ dot
    cases exp : d.exp with
    | none =>
      rw [exp] at dot
      exact (notLetter (ends _ dot)).1 rfl
    | some parts =>
      obtain ⟨e, sign, ds⟩ := parts
      rw [exp] at dot
      cases dot
      rcases (formed.exp _ sign ds exp).1 with is | is <;> exact absurd is (by decide)
  have noExp : d.exp = none → rest.head? ≠ some 0x65 ∧ rest.head? ≠ some 0x45 :=
    fun _ => ⟨fun first => (notLetter (ends _ first)).2.1 rfl,
      fun first => (notLetter (ends _ first)).2.2 rfl⟩
  have plus : d.sign = [0x2B] ↔ (⟨d.text ++ rest, pos⟩ : JParser).peek = some 0x2B := by
    obtain ⟨b, tail, body, first⟩ := Decimal.body_first formed
    rw [Decimal.text, body]
    rcases formed.sign with none | minus | plus
    · rw [none]
      refine iff_of_false nofun fun next => ?_
      cases next
      rcases first with digit | dot
      · exact absurd digit (by decide)
      · exact absurd dot (by decide)
    · rw [minus]
      exact iff_of_false (by decide) (by simp [JParser.peek])
    · rw [plus]
      exact iff_of_true rfl rfl
  have int := @skipDigits_run _ (pos + d.sign.length) _ formed.int fracStop
  have frac := @scanFraction_run _ (pos + d.sign.length + d.int.length) _ formed.frac expStop noDot
  have exp := @scanExponent_run _ (pos + d.sign.length + d.int.length + (fracText d.frac).length)
      _ formed.exp digitStop noExp
  have parts := @scanDecimal_parts ⟨d.body ++ rest, pos + d.sign.length⟩ strict ⟨d.text ++ rest,
      pos⟩ d _ _ _ ⟨by simp [Decimal.text], rfl⟩ plus unsigned (by simpa [Decimal.body] using int) ⟨by simp [Decimal.body], rfl⟩ frac ⟨rfl, rfl⟩ exp ⟨rfl, rfl⟩
  have filled : ¬ (d.int = [] ∧ d.frac.getD [] = []) := by
    rintro ⟨none, empty⟩
    obtain ⟨ds, is, some_⟩ := formed.some none
    rw [is] at empty
    exact some_ empty
  have accepted : (strict && !d.canonical) = false := by
    cases strict with
    | false => rfl
    | true => simp [canonical rfl]
  unfold scanNumber
  simp only [scanSign_run formed unsigned, bind, Except.bind, startsHex_run formed ends]
  rw [if_neg (by decide), parts, Decimal.judge, if_neg filled,
    if_neg (fun zero => formed.noLeadingZero zero.1 zero.2), if_neg (by simp [accepted])]
  simp only [Decimal.text, Decimal.body, List.length_append, Nat.add_assoc]

theorem NumberText.filled {taken : List UInt8} (number : NumberText strict tok taken) :
    taken ≠ [] := by
  cases number with
  | decimal formed =>
    obtain ⟨b, tail, body, _⟩ := Decimal.body_first formed
    simp [Decimal.text, body]
  | hex => simp [Hex.text]
  | infinity => simp [ascii]
  | nan => simp [ascii]

theorem NumberText.lenient {taken : List UInt8} (number : NumberText strict tok taken) :
    NumberText false tok taken := by
  cases number with
  | decimal formed => exact .decimal formed nofun
  | hex _ formed => exact .hex rfl formed
  | infinity _ signed => exact .infinity rfl signed
  | nan => exact .nan rfl

theorem isHexDigit_ascii {b : UInt8} (digit : isHexDigit b = true) : b < 0x80 := by
  grind [isHexDigit, isDigit]

theorem isDigit_ascii {b : UInt8} (digit : isDigit b = true) : b < 0x80 :=
  isHexDigit_ascii (by simp [isHexDigit, digit])

theorem isSign_ascii {sign : List UInt8} (isSign : isSign sign) : ∀ b ∈ sign, b < 0x80 := by
  rcases isSign with rfl | rfl | rfl <;> decide +kernel

theorem Decimal.text_ascii (formed : d.Formed) : ∀ b ∈ d.text, b < 0x80 := by
  have int : ∀ b ∈ d.int, b < 0x80 := fun b member => isDigit_ascii (formed.int b member)
  have frac : ∀ b ∈ fracText d.frac, b < 0x80 := by
    cases is : d.frac with
    | none => nofun
    | some ds =>
      exact List.forall_mem_cons.mpr
        ⟨by decide, fun b member => isDigit_ascii (formed.frac ds is b member)⟩
  have exp : ∀ b ∈ expText d.exp, b < 0x80 := by
    cases is : d.exp with
    | none => nofun
    | some parts =>
      obtain ⟨e, sign, ds⟩ := parts
      obtain ⟨letter, signed, all, _⟩ := formed.exp e sign ds is
      refine List.forall_mem_cons.mpr ⟨by rcases letter with rfl | rfl <;> decide, ?_⟩
      exact List.forall_mem_append.mpr
        ⟨isSign_ascii signed, fun b member => isDigit_ascii (all b member)⟩
  exact List.forall_mem_append.mpr ⟨isSign_ascii formed.sign,
    List.forall_mem_append.mpr ⟨int, List.forall_mem_append.mpr ⟨frac, exp⟩⟩⟩

/-- The payload of a number is ASCII. -/
theorem NumberText.payload_ascii {kind : NumKind} {payload taken : List UInt8}
    (number : NumberText strict (.payload kind payload) taken) : ∀ b ∈ payload, b < 0x80 := by
  generalize is : NumTok.payload kind payload = tok at number
  cases number with
  | @decimal d formed =>
    cases is
    have text := Decimal.text_ascii formed
    unfold Decimal.payload
    split
    · exact (List.forall_mem_append.mp text).2
    · exact text
  | @hex h _ formed =>
    cases is
    refine List.forall_mem_append.mpr ⟨isSign_ascii formed.sign, ?_⟩
    refine List.forall_mem_cons.mpr ⟨by decide, List.forall_mem_cons.mpr ⟨?_, ?_⟩⟩
    · rcases formed.letter with is | is <;> rw [is] <;> decide
    · exact fun b member => isHexDigit_ascii (formed.run b member)
  | infinity _ signed =>
    cases is
    rcases signed with rfl | rfl <;> decide +kernel
  | nan => cases is

end Whole

end RustSql.Jsonb
