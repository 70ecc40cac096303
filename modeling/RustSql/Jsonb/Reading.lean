import RustSql.Jsonb.Numbers
import RustSql.Jsonb.Strings

/-! What the tree parser reads, one rule for each way a value, the items of an array and
the members of an object go on. -/

namespace RustSql.Jsonb

/-- The names of values. -/
def literals (strict : Bool) : List (List UInt8 × Jb) :=
  [(ascii "true", .truth true), (ascii "false", .truth false), (ascii "null", .null)] ++
    if strict then [] else [(ascii "NaN", .null), (ascii "Infinity", .number .float (ascii "9e999"))]

mutual

/-- The parser reads a value between two positions. -/
inductive ReadsValue (strict : Bool) : JParser → Jb → JParser → Prop
  | literal {p lit v} (known : (lit, v) ∈ literals strict)
      (starts : (p.skipWs strict).startsWith lit = true) :
      ReadsValue strict p v ((p.skipWs strict).advance lit.length)
  | string {p quote kind text q} (quoted : quote = 0x22 ∨ quote = 0x27 ∧ strict = false)
      (scanned : scanString strict quote (p.skipWs strict) = .ok (kind, text, q)) :
      ReadsValue strict p (.string kind text) q
  | number {p c tok q} (next : (p.skipWs strict).peek = some c) (starts : startsNumber c = true)
      (scanned : scanNumber strict (p.skipWs strict) = .ok (tok, q)) :
      ReadsValue strict p tok.jb q
  | emptyArray {p} (opens : (p.skipWs strict).peek = some 0x5B)
      (closes : (((p.skipWs strict).advance 1).skipWs strict).peek = some 0x5D) :
      ReadsValue strict p (.array []) ((((p.skipWs strict).advance 1).skipWs strict).advance 1)
  | array {p items q} (opens : (p.skipWs strict).peek = some 0x5B)
      (filled : (((p.skipWs strict).advance 1).skipWs strict).peek ≠ some 0x5D)
      (inner : ReadsItems strict (((p.skipWs strict).advance 1).skipWs strict) items q) :
      ReadsValue strict p (.array items) q
  | emptyObject {p} (opens : (p.skipWs strict).peek = some 0x7B)
      (closes : (((p.skipWs strict).advance 1).skipWs strict).peek = some 0x7D) :
      ReadsValue strict p (.object []) ((((p.skipWs strict).advance 1).skipWs strict).advance 1)
  | object {p pairs q} (opens : (p.skipWs strict).peek = some 0x7B)
      (filled : (((p.skipWs strict).advance 1).skipWs strict).peek ≠ some 0x7D)
      (inner : ReadsMembers strict (((p.skipWs strict).advance 1).skipWs strict) pairs q) :
      ReadsValue strict p (.object pairs) q

/-- The items from one of them on, up to and with the bracket. -/
inductive ReadsItems (strict : Bool) : JParser → List Jb → JParser → Prop
  | last {p v q} (value : ReadsValue strict p v q) (closes : (q.skipWs strict).peek = some 0x5D) :
      ReadsItems strict p [v] ((q.skipWs strict).advance 1)
  | trailing {p v q} (lenient : strict = false) (value : ReadsValue strict p v q)
      (comma : (q.skipWs strict).peek = some 0x2C)
      (closes : (((q.skipWs strict).advance 1).skipWs strict).peek = some 0x5D) :
      ReadsItems strict p [v] ((((q.skipWs strict).advance 1).skipWs strict).advance 1)
  | more {p v q items r} (value : ReadsValue strict p v q)
      (comma : (q.skipWs strict).peek = some 0x2C)
      (filled : (((q.skipWs strict).advance 1).skipWs strict).peek = some 0x5D → strict = true)
      (others : ReadsItems strict (((q.skipWs strict).advance 1).skipWs strict) items r) :
      ReadsItems strict p (v :: items) r

/-- The members from one of them on, up to and with the brace. -/
inductive ReadsMembers (strict : Bool) : JParser → List (Jb × Jb) → JParser → Prop
  | last {p kind text k v q} (key : scanKey strict (p.skipWs strict) = .ok (kind, text, k))
      (colon : (k.skipWs strict).peek = some 0x3A)
      (value : ReadsValue strict ((k.skipWs strict).advance 1) v q)
      (closes : (q.skipWs strict).peek = some 0x7D) :
      ReadsMembers strict p [(.string kind text, v)] ((q.skipWs strict).advance 1)
  | trailing {p kind text k v q} (lenient : strict = false)
      (key : scanKey strict (p.skipWs strict) = .ok (kind, text, k))
      (colon : (k.skipWs strict).peek = some 0x3A)
      (value : ReadsValue strict ((k.skipWs strict).advance 1) v q)
      (comma : (q.skipWs strict).peek = some 0x2C)
      (closes : (((q.skipWs strict).advance 1).skipWs strict).peek = some 0x7D) :
      ReadsMembers strict p [(.string kind text, v)]
        ((((q.skipWs strict).advance 1).skipWs strict).advance 1)
  | more {p kind text k v q pairs r} (key : scanKey strict (p.skipWs strict) = .ok (kind, text, k))
      (colon : (k.skipWs strict).peek = some 0x3A)
      (value : ReadsValue strict ((k.skipWs strict).advance 1) v q)
      (comma : (q.skipWs strict).peek = some 0x2C)
      (filled : (((q.skipWs strict).advance 1).skipWs strict).peek = some 0x7D → strict = true)
      (others : ReadsMembers strict (((q.skipWs strict).advance 1).skipWs strict) pairs r) :
      ReadsMembers strict p ((.string kind text, v) :: pairs) r

end

theorem bind_eq_ok {ε α β : Type} {x : Except ε α} {f : α → Except ε β} {b : β} :
    x >>= f = .ok b ↔ ∃ a, x = .ok a ∧ f a = .ok b := by
  cases x with
  | error e => exact ⟨nofun, fun ⟨_, is, _⟩ => nomatch is⟩
  | ok a => exact ⟨fun is => ⟨a, rfl, is⟩, fun ⟨_, is, known⟩ => by cases is; exact known⟩

section

variable {strict : Bool}

variable {p q : JParser}

theorem parseLit_reads {lit : List UInt8} {value v : Jb} (known : (lit, value) ∈ literals strict)
    (parsed : parseLit lit value (p.skipWs strict) = .ok (v, q)) : ReadsValue strict p v q := by
  unfold parseLit at parsed
  split at parsed
  · rename_i starts
    cases parsed
    exact .literal known starts
  · cases parsed

theorem parseValue_reads {fuel : Nat} {v : Jb}
    (array : (p.skipWs strict).peek = some 0x5B → parseArray strict fuel (p.skipWs strict) = .ok (v, q) →
      ReadsValue strict p v q)
    (object : (p.skipWs strict).peek = some 0x7B → parseObject strict fuel (p.skipWs strict) = .ok (v, q) →
      ReadsValue strict p v q) (parsed : parseValue strict (fuel + 1) p = .ok (v, q)) :
    ReadsValue strict p v q := by
  rw [parseValue] at parsed
  dsimp only at parsed
  split at parsed
  · cases parsed
  rename_i c next
  split at parsed
  · rename_i isObject
    exact object (isObject ▸ next) parsed
  split at parsed
  · rename_i isArray
    exact array (isArray ▸ next) parsed
  split at parsed
  · obtain ⟨⟨kind, text, r⟩, scanned, found⟩ := bind_eq_ok.mp parsed
    cases found
    exact .string (.inl rfl) scanned
  split at parsed
  · rename_i single
    obtain ⟨⟨kind, text, r⟩, scanned, found⟩ := bind_eq_ok.mp parsed
    cases found
    exact .string (.inr ⟨rfl, by simpa using single.2⟩) scanned
  iterate 3
    split at parsed
    · exact parseLit_reads (by simp [literals]) parsed
  iterate 2
    split at parsed
    · rename_i named
      have lenient : strict = false := by simpa using named.2
      exact parseLit_reads (by simp [literals, lenient]) parsed
  split at parsed
  · rename_i starts
    obtain ⟨⟨tok, r⟩, scanned, found⟩ := bind_eq_ok.mp parsed
    cases found
    exact .number next starts scanned
  · cases parsed

theorem parse_reads (strict : Bool) (fuel : Nat) :
    (∀ p v q, parseValue strict fuel p = .ok (v, q) → ReadsValue strict p v q) ∧
    (∀ p v q, (p.skipWs strict).peek = some 0x5B → parseArray strict fuel (p.skipWs strict) = .ok (v, q) →
      ReadsValue strict p v q) ∧
    (∀ p items q, parseItems strict fuel p = .ok (items, q) → ReadsItems strict p items q) ∧
    (∀ p v q, (p.skipWs strict).peek = some 0x7B → parseObject strict fuel (p.skipWs strict) = .ok (v, q) →
      ReadsValue strict p v q) ∧
    (∀ p pairs q, parseMembers strict fuel p = .ok (pairs, q) → ReadsMembers strict p pairs q) := by
  induction fuel with
  | zero =>
    refine ⟨?_, ?_, ?_, ?_, ?_⟩ <;> intros <;>
      simp_all only [parseValue, parseArray, parseItems, parseObject, parseMembers, reduceCtorEq]
  | succ fuel ih =>
    obtain ⟨value, array, items, object, members⟩ := ih
    refine ⟨fun p v q => parseValue_reads (array p v q) (object p v q), ?_, ?_, ?_, ?_⟩
    · intro p v q opens parsed
      rw [parseArray] at parsed
      dsimp only at parsed
      split at parsed
      · rename_i closes
        cases parsed
        exact .emptyArray opens closes
      · rename_i filled
        obtain ⟨⟨found, r⟩, inner, is⟩ := bind_eq_ok.mp parsed
        cases is
        exact .array opens filled (items _ _ _ inner)
    · intro p found q parsed
      rw [parseItems] at parsed
      obtain ⟨⟨v, r⟩, first, parsed⟩ := bind_eq_ok.mp parsed
      have first := value _ _ _ first
      dsimp only at parsed
      split at parsed
      · rename_i comma
        split at parsed
        · rename_i closes
          cases parsed
          exact .trailing (by simpa using closes.2) first comma closes.1
        · rename_i filled
          obtain ⟨⟨behind, r⟩, others, is⟩ := bind_eq_ok.mp parsed
          cases is
          exact .more first comma (by simpa using filled) (items _ _ _ others)
      · split at parsed
        · rename_i closes
          cases parsed
          exact .last first closes
        · cases parsed
    · intro p v q opens parsed
      rw [parseObject] at parsed
      dsimp only at parsed
      split at parsed
      · rename_i closes
        cases parsed
        exact .emptyObject opens closes
      · rename_i filled
        obtain ⟨⟨found, r⟩, inner, is⟩ := bind_eq_ok.mp parsed
        cases is
        exact .object opens filled (members _ _ _ inner)
    · intro p found q parsed
      rw [parseMembers] at parsed
      obtain ⟨⟨kind, text, k⟩, key, parsed⟩ := bind_eq_ok.mp parsed
      dsimp only at parsed
      split at parsed
      · cases parsed
      rename_i colon
      have colon := not_not.mp colon
      obtain ⟨⟨v, r⟩, first, parsed⟩ := bind_eq_ok.mp parsed
      have first := value _ _ _ first
      dsimp only at parsed
      split at parsed
      · rename_i comma
        split at parsed
        · rename_i closes
          cases parsed
          exact .trailing (by simpa using closes.2) key colon first comma closes.1
        · rename_i filled
          obtain ⟨⟨behind, r⟩, others, is⟩ := bind_eq_ok.mp parsed
          cases is
          exact .more key colon first comma (by simpa using filled) (members _ _ _ others)
      · split at parsed
        · rename_i closes
          cases parsed
          exact .last key colon first closes
        · cases parsed

theorem took_skipped {taken : List UInt8} (took : Took (p.skipWs strict) taken q) :
    ∃ spaces, Took p (spaces ++ taken) q := by
  obtain ⟨spaces, skipped⟩ := took_skipWs strict p
  exact ⟨spaces, took_append skipped took⟩

/-- The parser has gone over at least one byte. -/
def Moved (p q : JParser) : Prop := ∃ taken, taken ≠ [] ∧ Took p taken q

theorem Moved.skipped (moved : Moved (p.skipWs strict) q) : Moved p q := by
  obtain ⟨taken, filled, took⟩ := moved
  obtain ⟨spaces, took⟩ := took_skipped took
  exact ⟨_, by simp [filled], took⟩

variable {p : JParser}

theorem moved_peek {c : UInt8} (next : p.peek = some c) : Moved p (p.advance 1) :=
  ⟨[c], by simp, took_peek next⟩

theorem Moved.trans {p q r : JParser} (first : Moved p q) (second : Moved q r) : Moved p r := by
  obtain ⟨xs, filled, took⟩ := first
  obtain ⟨ys, _, took'⟩ := second
  exact ⟨xs ++ ys, by simp [filled], took_append took took'⟩

theorem Moved.shorter (moved : Moved p q) : q.rest.length < p.rest.length := by
  obtain ⟨taken, filled, took⟩ := moved
  have := took_shorter took
  have := List.length_pos_iff.mpr filled
  omega

theorem literal_filled {lit : List UInt8} {v : Jb} (known : (lit, v) ∈ literals strict) : lit ≠ [] := by
  rintro rfl
  cases strict <;> simp [literals, ascii] at known

theorem scanNumber_moved {tok : NumTok} (scanned : scanNumber strict p = .ok (tok, q)) :
    Moved p q := by
  obtain ⟨taken, number, took⟩ := scanNumber_took scanned
  exact ⟨taken, number.filled, took⟩

variable {text : List UInt8}

variable {kind : StrKind}

theorem scanString_moved {quote : UInt8} (scanned : scanString strict quote p = .ok (kind, text, q)) :
    Moved p q := by
  obtain ⟨_, _, _, _, took⟩ := scanString_took scanned
  exact ⟨_, by simp, took⟩

theorem scanKey_moved {p k : JParser} (scanned : scanKey strict p = .ok (kind, text, k)) :
    Moved p k := by
  unfold scanKey at scanned
  split at scanned
  · exact scanString_moved scanned
  split at scanned
  · cases scanned
  split at scanned
  · exact scanString_moved scanned
  · obtain ⟨_, took, filled⟩ := scanIdentKey_took scanned
    exact ⟨text, filled, took⟩

mutual

theorem ReadsValue.moved {p q : JParser} {v : Jb} : ReadsValue strict p v q → Moved p q
  | .literal known starts => Moved.skipped ⟨_, literal_filled known, took_startsWith starts⟩
  | .string _ scanned => (scanString_moved scanned).skipped
  | .number _ _ scanned => (scanNumber_moved scanned).skipped
  | .emptyArray opens closes | .emptyObject opens closes =>
    ((moved_peek opens).trans (moved_peek closes).skipped).skipped
  | .array opens _ inner => ((moved_peek opens).trans inner.moved.skipped).skipped
  | .object opens _ inner => ((moved_peek opens).trans inner.moved.skipped).skipped

theorem ReadsItems.moved {p q : JParser} {items : List Jb} : ReadsItems strict p items q → Moved p q
  | .last value closes => value.moved.trans (moved_peek closes).skipped
  | .trailing _ value comma closes =>
    value.moved.trans ((moved_peek comma).trans (moved_peek closes).skipped).skipped
  | .more value comma _ others =>
    value.moved.trans ((moved_peek comma).trans others.moved.skipped).skipped

theorem ReadsMembers.moved {p q : JParser} {pairs : List (Jb × Jb)} :
    ReadsMembers strict p pairs q → Moved p q
  | .last key colon value closes =>
    ((scanKey_moved key).trans ((moved_peek colon).trans
      (value.moved.trans (moved_peek closes).skipped)).skipped).skipped
  | .trailing _ key colon value comma closes =>
    ((scanKey_moved key).trans ((moved_peek colon).trans (value.moved.trans
      ((moved_peek comma).trans (moved_peek closes).skipped).skipped)).skipped).skipped
  | .more key colon value comma _ others =>
    ((scanKey_moved key).trans ((moved_peek colon).trans (value.moved.trans
      ((moved_peek comma).trans others.moved.skipped).skipped)).skipped).skipped

end

theorem skipWs_shorter (strict : Bool) (p : JParser) : (p.skipWs strict).rest.length ≤ p.rest.length := by
  obtain ⟨taken, took⟩ := took_skipWs strict p
  have := took_shorter took
  omega

theorem startsNumber_other {c : UInt8} (starts : startsNumber c = true) :
    c ∉ [0x7B, 0x5B, 0x22, 0x27, 0x74, 0x66, 0x6E, 0x4E, 0x49] := by
  revert starts
  exact Foundation.forall_byte (by decide +kernel) c

theorem peek_of_took {b : UInt8} {taken : List UInt8} (took : Took p (b :: taken) q) :
    p.peek = some b := by
  rw [JParser.peek, took.1]
  rfl

theorem scanString_peek {quote : UInt8} (scanned : scanString strict quote p = .ok (kind, text, q)) :
    p.peek = some quote := by
  obtain ⟨_, _, _, _, took⟩ := scanString_took scanned
  exact peek_of_took took

theorem parseValue_literal {lit : List UInt8} {v : Jb} (fuel : Nat)
    (known : (lit, v) ∈ literals strict) (starts : (p.skipWs strict).startsWith lit = true) :
    parseValue strict (fuel + 1) p = .ok (v, (p.skipWs strict).advance lit.length) := by
  have took := took_startsWith starts
  have next : (p.skipWs strict).peek = (lit ++ ((p.skipWs strict).advance lit.length).rest).head? := by
    rw [← took.1, JParser.peek]
  rw [parseValue]
  dsimp only
  have cases_ : (lit = ascii "true" ∧ v = .truth true) ∨ (lit = ascii "false" ∧ v = .truth false) ∨
      (lit = ascii "null" ∧ v = .null) ∨ (strict = false ∧ lit = ascii "NaN" ∧ v = .null) ∨
      (strict = false ∧ lit = ascii "Infinity" ∧ v = .number .float (ascii "9e999")) := by
    cases strict <;> simpa [literals] using known
  rcases cases_ with ⟨rfl, rfl⟩ | ⟨rfl, rfl⟩ | ⟨rfl, rfl⟩ | ⟨rfl, rfl, rfl⟩ | ⟨rfl, rfl, rfl⟩ <;>
  · rw [next]
    simpa [ascii, parseLit] using starts

theorem parseValue_string {quote : UInt8} (fuel : Nat)
    (quoted : quote = 0x22 ∨ quote = 0x27 ∧ strict = false)
    (scanned : scanString strict quote (p.skipWs strict) = .ok (kind, text, q)) :
    parseValue strict (fuel + 1) p = .ok (.string kind text, q) := by
  rw [parseValue]
  dsimp only
  rw [scanString_peek scanned]
  rcases quoted with rfl | ⟨rfl, rfl⟩ <;> simp [scanned, bind, Except.bind, pure, Except.pure]

theorem parseValue_number {c : UInt8} {tok : NumTok} (fuel : Nat)
    (next : (p.skipWs strict).peek = some c) (starts : startsNumber c = true)
    (scanned : scanNumber strict (p.skipWs strict) = .ok (tok, q)) :
    parseValue strict (fuel + 1) p = .ok (tok.jb, q) := by
  have other := startsNumber_other starts
  simp only [List.mem_cons, List.not_mem_nil, or_false, not_or] at other
  rw [parseValue]
  dsimp only
  rw [next]
  simp [other, starts, scanned, bind, Except.bind, pure, Except.pure]

theorem parseValue_array (fuel : Nat) (opens : (p.skipWs strict).peek = some 0x5B) :
    parseValue strict (fuel + 1) p = parseArray strict fuel (p.skipWs strict) := by
  rw [parseValue]
  dsimp only
  rw [opens]
  rfl

theorem parseValue_object (fuel : Nat) (opens : (p.skipWs strict).peek = some 0x7B) :
    parseValue strict (fuel + 1) p = parseObject strict fuel (p.skipWs strict) := by
  rw [parseValue]
  dsimp only
  rw [opens]
  rfl

theorem opened_shorter {c : UInt8} (next : (p.skipWs strict).peek = some c) :
    (((p.skipWs strict).advance 1).skipWs strict).rest.length < p.rest.length := by
  have shorter := (moved_peek next).shorter
  have skipped := skipWs_shorter strict p
  have again := skipWs_shorter strict ((p.skipWs strict).advance 1)
  omega

theorem named_shorter {p k : JParser} (key : scanKey strict (p.skipWs strict) = .ok (kind, text, k))
    (colon : (k.skipWs strict).peek = some 0x3A) :
    ((k.skipWs strict).advance 1).rest.length < p.rest.length := by
  have spaces := skipWs_shorter strict p
  have named := (scanKey_moved key).shorter
  have before := skipWs_shorter strict k
  have started := (moved_peek colon).shorter
  omega

mutual

theorem ReadsValue.parse {p q : JParser} {v : Jb} : ReadsValue strict p v q → ∀ fuel,
    3 * p.rest.length + 1 ≤ fuel → parseValue strict fuel p = .ok (v, q)
  | .literal known starts, fuel + 1, _ => parseValue_literal fuel known starts
  | .string quoted scanned, fuel + 1, _ => parseValue_string fuel quoted scanned
  | .number next starts scanned, fuel + 1, _ => parseValue_number fuel next starts scanned
  | .emptyArray opens closes, fuel + 1, enough => by
    have shorter := opened_shorter opens
    obtain ⟨fuel, rfl⟩ : ∃ more, fuel = more + 1 := ⟨fuel - 1, by omega⟩
    rw [parseValue_array _ opens, parseArray]
    dsimp only
    rw [if_pos closes]
  | .array opens filled inner, fuel + 1, enough => by
    have shorter := opened_shorter opens
    obtain ⟨fuel, rfl⟩ : ∃ more, fuel = more + 1 := ⟨fuel - 1, by omega⟩
    rw [parseValue_array _ opens, parseArray]
    dsimp only
    rw [if_neg filled, inner.parse fuel (by omega)]
    rfl
  | .emptyObject opens closes, fuel + 1, enough => by
    have shorter := opened_shorter opens
    obtain ⟨fuel, rfl⟩ : ∃ more, fuel = more + 1 := ⟨fuel - 1, by omega⟩
    rw [parseValue_object _ opens, parseObject]
    dsimp only
    rw [if_pos closes]
  | .object opens filled inner, fuel + 1, enough => by
    have shorter := opened_shorter opens
    obtain ⟨fuel, rfl⟩ : ∃ more, fuel = more + 1 := ⟨fuel - 1, by omega⟩
    rw [parseValue_object _ opens, parseObject]
    dsimp only
    rw [if_neg filled, inner.parse fuel (by omega)]
    rfl

theorem ReadsItems.parse {p q : JParser} {items : List Jb} : ReadsItems strict p items q → ∀ fuel,
    3 * p.rest.length + 2 ≤ fuel → parseItems strict fuel p = .ok (items, q)
  | .last value closes, fuel + 1, enough => by
    rw [parseItems, value.parse fuel (by omega)]
    dsimp only [bind, Except.bind]
    rw [closes, if_neg (by decide), if_pos rfl]
    rfl
  | .trailing lenient value comma closes, fuel + 1, enough => by
    rw [parseItems, value.parse fuel (by omega)]
    dsimp only [bind, Except.bind]
    rw [if_pos comma, if_pos ⟨closes, by simp [lenient]⟩]
    rfl
  | .more value comma filled others, fuel + 1, enough => by
    have shorter := value.moved.shorter
    have behind := opened_shorter comma
    rw [parseItems, value.parse fuel (by omega)]
    dsimp only [bind, Except.bind]
    rw [if_pos comma, if_neg (fun both => by simp [filled both.1] at both),
      others.parse fuel (by omega)]
    rfl

theorem ReadsMembers.parse {p q : JParser} {pairs : List (Jb × Jb)} :
    ReadsMembers strict p pairs q → ∀ fuel,
    3 * p.rest.length + 2 ≤ fuel → parseMembers strict fuel p = .ok (pairs, q)
  | .last key colon value closes, fuel + 1, enough => by
    have named := named_shorter key colon
    rw [parseMembers, key]
    dsimp only [bind, Except.bind]
    rw [if_neg (not_not.mpr colon), value.parse fuel (by omega)]
    dsimp only
    rw [closes, if_neg (by decide), if_pos rfl]
    rfl
  | .trailing lenient key colon value comma closes, fuel + 1, enough => by
    have named := named_shorter key colon
    rw [parseMembers, key]
    dsimp only [bind, Except.bind]
    rw [if_neg (not_not.mpr colon), value.parse fuel (by omega)]
    dsimp only
    rw [if_pos comma, if_pos ⟨closes, by simp [lenient]⟩]
    rfl
  | .more key colon value comma filled others, fuel + 1, enough => by
    have named := named_shorter key colon
    have shorter := value.moved.shorter
    have behind := opened_shorter comma
    rw [parseMembers, key]
    dsimp only [bind, Except.bind]
    rw [if_neg (not_not.mpr colon), value.parse fuel (by omega)]
    dsimp only
    rw [if_pos comma, if_neg (fun both => by simp [filled both.1] at both),
      others.parse fuel (by omega)]
    rfl

end

/-- A document is accepted when a value is read with nothing but whitespace behind it. -/
theorem parseBytes_eq_ok_iff {b : List UInt8} {v : Jb} :
    parseBytes strict b = .ok v ↔ ∃ q, ReadsValue strict ⟨b, 0⟩ v q ∧ (q.skipWs strict).rest = [] := by
  unfold parseBytes
  constructor
  · intro parsed
    obtain ⟨⟨w, q⟩, read, parsed⟩ := bind_eq_ok.mp parsed
    dsimp only at parsed
    split at parsed
    · cases parsed
    · rename_i done
      cases parsed
      exact ⟨q, (parse_reads strict _).1 _ _ _ read, not_not.mp done⟩
  · rintro ⟨q, read, done⟩
    have enough : 3 * (⟨b, 0⟩ : JParser).rest.length + 1 ≤ parseFuel b :=
      Nat.add_le_add_left (by decide) _
    rw [read.parse (parseFuel b) enough]
    dsimp only [bind, Except.bind]
    rw [if_neg (not_not.mpr done)]
    rfl

end

end RustSql.Jsonb
