import RustSql.Executor.LikePredicate

/-! The ways to a LIKE answer agree, but for a substring search whose needle holds a NUL. -/

namespace RustSql.Executor

open RustSql.Foundation RustSql.Types RustSql.Storage RustSql.Storage.RowCodec

theorem likeOperandBytes_unbroken (asText : Value → List UInt8) (value : Value) :
    Unbroken (likeOperandBytes asText value) := by
  cases value with
  | null => exact nofun
  | integer i => exact cString_unbroken _
  | real f => exact cString_unbroken _
  | text bytes => exact cString_unbroken _
  | blob bytes => exact cString_unbroken _

theorem cString_ascii {bytes : List UInt8} (ascii : isAscii bytes = true) :
    isAscii (cString bytes) = true := by
  rw [isAscii, List.all_eq_true] at ascii ⊢
  exact fun b member => ascii b ((List.takeWhile_prefix _).subset member)

theorem cString_append {bytes : List UInt8} (unbroken : Unbroken bytes) (rest : List UInt8) :
    cString (bytes ++ rest) = bytes ++ cString rest := by
  refine List.takeWhile_append_of_pos fun b member => decide_eq_true ?_
  rintro rfl
  exact unbroken member

theorem cString_eq {bytes : List UInt8} (unbroken : Unbroken bytes) : cString bytes = bytes := by
  have whole := cString_append unbroken []
  rwa [List.append_nil, show cString [] = [] from rfl, List.append_nil] at whole

/-- Against an ASCII pattern the general path decides the language of its bytes. -/
theorem likeGeneral_iff (asText : Value → List UInt8) (value : Value) {p : List UInt8}
    (ascii : isAscii (cString p) = true) (caseSensitive : Bool) :
    likeGeneral asText value (.text p) caseSensitive = true ↔
      Language ((cString p).map (byteItem caseSensitive))
        (characters (likeOperandBytes asText value)) := by
  have judges := patternCompare_judges (likeGrammar 0 caseSensitive) (cString_unbroken p)
    (likeOperandBytes_unbroken asText value)
  rw [likeItems_bytes ascii (cString_unbroken p)] at judges
  rw [likeGeneral, beq_iff_eq]
  exact judges.iff.trans ⟨fun ⟨_, same, inside⟩ => Option.some.inj same ▸ inside,
    fun inside => ⟨_, rfl, inside⟩⟩

/-- The byte matchers answer like the general path. -/
theorem likeMatchBytes_general (asText : Value → List UInt8) {s p : List UInt8}
    (ascii : isAscii s = true) (patAscii : isAscii p = true) (caseSensitive : Bool) :
    likeMatchBytes (cString s) (cString p) caseSensitive =
      some (likeGeneral asText (.text s) (.text p) caseSensitive) := by
  obtain ⟨hit, found, meaning⟩ :=
    likeMatchBytes_iff (cString_ascii ascii) (cString_ascii patAscii) caseSensitive
  rw [found, Option.some.injEq, Bool.eq_iff_iff, meaning,
    likeGeneral_iff asText _ (cString_ascii patAscii)]
  rfl

/-- `like_match` is its general path. -/
theorem likeMatch_eq (asText : Value → List UInt8) (value pattern : Value) (caseSensitive : Bool) :
    likeMatch asText value pattern caseSensitive =
      likeGeneral asText value pattern caseSensitive := by
  unfold likeMatch
  split
  · rename_i sv pv
    split_ifs with both
    · rw [Bool.and_eq_true] at both
      rw [likeMatchBytes_general asText both.2 both.1]
    · rfl
  · rfl

/-- A pattern that `classify_contains` takes. -/
structure Classified (p raw : List UInt8) : Prop where
  whole : p = percent :: (raw ++ [percent])
  nonempty : raw ≠ []
  ascii : isAscii raw = true
  plain : raw.any wild = false

theorem classified {p needle : List UInt8} (found : classifyContains p = some needle) :
    ∃ raw, Classified p raw ∧ needle = raw.map lowerByte := by
  rw [classifyContains] at found
  by_cases misshapen : p.length < 3 ∨ p.head? ≠ some percent ∨ p.getLast? ≠ some percent
  · rw [if_pos misshapen] at found
    cases found
  rw [if_neg misshapen] at found
  obtain ⟨long, lead, trail⟩ : 3 ≤ p.length ∧ p.head? = some percent ∧
      p.getLast? = some percent := by
    rw [not_or, not_or, not_not, not_not, Nat.not_lt] at misshapen
    exact misshapen
  have whole := needle_both (beq_iff_eq.mpr lead) (beq_iff_eq.mpr trail)
  rw [Nat.max_eq_left (by omega)] at whole
  generalize (p.take (p.length - 1)).drop 1 = raw at found whole
  dsimp only at found
  split_ifs at found with excluded special
  rw [Bool.or_eq_true, not_or, List.isEmpty_iff, Bool.not_eq_true', Bool.not_eq_false] at excluded
  exact ⟨raw, ⟨whole excluded.1, excluded.1, excluded.2, Bool.not_eq_true _ ▸ special⟩,
    (Option.some.inj found).symm⟩

theorem lowerByte_eq_zero {b : UInt8} : lowerByte b = 0 ↔ b = 0 := by
  grind [lowerByte]

theorem lowerByte_idem (b : UInt8) : lowerByte (lowerByte b) = lowerByte b := by
  grind [lowerByte]

theorem cString_lower (bytes : List UInt8) :
    cString (bytes.map lowerByte) = (cString bytes).map lowerByte := by
  rw [cString, cString, List.takeWhile_map]
  congr 2
  funext b
  simp [lowerByte_eq_zero]

theorem lowerByte_special {b special : UInt8} (kept : special = percent ∨ special = underscore) :
    lowerByte b = special ↔ b = special := by
  rcases kept with rfl | rfl
  · grind [lowerByte, percent]
  · grind [lowerByte, underscore]

theorem exists_byte {c : UInt32} (small : c < 0x80) : ∃ b : UInt8, c = b.toUInt32 := by
  refine ⟨c.toUInt8, UInt32.toNat_inj.mp ?_⟩
  rw [UInt32.lt_iff_toNat_lt] at small
  rw [UInt8.toNat_toUInt32, UInt32.toNat_toUInt8]
  exact (Nat.mod_eq_of_lt (small.trans (by decide))).symm

/-- A lowered byte of a pattern stands for the same characters. -/
theorem byteItem_lower {b : UInt8} (plain : b < 0x80) :
    byteItem false (lowerByte b) = byteItem false b := by
  have lowered : lowerByte b < 0x80 := (foldAscii_lt false b).mpr plain
  have same : alike true (lowerByte b).toUInt32 = alike true b.toUInt32 := by
    funext c
    by_cases small : c < 0x80
    · obtain ⟨x, rfl⟩ := exists_byte small
      have ascii := toUInt32_lt.mp small
      have folded : foldAscii false (lowerByte b) = foldAscii false b := lowerByte_idem b
      rw [Bool.eq_iff_iff]
      refine (alike_bytes lowered ascii false).trans ?_
      rw [folded]
      exact (alike_bytes plain ascii false).symm
    · rw [alike_wide lowered small, alike_wide plain small]
  rw [byteItem, byteItem, Bool.not_false, same]
  simp only [lowerByte_special (Or.inl rfl), lowerByte_special (Or.inr rfl)]

theorem back_iff {needle s : List UInt8} (fold : UInt8 → UInt8) :
    (∃ t, t <:+ s ∧ t.map fold = needle.map fold) ↔ needle.map fold <:+ s.map fold := by
  constructor
  · rintro ⟨t, ⟨front, rfl⟩, same⟩
    exact ⟨front.map fold, by rw [← same, List.map_append]⟩
  · rintro ⟨front, same⟩
    obtain ⟨before, t, split, -, folded⟩ := List.map_eq_append_iff.mp same.symm
    exact ⟨t, ⟨before, split.symm⟩, folded⟩

namespace Classified

variable {p raw : List UInt8} (classified : Classified p raw)

include classified

theorem cString_whole (unbroken : Unbroken p) : cString p = percent :: (raw ++ [percent]) :=
  (cString_eq unbroken).trans classified.whole

/-- A NUL cuts the pattern inside its needle. -/
theorem cString_cut (broken : 0 ∈ p) : cString p = percent :: cString raw := by
  rw [classified.whole] at broken ⊢
  have inside : 0 ∈ raw := by simpa [percent] using broken
  obtain ⟨before, rest, split, unbroken⟩ := List.eq_append_cons_of_mem inside
  have cut (tail : List UInt8) : cString (before ++ 0 :: tail) = before := by
    rw [cString_append unbroken, show cString (0 :: tail) = [] from rfl, List.append_nil]
  rw [split, cut, List.append_assoc]
  exact congrArg (percent :: ·) (cut _)

theorem ascii_whole : isAscii p = true := by
  have ascii := classified.ascii
  rw [isAscii] at ascii
  rw [classified.whole, isAscii, List.all_cons, List.all_append, ascii]
  rfl

theorem items_whole (unbroken : Unbroken p) :
    (cString p).map (byteItem false) = .many :: (literals false raw ++ [.many]) := by
  rw [classified.cString_whole unbroken, List.map_cons, List.map_append,
    map_literals classified.plain]
  rfl

theorem items_cut (broken : 0 ∈ p) :
    (cString p).map (byteItem false) = .many :: literals false (cString raw) := by
  have plain : (cString raw).any wild = false := by
    have every := classified.plain
    rw [List.any_eq_false] at every ⊢
    exact fun b member => every b ((List.takeWhile_prefix _).subset member)
  rw [classified.cString_cut broken, List.map_cons, map_literals plain]
  rfl

/-- Without a NUL the substring search answers like the general path, whatever the subject. -/
theorem search_whole (asText : Value → List UInt8) (unbroken : Unbroken p) (s : List UInt8) :
    likeContainsBytes (cString s) (raw.map lowerByte) =
      likeGeneral asText (.text s) (.text p) false := by
  rw [likeContainsBytes_iff _ classified.nonempty, Bool.eq_iff_iff,
    likeGeneral_iff asText _ (cString_ascii classified.ascii_whole),
    classified.items_whole unbroken]
  exact (language_contains classified.nonempty classified.ascii).symm

/-- A needle with a NUL is in no subject. -/
theorem search_cut (broken : 0 ∈ p) (s : List UInt8) :
    likeContainsBytes (cString s) (raw.map lowerByte) = false := by
  rw [likeContainsBytes_iff _ classified.nonempty, Bool.eq_false_iff, ne_eq,
    bytesContainsFold_iff classified.nonempty]
  rintro ⟨t, within, here⟩
  rw [classified.whole] at broken
  have inside : 0 ∈ raw := by simpa [percent] using broken
  obtain ⟨b, member, zero⟩ := List.mem_map.mp (here.subset (List.mem_map_of_mem inside))
  have nul : b = 0 := lowerByte_eq_zero.mp (zero.trans (lowerByte_eq_zero.mpr rfl))
  exact cString_unbroken s (within.subset (nul ▸ member))

/-- The general path sees the part of the needle before the NUL, at the end of the subject. -/
theorem general_cut (asText : Value → List UInt8) (broken : 0 ∈ p) (s : List UInt8) :
    likeGeneral asText (.text s) (.text p) false = true ↔
      (cString p).tail.map lowerByte <:+ (cString s).map lowerByte := by
  have ascii := cString_ascii classified.ascii
  rw [likeGeneral_iff asText _ (cString_ascii classified.ascii_whole),
    classified.items_cut broken, classified.cString_cut broken, List.tail_cons]
  exact (language_ends ascii).trans (back_iff lowerByte)

/-- A value that is no text is matched against the lowered pattern. -/
theorem general_lowered (asText : Value → List UInt8) (value : Value) :
    likeGeneral asText value (.text (percent :: (raw.map lowerByte ++ [percent]))) false =
      likeGeneral asText value (.text p) false := by
  have ascii := classified.ascii_whole
  have whole : percent :: (raw.map lowerByte ++ [percent]) = p.map lowerByte := by
    rw [classified.whole, List.map_cons, List.map_append]
    rfl
  have lowered : isAscii (cString (p.map lowerByte)) = true := by
    rw [cString_lower, isAscii, List.all_eq_true]
    intro b member
    obtain ⟨source, inside, rfl⟩ := List.mem_map.mp member
    have plain := List.all_eq_true.mp (cString_ascii ascii) source inside
    exact decide_eq_true ((foldAscii_lt false source).mpr (of_decide_eq_true plain))
  rw [whole, Bool.eq_iff_iff, likeGeneral_iff asText value lowered,
    likeGeneral_iff asText value (cString_ascii ascii), cString_lower, List.map_map]
  have items : (cString p).map (byteItem false ∘ lowerByte) =
      (cString p).map (byteItem false) := by
    refine List.map_congr_left fun b member => ?_
    have plain := List.all_eq_true.mp (cString_ascii ascii) b member
    exact byteItem_lower (of_decide_eq_true plain)
  rw [items]

end Classified

/-- Where the substring search answers like the general path: the pattern holds no NUL, or the
subject does not end in what the general path sees of the needle. -/
def Faithful (pattern : List UInt8) (value : Value) : Prop :=
  ∀ needle s, classifyContains pattern = some needle → value = .text s → 0 ∈ pattern →
    ¬ (cString pattern).tail.map lowerByte <:+ (cString s).map lowerByte

section

variable (asText : Value → List UInt8)

theorem likeSubstr_eval {pattern needle : List UInt8}
    (found : classifyContains pattern = some needle) (caseSensitive : Bool) (row : Row)
    (params : List Value) (col : Nat) :
    CompiledPredicate.eval asText caseSensitive row params (.likeSubstr col needle) =
        likeGeneral asText (row col) (.text pattern) false ↔ Faithful pattern (row col) := by
  obtain ⟨raw, shape, rfl⟩ := classified found
  cases value : row col with
  | text s =>
    rw [CompiledPredicate.eval, value]
    dsimp only
    by_cases broken : 0 ∈ pattern
    · rw [shape.search_cut broken, eq_comm, Bool.eq_false_iff, ne_eq,
        shape.general_cut asText broken]
      constructor
      · intro apart _ _ _ same _
        cases same
        exact apart
      · exact fun faithful => faithful _ s found rfl broken
    · rw [shape.search_whole asText broken]
      exact iff_of_true rfl fun _ _ _ _ inside => absurd inside broken
  | _ =>
    rw [CompiledPredicate.eval, value]
    dsimp only
    rw [likeMatch_eq, shape.general_lowered]
    exact iff_of_true rfl fun _ _ _ same => nomatch same

/-- The raw answer is the one of the decoded row. -/
theorem rawEval_eval {payload : Payload} {row : List Types.Cell} {rowid : Int64}
    {rowidAlias : Option Nat} (stores : Stores payload row rowid rowidAlias)
    (caseSensitive : Bool) (params : List Value) (p : CompiledPredicate) :
    ∃ answer, p.rawEval payload.1 rowidAlias = .ok answer ∧ ∀ hit, answer = some hit →
      p.eval asText caseSensitive (columnValue row) params = hit := by
  induction p with
  | likeSubstr col needle =>
    rw [CompiledPredicate.rawEval, stores.probeTextColumn, CompiledPredicate.eval]
    cases value : columnValue row col with
    | text s =>
      refine ⟨some (likeContainsBytes (cString s) needle), rfl, ?_⟩
      rintro hit ⟨⟩
      rfl
    | _ => exact ⟨none, rfl, nofun⟩
  | and a b ihA ihB =>
    obtain ⟨answerA, evalA, agreesA⟩ := ihA
    obtain ⟨answerB, evalB, agreesB⟩ := ihB
    rw [CompiledPredicate.rawEval, evalA, evalB, CompiledPredicate.eval]
    match answerA, answerB with
    | some false, _ =>
      refine ⟨some false, rfl, ?_⟩
      rintro hit ⟨⟩
      rw [agreesA false rfl, Bool.false_and]
    | some true, some true =>
      refine ⟨some true, rfl, ?_⟩
      rintro hit ⟨⟩
      rw [agreesA true rfl, agreesB true rfl, Bool.true_and]
    | some true, some false | none, some false =>
      refine ⟨some false, rfl, ?_⟩
      rintro hit ⟨⟩
      rw [agreesB false rfl, Bool.and_false]
    | some true, none | none, some true | none, none => exact ⟨none, rfl, nofun⟩
  | _ => exact ⟨none, rfl, nofun⟩

/-- A leaf that `compile_predicate_at` or `bind_params` makes of a pattern. -/
inductive Built (pattern : List UInt8) (col : Nat) (needle : List UInt8) : Prop
  | compiled (same : compileLike false col (.literal (.text pattern)) false false =
      .likeSubstr col needle)
  | bound (params : List Value) (i : Nat) (held : params[i]? = some (.text pattern))
      (same : (CompiledPredicate.like col (.param i) false false).bindParams false params =
        .likeSubstr col needle)

theorem built_iff {pattern needle : List UInt8} {col : Nat} :
    Built pattern col needle ↔ classifyContains pattern = some needle := by
  constructor
  · rintro (same | ⟨params, i, held, same⟩)
    · rw [compileLike] at same
      cases found : classifyContains pattern with
      | none =>
        rw [found] at same
        cases same
      | some classified =>
        rw [found] at same
        cases same
        rfl
    · rw [CompiledPredicate.bindParams, held] at same
      dsimp only at same
      rw [if_neg Bool.false_ne_true] at same
      cases found : classifyContains pattern with
      | none =>
        rw [found] at same
        cases same
      | some classified =>
        rw [found] at same
        cases same
        rfl
  · intro found
    refine .compiled ?_
    rw [compileLike, found]
    rfl

/-- For a value and a pattern, every way to the answer of LIKE gives the one of the general path
exactly where the substring search is faithful. -/
theorem like_paths_agree_iff (value : Value) (pattern : List UInt8) :
    ((∀ s caseSensitive, value = .text s → isAscii s = true → isAscii pattern = true →
        likeMatchBytes (cString s) (cString pattern) caseSensitive =
          some (likeGeneral asText value (.text pattern) caseSensitive)) ∧
      (∀ needle col row caseSensitive params, Built pattern col needle → row col = value →
        CompiledPredicate.eval asText caseSensitive row params (.likeSubstr col needle) =
          likeGeneral asText value (.text pattern) false) ∧
      (∀ needle col (payload : Payload) row rowid rowidAlias hit, Built pattern col needle →
        Stores payload row rowid rowidAlias → columnValue row col = value →
        CompiledPredicate.rawEval payload.1 rowidAlias (.likeSubstr col needle) =
          .ok (some hit) → hit = likeGeneral asText value (.text pattern) false)) ↔
      Faithful pattern value := by
  constructor
  · rintro ⟨-, search, -⟩ needle s found
    have agrees := search needle 0 (fun _ => value) false [] (built_iff.mpr found) rfl
    exact (likeSubstr_eval asText found false (fun _ => value) [] 0).mp agrees needle s found
  · intro faithful
    have search {needle : List UInt8} {col : Nat} (built : Built pattern col needle) (row : Row)
        (caseSensitive : Bool) (params : List Value) (same : row col = value) :
        CompiledPredicate.eval asText caseSensitive row params (.likeSubstr col needle) =
          likeGeneral asText value (.text pattern) false := by
      subst same
      exact (likeSubstr_eval asText (built_iff.mp built) caseSensitive row params col).mpr faithful
    refine ⟨?_, fun needle col row caseSensitive params built =>
      search built row caseSensitive params, ?_⟩
    · rintro s caseSensitive rfl ascii patAscii
      exact likeMatchBytes_general asText ascii patAscii caseSensitive
    · intro needle col payload row rowid rowidAlias hit built stores same answered
      obtain ⟨answer, raw, agrees⟩ := rawEval_eval asText stores false []
        (.likeSubstr col needle)
      cases answered.symm.trans raw
      rw [← agrees hit rfl]
      exact search built _ false [] same

end

/-- `'xa' LIKE '%a' || char(0) || 'b%'` holds, but not for the substring search. -/
theorem search_misses_cut_pattern :
    ¬ ∀ (asText : Value → List UInt8) (value : Value) (pattern needle : List UInt8) (col : Nat)
        (row : Row), Built pattern col needle → row col = value →
        CompiledPredicate.eval asText false row [] (.likeSubstr col needle) =
          likeGeneral asText value (.text pattern) false := by
  intro agrees
  let asText : Value → List UInt8 := fun _ => []
  have found : classifyContains [0x25, 0x61, 0, 0x62, 0x25] = some [0x61, 0, 0x62] := by decide
  have same := agrees asText (.text [0x78, 0x61]) _ _ 0 (fun _ => .text [0x78, 0x61])
    (built_iff.mpr found) rfl
  have faithful := (likeSubstr_eval asText found false (fun _ => .text [0x78, 0x61]) [] 0).mp same
  exact faithful _ _ found rfl (by decide) (by decide)

end RustSql.Executor
