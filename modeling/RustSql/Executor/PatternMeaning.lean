import RustSql.Executor.PatternLanguage

/-! The matcher decides the language of a pattern: each of its steps keeps what the outcome tells
about the characters of the subject. -/

namespace RustSql.Executor

open RustSql.Foundation

theorem inMembers_cons (low high cs : UInt32) (members : List (UInt32 × UInt32)) :
    inMembers ((low, high) :: members) cs =
      (decide (low ≤ cs ∧ cs ≤ high) || inMembers members cs) := rfl

theorem single_eq (c cs : UInt32) : decide (c ≤ cs ∧ cs ≤ c) = (cs == c) := by
  rw [Bool.eq_iff_iff, decide_eq_true_iff, beq_iff_eq]
  constructor
  · rintro ⟨low, high⟩
    exact UInt32.le_antisymm high low
  · rintro rfl
    exact ⟨UInt32.le_refl _, UInt32.le_refl _⟩

variable {pat : List UInt8}

/-- The byte that the matcher looks ahead at closes the set where the character does. -/
theorem rangeAt_read (unbroken : Unbroken pat) (prior : Option UInt32) (c : UInt32)
    (nonzero : prior ≠ some 0) :
    rangeAt prior c (characters pat) =
      if c = 0x2d ∧ pat.headD 0 ≠ 0x5d ∧ pat.headD 0 ≠ 0 ∧ 0 < prior.getD 0 then
        some ((prior.getD 0, (utf8Read pat).1), characters (utf8Read pat).2)
      else none := by
  cases prior with
  | none =>
    rw [if_neg fun ⟨_, _, _, positive⟩ => absurd positive (UInt32.lt_irrefl _)]
    rfl
  | some low =>
    have positive : 0 < low := UInt32.pos_iff_ne_zero.mpr fun zero => nonzero (congrArg some zero)
    cases pat with
    | nil =>
      rw [characters_nil, if_neg fun ⟨_, _, ends, _⟩ => ends rfl]
      rfl
    | cons b rest =>
      have inside : b ≠ 0 := fun zero => unbroken (zero ▸ List.mem_cons_self)
      have closing := @utf8Read_eq_iff b rest 0x5d (by decide)
      rw [characters_cons, rangeAt]
      simp only [List.headD_cons, Option.getD_some, positive, inside, and_true, ne_eq,
        not_false_eq_true, ← closing]
      rfl

theorem readSet_eq (cs : UInt32) (unbroken : Unbroken pat) (prior : Option UInt32)
    (nonzero : prior ≠ some 0) (seen : Bool) :
    (readSet cs (prior.getD 0) (utf8Read pat).1 seen (utf8Read pat).2).map
        (fun (inside, behind) => (inside, characters behind)) =
      (parseMembers prior (characters pat)).map
        fun (members, behind) => (seen || inMembers members cs, behind) := by
  induction size : pat.length using Nat.strong_induction_on generalizing pat prior seen with
  | _ size ih =>
    subst size
    rcases unbroken.read with ⟨ends, rfl⟩ | ⟨more, -, same⟩
    · rw [ends, readSet, if_pos rfl, characters_nil, parseMembers]
      rfl
    · have shorter := utf8Read_lt more
      have after := unbroken.behind
      rw [same, readSet, if_neg more]
      by_cases closing : (utf8Read pat).1 = 0x5d
      · rw [if_pos closing, closing, parseMembers, if_pos rfl, Option.map_some, Option.map_some]
        exact congrArg some (Prod.ext (Bool.or_false seen).symm rfl)
      have dashed := rangeAt_read after prior (utf8Read pat).1 nonzero
      rw [if_neg closing]
      by_cases range : (utf8Read pat).1 = 0x2d ∧ (utf8Read pat).2.headD 0 ≠ 0x5d ∧
          (utf8Read pat).2.headD 0 ≠ 0 ∧ 0 < prior.getD 0
      · rw [if_pos range] at dashed ⊢
        have later := utf8Read_length (utf8Read pat).2
        have next (seen : Bool) := ih _ (by omega) after.behind none (by simp) seen rfl
        rw [Option.getD_none] at next
        rw [parseMembers_range closing dashed, next, Option.map_map]
        refine Option.map_congr ?_
        rintro ⟨members, behind⟩ -
        simp only [Function.comp_apply, inMembers_cons, Bool.or_assoc]
      · rw [if_neg range] at dashed ⊢
        have known : some (utf8Read pat).1 ≠ some 0 := fun zero => more (Option.some.inj zero)
        rw [parseMembers_single closing dashed,
          ← show (some (utf8Read pat).1).getD 0 = (utf8Read pat).1 from rfl,
          ih _ shorter after _ known _ rfl, Option.map_map]
        refine Option.map_congr ?_
        rintro ⟨members, behind⟩ -
        simp only [Function.comp_apply, inMembers_cons, single_eq, Option.getD_some, Bool.or_assoc]

theorem readListed_eq (cs : UInt32) (unbroken : Unbroken pat) :
    (readSet cs 0 (utf8Read (skipChar 0x5d pat).2).1 ((skipChar 0x5d pat).1 && cs == 0x5d)
        (utf8Read (skipChar 0x5d pat).2).2).map
        (fun (inside, behind) => (inside, characters behind)) =
      (parseListed (characters pat)).map
        fun (members, behind) => (inMembers members cs, behind) := by
  have listed {pat : List UInt8} (unbroken : Unbroken pat) (seen : Bool) :=
    readSet_eq cs unbroken none (by simp) seen
  simp only [Option.getD_none] at listed
  rw [skipChar]
  rcases unbroken.read with ⟨ends, rfl⟩ | ⟨more, -, same⟩
  · rw [characters_nil, if_neg (show (utf8Read []).1 ≠ 0x5d by decide), listed unbroken,
      characters_nil, parseMembers]
    rfl
  · rw [same, parseListed]
    by_cases leading : (utf8Read pat).1 = 0x5d
    · rw [if_pos leading, if_pos leading, listed unbroken.behind, Option.map_map]
      refine Option.map_congr ?_
      rintro ⟨members, behind⟩ -
      simp only [Function.comp_apply, inMembers_cons, single_eq, leading, Bool.true_and]
    · rw [if_neg leading, if_neg leading, listed unbroken, same]
      rfl

theorem inverted_map (invert : Bool) (read : Option (Bool × List UInt8)) :
    (read.map fun (seen, pat) => (seen ^^ invert, pat)).map
        (fun (inside, behind) => (inside, characters behind)) =
      (read.map fun (inside, behind) => (inside, characters behind)).map
        fun (seen, behind) => (seen ^^ invert, behind) := by
  cases read <;> rfl

theorem matchSetAt_eq (cs : UInt32) (unbroken : Unbroken pat) :
    (matchSetAt cs pat).map (fun (inside, behind) => (inside, characters behind)) =
      (parseSet (characters pat)).map fun (accepts, behind) => (accepts cs, behind) := by
  rw [matchSetAt]
  dsimp only
  rw [inverted_map]
  rcases unbroken.read with ⟨ends, rfl⟩ | ⟨more, -, same⟩
  · have plain : skipChar 0x5e [] = (false, []) := by
      rw [skipChar, if_neg (show (utf8Read []).1 ≠ 0x5e by decide)]
    rw [plain, readListed_eq cs unbroken, characters_nil]
    rfl
  · rw [same, parseSet, skipChar]
    by_cases inverted : (utf8Read pat).1 = 0x5e
    · rw [if_pos inverted, if_pos inverted, readListed_eq cs unbroken.behind, Option.map_map,
        Option.map_map]
      refine Option.map_congr ?_
      rintro ⟨members, behind⟩ -
      simp only [Function.comp_apply, Bool.xor_true]
    · rw [if_neg inverted, if_neg inverted, readListed_eq cs unbroken, Option.map_map,
        Option.map_map, same]
      refine Option.map_congr ?_
      rintro ⟨members, behind⟩ -
      simp only [Function.comp_apply, Bool.xor_false]

/-- What the parts of a grammar say about the first character of a pattern. -/
structure Grammar (info : PatternInfo) (other : UInt32)
    (items : List UInt32 → Option (List (Item UInt32))) : Prop where
  apart : info.matchOne ≠ 0 → info.matchOne ≠ other
  nil : items [] = some []
  many (c : UInt32) (rest : List UInt32) : c ≠ 0 → c = info.matchAll →
    items (c :: rest) = (items rest).map (.many :: ·)
  trailing (c : UInt32) : c ≠ 0 → c ≠ info.matchAll → c = other → info.matchSet = 0 →
    items [c] = none
  escaped (c d : UInt32) (rest : List UInt32) : c ≠ 0 → c ≠ info.matchAll → c = other →
    info.matchSet = 0 → items (c :: d :: rest) = (items rest).map (.one (info.hits d) :: ·)
  set (c : UInt32) (rest : List UInt32) : c ≠ 0 → c ≠ info.matchAll → c = other →
    info.matchSet ≠ 0 → items (c :: rest) =
      (parseSet rest).bind fun (accepts, behind) => (items behind).map (.one accepts :: ·)
  one (c : UInt32) (rest : List UInt32) : c ≠ 0 → c ≠ info.matchAll → c = info.matchOne →
    items (c :: rest) = (items rest).map (.one (fun _ => true) :: ·)
  literal (c : UInt32) (rest : List UInt32) : c ≠ 0 → c ≠ info.matchAll → c ≠ other →
    c ≠ info.matchOne → items (c :: rest) = (items rest).map (.one (info.hits c) :: ·)

variable {items : Option (List (Item UInt32))}

/-- Behind a wildcard, an outcome at the front that is not a refusal settles the search. -/
theorem settled {outcome : Outcome} {s : List UInt32} (here : Judges outcome items s)
    (decided : outcome ≠ .noMatch) : Judges outcome (items.map (.many :: ·)) s := by
  cases outcome with
  | matched => exact here.found
  | noMatch => exact absurd rfl decided
  | abandoned => exact here.gaveUp

variable {info : PatternInfo}

theorem searchHits_judges {c : UInt32} {next : List UInt8 → Outcome}
    (judged : ∀ t, Unbroken t → Judges (next t) items (characters t)) {s : List UInt8}
    (unbroken : Unbroken s) :
    Judges (searchHits info c next s)
      ((items.map (.one (info.hits c) :: ·)).map (.many :: ·)) (characters s) := by
  induction s using searchHits.induct info c next with
  | case1 s ends =>
    rw [searchHits, if_pos ends]
    rw [unbroken.ended ends, characters_nil]
    exact .exhausted Judges.one_nil
  | case2 s more hit refused ih =>
    have here := (judged _ unbroken.behind).accepted hit
    rw [searchHits, if_neg more, if_pos hit, refused, unbroken.more more]
    rw [refused] at here
    exact here.later (ih unbroken.behind)
  | case3 s more hit decided =>
    have here := (judged _ unbroken.behind).accepted hit
    rw [searchHits, if_neg more, if_pos hit, unbroken.more more]
    split
    · exact absurd ‹_› decided
    · exact settled here decided
  | case4 s more differs ih =>
    rw [searchHits, if_neg more, if_neg differs, unbroken.more more]
    exact (Judges.refused (Bool.not_eq_true _ ▸ differs)).later (ih unbroken.behind)

theorem searchStarts_judges {next : List UInt8 → Outcome}
    (nonempty : ∀ list, items = some list → ¬ Language list [])
    (judged : ∀ t, Unbroken t → Judges (next t) items (characters t)) {s : List UInt8}
    (unbroken : Unbroken s) :
    Judges (searchStarts next s) (items.map (.many :: ·)) (characters s) := by
  induction s using searchStarts.induct next with
  | case1 =>
    rw [searchStarts, characters_nil]
    exact .exhausted nonempty
  | case2 b rest refused ih =>
    have here := judged _ unbroken
    rw [refused, characters_cons] at here
    rw [searchStarts, refused, characters_cons]
    exact here.later (ih unbroken.behind)
  | case3 b rest decided =>
    rw [searchStarts]
    split
    · exact absurd ‹_› decided
    · exact settled (judged _ unbroken) decided

theorem skipWildcards_judges {other : UInt32} {items : List UInt32 → Option (List (Item UInt32))}
    (grammar : Grammar info other items) {pat s : List UInt8} (patUnbroken : Unbroken pat)
    (unbroken : Unbroken s) :
    match skipWildcards info pat s with
    | none => Judges .abandoned ((items (characters pat)).map (.many :: ·)) (characters s)
    | some (_, start, _, rest) =>
      ∀ outcome, Judges outcome ((items (characters start)).map (.many :: ·)) (characters rest) →
        Judges outcome ((items (characters pat)).map (.many :: ·)) (characters s) := by
  induction pat, s using skipWildcards.induct info with
  | case1 pat s many ih =>
    have nonzero : (utf8Read pat).1 ≠ 0 := many.1 ▸ many.2
    have ready := ih patUnbroken.behind unbroken
    rw [skipWildcards, if_pos many, patUnbroken.more nonzero, grammar.many _ _ nonzero many.1]
    cases skipped : skipWildcards info (utf8Read pat).2 s with
    | none =>
      rw [skipped] at ready
      exact ready.many_many
    | some found =>
      rw [skipped] at ready
      exact fun outcome judges => (ready outcome judges).many_many
  | case2 pat s many one ended =>
    have nonzero : (utf8Read pat).1 ≠ 0 := one.1 ▸ one.2
    have apart : (utf8Read pat).1 ≠ info.matchAll := fun same => many ⟨same, same ▸ nonzero⟩
    rw [skipWildcards, if_neg many, if_pos one, if_pos ended, patUnbroken.more nonzero,
      grammar.one _ _ nonzero apart one.1, unbroken.ended ended, characters_nil]
    exact .many_one_nil (by simp)
  | case3 pat s many one more ih =>
    have nonzero : (utf8Read pat).1 ≠ 0 := one.1 ▸ one.2
    have apart : (utf8Read pat).1 ≠ info.matchAll := fun same => many ⟨same, same ▸ nonzero⟩
    have ready := ih patUnbroken.behind unbroken.behind
    rw [skipWildcards, if_neg many, if_pos one, if_neg more, patUnbroken.more nonzero,
      grammar.one _ _ nonzero apart one.1, unbroken.more more]
    cases skipped : skipWildcards info (utf8Read pat).2 (utf8Read s).2 with
    | none =>
      rw [skipped] at ready
      exact ready.many_one
    | some found =>
      rw [skipped] at ready
      exact fun outcome judges => (ready outcome judges).many_one
  | case4 pat s many one =>
    rw [skipWildcards, if_neg many, if_neg one]
    exact fun _ judges => judges

/-- Behind the wildcards comes an ordinary character, or the end. -/
theorem skipWildcards_plain {pat s : List UInt8} {c : UInt32} {start behind rest : List UInt8}
    (skipped : skipWildcards info pat s = some (c, start, behind, rest)) (more : c ≠ 0) :
    c ≠ info.matchAll ∧ c ≠ info.matchOne := by
  induction pat, s using skipWildcards.induct info with
  | case1 pat s many ih =>
    rw [skipWildcards, if_pos many] at skipped
    exact ih skipped
  | case2 pat s many one ended =>
    rw [skipWildcards, if_neg many, if_pos one, if_pos ended] at skipped
    cases skipped
  | case3 pat s many one nonempty ih =>
    rw [skipWildcards, if_neg many, if_pos one, if_neg nonempty] at skipped
    exact ih skipped
  | case4 pat s many one =>
    rw [skipWildcards, if_neg many, if_neg one] at skipped
    cases skipped
    exact ⟨fun same => many ⟨same, same ▸ more⟩, fun same => one ⟨same, same ▸ more⟩⟩

section

variable {info : PatternInfo} {other : UInt32}
  {items : List UInt32 → Option (List (Item UInt32))}

variable {c : UInt32}

theorem set_nonempty (grammar : Grammar info other items) {rest : List UInt32} (more : c ≠ 0)
    (apart : c ≠ info.matchAll) (special : c = other) (brackets : info.matchSet ≠ 0) :
    Judges .noMatch (items (c :: rest)) [] := by
  intro list found
  rw [grammar.set _ _ more apart special brackets] at found
  obtain ⟨_, -, found⟩ := Option.bind_eq_some_iff.mp found
  exact Judges.one_nil list found

/-- The search behind a wildcard, for a pattern that goes on with an ordinary character. -/
theorem search_judges (grammar : Grammar info other items) {start rest : List UInt8}
    (patUnbroken : Unbroken start) (unbroken : Unbroken rest)
    (apart : (utf8Read start).1 ≠ info.matchAll ∧ (utf8Read start).1 ≠ info.matchOne)
    (more : (utf8Read start).1 ≠ 0)
    (judged : ∀ pat, pat <:+ start → ∀ t, Unbroken t →
      Judges (patternCompare info other pat t) (items (characters pat)) (characters t)) :
    Judges
      (if (utf8Read start).1 = other ∧ other ≠ 0 then
        if info.matchSet = 0 then
          if (utf8Read (utf8Read start).2).1 = 0 then .abandoned
          else searchHits info (utf8Read (utf8Read start).2).1
            (fun t => patternCompare info other (utf8Read (utf8Read start).2).2 t) rest
        else searchStarts (fun t => patternCompare info other start t) rest
      else searchHits info (utf8Read start).1
        (fun t => patternCompare info other (utf8Read start).2 t) rest)
      ((items (characters start)).map (.many :: ·)) (characters rest) := by
  have same := patUnbroken.more more
  have after := patUnbroken.behind
  by_cases special : (utf8Read start).1 = other ∧ other ≠ 0
  · rw [if_pos special]
    by_cases escapes : info.matchSet = 0
    · rw [if_pos escapes]
      by_cases trailing : (utf8Read (utf8Read start).2).1 = 0
      · rw [if_pos trailing, same, after.ended trailing, characters_nil,
          grammar.trailing _ more apart.1 special.1 escapes]
        exact .malformed _ nofun
      · rw [if_neg trailing, same, after.more trailing,
          grammar.escaped _ _ _ more apart.1 special.1 escapes]
        exact searchHits_judges (judged _ ((utf8Read_suffix _).trans (utf8Read_suffix _)))
          unbroken
    · rw [if_neg escapes]
      refine searchStarts_judges ?_ (judged _ (List.suffix_refl _)) unbroken
      rw [same]
      exact set_nonempty grammar more apart.1 special.1 escapes
  · have ordinary : (utf8Read start).1 ≠ other := fun equal => special ⟨equal, equal ▸ more⟩
    rw [if_neg special, same, grammar.literal _ _ more apart.1 ordinary apart.2]
    exact searchHits_judges (judged _ (utf8Read_suffix _)) unbroken

theorem asciiLower_ne_zero (more : c ≠ 0) : asciiLower c ≠ 0 := by
  rw [asciiLower]
  split_ifs with upper
  · obtain ⟨low, high⟩ := upper
    rw [UInt32.le_iff_toNat_le] at low high
    intro zero
    have value := congrArg UInt32.toNat zero
    simp at low high value
    omega
  · exact more

theorem hits_end (info : PatternInfo) (more : c ≠ 0) : info.hits c 0 = false := by
  have folded : (asciiLower c == asciiLower 0) = false :=
    beq_eq_false_iff_ne.mpr (asciiLower_ne_zero more)
  rw [PatternInfo.hits, folded, Bool.and_false, Bool.or_false, beq_eq_false_iff_ne]
  exact more.symm

theorem ending_judges (s : List UInt8) :
    Judges (if s = [] then .matched else .noMatch) (some []) (characters s) := by
  by_cases empty : s = []
  · rw [if_pos empty]
    exact ⟨[], rfl, characters_eq_nil.mpr empty⟩
  · rw [if_neg empty]
    rintro list same inside
    cases same
    exact empty (characters_eq_nil.mp inside)

/-- One character of the pattern against the subject's next. -/
theorem step_judges {outcome : Outcome} {rest : Option (List (Item UInt32))}
    {accepts : UInt32 → Bool} {hit : Prop} [Decidable hit] {s : List UInt8}
    (unbroken : Unbroken s) (inside : hit ↔ (utf8Read s).1 ≠ 0 ∧ accepts (utf8Read s).1 = true)
    (judged : Judges outcome rest (characters (utf8Read s).2)) :
    Judges (if hit then outcome else .noMatch) (rest.map (.one accepts :: ·)) (characters s) := by
  by_cases ends : (utf8Read s).1 = 0
  · rw [if_neg fun here => (inside.mp here).1 ends, unbroken.ended ends, characters_nil]
    exact Judges.one_nil
  · rw [unbroken.more ends]
    by_cases here : hit
    · rw [if_pos here]
      exact judged.accepted (inside.mp here).2
    · rw [if_neg here]
      exact .refused (Bool.not_eq_true _ ▸ fun accepted => here (inside.mpr ⟨ends, accepted⟩))

theorem hits_iff (info : PatternInfo) (more : c ≠ 0) (c2 : UInt32) :
    info.hits c c2 = true ↔ c2 ≠ 0 ∧ info.hits c c2 = true := by
  constructor
  · intro hit
    refine ⟨?_, hit⟩
    rintro rfl
    rw [hits_end info more] at hit
    cases hit
  · exact And.right

/-- A set that is read is the first item, and one that is not makes the pattern malformed. -/
theorem set_read (grammar : Grammar info other items) {pat : List UInt8} (more : c ≠ 0)
    (apart : c ≠ info.matchAll) (special : c = other) (brackets : info.matchSet ≠ 0)
    (unbroken : Unbroken pat) (cs : UInt32) :
    match matchSetAt cs pat with
    | none => items (c :: characters pat) = none
    | some (inside, behind) => ∃ accepts : UInt32 → Bool, accepts cs = inside ∧
        items (c :: characters pat) = (items (characters behind)).map (.one accepts :: ·) := by
  have read := matchSetAt_eq cs unbroken
  rw [grammar.set _ _ more apart special brackets]
  cases parsed : parseSet (characters pat) with
  | none =>
    rw [parsed, Option.map_none, Option.map_eq_none_iff] at read
    rw [read]
    rfl
  | some found =>
    obtain ⟨accepts, rest⟩ := found
    rw [parsed, Option.map_some, Option.map_eq_some_iff] at read
    obtain ⟨⟨inside, behind⟩, found, equal⟩ := read
    cases equal
    rw [found]
    exact ⟨accepts, rfl, rfl⟩

theorem patternCompare_judges (grammar : Grammar info other items) {pat s : List UInt8}
    (patUnbroken : Unbroken pat) (unbroken : Unbroken s) :
    Judges (patternCompare info other pat s) (items (characters pat)) (characters s) := by
  induction size : pat.length using Nat.strong_induction_on generalizing pat s with
  | _ size ih =>
    subst size
    have judged {part : List UInt8} (shorter : part.length < pat.length) (within : part <:+ pat)
        (t : List UInt8) (clean : Unbroken t) :=
      ih _ shorter (patUnbroken.suffix within) clean rfl
    rw [patternCompare]
    by_cases ends : (utf8Read pat).1 = 0
    · rw [dif_pos ends, patUnbroken.ended ends, characters_nil, grammar.nil]
      exact ending_judges s
    have same := patUnbroken.more ends
    have after := patUnbroken.behind
    have shorter := utf8Read_lt ends
    rw [dif_neg ends]
    by_cases many : (utf8Read pat).1 = info.matchAll ∧ info.matchAll ≠ 0
    · have ready := skipWildcards_judges grammar after unbroken
      rw [if_pos many, same, grammar.many _ _ ends many.1]
      split
      · rename_i skipped
        rw [skipped] at ready
        exact ready
      · rename_i c start behind rest skipped
        obtain ⟨within, rfl, rfl, remaining⟩ := skipWildcards_suffix skipped
        have startUnbroken := after.suffix within
        rw [skipped] at ready
        apply ready
        by_cases last : (utf8Read start).1 = 0
        · rw [if_pos last, startUnbroken.ended last, characters_nil, grammar.nil]
          exact ⟨[.many], rfl, [], List.nil_suffix, rfl⟩
        · rw [if_neg last]
          refine search_judges grammar startUnbroken (unbroken.suffix remaining)
            (skipWildcards_plain skipped last) last fun part inside => ?_
          have bound := within.length_le
          have smaller := inside.length_le
          exact judged (by omega) (inside.trans (within.trans (utf8Read_suffix pat)))
    have apart : (utf8Read pat).1 ≠ info.matchAll := fun equal => many ⟨equal, equal ▸ ends⟩
    rw [if_neg many]
    by_cases special : (utf8Read pat).1 = other ∧ other ≠ 0
    · rw [if_pos special]
      by_cases escapes : info.matchSet = 0
      · rw [if_pos escapes, same]
        by_cases trailing : (utf8Read (utf8Read pat).2).1 = 0
        · rw [if_pos trailing, after.ended trailing, characters_nil,
            grammar.trailing _ ends apart special.1 escapes]
          exact .malformed _ (by simp)
        · have later := utf8Read_length (utf8Read pat).2
          rw [if_neg trailing, after.more trailing,
            grammar.escaped _ _ _ ends apart special.1 escapes]
          refine step_judges unbroken ?_ (judged (by omega)
            ((utf8Read_suffix _).trans (utf8Read_suffix pat)) _ unbroken.behind)
          exact hits_iff info trailing _
      · rw [if_neg escapes, same]
        by_cases last : (utf8Read s).1 = 0
        · rw [if_pos last, unbroken.ended last, characters_nil]
          exact set_nonempty grammar ends apart special.1 escapes
        have read := set_read grammar ends apart special.1 escapes after (utf8Read s).1
        rw [if_neg last]
        split
        · rename_i unclosed
          rw [unclosed] at read
          rw [read]
          exact .malformed _ (by simp)
        · rename_i inside behind closed
          rw [closed] at read
          obtain ⟨accepts, rfl, item⟩ := read
          have within := matchSetAt_suffix closed
          have bound := within.length_le
          rw [item]
          refine step_judges unbroken ?_ (judged (by omega) (within.trans (utf8Read_suffix pat))
            _ unbroken.behind)
          exact ⟨fun here => ⟨last, here⟩, And.right⟩
    · have ordinary : (utf8Read pat).1 ≠ other := fun equal => special ⟨equal, equal ▸ ends⟩
      have later := judged shorter (utf8Read_suffix pat) _ unbroken.behind
      rw [if_neg special, same]
      by_cases one : (utf8Read pat).1 = info.matchOne
      · rw [grammar.one _ _ ends apart one]
        refine step_judges unbroken ?_ later
        rw [hits_iff info ends]
        have nonzero : info.matchOne ≠ 0 := one ▸ ends
        simp only [one, nonzero, ne_eq, not_false_eq_true, true_and, and_true]
        exact ⟨fun here => here.elim And.left id, Or.inr⟩
      · rw [grammar.literal _ _ ends apart ordinary one]
        refine step_judges unbroken ?_ later
        simp only [one, false_and, or_false]
        exact hits_iff info ends _

end

/-- A wildcard of LIKE that is not the escape character. -/
theorem unreserved {c escape wildcard : UInt32} (nonzero : c ≠ 0)
    (same : c = if escape = wildcard then 0 else wildcard) : c = wildcard ∧ c ≠ escape := by
  by_cases reserved : escape = wildcard
  · rw [if_pos reserved] at same
    exact absurd same nonzero
  · rw [if_neg reserved] at same
    exact ⟨same, fun equal => reserved (equal.symm.trans same)⟩

theorem ordinary_ne {c escape wildcard : UInt32} (ordinary : c ≠ escape)
    (differs : c ≠ if escape = wildcard then 0 else wildcard) : c ≠ wildcard := by
  rintro rfl
  exact differs (if_neg ordinary.symm).symm

theorem likeGrammar (escape : UInt32) (caseSensitive : Bool) :
    Grammar (likeInfo escape caseSensitive) escape
      (likeItems escape (alike !caseSensitive) (alike !caseSensitive) false) where
  apart nonzero := (unreserved nonzero rfl).2
  nil := rfl
  many c rest nonzero many := by
    obtain ⟨wildcard, plain⟩ := unreserved nonzero many
    rw [likeItems, if_neg Bool.false_ne_true, if_neg plain, if_pos wildcard]
  trailing c _ _ special _ := by
    rw [likeItems, if_neg Bool.false_ne_true, if_pos special]
    rfl
  escaped c d rest _ _ special _ := by
    rw [likeItems, if_neg Bool.false_ne_true, if_pos special]
    rfl
  set c rest _ _ _ brackets := absurd rfl brackets
  one c rest nonzero apart one := by
    obtain ⟨wildcard, plain⟩ := unreserved nonzero one
    have noMany := ordinary_ne plain apart
    rw [likeItems, if_neg Bool.false_ne_true, if_neg plain, if_neg noMany, if_pos wildcard]
  literal c rest _ apart ordinary plain := by
    have noMany := ordinary_ne ordinary apart
    have noOne := ordinary_ne ordinary plain
    rw [likeItems, if_neg Bool.false_ne_true, if_neg ordinary, if_neg noMany, if_neg noOne]
    rfl

theorem globGrammar : Grammar globInfo 0x5b globItems where
  apart _ same := absurd same (by decide)
  nil := by rw [globItems]
  many c rest _ many := by
    rw [globItems, if_pos (show c = 0x2a from many)]
  trailing c _ _ _ escapes := absurd escapes (by decide)
  escaped c d rest _ _ _ escapes := absurd escapes (by decide)
  set c rest _ _ special _ := by
    subst special
    rw [globItems, if_neg (by decide), if_neg (by decide), if_pos rfl]
    split
    · simp_all
    · simp_all
  one c rest _ _ one := by
    subst one
    rw [globItems, if_neg (by decide), if_pos (show globInfo.matchOne = 0x3f from rfl)]
  literal c rest _ apart ordinary plain := by
    rw [globItems, if_neg (show c ≠ 0x2a from apart), if_neg (show c ≠ 0x3f from plain),
      if_neg ordinary]
    rfl

/-- LIKE and GLOB decide the languages of their patterns, and an abandoned search has missed
nothing. -/
theorem patternCompare_meaning (pattern subject : List UInt8) :
    (∀ (escape : UInt32) (caseSensitive : Bool),
      let items := likeItems escape (alike !caseSensitive) (alike !caseSensitive) false
        (characters (cString pattern))
      let outcome := patternCompare (likeInfo escape caseSensitive) escape (cString pattern)
        (cString subject)
      (outcome = .matched ↔
        ∃ list, items = some list ∧ Language list (characters (cString subject))) ∧
      (outcome = .abandoned → ∀ list, items = some list →
        ∀ t, t <:+ characters (cString subject) → ¬ Language list t)) ∧
    (let items := globItems (characters (cString pattern))
      let outcome := patternCompare globInfo 0x5b (cString pattern) (cString subject)
      (outcome = .matched ↔
        ∃ list, items = some list ∧ Language list (characters (cString subject))) ∧
      (outcome = .abandoned → ∀ list, items = some list →
        ∀ t, t <:+ characters (cString subject) → ¬ Language list t)) := by
  have judged {info : PatternInfo} {other : UInt32} {items}
      (grammar : Grammar info other items) :=
    patternCompare_judges grammar (cString_unbroken pattern) (cString_unbroken subject)
  refine ⟨fun escape caseSensitive => ?_, ?_⟩
  · have judges := judged (likeGrammar escape caseSensitive)
    refine ⟨judges.iff, fun gaveUp => ?_⟩
    rw [gaveUp] at judges
    exact judges
  · have judges := judged globGrammar
    refine ⟨judges.iff, fun gaveUp => ?_⟩
    rw [gaveUp] at judges
    exact judges

/-- An escaped letter is folded like any other: `'A' LIKE '\a' ESCAPE '\'`. -/
theorem escaped_letter_folds :
    ¬ ∀ (escape : UInt32) (caseSensitive : Bool) (pattern subject : List UInt8),
      patternCompare (likeInfo escape caseSensitive) escape (cString pattern)
          (cString subject) = .matched ↔
        ∃ list, likeItems escape (alike !caseSensitive) (fun c c2 => c2 == c)
            false (characters (cString pattern)) = some list ∧
          Language list (characters (cString subject)) := by
  intro meaning
  have judges := patternCompare_judges (likeGrammar 0x5c false)
    (cString_unbroken [0x5c, 0x61]) (cString_unbroken [0x41])
  have pattern : characters (cString [0x5c, 0x61]) = [0x5c, 0x61] := by
    simp [cString, characters, utf8Read]
  have subject : characters (cString [0x41]) = [0x41] := by
    simp [cString, characters, utf8Read]
  rw [pattern, subject] at judges
  have found := judges.iff.mpr ⟨[.one (alike true 0x61)], rfl, 0x41, [], rfl, rfl, rfl⟩
  obtain ⟨list, parsed, inside⟩ := (meaning 0x5c false [0x5c, 0x61] [0x41]).mp found
  rw [pattern] at parsed
  rw [subject] at inside
  cases parsed
  obtain ⟨c, rest, same, accepted, -⟩ := inside
  cases same
  exact absurd accepted (by decide)

end RustSql.Executor
