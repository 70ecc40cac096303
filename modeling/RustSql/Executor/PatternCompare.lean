import RustSql.Foundation.Bytes
import RustSql.Foundation.Wildcards
import Mathlib.Data.UInt

/-! LIKE and GLOB: the matcher over bytes that are read as lenient UTF-8. -/

namespace RustSql.Executor

open RustSql.Foundation

/-- What a lead byte contributes. -/
def utf8Trans : List UInt8 :=
  [0x00, 0x01, 0x02, 0x03, 0x04, 0x05, 0x06, 0x07, 0x08, 0x09, 0x0a, 0x0b, 0x0c, 0x0d, 0x0e, 0x0f,
    0x10, 0x11, 0x12, 0x13, 0x14, 0x15, 0x16, 0x17, 0x18, 0x19, 0x1a, 0x1b, 0x1c, 0x1d, 0x1e, 0x1f,
    0x00, 0x01, 0x02, 0x03, 0x04, 0x05, 0x06, 0x07, 0x08, 0x09, 0x0a, 0x0b, 0x0c, 0x0d, 0x0e, 0x0f,
    0x00, 0x01, 0x02, 0x03, 0x04, 0x05, 0x06, 0x07, 0x00, 0x01, 0x02, 0x03, 0x00, 0x01, 0x00, 0x00]

/-- The continuation bytes at the front. -/
def readContinuation (c : UInt32) : List UInt8 → UInt32 × List UInt8
  | [] => (c, [])
  | b :: rest =>
    if b &&& 0xc0 = 0x80 then readContinuation ((c <<< 6) + (b &&& 0x3f).toUInt32) rest
    else (c, b :: rest)

/-- `sqlite3Utf8Read`: a character, 0 at the end, and what is behind it. -/
def utf8Read : List UInt8 → UInt32 × List UInt8
  | [] => (0, [])
  | b :: rest =>
    if 0xc0 ≤ b then
      let (c, rest) := readContinuation (utf8Trans.getD (b - 0xc0).toNat 0).toUInt32 rest
      (if c < 0x80 ∨ c &&& 0xFFFFF800 = 0xD800 ∨ c &&& 0xFFFFFFFE = 0xFFFE then 0xFFFD else c, rest)
    else (b.toUInt32, rest)

theorem readContinuation_suffix (c : UInt32) (bytes : List UInt8) :
    (readContinuation c bytes).2 <:+ bytes := by
  induction bytes generalizing c with
  | nil => exact List.suffix_refl _
  | cons b rest ih =>
    rw [readContinuation]
    by_cases continues : b &&& 0xc0 = 0x80
    · rw [if_pos continues]
      exact (ih _).trans (List.suffix_cons _ _)
    · rw [if_neg continues]

theorem utf8Read_cons_suffix (b : UInt8) (rest : List UInt8) :
    (utf8Read (b :: rest)).2 <:+ rest := by
  rw [utf8Read]
  by_cases lead : 0xc0 ≤ b
  · rw [if_pos lead]
    exact readContinuation_suffix _ _
  · rw [if_neg lead]

theorem utf8Read_suffix (bytes : List UInt8) : (utf8Read bytes).2 <:+ bytes := by
  cases bytes with
  | nil => exact List.suffix_refl _
  | cons b rest => exact (utf8Read_cons_suffix b rest).trans (List.suffix_cons _ _)

theorem utf8Read_cons_length (b : UInt8) (rest : List UInt8) :
    (utf8Read (b :: rest)).2.length < (b :: rest).length :=
  Nat.lt_succ_of_le (utf8Read_cons_suffix b rest).length_le

theorem utf8Read_length (bytes : List UInt8) : (utf8Read bytes).2.length ≤ bytes.length :=
  (utf8Read_suffix bytes).length_le

/-- Only an empty text has no character. -/
theorem utf8Read_lt {bytes : List UInt8} (some_ : (utf8Read bytes).1 ≠ 0) :
    (utf8Read bytes).2.length < bytes.length := by
  cases bytes with
  | nil => exact absurd rfl some_
  | cons b rest => exact utf8Read_cons_length b rest

theorem utf8Read_weight (bytes : List UInt8) :
    ((utf8Read bytes).2.length + if (utf8Read bytes).1 = 0 then 0 else 1) ≤ bytes.length := by
  by_cases ends : (utf8Read bytes).1 = 0
  · rw [if_pos ends]
    exact utf8Read_length bytes
  · rw [if_neg ends]
    exact utf8Read_lt ends

structure PatternInfo where
  matchAll : UInt32
  matchOne : UInt32
  matchSet : UInt32
  noCase : Bool

def asciiLower (c : UInt32) : UInt32 := if 0x41 ≤ c ∧ c ≤ 0x5a then c + 32 else c

/-- A character of the pattern stands for one of the subject. -/
def PatternInfo.hits (info : PatternInfo) (c c2 : UInt32) : Bool :=
  c2 == c || (info.noCase && decide (c < 0x80) && decide (c2 < 0x80) &&
    asciiLower c == asciiLower c2)

/-- The wildcards behind a many-wildcard, each one-wildcard with a character of the subject: the
character behind them, the pattern from it on, the pattern behind it, and the subject. -/
def skipWildcards (info : PatternInfo) (pat s : List UInt8) :
    Option (UInt32 × List UInt8 × List UInt8 × List UInt8) :=
  if (utf8Read pat).1 = info.matchAll ∧ info.matchAll ≠ 0 then
    skipWildcards info (utf8Read pat).2 s
  else if (utf8Read pat).1 = info.matchOne ∧ info.matchOne ≠ 0 then
    if (utf8Read s).1 = 0 then none else skipWildcards info (utf8Read pat).2 (utf8Read s).2
  else some ((utf8Read pat).1, pat, (utf8Read pat).2, s)
termination_by pat.length
decreasing_by
  · exact utf8Read_lt (by simp_all)
  · exact utf8Read_lt (by simp_all)

/-- The members of a set: whether one of them is the character `cs`, and the pattern behind the
closing bracket. -/
def readSet (cs prior c2 : UInt32) (seen : Bool) (pat : List UInt8) :
    Option (Bool × List UInt8) :=
  if c2 = 0 then none
  else if c2 = 0x5d then some (seen, pat)
  else if c2 = 0x2d ∧ pat.headD 0 ≠ 0x5d ∧ pat.headD 0 ≠ 0 ∧ 0 < prior then
    readSet cs 0 (utf8Read (utf8Read pat).2).1
      (seen || decide (prior ≤ cs ∧ cs ≤ (utf8Read pat).1)) (utf8Read (utf8Read pat).2).2
  else readSet cs c2 (utf8Read pat).1 (seen || cs == c2) (utf8Read pat).2
termination_by pat.length + if c2 = 0 then 0 else 1
decreasing_by
  · rw [if_neg ‹¬ c2 = 0›]
    exact Nat.lt_succ_of_le ((utf8Read_weight _).trans (utf8Read_length pat))
  · rw [if_neg ‹¬ c2 = 0›]
    exact Nat.lt_succ_of_le (utf8Read_weight pat)

/-- Whether the next character is `c`, and the pattern behind it if it is. -/
def skipChar (c : UInt32) (pat : List UInt8) : Bool × List UInt8 :=
  if (utf8Read pat).1 = c then (true, (utf8Read pat).2) else (false, pat)

/-- From a set on: whether its character is in it, and the pattern behind it. -/
def matchSetAt (cs : UInt32) (pat : List UInt8) : Option (Bool × List UInt8) :=
  let (invert, pat) := skipChar 0x5e pat
  let (leading, pat) := skipChar 0x5d pat
  (readSet cs 0 (utf8Read pat).1 (leading && cs == 0x5d) (utf8Read pat).2).map
    fun (seen, pat) => (seen ^^ invert, pat)

theorem readSet_suffix {cs prior c2 : UInt32} {seen inside : Bool} {pat behind : List UInt8}
    (read : readSet cs prior c2 seen pat = some (inside, behind)) : behind <:+ pat := by
  induction prior, c2, seen, pat using readSet.induct cs with
  | case1 prior seen pat =>
    rw [readSet, if_pos rfl] at read
    cases read
  | case2 prior seen pat nonzero =>
    rw [readSet, if_neg nonzero, if_pos rfl] at read
    cases read
    exact List.suffix_refl _
  | case3 prior c2 seen pat nonzero closing range ih =>
    rw [readSet, if_neg nonzero, if_neg closing, if_pos range] at read
    exact (ih read).trans ((utf8Read_suffix _).trans (utf8Read_suffix pat))
  | case4 prior c2 seen pat nonzero closing range ih =>
    rw [readSet, if_neg nonzero, if_neg closing, if_neg range] at read
    exact (ih read).trans (utf8Read_suffix pat)

theorem skipChar_suffix (c : UInt32) (pat : List UInt8) : (skipChar c pat).2 <:+ pat := by
  rw [skipChar]
  by_cases here : (utf8Read pat).1 = c
  · rw [if_pos here]
    exact utf8Read_suffix pat
  · rw [if_neg here]

theorem matchSetAt_suffix {cs : UInt32} {pat behind : List UInt8} {inside : Bool}
    (read : matchSetAt cs pat = some (inside, behind)) : behind <:+ pat := by
  rw [matchSetAt, Option.map_eq_some_iff] at read
  obtain ⟨⟨seen, rest⟩, found, same⟩ := read
  cases same
  apply (readSet_suffix found).trans
  apply (utf8Read_suffix _).trans
  exact (skipChar_suffix _ _).trans (skipChar_suffix _ _)

/-- The subject behind each character that `c` stands for, in turn. -/
def searchHits (info : PatternInfo) (c : UInt32) (next : List UInt8 → Outcome) (s : List UInt8) :
    Outcome :=
  if (utf8Read s).1 = 0 then .abandoned
  else if info.hits c (utf8Read s).1 then
    match next (utf8Read s).2 with
    | .noMatch => searchHits info c next (utf8Read s).2
    | outcome => outcome
  else searchHits info c next (utf8Read s).2
termination_by s.length
decreasing_by
  · exact utf8Read_lt ‹_›
  · exact utf8Read_lt ‹_›

/-- The subject from each character on, in turn. -/
def searchStarts (next : List UInt8 → Outcome) (s : List UInt8) : Outcome :=
  match s with
  | [] => .abandoned
  | b :: rest =>
    match next (b :: rest) with
    | .noMatch => searchStarts next (utf8Read (b :: rest)).2
    | outcome => outcome
termination_by s.length
decreasing_by exact utf8Read_cons_length b rest

theorem skipWildcards_suffix {info : PatternInfo} {pat s : List UInt8} {c : UInt32}
    {start behind rest : List UInt8}
    (skipped : skipWildcards info pat s = some (c, start, behind, rest)) :
    start <:+ pat ∧ c = (utf8Read start).1 ∧ behind = (utf8Read start).2 ∧ rest <:+ s := by
  induction pat, s using skipWildcards.induct info with
  | case1 pat s many ih =>
    rw [skipWildcards, if_pos many] at skipped
    obtain ⟨within, later⟩ := ih skipped
    exact ⟨within.trans (utf8Read_suffix pat), later⟩
  | case2 pat s many one ended =>
    rw [skipWildcards, if_neg many, if_pos one, if_pos ended] at skipped
    cases skipped
  | case3 pat s many one more ih =>
    rw [skipWildcards, if_neg many, if_pos one, if_neg more] at skipped
    obtain ⟨within, here, next, remaining⟩ := ih skipped
    exact ⟨within.trans (utf8Read_suffix pat), here, next, remaining.trans (utf8Read_suffix s)⟩
  | case4 pat s many one =>
    rw [skipWildcards, if_neg many, if_neg one] at skipped
    cases skipped
    exact ⟨List.suffix_refl _, rfl, rfl, List.suffix_refl _⟩

/-- `pattern_compare`. -/
def patternCompare (info : PatternInfo) (matchOther : UInt32) (pat s : List UInt8) : Outcome :=
  if _first : (utf8Read pat).1 = 0 then if s = [] then .matched else .noMatch
  else if (utf8Read pat).1 = info.matchAll ∧ info.matchAll ≠ 0 then
    match _skip : skipWildcards info (utf8Read pat).2 s with
    | none => .abandoned
    | some (c, start, behind, rest) =>
      if c = 0 then .matched
      else if c = matchOther ∧ matchOther ≠ 0 then
        if info.matchSet = 0 then
          if (utf8Read behind).1 = 0 then .abandoned
          else searchHits info (utf8Read behind).1
            (fun t => patternCompare info matchOther (utf8Read behind).2 t) rest
        else searchStarts (fun t => patternCompare info matchOther start t) rest
      else searchHits info c (fun t => patternCompare info matchOther behind t) rest
  else if (utf8Read pat).1 = matchOther ∧ matchOther ≠ 0 then
    if info.matchSet = 0 then
      if (utf8Read (utf8Read pat).2).1 = 0 then .noMatch
      else if info.hits (utf8Read (utf8Read pat).2).1 (utf8Read s).1 then
        patternCompare info matchOther (utf8Read (utf8Read pat).2).2 (utf8Read s).2
      else .noMatch
    else if (utf8Read s).1 = 0 then .noMatch
    else
      match _set : matchSetAt (utf8Read s).1 (utf8Read pat).2 with
      | none => .noMatch
      | some (inside, behind) =>
        if inside then patternCompare info matchOther behind (utf8Read s).2 else .noMatch
  else if info.hits (utf8Read pat).1 (utf8Read s).1 ∨
      ((utf8Read pat).1 = info.matchOne ∧ info.matchOne ≠ 0 ∧ (utf8Read s).1 ≠ 0) then
    patternCompare info matchOther (utf8Read pat).2 (utf8Read s).2
  else .noMatch
termination_by pat.length
decreasing_by
  · have shorter := utf8Read_lt _first
    obtain ⟨within, -, rfl, -⟩ := skipWildcards_suffix _skip
    have bound := within.length_le
    have next := utf8Read_length start
    have more := utf8Read_length (utf8Read start).2
    omega
  · have shorter := utf8Read_lt _first
    have within := (skipWildcards_suffix _skip).1.length_le
    omega
  · have shorter := utf8Read_lt _first
    obtain ⟨within, -, rfl, -⟩ := skipWildcards_suffix _skip
    have bound := within.length_le
    have next := utf8Read_length start
    omega
  · have shorter := utf8Read_lt _first
    have more := utf8Read_length (utf8Read pat).2
    omega
  · have shorter := utf8Read_lt _first
    have within := (matchSetAt_suffix _set).length_le
    omega
  · exact utf8Read_lt _first

/-- What `like_match` hands to the matcher; 0 where there is no ESCAPE clause. -/
def likeInfo (escape : UInt32) (caseSensitive : Bool) : PatternInfo where
  matchAll := if escape = 0x25 then 0 else 0x25
  matchOne := if escape = 0x5f then 0 else 0x5f
  matchSet := 0
  noCase := !caseSensitive

/-- What `glob_match` hands to the matcher. -/
def globInfo : PatternInfo where
  matchAll := 0x2a
  matchOne := 0x3f
  matchSet := 0x5b
  noCase := false

end RustSql.Executor
