import RustSql.Executor.PatternLanguage

/-! The byte matchers of LIKE: shape-classified compares, substring searches and an iterative walk
with a restart point. -/

namespace RustSql.Executor

open RustSql.Foundation

def percent : UInt8 := 0x25

def underscore : UInt8 := 0x5f

def wild (b : UInt8) : Bool := b == percent || b == underscore

def isAscii (bytes : List UInt8) : Bool := bytes.all fun b => decide (b < 0x80)

/-- `to_ascii_lowercase`. -/
def lowerByte (b : UInt8) : UInt8 := if 0x41 ≤ b ∧ b ≤ 0x5a then b + 32 else b

def foldAscii (caseSensitive : Bool) (b : UInt8) : UInt8 := if caseSensitive then b else lowerByte b

def bytesEqFold (a b : List UInt8) (caseSensitive : Bool) : Bool :=
  if a.length ≠ b.length then false
  else if caseSensitive then a == b
  else (a.zip b).all fun (x, y) => lowerByte x == lowerByte y

/-- The loop of `memchr_contains`: on to the next first byte, then the tail in one compare. -/
def memchrScan (first : UInt8) (tail hay : List UInt8) : Bool :=
  if hay.length ≤ tail.length then false
  else
    match _candidate : hay.dropWhile (· ≠ first) with
    | [] => false
    | _ :: rest =>
      if rest.length < tail.length then false
      else if rest.take tail.length = tail then true
      else memchrScan first tail rest
termination_by hay.length
decreasing_by
  have shorter := (List.dropWhile_suffix (l := hay) (· ≠ first)).length_le
  rw [_candidate] at shorter
  exact shorter

def memchrContains (hay needle : List UInt8) : Bool :=
  match needle with
  | [] => true
  | first :: tail => if hay.length < needle.length then false else memchrScan first tail hay

/-- The loop of the folding searches: each position of the haystack against a folded needle. -/
def foldScan (fold : UInt8 → UInt8) (first : UInt8) (tail : List UInt8) : List UInt8 → Bool
  | [] => false
  | b :: rest =>
    if rest.length < tail.length then false
    else if fold b ≠ first then foldScan fold first tail rest
    else if (rest.zip tail).all fun (x, y) => fold x == y then true
    else foldScan fold first tail rest

def bytesContainsFold (hay needle : List UInt8) (caseSensitive : Bool) : Bool :=
  match needle with
  | [] => true
  | first :: tail =>
    if hay.length < needle.length then false
    else if caseSensitive then memchrContains hay needle
    else
      foldScan (foldAscii caseSensitive) (foldAscii caseSensitive first)
        (tail.map (foldAscii caseSensitive)) hay

/-- `like_contains_bytes`: the needle is folded already. -/
def likeContainsBytes (hay needleFolded : List UInt8) : Bool :=
  match needleFolded with
  | [] => true
  | first :: tail =>
    if hay.length < needleFolded.length then false else foldScan lowerByte first tail hay

/-- What is left of the subject and of the pattern, and what the last `%` left. -/
structure Walk where
  subject : List UInt8
  pattern : List UInt8
  star : Option (List UInt8 × List UInt8)
  behind : ∀ pat source, star = some (pat, source) → subject <:+ source

namespace Walk

/-- `%`: the walk comes back here. -/
def mark (w : Walk) (pat : List UInt8) : Walk where
  subject := w.subject
  pattern := pat
  star := some (pat, w.subject)
  behind _ _ same := by
    cases same
    exact List.suffix_refl _

def advance (w : Walk) (pat : List UInt8) : Walk where
  subject := w.subject.tail
  pattern := pat
  star := w.star
  behind pat source same := (List.tail_suffix _).trans (w.behind pat source same)

/-- The walk starts over behind one more byte. -/
def restart (pat source : List UInt8) : Walk where
  subject := source.tail
  pattern := pat
  star := some (pat, source.tail)
  behind _ _ same := by
    cases same
    exact List.suffix_refl _

def weight (w : Walk) : Nat :=
  match w.star with
  | none => w.subject.length + 1
  | some (_, source) => source.length

theorem restart_weight {w : Walk} {c : UInt8} {rest pat source : List UInt8}
    (left : w.subject = c :: rest) (star : w.star = some (pat, source)) :
    (restart pat source).weight < w.weight := by
  have within := (w.behind pat source star).length_le
  rw [left, List.length_cons] at within
  simp only [weight, star, restart, List.length_tail]
  omega

theorem mark_weight (w : Walk) (pat : List UInt8) : (w.mark pat).weight ≤ w.weight := by
  rw [weight, mark, weight]
  rcases star : w.star with _ | ⟨pat, source⟩
  · exact Nat.le_succ _
  · exact (w.behind pat source star).length_le

theorem advance_weight (w : Walk) (pat : List UInt8) : (w.advance pat).weight ≤ w.weight := by
  obtain ⟨subject, pattern, star, behind⟩ := w
  cases star with
  | none => exact Nat.succ_le_succ (List.tail_suffix _).length_le
  | some mark => exact Nat.le_refl _

end Walk

/-- The loop of `like_general_bytes`. -/
def likeWalk (caseSensitive : Bool) (w : Walk) : Bool :=
  match _left : w.subject with
  | [] => w.pattern.all (· == percent)
  | c :: _ =>
    match _next : w.pattern with
    | [] =>
      match _star : w.star with
      | none => false
      | some (pat, source) => likeWalk caseSensitive (.restart pat source)
    | x :: pat =>
      if x = percent then likeWalk caseSensitive (w.mark pat)
      else if x = underscore ∨ foldAscii caseSensitive c = foldAscii caseSensitive x then
        likeWalk caseSensitive (w.advance pat)
      else
        match _star : w.star with
        | none => false
        | some (pat, source) => likeWalk caseSensitive (.restart pat source)
termination_by (w.weight, w.pattern.length)
decreasing_by
  · exact Prod.Lex.left _ _ (Walk.restart_weight _left _star)
  · refine Prod.lex_iff.mpr ((w.mark_weight pat).lt_or_eq.imp id fun same => ⟨same, ?_⟩)
    rw [_next]
    exact Nat.lt_succ_self _
  · refine Prod.lex_iff.mpr ((w.advance_weight pat).lt_or_eq.imp id fun same => ⟨same, ?_⟩)
    rw [_next]
    exact Nat.lt_succ_self _
  · exact Prod.Lex.left _ _ (Walk.restart_weight _left _star)

def likeGeneralBytes (s p : List UInt8) (caseSensitive : Bool) : Bool :=
  likeWalk caseSensitive ⟨s, p, none, nofun⟩

def likeMatchBytes (s p : List UInt8) (caseSensitive : Bool) : Option Bool :=
  let lead := p.head? == some percent
  let trail := p.getLast? == some percent
  if lead || trail || p.any wild then
    let start := if lead then 1 else 0
    let stop := max (p.length - if trail then 1 else 0) start
    let needle := (p.take stop).drop start
    if lead && trail && !needle.any wild && !needle.isEmpty then
      some (bytesContainsFold s needle caseSensitive)
    else if !lead && trail && !needle.any wild && !needle.isEmpty then
      some (decide (needle.length ≤ s.length) &&
        bytesEqFold (s.take needle.length) needle caseSensitive)
    else if lead && !trail && !needle.any wild && !needle.isEmpty then
      some (decide (needle.length ≤ s.length) &&
        bytesEqFold (s.drop (s.length - needle.length)) needle caseSensitive)
    else if !isAscii s then none
    else some (likeGeneralBytes s p caseSensitive)
  else some (bytesEqFold s p caseSensitive)

end RustSql.Executor
