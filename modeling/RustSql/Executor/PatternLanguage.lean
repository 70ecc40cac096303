import RustSql.Executor.PatternCompare

/-! What LIKE and GLOB patterns say about the characters of a subject. The matcher gives a
wildcard up only where no later position can match. -/

namespace RustSql.Executor

open RustSql.Foundation

/-- A C string ends at its first NUL. -/
def cString (bytes : List UInt8) : List UInt8 := bytes.takeWhile (· ≠ 0)

def characters (bytes : List UInt8) : List UInt32 :=
  match bytes with
  | [] => []
  | b :: rest => (utf8Read (b :: rest)).1 :: characters (utf8Read (b :: rest)).2
termination_by bytes.length
decreasing_by exact utf8Read_cons_length b rest

def Unbroken (bytes : List UInt8) : Prop := 0 ∉ bytes

theorem cString_unbroken (bytes : List UInt8) : Unbroken (cString bytes) := by
  intro member
  have kept := List.all_takeWhile (l := bytes) (p := (· ≠ 0))
  have nonzero := List.all_eq_true.mp kept 0 member
  simp at nonzero

theorem Unbroken.suffix {bytes rest : List UInt8} (unbroken : Unbroken bytes)
    (within : rest <:+ bytes) : Unbroken rest :=
  fun member => unbroken (within.subset member)

theorem characters_nil : characters [] = [] := by rw [characters]

theorem characters_cons (b : UInt8) (rest : List UInt8) :
    characters (b :: rest) = (utf8Read (b :: rest)).1 :: characters (utf8Read (b :: rest)).2 := by
  rw [characters]

theorem characters_eq_nil {s : List UInt8} : characters s = [] ↔ s = [] := by
  cases s with
  | nil => exact iff_of_true characters_nil rfl
  | cons b rest =>
    rw [characters_cons]
    exact iff_of_false nofun nofun

theorem utf8Read_lead {b : UInt8} {rest : List UInt8} (lead : 0xc0 ≤ b) :
    0x80 ≤ (utf8Read (b :: rest)).1 := by
  rw [utf8Read, if_pos lead]
  dsimp only
  split_ifs with replaced
  · decide
  · exact UInt32.not_lt.mp fun small => replaced (Or.inl small)

theorem utf8Read_ascii {b : UInt8} {rest : List UInt8} (plain : ¬ 0xc0 ≤ b) :
    (utf8Read (b :: rest)).1 = b.toUInt32 := by
  rw [utf8Read, if_neg plain]

/-- A character below 128 is its one byte. -/
theorem utf8Read_eq_iff {b : UInt8} {rest : List UInt8} {c : UInt8} (small : c < 0x80) :
    (utf8Read (b :: rest)).1 = c.toUInt32 ↔ b = c := by
  by_cases lead : 0xc0 ≤ b
  · have wide := @utf8Read_lead _ rest lead
    constructor
    · intro same
      rw [same, UInt32.le_iff_toNat_le] at wide
      rw [UInt8.lt_iff_toNat_lt] at small
      simp at wide small
      omega
    · rintro rfl
      rw [UInt8.le_iff_toNat_le] at lead
      rw [UInt8.lt_iff_toNat_lt] at small
      simp at lead small
      omega
  · rw [utf8Read_ascii lead]
    constructor
    · intro same
      have values := congrArg UInt32.toNat same
      simpa [UInt8.toNat_inj] using values
    · rintro rfl
      rfl

/-- In a text without NUL the reader gives 0 at the end only. -/
theorem Unbroken.read {bytes : List UInt8} (unbroken : Unbroken bytes) :
    ((utf8Read bytes).1 = 0 ∧ bytes = []) ∨
      ((utf8Read bytes).1 ≠ 0 ∧ bytes ≠ [] ∧
        characters bytes = (utf8Read bytes).1 :: characters (utf8Read bytes).2) := by
  cases bytes with
  | nil => exact Or.inl ⟨rfl, rfl⟩
  | cons b rest =>
    refine Or.inr ⟨fun ends => ?_, nofun, characters_cons b rest⟩
    have zero : b = 0 := (utf8Read_eq_iff (c := 0) (by decide)).mp ends
    exact unbroken (zero ▸ List.mem_cons_self)

theorem Unbroken.ended {bytes : List UInt8} (unbroken : Unbroken bytes)
    (ends : (utf8Read bytes).1 = 0) : bytes = [] := by
  rcases unbroken.read with ⟨-, empty⟩ | ⟨more, -⟩
  · exact empty
  · exact absurd ends more

theorem Unbroken.more {bytes : List UInt8} (unbroken : Unbroken bytes)
    (more : (utf8Read bytes).1 ≠ 0) :
    characters bytes = (utf8Read bytes).1 :: characters (utf8Read bytes).2 := by
  rcases unbroken.read with ⟨ends, -⟩ | ⟨-, -, same⟩
  · exact absurd ends more
  · exact same

theorem Unbroken.behind {bytes : List UInt8} (unbroken : Unbroken bytes) :
    Unbroken (utf8Read bytes).2 :=
  unbroken.suffix (utf8Read_suffix bytes)

/-- A character for itself, up to ASCII case when it is folded. -/
def alike (noCase : Bool) (c c2 : UInt32) : Bool :=
  c2 == c || (noCase && decide (c < 0x80) && decide (c2 < 0x80) && asciiLower c == asciiLower c2)

/-- A dash makes a range of the characters around it, unless it is the first or the last member of
a set or follows a range. -/
def rangeAt : Option UInt32 → UInt32 → List UInt32 → Option ((UInt32 × UInt32) × List UInt32)
  | some low, c, high :: behind =>
    if c = 0x2d ∧ high ≠ 0x5d then some ((low, high), behind) else none
  | _, _, _ => none

theorem rangeAt_length {prior : Option UInt32} {c : UInt32} {rest behind : List UInt32}
    {range : UInt32 × UInt32} (dashed : rangeAt prior c rest = some (range, behind)) :
    behind.length < rest.length := by
  cases prior with
  | none => cases dashed
  | some low =>
    cases rest with
    | nil => cases dashed
    | cons high rest =>
      rw [rangeAt] at dashed
      split_ifs at dashed
      cases dashed
      exact Nat.lt_succ_self _

/-- The members of a set as ranges, and the pattern behind the closing bracket. -/
def parseMembers (prior : Option UInt32) (pattern : List UInt32) :
    Option (List (UInt32 × UInt32) × List UInt32) :=
  match pattern with
  | [] => none
  | c :: rest =>
    if c = 0x5d then some ([], rest)
    else
      match _dashed : rangeAt prior c rest with
      | some (range, behind) =>
        (parseMembers none behind).map fun (members, behind) => (range :: members, behind)
      | none =>
        (parseMembers (some c) rest).map fun (members, behind) => ((c, c) :: members, behind)
termination_by pattern.length
decreasing_by
  · exact Nat.lt_succ_of_lt (rangeAt_length _dashed)
  · exact Nat.lt_succ_self _

theorem parseMembers_range {prior : Option UInt32} {c : UInt32} {rest behind : List UInt32}
    {range : UInt32 × UInt32} (more : ¬ c = 0x5d)
    (dashed : rangeAt prior c rest = some (range, behind)) :
    parseMembers prior (c :: rest) =
      (parseMembers none behind).map fun (members, behind) => (range :: members, behind) := by
  rw [parseMembers, if_neg more]
  split
  · simp_all
  · simp_all

theorem parseMembers_single {prior : Option UInt32} {c : UInt32} {rest : List UInt32}
    (more : ¬ c = 0x5d) (plain : rangeAt prior c rest = none) :
    parseMembers prior (c :: rest) =
      (parseMembers (some c) rest).map fun (members, behind) => ((c, c) :: members, behind) := by
  rw [parseMembers, if_neg more]
  split
  · simp_all
  · rfl

theorem parseMembers_length {prior : Option UInt32} {pattern : List UInt32}
    {members : List (UInt32 × UInt32)} {behind : List UInt32}
    (parsed : parseMembers prior pattern = some (members, behind)) :
    behind.length ≤ pattern.length := by
  induction prior, pattern using parseMembers.induct generalizing members with
  | case1 prior =>
    rw [parseMembers] at parsed
    cases parsed
  | case2 prior rest =>
    rw [parseMembers, if_pos rfl] at parsed
    cases parsed
    exact Nat.le_succ _
  | case3 prior c rest more range next dashed ih =>
    rw [parseMembers_range more dashed, Option.map_eq_some_iff] at parsed
    obtain ⟨⟨_, _⟩, found, same⟩ := parsed
    cases same
    have shorter := rangeAt_length dashed
    have within := ih found
    rw [List.length_cons]
    omega
  | case4 prior c rest more plain ih =>
    rw [parseMembers_single more plain, Option.map_eq_some_iff] at parsed
    obtain ⟨⟨_, _⟩, found, same⟩ := parsed
    cases same
    exact Nat.le_succ_of_le (ih found)

/-- A closing bracket that comes first is a member. -/
def parseListed : List UInt32 → Option (List (UInt32 × UInt32) × List UInt32)
  | [] => none
  | c :: rest =>
    if c = 0x5d then
      (parseMembers none rest).map fun (members, behind) => ((c, c) :: members, behind)
    else parseMembers none (c :: rest)

def inMembers (members : List (UInt32 × UInt32)) (cs : UInt32) : Bool :=
  members.any fun (low, high) => decide (low ≤ cs ∧ cs ≤ high)

/-- A set behind its opening bracket: the characters it stands for. -/
def parseSet : List UInt32 → Option ((UInt32 → Bool) × List UInt32)
  | [] => none
  | c :: rest =>
    if c = 0x5e then
      (parseListed rest).map fun (members, behind) => (fun cs => !inMembers members cs, behind)
    else (parseListed (c :: rest)).map fun (members, behind) => (inMembers members, behind)

theorem parseListed_length {pattern behind : List UInt32} {members : List (UInt32 × UInt32)}
    (parsed : parseListed pattern = some (members, behind)) : behind.length ≤ pattern.length := by
  cases pattern with
  | nil => cases parsed
  | cons c rest =>
    rw [parseListed] at parsed
    split_ifs at parsed with leading
    · obtain ⟨⟨_, _⟩, found, same⟩ := Option.map_eq_some_iff.mp parsed
      cases same
      exact Nat.le_succ_of_le (parseMembers_length found)
    · exact parseMembers_length parsed

theorem parseSet_length {pattern behind : List UInt32} {accepts : UInt32 → Bool}
    (parsed : parseSet pattern = some (accepts, behind)) : behind.length ≤ pattern.length := by
  cases pattern with
  | nil => cases parsed
  | cons c rest =>
    rw [parseSet] at parsed
    split_ifs at parsed with inverted
    · obtain ⟨⟨_, _⟩, found, same⟩ := Option.map_eq_some_iff.mp parsed
      cases same
      exact Nat.le_succ_of_le (parseListed_length found)
    · obtain ⟨⟨_, _⟩, found, same⟩ := Option.map_eq_some_iff.mp parsed
      cases same
      exact parseListed_length found

/-- `%` and `_`, and an escape character before a character that stands for itself. The next
character is `behind` an escape character or not. -/
def likeItems (escape : UInt32) (literal escaped : UInt32 → UInt32 → Bool) (behind : Bool) :
    List UInt32 → Option (List (Item UInt32))
  | [] => if behind then none else some []
  | c :: rest =>
    if behind then (likeItems escape literal escaped false rest).map (.one (escaped c) :: ·)
    else if c = escape then likeItems escape literal escaped true rest
    else if c = 0x25 then (likeItems escape literal escaped false rest).map (.many :: ·)
    else if c = 0x5f then
      (likeItems escape literal escaped false rest).map (.one (fun _ => true) :: ·)
    else (likeItems escape literal escaped false rest).map (.one (literal c) :: ·)

/-- `*` and `?`, and sets in brackets. -/
def globItems (pattern : List UInt32) : Option (List (Item UInt32)) :=
  match pattern with
  | [] => some []
  | c :: rest =>
    if c = 0x2a then (globItems rest).map (.many :: ·)
    else if c = 0x3f then (globItems rest).map (.one (fun _ => true) :: ·)
    else if c = 0x5b then
      match _set : parseSet rest with
      | none => none
      | some (accepts, behind) => (globItems behind).map (.one accepts :: ·)
    else (globItems rest).map (.one (alike false c) :: ·)
termination_by pattern.length
decreasing_by
  · exact Nat.lt_succ_self _
  · exact Nat.lt_succ_self _
  · exact Nat.lt_succ_of_le (parseSet_length _set)
  · exact Nat.lt_succ_self _

end RustSql.Executor
