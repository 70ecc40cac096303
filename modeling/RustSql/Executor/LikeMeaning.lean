import RustSql.Executor.LikeMatchers

/-! The byte matchers decide the same languages as the matcher over characters. -/

namespace RustSql.Executor

open RustSql.Foundation

theorem lowerByte_toUInt32 (b : UInt8) : (lowerByte b).toUInt32 = asciiLower b.toUInt32 :=
  forall_byte (by decide +kernel) b

theorem foldAscii_lt (caseSensitive : Bool) (b : UInt8) :
    foldAscii caseSensitive b < 0x80 ↔ b < 0x80 := by
  grind [foldAscii, lowerByte]

variable {b : UInt8}

theorem toUInt32_lt : b.toUInt32 < 0x80 ↔ b < 0x80 := by
  rw [UInt32.lt_iff_toNat_lt, UInt8.lt_iff_toNat_lt]
  rfl

theorem toUInt32_inj {a b : UInt8} : a.toUInt32 = b.toUInt32 ↔ a = b := by
  rw [← UInt32.toNat_inj, ← UInt8.toNat_inj]
  rfl

/-- Two ASCII bytes are alike where they fold to the same byte. -/
theorem alike_bytes {x b : UInt8} (plain : x < 0x80) (subject : b < 0x80)
    (caseSensitive : Bool) :
    alike (!caseSensitive) x.toUInt32 b.toUInt32 = true ↔
      foldAscii caseSensitive b = foldAscii caseSensitive x := by
  rw [alike, decide_eq_true (toUInt32_lt.mpr plain), decide_eq_true (toUInt32_lt.mpr subject),
    ← lowerByte_toUInt32, ← lowerByte_toUInt32]
  cases caseSensitive with
  | true =>
    rw [Bool.not_true, Bool.false_and, Bool.false_and, Bool.false_and, Bool.or_false, beq_iff_eq,
      toUInt32_inj]
    rfl
  | false =>
    simp only [Bool.not_false, Bool.true_and, Bool.or_eq_true, beq_iff_eq, toUInt32_inj]
    constructor
    · rintro (rfl | same)
      · rfl
      · exact same.symm
    · exact fun same => Or.inr same.symm

variable {x : UInt8}

/-- A character above ASCII is like no ASCII byte. -/
theorem alike_wide {c : UInt32} (plain : x < 0x80) (above : ¬ c < 0x80) (noCase : Bool) :
    alike noCase x.toUInt32 c = false := by
  have differs : c ≠ x.toUInt32 := by
    rintro rfl
    exact above (toUInt32_lt.mpr plain)
  rw [alike, decide_eq_false above, Bool.and_false, Bool.false_and, Bool.or_false,
    beq_eq_false_iff_ne]
  exact differs

theorem utf8Read_plain {rest : List UInt8} (plain : b < 0x80) :
    utf8Read (b :: rest) = (b.toUInt32, rest) := by
  have single : ¬ 0xc0 ≤ b := by
    rw [UInt8.le_iff_toNat_le]
    rw [UInt8.lt_iff_toNat_lt] at plain
    simp at plain ⊢
    omega
  rw [utf8Read, if_neg single]

theorem utf8Read_wide {rest : List UInt8} (wide : ¬ b < 0x80) :
    ¬ (utf8Read (b :: rest)).1 < 0x80 := by
  by_cases lead : 0xc0 ≤ b
  · exact UInt32.not_lt.mpr (utf8Read_lead lead)
  · rw [utf8Read_ascii lead, toUInt32_lt]
    exact wide

def byteItem (caseSensitive : Bool) (b : UInt8) : Item UInt32 :=
  if b = percent then .many
  else if b = underscore then .one fun _ => true
  else .one (alike (!caseSensitive) b.toUInt32)

theorem byteItem_literal (plain : wild b = false) (caseSensitive : Bool) :
    byteItem caseSensitive b = .one (alike (!caseSensitive) b.toUInt32) := by
  rw [wild, Bool.or_eq_false_iff, beq_eq_false_iff_ne, beq_eq_false_iff_ne] at plain
  rw [byteItem, if_neg plain.1, if_neg plain.2]

theorem likeItems_bytes {p : List UInt8} (ascii : isAscii p = true) (unbroken : Unbroken p)
    (caseSensitive : Bool) :
    likeItems 0 (alike !caseSensitive) (alike !caseSensitive) false (characters p) =
      some (p.map (byteItem caseSensitive)) := by
  induction p with
  | nil => rw [characters_nil]; rfl
  | cons b rest ih =>
    rw [isAscii, List.all_cons, Bool.and_eq_true, decide_eq_true_iff] at ascii
    have later := ih ascii.2 (unbroken.suffix (List.suffix_cons _ _))
    have nonzero : b.toUInt32 ≠ 0 := fun zero =>
      unbroken (toUInt32_inj.mp (show b.toUInt32 = (0 : UInt8).toUInt32 from zero) ▸
        List.mem_cons_self)
    rw [characters_cons, utf8Read_plain ascii.1, likeItems, if_neg Bool.false_ne_true,
      if_neg nonzero, later, List.map_cons, byteItem]
    by_cases many : b = percent
    · subst many
      rfl
    · have noMany : (b.toUInt32, rest).1 ≠ 0x25 := fun same =>
        many (toUInt32_inj.mp (show b.toUInt32 = percent.toUInt32 from same))
      rw [if_neg noMany, if_neg many]
      by_cases one : b = underscore
      · subst one
        rfl
      · have noOne : (b.toUInt32, rest).1 ≠ 0x5f := fun same =>
          one (toUInt32_inj.mp (show b.toUInt32 = underscore.toUInt32 from same))
        rw [if_neg noOne, if_neg one]
        rfl

/-- The first byte of an ASCII literal is read as a whole character. -/
theorem language_literal_cons {items : List (Item UInt32)} {s : List UInt8} (plain : x < 0x80)
    (caseSensitive : Bool) :
    Language (.one (alike (!caseSensitive) x.toUInt32) :: items) (characters s) ↔
      ∃ b rest, s = b :: rest ∧ foldAscii caseSensitive b = foldAscii caseSensitive x ∧
        Language items (characters rest) := by
  cases s with
  | nil =>
    rw [characters_nil]
    exact iff_of_false (fun ⟨_, _, empty, _⟩ => nomatch empty) fun ⟨_, _, empty, _⟩ => nomatch empty
  | cons b rest =>
    rw [characters_cons]
    by_cases subject : b < 0x80
    · rw [utf8Read_plain subject]
      constructor
      · rintro ⟨c, tail, same, accepted, inside⟩
        cases same
        exact ⟨b, rest, rfl, (alike_bytes plain subject caseSensitive).mp accepted, inside⟩
      · rintro ⟨_, _, same, folded, inside⟩
        cases same
        exact ⟨_, _, rfl, (alike_bytes plain subject caseSensitive).mpr folded, inside⟩
    · refine iff_of_false ?_ ?_
      · rintro ⟨c, tail, same, accepted, -⟩
        cases same
        rw [alike_wide plain (utf8Read_wide subject)] at accepted
        cases accepted
      · rintro ⟨_, _, same, folded, -⟩
        cases same
        exact subject ((foldAscii_lt caseSensitive _).mp
          (folded ▸ (foldAscii_lt caseSensitive _).mpr plain))

def literals (caseSensitive : Bool) (needle : List UInt8) : List (Item UInt32) :=
  needle.map fun b => .one (alike (!caseSensitive) b.toUInt32)

variable {needle : List UInt8}

/-- An ASCII literal at the front of a subject, whatever bytes that one holds. -/
theorem language_literals (ascii : isAscii needle = true) (caseSensitive : Bool)
    (items : List (Item UInt32)) (s : List UInt8) :
    Language (literals caseSensitive needle ++ items) (characters s) ↔
      ∃ front rest, s = front ++ rest ∧
        front.map (foldAscii caseSensitive) = needle.map (foldAscii caseSensitive) ∧
        Language items (characters rest) := by
  induction needle generalizing s with
  | nil =>
    constructor
    · exact fun inside => ⟨[], s, rfl, rfl, inside⟩
    · rintro ⟨front, rest, rfl, empty, inside⟩
      cases List.map_eq_nil_iff.mp empty
      exact inside
  | cons x needle ih =>
    rw [isAscii, List.all_cons, Bool.and_eq_true, decide_eq_true_iff] at ascii
    rw [literals, List.map_cons, List.cons_append, language_literal_cons ascii.1]
    constructor
    · rintro ⟨b, rest, rfl, folded, inside⟩
      obtain ⟨front, tail, rfl, same, holds⟩ := (ih ascii.2 rest).mp inside
      exact ⟨b :: front, tail, rfl, by rw [List.map_cons, List.map_cons, folded, same], holds⟩
    · rintro ⟨front, rest, rfl, same, holds⟩
      cases front with
      | nil => cases same
      | cons b front =>
        rw [List.map_cons, List.map_cons] at same
        obtain ⟨folded, same⟩ := List.cons.inj same
        exact ⟨b, front ++ rest, rfl, folded, (ih ascii.2 _).mpr ⟨front, rest, rfl, same, holds⟩⟩

theorem language_everything (s : List UInt32) : Language [.many] s :=
  ⟨[], List.nil_suffix, rfl⟩

theorem continuation_wide (continues : b &&& 0xc0 = 0x80) : ¬ b < 0x80 := by
  revert continues
  exact forall_byte (by decide +kernel) b

/-- The bytes behind a lead byte that belong to its character are not ASCII. -/
theorem readContinuation_split (c : UInt32) (bytes : List UInt8) :
    ∃ skipped, bytes = skipped ++ (readContinuation c bytes).2 ∧ ∀ b ∈ skipped, ¬ b < 0x80 := by
  induction bytes generalizing c with
  | nil => exact ⟨[], rfl, nofun⟩
  | cons b rest ih =>
    rw [readContinuation]
    by_cases continues : b &&& 0xc0 = 0x80
    · obtain ⟨skipped, split, wide⟩ := ih ((c <<< 6) + (b &&& 0x3f).toUInt32)
      rw [if_pos continues]
      refine ⟨b :: skipped, congrArg (b :: ·) split, ?_⟩
      exact List.forall_mem_cons.mpr ⟨continuation_wide continues, wide⟩
    · rw [if_neg continues]
      exact ⟨[], rfl, nofun⟩

theorem utf8Read_split (b : UInt8) (rest : List UInt8) :
    ∃ skipped, rest = skipped ++ (utf8Read (b :: rest)).2 ∧ ∀ b ∈ skipped, ¬ b < 0x80 := by
  rw [utf8Read]
  by_cases lead : 0xc0 ≤ b
  · rw [if_pos lead]
    exact readContinuation_split _ rest
  · rw [if_neg lead]
    exact ⟨[], rfl, by simp⟩

theorem suffix_behind {t skipped after : List UInt8} (plain : x < 0x80)
    (wide : ∀ b ∈ skipped, ¬ b < 0x80) (within : x :: t <:+ skipped ++ after) :
    x :: t <:+ after := by
  induction skipped with
  | nil => exact within
  | cons b skipped ih =>
    rcases List.suffix_cons_iff.mp within with same | later
    · cases same
      exact absurd plain (wide _ List.mem_cons_self)
    · exact ih (fun b member => wide b (List.mem_cons_of_mem _ member)) later

/-- A part of the subject that starts with an ASCII byte starts a character. -/
theorem characters_suffix {t s : List UInt8} (plain : x < 0x80) (within : x :: t <:+ s) :
    characters (x :: t) <:+ characters s := by
  induction s using characters.induct with
  | case1 => cases List.suffix_nil.mp within
  | case2 b rest ih =>
    rw [characters_cons b rest]
    rcases List.suffix_cons_iff.mp within with same | later
    · rw [same, characters_cons b rest]
    · obtain ⟨skipped, split, wide⟩ := utf8Read_split b rest
      rw [split] at later
      exact (ih (suffix_behind plain wide later)).trans (List.suffix_cons _ _)

theorem suffix_characters {u : List UInt32} {s : List UInt8} (within : u <:+ characters s) :
    ∃ t, t <:+ s ∧ characters t = u := by
  induction s using characters.induct with
  | case1 =>
    rw [characters_nil] at within
    exact ⟨[], List.suffix_refl _, characters_nil.trans (List.suffix_nil.mp within).symm⟩
  | case2 b rest ih =>
    rw [characters_cons] at within
    rcases List.suffix_cons_iff.mp within with same | later
    · exact ⟨b :: rest, List.suffix_refl _, (characters_cons b rest).trans same.symm⟩
    · obtain ⟨t, inside, same⟩ := ih later
      exact ⟨t, inside.trans (utf8Read_suffix _), same⟩

/-- A literal behind a wildcard is at a place in the bytes. -/
theorem language_many_literals (ascii : isAscii (x :: needle) = true) (caseSensitive : Bool)
    (items : List (Item UInt32)) (s : List UInt8) :
    Language (.many :: (literals caseSensitive (x :: needle) ++ items)) (characters s) ↔
      ∃ t, t <:+ s ∧
        Language (literals caseSensitive (x :: needle) ++ items) (characters t) := by
  constructor
  · rintro ⟨u, within, inside⟩
    obtain ⟨t, part, rfl⟩ := suffix_characters within
    exact ⟨t, part, inside⟩
  · rintro ⟨t, within, inside⟩
    obtain ⟨front, rest, rfl, same, -⟩ := (language_literals ascii _ _ _).mp inside
    rw [isAscii, List.all_cons, Bool.and_eq_true, decide_eq_true_iff] at ascii
    cases front with
    | nil => cases same
    | cons b front =>
      have folded := (List.cons.inj same).1
      have plain : b < 0x80 := (foldAscii_lt caseSensitive b).mp
        (folded ▸ (foldAscii_lt caseSensitive x).mpr ascii.1)
      exact ⟨_, characters_suffix plain within, inside⟩

theorem zip_all_initial {fold : UInt8 → UInt8} {tail rest : List UInt8}
    (long : tail.length ≤ rest.length) :
    ((rest.zip tail).all fun (x, y) => fold x == y) = true ↔ tail <+: rest.map fold := by
  induction rest generalizing tail with
  | nil =>
    cases List.eq_nil_of_length_eq_zero (Nat.le_zero.mp long)
    exact iff_of_true rfl (List.prefix_refl _)
  | cons b rest ih =>
    cases tail with
    | nil => exact iff_of_true rfl List.nil_prefix
    | cons y tail =>
      rw [List.zip_cons_cons, List.all_cons, Bool.and_eq_true, beq_iff_eq,
        ih (Nat.le_of_succ_le_succ long), List.map_cons, List.cons_prefix_cons]
      exact and_congr_left' eq_comm

theorem foldScan_iff (fold : UInt8 → UInt8) (first : UInt8) (tail hay : List UInt8) :
    foldScan fold first tail hay = true ↔ ∃ t, t <:+ hay ∧ first :: tail <+: t.map fold := by
  induction hay with
  | nil =>
    refine iff_of_false nofun ?_
    rintro ⟨t, within, here⟩
    cases List.suffix_nil.mp within
    cases List.prefix_nil.mp here
  | cons b rest ih =>
    rw [foldScan]
    by_cases short : rest.length < tail.length
    · rw [if_pos short]
      refine iff_of_false nofun ?_
      rintro ⟨t, within, here⟩
      have bound := here.length_le
      have size := within.length_le
      rw [List.length_map, List.length_cons] at bound
      rw [List.length_cons] at size
      omega
    have long := Nat.le_of_not_lt short
    have split : (∃ t, t <:+ b :: rest ∧ first :: tail <+: t.map fold) ↔
        (first = fold b ∧ tail <+: rest.map fold) ∨
          ∃ t, t <:+ rest ∧ first :: tail <+: t.map fold := by
      rw [← List.cons_prefix_cons, ← List.map_cons]
      constructor
      · rintro ⟨t, within, here⟩
        rcases List.suffix_cons_iff.mp within with rfl | later
        · exact Or.inl here
        · exact Or.inr ⟨t, later, here⟩
      · rintro (here | ⟨t, within, here⟩)
        · exact ⟨_, List.suffix_refl _, here⟩
        · exact ⟨t, within.trans (List.suffix_cons _ _), here⟩
    rw [if_neg short, split]
    by_cases candidate : fold b = first
    · rw [if_neg (not_not_intro candidate)]
      by_cases here : ((rest.zip tail).all fun (x, y) => fold x == y) = true
      · rw [if_pos here]
        exact iff_of_true rfl (Or.inl ⟨candidate.symm, (zip_all_initial long).mp here⟩)
      · rw [if_neg here, ih]
        refine (or_iff_right fun found => here ?_).symm
        exact (zip_all_initial long).mpr found.2
    · rw [if_pos candidate, ih]
      exact (or_iff_right fun found => candidate found.1.symm).symm

theorem suffix_dropWhile {first : UInt8} {t hay : List UInt8} (within : first :: t <:+ hay) :
    first :: t <:+ hay.dropWhile (· ≠ first) := by
  induction hay with
  | nil => exact within
  | cons b rest ih =>
    by_cases candidate : b = first
    · subst candidate
      rw [List.dropWhile_cons_of_neg (by simp)]
      exact within
    · rw [List.dropWhile_cons_of_pos (by simpa using candidate)]
      rcases List.suffix_cons_iff.mp within with same | later
      · cases same
        exact absurd rfl candidate
      · exact ih later

/-- The candidates are the places behind the bytes that differ from the first. -/
theorem candidates (first : UInt8) (tail hay : List UInt8) :
    (∃ t, t <:+ hay ∧ first :: tail <+: t) ↔
      ∃ t, t <:+ hay.dropWhile (· ≠ first) ∧ first :: tail <+: t := by
  constructor
  · rintro ⟨t, within, more, rfl⟩
    exact ⟨_, suffix_dropWhile within, more, rfl⟩
  · rintro ⟨t, within, here⟩
    exact ⟨t, within.trans (List.dropWhile_suffix _), here⟩

theorem candidate_cons (first : UInt8) (tail rest : List UInt8) :
    (∃ t, t <:+ first :: rest ∧ first :: tail <+: t) ↔
      tail <+: rest ∨ ∃ t, t <:+ rest ∧ first :: tail <+: t := by
  constructor
  · rintro ⟨t, within, here⟩
    rcases List.suffix_cons_iff.mp within with rfl | later
    · exact Or.inl (List.cons_prefix_cons.mp here).2
    · exact Or.inr ⟨t, later, here⟩
  · rintro (here | ⟨t, within, here⟩)
    · exact ⟨_, List.suffix_refl _, List.cons_prefix_cons.mpr ⟨rfl, here⟩⟩
    · exact ⟨t, within.trans (List.suffix_cons _ _), here⟩

theorem too_short {first : UInt8} {tail hay : List UInt8} (short : hay.length ≤ tail.length) :
    ¬ ∃ t, t <:+ hay ∧ first :: tail <+: t := by
  rintro ⟨t, within, here⟩
  have bound := here.length_le
  have size := within.length_le
  rw [List.length_cons] at bound
  omega

theorem memchrScan_iff (first : UInt8) (tail hay : List UInt8) :
    memchrScan first tail hay = true ↔ ∃ t, t <:+ hay ∧ first :: tail <+: t := by
  induction size : hay.length using Nat.strong_induction_on generalizing hay with
  | _ size ih =>
    subst size
    rw [memchrScan]
    by_cases short : hay.length ≤ tail.length
    · rw [if_pos short]
      exact iff_of_false nofun (too_short short)
    rw [if_neg short, candidates]
    split
    · rename_i absent
      rw [absent]
      exact iff_of_false nofun (too_short (Nat.zero_le _))
    · rename_i c rest candidate
      have same : c = first := by
        have stops := List.head?_dropWhile_not (· ≠ first) hay
        rw [candidate] at stops
        simpa using stops
      have shorter := (List.dropWhile_suffix (l := hay) (· ≠ first)).length_le
      rw [candidate, List.length_cons] at shorter
      rw [candidate, same, candidate_cons]
      by_cases behind : rest.length < tail.length
      · rw [if_pos behind]
        refine iff_of_false nofun ?_
        rintro (here | later)
        · exact absurd here.length_le (Nat.not_le_of_lt behind)
        · exact too_short behind.le later
      rw [if_neg behind]
      by_cases here : rest.take tail.length = tail
      · rw [if_pos here]
        exact iff_of_true rfl (Or.inl (List.prefix_iff_eq_take.mpr here.symm))
      · rw [if_neg here, ih _ shorter rest rfl]
        exact (or_iff_right fun found => here (List.prefix_iff_eq_take.mp found).symm).symm

theorem foldAscii_true : foldAscii true = id := rfl

theorem bytesEqFold_iff (a b : List UInt8) (caseSensitive : Bool) :
    bytesEqFold a b caseSensitive = true ↔
      a.map (foldAscii caseSensitive) = b.map (foldAscii caseSensitive) := by
  rw [bytesEqFold]
  by_cases differs : a.length ≠ b.length
  · rw [if_pos differs]
    refine iff_of_false nofun fun same => differs ?_
    simpa using congrArg List.length same
  rw [if_neg differs]
  cases caseSensitive with
  | true =>
    rw [if_pos rfl, beq_iff_eq, foldAscii_true, List.map_id, List.map_id]
  | false =>
    have lengths : (b.map lowerByte).length = (a.map lowerByte).length := by
      simpa using (not_not.mp differs).symm
    have compared := @zip_all_initial lowerByte (b.map lowerByte) a
        (by rw [List.length_map, not_not.mp differs])
    rw [List.zip_map_right, List.all_map] at compared
    rw [if_neg Bool.false_ne_true]
    refine Iff.trans compared ?_
    exact ⟨fun here => (here.eq_of_length lengths).symm, fun same => same ▸ List.prefix_refl _⟩

/-- The needle is folded at a place of the haystack. -/
theorem bytesContainsFold_iff {hay needle : List UInt8} (nonempty : needle ≠ [])
    (caseSensitive : Bool) :
    bytesContainsFold hay needle caseSensitive = true ↔
      ∃ t, t <:+ hay ∧
        needle.map (foldAscii caseSensitive) <+: t.map (foldAscii caseSensitive) := by
  cases needle with
  | nil => exact absurd rfl nonempty
  | cons first tail =>
    rw [bytesContainsFold]
    by_cases short : hay.length < (first :: tail).length
    · rw [if_pos short]
      refine iff_of_false Bool.false_ne_true ?_
      rintro ⟨t, within, here⟩
      have bound := here.length_le
      have size := within.length_le
      rw [List.length_map, List.length_map] at bound
      omega
    rw [if_neg short]
    cases caseSensitive with
    | true =>
      rw [if_pos rfl, memchrContains, if_neg short, memchrScan_iff, foldAscii_true]
      simp only [List.map_id]
    | false =>
      rw [if_neg Bool.false_ne_true, foldScan_iff, List.map_cons]

theorem likeContainsBytes_iff (hay : List UInt8) (nonempty : needle ≠ []) :
    likeContainsBytes hay (needle.map lowerByte) = bytesContainsFold hay needle false := by
  cases needle with
  | nil => exact absurd rfl nonempty
  | cons first tail =>
    rw [bytesContainsFold, List.map_cons, likeContainsBytes, if_neg Bool.false_ne_true,
      List.length_cons, List.length_map, ← List.length_cons]
    rfl

end RustSql.Executor
