import RustSql.Executor.LikeMeaning

/-! The iterative walk of LIKE. A restart goes back to the last `%` only: whatever an earlier one
could still reach, the last one reaches too. -/

namespace RustSql.Executor

open RustSql.Foundation

/-- Whether the walk can still succeed: from where it is, or after a restart. -/
def Walk.Hopeful (caseSensitive : Bool) (w : Walk) : Prop :=
  Language (w.pattern.map (byteItem caseSensitive)) (characters w.subject) ∨
    ∃ pat source, w.star = some (pat, source) ∧
      Language (.many :: pat.map (byteItem caseSensitive)) (characters source.tail)

/-- Each place behind the last `%` where its pattern matches leaves a place where the rest of the
pattern matches what is left of the subject. -/
def Walk.Trails (caseSensitive : Bool) (w : Walk) : Prop :=
  ∀ pat source, w.star = some (pat, source) → ∀ t, t <:+ source →
    Language (pat.map (byteItem caseSensitive)) (characters t) →
      ∃ u, u <:+ w.subject ∧ Language (w.pattern.map (byteItem caseSensitive)) (characters u)

structure Walk.Ascii (w : Walk) : Prop where
  subject : isAscii w.subject = true
  pattern : isAscii w.pattern = true
  star : ∀ pat source, w.star = some (pat, source) → isAscii pat = true ∧ isAscii source = true

theorem isAscii_suffix {s t : List UInt8} (ascii : isAscii s = true) (within : t <:+ s) :
    isAscii t = true := by
  rw [isAscii, List.all_eq_true] at ascii ⊢
  exact fun b member => ascii b (within.subset member)

theorem isAscii_cons {b : UInt8} {rest : List UInt8} (ascii : isAscii (b :: rest) = true) :
    b < 0x80 ∧ isAscii rest = true := by
  rw [isAscii, List.all_cons, Bool.and_eq_true, decide_eq_true_iff] at ascii
  exact ascii

theorem characters_ascii {b : UInt8} {rest : List UInt8} (plain : b < 0x80) :
    characters (b :: rest) = b.toUInt32 :: characters rest := by
  rw [characters_cons, utf8Read_plain plain]

theorem characters_within {s t : List UInt8} (ascii : isAscii s = true) (within : t <:+ s) :
    characters t <:+ characters s := by
  cases t with
  | nil => exact characters_nil ▸ List.nil_suffix
  | cons b rest => exact characters_suffix (isAscii_cons (isAscii_suffix ascii within)).1 within

theorem language_many_ascii {items : List (Item UInt32)} {s : List UInt8}
    (ascii : isAscii s = true) :
    Language (.many :: items) (characters s) ↔
      Language items (characters s) ∨ Language (.many :: items) (characters s.tail) := by
  cases s with
  | nil =>
    rw [List.tail_nil]
    refine ⟨Or.inr, fun known => known.elim (fun inside => ?_) id⟩
    exact ⟨_, List.suffix_refl _, inside⟩
  | cons b rest =>
    rw [characters_ascii (isAscii_cons ascii).1, language_many, List.tail_cons]

theorem language_nil_iff (caseSensitive : Bool) (pattern : List UInt8) :
    Language (pattern.map (byteItem caseSensitive)) [] ↔
      pattern.all (· == percent) = true := by
  induction pattern with
  | nil => exact iff_of_true rfl rfl
  | cons b rest ih =>
    rw [List.map_cons, List.all_cons, Bool.and_eq_true, beq_iff_eq, ← ih, byteItem]
    by_cases many : b = percent
    · rw [if_pos many, and_iff_right many]
      constructor
      · rintro ⟨t, within, inside⟩
        exact List.suffix_nil.mp within ▸ inside
      · exact fun inside => ⟨[], List.suffix_refl _, inside⟩
    · rw [if_neg many]
      refine iff_of_false (fun inside => ?_) fun both => many both.1
      by_cases one : b = underscore
      · rw [if_pos one] at inside
        obtain ⟨_, _, empty, -⟩ := inside
        cases empty
      · rw [if_neg one] at inside
        obtain ⟨_, _, empty, -⟩ := inside
        cases empty

/-- One byte of the pattern that is not `%`, against one of the subject. -/
theorem language_byte {x b : UInt8} {rest : List UInt8} (plain : x < 0x80) (subject : b < 0x80)
    (single : x ≠ percent) (caseSensitive : Bool) (items : List (Item UInt32)) :
    Language (byteItem caseSensitive x :: items) (characters (b :: rest)) ↔
      (x = underscore ∨ foldAscii caseSensitive b = foldAscii caseSensitive x) ∧
        Language items (characters rest) := by
  rw [byteItem, if_neg single, characters_ascii subject]
  by_cases one : x = underscore
  · rw [if_pos one, and_iff_right (Or.inl one)]
    constructor
    · rintro ⟨_, _, same, -, inside⟩
      cases same
      exact inside
    · exact fun inside => ⟨_, _, rfl, rfl, inside⟩
  · rw [if_neg one, or_iff_right one]
    constructor
    · rintro ⟨_, _, same, accepted, inside⟩
      cases same
      exact ⟨(alike_bytes plain subject _).mp accepted, inside⟩
    · rintro ⟨folded, inside⟩
      exact ⟨_, _, rfl, (alike_bytes plain subject _).mpr folded, inside⟩

namespace Walk

variable {caseSensitive : Bool} {w : Walk}

theorem restart_ascii {pat source : List UInt8} (ascii : isAscii pat = true ∧ isAscii source = true) :
    (restart pat source).Ascii where
  subject := isAscii_suffix ascii.2 (List.tail_suffix _)
  pattern := ascii.1
  star _ _ same := by
    cases same
    exact ⟨ascii.1, isAscii_suffix ascii.2 (List.tail_suffix _)⟩

theorem trails_refl {pattern subject : List UInt8} {behind} :
    Trails caseSensitive ⟨subject, pattern, some (pattern, subject), behind⟩ := by
  intro _ _ same t within inside
  cases same
  exact ⟨t, within, inside⟩

theorem hopeful_refl {pattern subject : List UInt8} {behind} (ascii : isAscii subject = true) :
    Hopeful caseSensitive ⟨subject, pattern, some (pattern, subject), behind⟩ ↔
      Language (.many :: pattern.map (byteItem caseSensitive)) (characters subject) := by
  rw [language_many_ascii ascii]
  constructor
  · rintro (here | ⟨_, _, same, later⟩)
    · exact Or.inl here
    · cases same
      exact Or.inr later
  · exact fun known => known.imp id fun later => ⟨_, _, rfl, later⟩

/-- A restart is all the hope of a walk that is stuck. -/
theorem stuck_hopeful {pat source : List UInt8} (star : w.star = some (pat, source))
    (stuck : ¬ Language (w.pattern.map (byteItem caseSensitive)) (characters w.subject)) :
    w.Hopeful caseSensitive ↔
      Language (.many :: pat.map (byteItem caseSensitive)) (characters source.tail) := by
  constructor
  · rintro (here | ⟨_, _, same, later⟩)
    · exact absurd here stuck
    · cases star.symm.trans same
      exact later
  · exact fun later => Or.inr ⟨_, _, star, later⟩

theorem stuck_hopeless (star : w.star = none)
    (stuck : ¬ Language (w.pattern.map (byteItem caseSensitive)) (characters w.subject)) :
    ¬ w.Hopeful caseSensitive := by
  rintro (here | ⟨_, _, same, -⟩)
  · exact stuck here
  · cases star.symm.trans same

theorem trails_tail (trails : w.Trails caseSensitive) {pat source : List UInt8}
    (star : w.star = some (pat, source))
    (inside : Language (.many :: pat.map (byteItem caseSensitive)) (characters source.tail)) :
    ∃ u, u <:+ w.subject ∧ Language (w.pattern.map (byteItem caseSensitive)) (characters u) := by
  obtain ⟨part, within, holds⟩ := inside
  obtain ⟨t, place, rfl⟩ := suffix_characters within
  exact trails pat source star t (place.trans (List.tail_suffix _)) holds

theorem mark_ascii (ascii : w.Ascii) {x : UInt8} {pat : List UInt8} (next : w.pattern = x :: pat) :
    (w.mark pat).Ascii where
  subject := ascii.subject
  pattern := (isAscii_cons (next ▸ ascii.pattern)).2
  star _ _ same := by
    cases same
    exact ⟨(isAscii_cons (next ▸ ascii.pattern)).2, ascii.subject⟩

theorem advance_ascii (ascii : w.Ascii) {x : UInt8} {pat : List UInt8}
    (next : w.pattern = x :: pat) : (w.advance pat).Ascii where
  subject := isAscii_suffix ascii.subject (List.tail_suffix _)
  pattern := (isAscii_cons (next ▸ ascii.pattern)).2
  star := ascii.star

/-- The walk stops at the end of the subject. -/
theorem hopeful_end (trails : w.Trails caseSensitive) (left : w.subject = []) :
    w.Hopeful caseSensitive ↔ w.pattern.all (· == percent) = true := by
  rw [← language_nil_iff caseSensitive, ← characters_nil, ← left]
  constructor
  · rintro (here | ⟨pat, source, star, later⟩)
    · exact here
    · obtain ⟨u, within, inside⟩ := trails_tail trails star later
      rw [left] at within ⊢
      exact List.suffix_nil.mp within ▸ inside
  · exact Or.inl

/-- A `%` takes over the hope of an earlier one. -/
theorem hopeful_mark (ascii : w.Ascii) (trails : w.Trails caseSensitive) {pat : List UInt8}
    (next : w.pattern = percent :: pat) :
    w.Hopeful caseSensitive ↔ (w.mark pat).Hopeful caseSensitive := by
  have items : w.pattern.map (byteItem caseSensitive) =
      .many :: pat.map (byteItem caseSensitive) := by
    rw [next, List.map_cons]
    rfl
  rw [mark, hopeful_refl ascii.subject]
  constructor
  · rintro (here | ⟨earlier, source, star, later⟩)
    · exact items ▸ here
    · obtain ⟨u, within, inside⟩ := trails_tail trails star later
      rw [items] at inside
      exact inside.of_suffix (characters_within ascii.subject within)
  · exact fun here => Or.inl (items ▸ here)

theorem suffix_tail {d : UInt8} {rest s : List UInt8} (within : d :: rest <:+ s) :
    rest <:+ s.tail := by
  cases s with
  | nil => cases List.suffix_nil.mp within
  | cons b s =>
    rcases List.suffix_cons_iff.mp within with same | later
    · cases same
      exact List.suffix_refl _
    · exact (List.suffix_cons _ _).trans later

theorem trails_advance (ascii : w.Ascii) (trails : w.Trails caseSensitive) {x : UInt8}
    {pat : List UInt8} (next : w.pattern = x :: pat) (single : x ≠ percent) :
    (w.advance pat).Trails caseSensitive := by
  intro source pattern star t within inside
  obtain ⟨u, place, holds⟩ := trails source pattern star t within inside
  rw [next, List.map_cons] at holds
  have plain := (isAscii_cons (next ▸ ascii.pattern)).1
  cases u with
  | nil =>
    have stopped := (language_nil_iff caseSensitive (x :: pat)).mp (characters_nil ▸ holds)
    rw [List.all_cons, Bool.and_eq_true, beq_iff_eq] at stopped
    exact absurd stopped.1 single
  | cons d rest =>
    have subject := (isAscii_cons (isAscii_suffix ascii.subject place)).1
    exact ⟨rest, suffix_tail place, ((language_byte plain subject single _ _).mp holds).2⟩

theorem hopeful_advance (ascii : w.Ascii) {c x : UInt8} {rest pat : List UInt8}
    (left : w.subject = c :: rest) (next : w.pattern = x :: pat) (single : x ≠ percent)
    (hit : x = underscore ∨ foldAscii caseSensitive c = foldAscii caseSensitive x) :
    w.Hopeful caseSensitive ↔ (w.advance pat).Hopeful caseSensitive := by
  have plain := (isAscii_cons (next ▸ ascii.pattern)).1
  have subject := (isAscii_cons (left ▸ ascii.subject)).1
  refine or_congr_left ?_
  have behind : (w.advance pat).subject = rest := congrArg List.tail left
  rw [next, left, List.map_cons, language_byte plain subject single, and_iff_right hit, behind]
  rfl

/-- The first bytes differ. -/
theorem mismatch (ascii : w.Ascii) {c x : UInt8} {rest pat : List UInt8}
    (left : w.subject = c :: rest) (next : w.pattern = x :: pat) (single : x ≠ percent)
    (miss : ¬ (x = underscore ∨ foldAscii caseSensitive c = foldAscii caseSensitive x)) :
    ¬ Language (w.pattern.map (byteItem caseSensitive)) (characters w.subject) := by
  have plain := (isAscii_cons (next ▸ ascii.pattern)).1
  have subject := (isAscii_cons (left ▸ ascii.subject)).1
  rw [next, left, List.map_cons, language_byte plain subject single]
  exact fun both => miss both.1

theorem leftover {c : UInt8} {rest : List UInt8} (left : w.subject = c :: rest)
    (next : w.pattern = []) :
    ¬ Language (w.pattern.map (byteItem caseSensitive)) (characters w.subject) := by
  rw [next, left, characters_cons]
  exact nofun

end Walk

section

variable {caseSensitive : Bool} {w : Walk} {c x : UInt8} {rest pat source : List UInt8}

theorem likeWalk_end (left : w.subject = []) :
    likeWalk caseSensitive w = w.pattern.all (· == percent) := by
  obtain ⟨subject, pattern, star, behind⟩ := w
  obtain rfl : subject = _ := left
  rw [likeWalk]

theorem likeWalk_leftover (left : w.subject = c :: rest) (next : w.pattern = []) :
    likeWalk caseSensitive w =
      match w.star with
      | none => false
      | some (pat, source) => likeWalk caseSensitive (.restart pat source) := by
  obtain ⟨subject, pattern, star, behind⟩ := w
  obtain rfl : subject = _ := left
  obtain rfl : pattern = _ := next
  rw [likeWalk]
  cases star <;> rfl

theorem likeWalk_cons (left : w.subject = c :: rest) (next : w.pattern = x :: pat) :
    likeWalk caseSensitive w =
      if x = percent then likeWalk caseSensitive (w.mark pat)
      else if x = underscore ∨ foldAscii caseSensitive c = foldAscii caseSensitive x then
        likeWalk caseSensitive (w.advance pat)
      else
        match w.star with
        | none => false
        | some (pat, source) => likeWalk caseSensitive (.restart pat source) := by
  obtain ⟨subject, pattern, star, behind⟩ := w
  obtain rfl : subject = _ := left
  obtain rfl : pattern = _ := next
  rw [likeWalk]
  cases star <;> rfl

end

theorem likeWalk_iff {caseSensitive : Bool} {w : Walk} (ascii : w.Ascii)
    (trails : w.Trails caseSensitive) :
    likeWalk caseSensitive w = true ↔ w.Hopeful caseSensitive := by
  induction w using likeWalk.induct caseSensitive with
  | case1 w left => rw [likeWalk_end left, w.hopeful_end trails left]
  | case2 w c rest left next star =>
    rw [likeWalk_leftover left next, star]
    exact iff_of_false nofun (Walk.stuck_hopeless star (Walk.leftover left next))
  | case3 w c rest left next pat source star ih =>
    rw [likeWalk_leftover left next, star, Walk.stuck_hopeful star (Walk.leftover left next)]
    have started := Walk.restart_ascii (ascii.star pat source star)
    exact (ih started Walk.trails_refl).trans (Walk.hopeful_refl started.subject)
  | case4 w c rest left pat next ih =>
    rw [likeWalk_cons left next, if_pos rfl, Walk.hopeful_mark ascii trails next]
    exact ih (Walk.mark_ascii ascii next) Walk.trails_refl
  | case5 w c rest left x pat next single hit ih =>
    rw [likeWalk_cons left next, if_neg single, if_pos hit,
      Walk.hopeful_advance ascii left next single hit]
    exact ih (Walk.advance_ascii ascii next) (Walk.trails_advance ascii trails next single)
  | case6 w c rest left x pat next single miss star =>
    rw [likeWalk_cons left next, if_neg single, if_neg miss, star]
    exact iff_of_false nofun (Walk.stuck_hopeless star (Walk.mismatch ascii left next single miss))
  | case7 w c rest left x pat next single miss pat source star ih =>
    rw [likeWalk_cons left next, if_neg single, if_neg miss, star,
      Walk.stuck_hopeful star (Walk.mismatch ascii left next single miss)]
    have started := Walk.restart_ascii (ascii.star _ source star)
    exact (ih started Walk.trails_refl).trans (Walk.hopeful_refl started.subject)

theorem likeGeneralBytes_iff {s p : List UInt8} (ascii : isAscii s = true)
    (patAscii : isAscii p = true) (caseSensitive : Bool) :
    likeGeneralBytes s p caseSensitive = true ↔
      Language (p.map (byteItem caseSensitive)) (characters s) := by
  have fresh : ∀ pat source, (none : Option (List UInt8 × List UInt8)) ≠ some (pat, source) :=
    fun _ _ => nofun
  rw [likeGeneralBytes, likeWalk_iff ⟨ascii, patAscii, fun _ _ star => absurd star (fresh _ _)⟩
    fun _ _ star => absurd star (fresh _ _)]
  exact or_iff_left fun ⟨_, _, star, _⟩ => fresh _ _ star

end RustSql.Executor
