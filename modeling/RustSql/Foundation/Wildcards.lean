import Mathlib.Data.List.Infix

/-! Languages of patterns with wildcards, and searches for a match that give up early. A search
that gives up has seen that no later part of the subject can match either. -/

namespace RustSql.Foundation

universe u

variable {α : Type u}

/-- Any sequence, or one character of a kind. -/
inductive Item (α : Type u) where
  | many
  | one (accepts : α → Bool)

def Language : List (Item α) → List α → Prop
  | [], s => s = []
  | .many :: items, s => ∃ t, t <:+ s ∧ Language items t
  | .one accepts :: items, s => ∃ c rest, s = c :: rest ∧ accepts c = true ∧ Language items rest

inductive Outcome where
  | matched
  | noMatch
  | abandoned
deriving DecidableEq, Repr

/-- What an outcome tells about a subject; a malformed pattern matches nothing. -/
def Judges (outcome : Outcome) (items : Option (List (Item α))) (s : List α) : Prop :=
  match outcome with
  | .matched => ∃ list, items = some list ∧ Language list s
  | .noMatch => ∀ list, items = some list → ¬ Language list s
  | .abandoned => ∀ list, items = some list → ∀ t, t <:+ s → ¬ Language list t

namespace Judges

theorem iff {outcome : Outcome} {items : Option (List (Item α))} {s : List α}
    (judges : Judges outcome items s) :
    outcome = .matched ↔ ∃ list, items = some list ∧ Language list s := by
  cases outcome with
  | matched => exact ⟨fun _ => judges, fun _ => rfl⟩
  | noMatch => exact ⟨nofun, fun ⟨list, same, inside⟩ => absurd inside (judges list same)⟩
  | abandoned =>
    exact ⟨nofun, fun ⟨list, same, inside⟩ =>
      absurd inside (judges list same s (List.suffix_refl s))⟩

/-- A malformed pattern is never matched. -/
theorem malformed {outcome : Outcome} (s : List α) (fails : outcome ≠ .matched) :
    Judges outcome none s := by
  cases outcome with
  | matched => exact absurd rfl fails
  | noMatch => exact fun _ same => nomatch same
  | abandoned => exact fun _ same => nomatch same

end Judges

theorem language_many {items : List (Item α)} {c : α} {s : List α} :
    Language (.many :: items) (c :: s) ↔
      Language items (c :: s) ∨ Language (.many :: items) s := by
  constructor
  · rintro ⟨t, suffix, inside⟩
    rcases List.suffix_cons_iff.mp suffix with rfl | suffix
    · exact Or.inl inside
    · exact Or.inr ⟨t, suffix, inside⟩
  · rintro (inside | ⟨t, suffix, inside⟩)
    · exact ⟨_, List.suffix_refl _, inside⟩
    · exact ⟨t, suffix.trans (List.suffix_cons _ _), inside⟩

theorem Language.of_suffix {items : List (Item α)} {s t : List α} (suffix : t <:+ s)
    (inside : Language (.many :: items) t) : Language (.many :: items) s := by
  obtain ⟨u, part, holds⟩ := inside
  exact ⟨u, part.trans suffix, holds⟩

variable {items : Option (List (Item α))}

/-- An outcome behind a wildcard: it need not hold of the whole subject at once. -/
theorem Judges.of_many {outcome : Outcome} {s : List α}
    (holds : outcome = .matched → ∃ list, items = some list ∧ Language (.many :: list) s)
    (fails : outcome ≠ .matched → ∀ list, items = some list → ¬ Language (.many :: list) s) :
    Judges outcome (items.map (.many :: ·)) s := by
  have apart (differ : outcome ≠ .matched) (list : List (Item α))
      (same : items.map (.many :: ·) = some list) (t : List α) (suffix : t <:+ s) :
      ¬ Language list t := by
    obtain ⟨tail, found, rfl⟩ := Option.map_eq_some_iff.mp same
    exact fun inside => fails differ tail found (inside.of_suffix suffix)
  cases outcome with
  | matched =>
    obtain ⟨list, found, inside⟩ := holds rfl
    exact ⟨_, Option.map_eq_some_iff.mpr ⟨list, found, rfl⟩, inside⟩
  | noMatch => exact fun list same => apart nofun list same s (List.suffix_refl s)
  | abandoned => exact apart nofun

namespace Judges

variable {outcome : Outcome} {items : Option (List (Item α))} {accepts : α → Bool} {c : α}
  {s : List α}

theorem one_split {list : List (Item α)} {t : List α}
    (same : items.map (.one accepts :: ·) = some list) (inside : Language list t) :
    ∃ c rest tail, t = c :: rest ∧ accepts c = true ∧ items = some tail ∧ Language tail rest := by
  obtain ⟨tail, found, rfl⟩ := Option.map_eq_some_iff.mp same
  obtain ⟨c, rest, rfl, accepted, holds⟩ := inside
  exact ⟨c, rest, tail, rfl, accepted, found, holds⟩

theorem accepted (judges : Judges outcome items s) (accepted : accepts c = true) :
    Judges outcome (items.map (.one accepts :: ·)) (c :: s) := by
  cases outcome with
  | matched =>
    obtain ⟨list, found, inside⟩ := judges
    exact ⟨_, Option.map_eq_some_iff.mpr ⟨list, found, rfl⟩, c, s, rfl, accepted, inside⟩
  | noMatch =>
    intro list same inside
    obtain ⟨_, _, tail, here, -, found, holds⟩ := one_split same inside
    cases here
    exact judges tail found holds
  | abandoned =>
    intro list same t suffix inside
    obtain ⟨_, rest, tail, rfl, -, found, holds⟩ := one_split same inside
    refine judges tail found rest ?_ holds
    rcases List.suffix_cons_iff.mp suffix with here | later
    · cases here
      exact List.suffix_refl s
    · exact (List.suffix_cons _ _).trans later

theorem refused (refused : accepts c = false) :
    Judges .noMatch (items.map (.one accepts :: ·)) (c :: s) := by
  intro list same inside
  obtain ⟨_, _, _, here, accepted, -⟩ := one_split same inside
  cases here
  rw [refused] at accepted
  cases accepted

theorem one_nil : Judges .noMatch (items.map (.one accepts :: ·)) [] := by
  intro list same inside
  obtain ⟨_, _, _, empty, -⟩ := one_split same inside
  cases empty

theorem found (judges : Judges .matched items s) :
    Judges .matched (items.map (.many :: ·)) s := by
  obtain ⟨list, same, inside⟩ := judges
  exact of_many (fun _ => ⟨list, same, s, List.suffix_refl s, inside⟩) fun differ =>
    absurd rfl differ

theorem gaveUp (judges : Judges .abandoned items s) :
    Judges .abandoned (items.map (.many :: ·)) s :=
  of_many nofun fun _ list same ⟨t, suffix, inside⟩ => judges list same t suffix inside

theorem exhausted (nonempty : ∀ list, items = some list → ¬ Language list []) :
    Judges .abandoned (items.map (.many :: ·)) [] := by
  refine of_many nofun fun _ list same inside => ?_
  obtain ⟨t, suffix, holds⟩ := inside
  rw [List.suffix_nil] at suffix
  exact nonempty list same (suffix ▸ holds)

/-- No match at the front, and the search goes on. -/
theorem later (here : Judges .noMatch items (c :: s))
    (judges : Judges outcome (items.map (.many :: ·)) s) :
    Judges outcome (items.map (.many :: ·)) (c :: s) := by
  refine of_many (fun found => ?_) fun differ list same inside => ?_
  · obtain ⟨list, same, inside⟩ := judges.iff.mp found
    obtain ⟨tail, known, rfl⟩ := Option.map_eq_some_iff.mp same
    exact ⟨tail, known, language_many.mpr (Or.inr inside)⟩
  · rcases language_many.mp inside with front | behind
    · exact here list same front
    · exact differ (judges.iff.mpr ⟨_, Option.map_eq_some_iff.mpr ⟨list, same, rfl⟩, behind⟩)

end Judges

theorem language_many_many {items : List (Item α)} {s : List α} :
    Language (.many :: .many :: items) s ↔ Language (.many :: items) s :=
  ⟨fun ⟨_, suffix, inside⟩ => inside.of_suffix suffix, fun inside =>
    ⟨s, List.suffix_refl s, inside⟩⟩

theorem Judges.many_many {outcome : Outcome} {s : List α}
    (judges : Judges outcome (items.map (.many :: ·)) s) :
    Judges outcome ((items.map (.many :: ·)).map (.many :: ·)) s := by
  refine Judges.of_many (fun found => ?_) fun differ list known inside => ?_
  · obtain ⟨list, known, inside⟩ := judges.iff.mp found
    obtain ⟨tail, -, rfl⟩ := Option.map_eq_some_iff.mp known
    exact ⟨_, known, language_many_many.mpr inside⟩
  · obtain ⟨tail, -, rfl⟩ := Option.map_eq_some_iff.mp known
    exact differ (judges.iff.mpr ⟨_, known, language_many_many.mp inside⟩)

/-- Any sequence and one character: the first character may be the one. -/
theorem language_many_one {items : List (Item α)} {s : List α} :
    Language (.many :: .one (fun _ => true) :: items) s ↔
      ∃ c rest, s = c :: rest ∧ Language (.many :: items) rest := by
  constructor
  · rintro ⟨t, ⟨front, rfl⟩, c, rest, rfl, -, inside⟩
    cases front with
    | nil => exact ⟨c, rest, rfl, rest, List.suffix_refl rest, inside⟩
    | cons first more =>
      refine ⟨first, more ++ c :: rest, rfl, rest, ?_, inside⟩
      exact ⟨more ++ [c], by simp⟩
  · rintro ⟨c, rest, rfl, t, suffix, inside⟩
    obtain ⟨front, rfl⟩ := suffix
    cases front using List.reverseRecOn with
    | nil => exact ⟨_, List.suffix_refl _, c, t, rfl, rfl, inside⟩
    | append_singleton more last _ =>
      exact ⟨last :: t, ⟨c :: more, by simp⟩, last, t, rfl, rfl, inside⟩

theorem Judges.many_one {outcome : Outcome} {c : α} {s : List α}
    (judges : Judges outcome (items.map (.many :: ·)) s) :
    Judges outcome ((items.map (.one (fun _ => true) :: ·)).map (.many :: ·)) (c :: s) := by
  refine Judges.of_many (fun found => ?_) fun differ list same inside => ?_
  · obtain ⟨list, same, inside⟩ := judges.iff.mp found
    obtain ⟨tail, known, rfl⟩ := Option.map_eq_some_iff.mp same
    exact ⟨_, Option.map_eq_some_iff.mpr ⟨tail, known, rfl⟩,
      language_many_one.mpr ⟨c, s, rfl, inside⟩⟩
  · obtain ⟨tail, known, rfl⟩ := Option.map_eq_some_iff.mp same
    obtain ⟨_, _, here, holds⟩ := language_many_one.mp inside
    cases here
    exact differ (judges.iff.mpr ⟨_, Option.map_eq_some_iff.mpr ⟨tail, known, rfl⟩, holds⟩)

/-- Nothing is left for the one character. -/
theorem Judges.many_one_nil {outcome : Outcome} (fails : outcome ≠ .matched) :
    Judges outcome ((items.map (.one (fun _ => true) :: ·)).map (.many :: ·)) [] := by
  refine Judges.of_many (fun found => absurd found fails) fun _ list same inside => ?_
  obtain ⟨tail, known, rfl⟩ := Option.map_eq_some_iff.mp same
  obtain ⟨_, _, empty, -⟩ := language_many_one.mp inside
  cases empty

end RustSql.Foundation
