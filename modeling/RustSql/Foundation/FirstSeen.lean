import Mathlib.Data.List.Induction

/-! Values taken in order, each kept unless an equal one is known; only the first `limit` kept
ones are looked up. -/

namespace RustSql.Foundation

universe u

variable {κ : Type u} [BEq κ]

/-- No two are equal. -/
def Apart (kept : List κ) : Prop := kept.Pairwise fun one two => (one == two) = false

def remember (limit : Nat) (kept : List κ) (key : κ) : List κ :=
  if (kept.take limit).any (· == key) then kept else kept ++ [key]

def gather (limit : Nat) (keys : List κ) : List κ := keys.foldl (remember limit) []

/-- None of the looked up is equal to one behind it. -/
def EarlyApart (limit : Nat) (kept : List κ) : Prop :=
  ∀ one two, ∀ _order : one < two, one < limit → ∀ _inside : two < kept.length,
    (kept[one] == kept[two]) = false

/-- One value of every class, in the order they come up. -/
def firstSeen (keys : List κ) : List κ :=
  keys.foldl (fun kept key => if kept.any (· == key) then kept else kept ++ [key]) []

/-- What comes again was new before `limit` others had come up. -/
def EarlyRepeats (limit : Nat) (keys : List κ) : Prop :=
  ∀ before key middle again after, keys = before ++ key :: middle ++ again :: after →
    (∀ other ∈ before, (other == key) = false) → (key == again) = true →
      (firstSeen before).length < limit

variable {limit : Nat} {keys before : List κ} {key : κ}

theorem gather_append (limit : Nat) (keys more : List κ) :
    gather limit (keys ++ more) = more.foldl (remember limit) (gather limit keys) := by
  rw [gather, List.foldl_append, ← gather]

theorem gather_concat (limit : Nat) (keys : List κ) (key : κ) :
    gather limit (keys ++ [key]) = remember limit (gather limit keys) key := by
  rw [gather_append, List.foldl_cons, List.foldl_nil]

theorem firstSeen_concat (keys : List κ) (key : κ) :
    firstSeen (keys ++ [key]) =
      if (firstSeen keys).any (· == key) then firstSeen keys else firstSeen keys ++ [key] := by
  rw [firstSeen, List.foldl_append, List.foldl_cons, List.foldl_nil, ← firstSeen]

theorem remember_grows (limit : Nat) (kept : List κ) (key : κ) : kept <+: remember limit kept key := by
  rw [remember]
  split
  · exact List.prefix_rfl
  · exact List.prefix_append _ _

theorem gather_grows (limit : Nat) (keys more : List κ) :
    gather limit keys <+: gather limit (keys ++ more) := by
  induction more using List.reverseRecOn with
  | nil => exact (List.append_nil keys).symm ▸ List.prefix_rfl
  | append_singleton more last ih =>
    rw [← List.append_assoc, gather_concat]
    exact ih.trans (remember_grows _ _ _)

theorem mem_of_gather (member : key ∈ gather limit keys) : key ∈ keys := by
  induction keys using List.reverseRecOn with
  | nil => cases member
  | append_singleton keys last ih =>
    rw [gather_concat, remember] at member
    split at member
    · exact List.mem_append_left _ (ih member)
    · rcases List.mem_append.mp member with old | new
      · exact List.mem_append_left _ (ih old)
      · exact List.mem_append_right _ new

/-- Everything kept was new to the memory when it came. -/
theorem gather_origin {kept later : List κ} (parts : gather limit keys = kept ++ key :: later) :
    ∃ before middle, keys = before ++ key :: middle ∧ gather limit before = kept := by
  induction keys using List.reverseRecOn generalizing later with
  | nil => exact absurd parts (by simp [gather])
  | append_singleton keys last ih =>
    rw [gather_concat, remember] at parts
    split at parts
    · obtain ⟨before, middle, rfl, same⟩ := ih parts
      exact ⟨before, middle ++ [last], by simp, same⟩
    · rcases List.eq_nil_or_concat later with rfl | ⟨later, top, rfl⟩
      · obtain ⟨rfl, rfl⟩ := List.append_inj' parts rfl |>.imp id List.singleton_inj.mp
        exact ⟨keys, [], rfl, rfl⟩
      · rw [List.concat_eq_append, ← List.cons_append, ← List.append_assoc] at parts
        obtain ⟨inner, _⟩ := List.append_inj' parts rfl
        obtain ⟨before, middle, rfl, same⟩ := ih inner
        exact ⟨before, middle ++ [last], by simp, same⟩

section Equivalence

variable [EquivBEq κ]

theorem gather_knows (limit : Nat) (member : key ∈ keys) : ∃ kept ∈ gather limit keys, (kept == key) = true := by
  induction keys using List.reverseRecOn with
  | nil => cases member
  | append_singleton keys last ih =>
    rw [gather_concat, remember]
    rcases List.mem_append.mp member with old | new
    · obtain ⟨kept, held, same⟩ := ih old
      split
      · exact ⟨kept, held, same⟩
      · exact ⟨kept, List.mem_append_left _ held, same⟩
    · obtain rfl := List.mem_singleton.mp new
      split
      · obtain ⟨kept, held, same⟩ := List.any_eq_true.mp ‹_›
        exact ⟨kept, List.mem_of_mem_take held, same⟩
      · exact ⟨key, List.mem_append_right _ (List.mem_singleton_self _), BEq.rfl⟩

omit [EquivBEq κ] in
/-- What is among the looked up is equal to nothing that is kept later. -/
theorem gather_early (limit : Nat) (keys : List κ) : EarlyApart limit (gather limit keys) := by
  intro one two order early inside
  induction keys using List.reverseRecOn with
  | nil => exact absurd inside (Nat.not_lt_zero _)
  | append_singleton keys last ih =>
    have grown := gather_concat limit keys last
    rw [remember] at grown
    simp only [grown] at inside ⊢
    split at inside
    · rename_i known
      simp only [if_pos known]
      exact ih inside
    · rename_i unknown
      simp only [if_neg unknown]
      rw [List.length_append, List.length_singleton] at inside
      rcases Nat.lt_succ_iff_lt_or_eq.mp inside with below | rfl
      · rw [List.getElem_append_left (Nat.lt_trans order below), List.getElem_append_left below]
        exact ih below
      · rw [List.getElem_append_left order, List.getElem_concat_length rfl]
        rw [Bool.not_eq_true, List.any_eq_false] at unknown
        refine Bool.eq_false_iff.mpr (unknown _ ?_)
        exact List.mem_take_iff_getElem.mpr ⟨one, Nat.lt_min.mpr ⟨early, order⟩, rfl⟩

omit [EquivBEq κ] in
theorem apart_concat {kept : List κ} (apart : Apart (kept ++ [key])) :
    Apart kept ∧ ¬ kept.any (· == key) = true := by
  obtain ⟨inner, _, across⟩ := List.pairwise_append.mp apart
  refine ⟨inner, fun known => ?_⟩
  obtain ⟨other, held, same⟩ := List.any_eq_true.mp known
  rw [across other held key (List.mem_singleton_self _)] at same
  cases same

omit [EquivBEq κ] in
theorem firstSeen_of_apart (apart : Apart keys) : firstSeen keys = keys := by
  induction keys using List.reverseRecOn with
  | nil => rfl
  | append_singleton keys last ih =>
    obtain ⟨inner, new⟩ := apart_concat apart
    rw [firstSeen_concat, ih inner, if_neg new]

omit [EquivBEq κ] in
theorem any_of_any_take {kept : List κ} (known : (kept.take limit).any (· == key) = true) :
    kept.any (· == key) = true := by
  obtain ⟨other, held, same⟩ := List.any_eq_true.mp known
  exact List.any_eq_true.mpr ⟨other, List.mem_of_mem_take held, same⟩

omit [EquivBEq κ] in
/-- What is kept once is kept in the order of coming up. -/
theorem gather_eq_firstSeen (apart : Apart (gather limit keys)) : gather limit keys = firstSeen keys := by
  induction keys using List.reverseRecOn with
  | nil => rfl
  | append_singleton keys last ih =>
    rw [gather_concat, remember] at apart ⊢
    rw [firstSeen_concat]
    split at apart
    · rename_i known
      rw [if_pos known, ← ih apart, if_pos (any_of_any_take known)]
    · rename_i unknown
      obtain ⟨inner, new⟩ := apart_concat apart
      rw [if_neg unknown, ← ih inner, if_neg new]

omit [EquivBEq κ] in
theorem EarlyRepeats.initial {more : List κ} (repeats : EarlyRepeats limit (keys ++ more)) :
    EarlyRepeats limit keys := by
  intro before key middle again after parts
  refine repeats before key middle again (after ++ more) ?_
  rw [parts, List.append_assoc, List.cons_append]

/-- Each class is kept once exactly where all repeats are early. -/
theorem apart_gather_iff : Apart (gather limit keys) ↔ EarlyRepeats limit keys := by
  constructor
  · intro apart before key middle again after parts fresh same
    have here : Apart (gather limit (before ++ key :: middle ++ [again])) := by
      obtain ⟨rest, grown⟩ := gather_grows limit (before ++ key :: middle ++ [again]) after
      have whole : keys = before ++ key :: middle ++ [again] ++ after := by rw [parts]; simp
      rw [whole, ← grown] at apart
      exact (List.pairwise_append.mp apart).1
    have first : Apart (gather limit before) := by
      obtain ⟨rest, grown⟩ := gather_grows limit before (key :: middle ++ [again])
      rw [List.append_assoc, ← grown] at here
      exact (List.pairwise_append.mp here).1
    by_contra late
    rw [Nat.not_lt, ← gather_eq_firstSeen first] at late
    have unknown : ∀ kept ∈ gather limit before, (kept == key) = false := fun kept held =>
      fresh kept (mem_of_gather held)
    -- the key is kept behind all that is looked up
    have kept : gather limit (before ++ [key]) = gather limit before ++ [key] := by
      rw [gather_concat, remember, if_neg]
      intro known
      obtain ⟨other, held, equal⟩ := List.any_eq_true.mp known
      rw [unknown other (List.mem_of_mem_take held)] at equal
      cases equal
    obtain ⟨rest, grown⟩ := gather_grows limit (before ++ [key]) middle
    rw [kept, List.append_assoc, List.append_assoc, List.singleton_append, List.singleton_append] at grown
    rw [gather_concat, ← grown, remember, if_neg] at here
    · obtain ⟨_, new⟩ := apart_concat here
      exact new (List.any_eq_true.mpr ⟨key, by simp, same⟩)
    · intro known
      obtain ⟨other, held, equal⟩ := List.any_eq_true.mp known
      rw [List.take_append_of_le_length late] at held
      have unequal := unknown other (List.mem_of_mem_take held)
      rw [BEq.trans equal (BEq.symm same)] at unequal
      cases unequal
  · intro repeats
    induction keys using List.reverseRecOn with
    | nil => exact List.Pairwise.nil
    | append_singleton keys last ih =>
      have inner := ih repeats.initial
      rw [gather_concat, remember]
      split
      · exact inner
      · rename_i unknown
        refine List.pairwise_append.mpr ⟨inner, List.pairwise_singleton _ _, ?_⟩
        intro kept held other top
        obtain rfl := List.mem_singleton.mp top
        by_contra equal
        rw [Bool.not_eq_false] at equal
        obtain ⟨front, back, parts⟩ := List.append_of_mem held
        obtain ⟨before, middle, whole, same⟩ := gather_origin parts
        have apart : Apart (front ++ kept :: back) := parts ▸ inner
        have first : Apart front := (List.pairwise_append.mp apart).1
        have few : (firstSeen before).length < limit := by
          refine repeats before kept middle other [] (by rw [whole]) (fun earlier member => ?_) equal
          obtain ⟨known, stored, alike⟩ := gather_knows limit member
          rw [same] at stored
          by_contra again
          rw [Bool.not_eq_false] at again
          have unequal := (List.pairwise_append.mp apart).2.2 known stored kept List.mem_cons_self
          rw [BEq.trans alike again] at unequal
          cases unequal
        rw [← gather_eq_firstSeen (same ▸ first), same] at few
        refine unknown (List.any_eq_true.mpr ⟨kept, ?_, equal⟩)
        rw [parts]
        refine List.mem_take_iff_getElem.mpr ⟨front.length, Nat.lt_min.mpr ⟨few, by simp⟩, ?_⟩
        simp

end Equivalence

end RustSql.Foundation
