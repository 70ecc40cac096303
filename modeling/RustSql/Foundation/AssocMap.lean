import Mathlib.Data.List.AList

/-! Finite maps as association lists, read through `lookup`. -/

namespace RustSql.Foundation

universe u v

/-- A finite map from `Key` to `Value`. -/
abbrev AssocMap (Key : Type u) (Value : Type v) := AList (fun _ : Key => Value)

namespace AssocMap

variable {Key : Type u} {Value : Type v} [DecidableEq Key]

/-- Keep the entries whose key passes the test. -/
def retain (keep : Key → Bool) (entries : AssocMap Key Value) : AssocMap Key Value where
  entries := entries.entries.filter (fun entry => keep entry.1)
  nodupKeys := List.NodupKeys.sublist List.filter_sublist entries.nodupKeys

theorem lookup_insert_eq (entries : AssocMap Key Value) (key target : Key) (value : Value) :
    (entries.insert key value).lookup target =
      if target = key then some value else entries.lookup target := by
  by_cases same : target = key
  · subst same
    simp
  · simp [same, AList.lookup_insert_ne same]

theorem lookup_erase_eq (entries : AssocMap Key Value) (key target : Key) :
    (entries.erase key).lookup target =
      if target = key then none else entries.lookup target := by
  by_cases same : target = key
  · subst same
    simp
  · simp [same, AList.lookup_erase_ne same]

theorem lookup_retain (keep : Key → Bool) (entries : AssocMap Key Value) (target : Key) :
    (entries.retain keep).lookup target =
      if keep target then entries.lookup target else none := by
  by_cases kept : keep target = true
  · rw [if_pos kept]
    apply Option.ext
    intro value
    rw [← Option.mem_def, ← Option.mem_def, AList.mem_lookup_iff, AList.mem_lookup_iff]
    simp [retain, kept]
  · rw [if_neg kept, AList.lookup_eq_none, AList.mem_keys]
    intro member
    obtain ⟨entry, found, same⟩ := List.mem_map.mp member
    have passed := (List.mem_filter.mp found).2
    exact kept (same ▸ passed)

end AssocMap

end RustSql.Foundation
