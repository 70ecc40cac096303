import Mathlib.Data.Nat.Bitwise

/-! Open addressing with a power of two of slots: a key is looked for from its home slot on,
slot by slot, up to the first slot that stops the walk. -/

namespace RustSql.Foundation

/-- The first slot from `slot` on that stops the walk. -/
def seek (stop : Nat → Bool) (mask : Nat) : Nat → Nat → Option Nat
  | 0, _ => none
  | fuel + 1, slot => if stop slot then some slot else seek stop mask fuel ((slot + 1) &&& mask)

variable {stop other : Nat → Bool} {mask bits fuel slot found : Nat}

theorem masked_lt (full : mask + 1 = 2 ^ bits) (n : Nat) : n &&& mask < 2 ^ bits :=
  Nat.lt_of_le_of_lt Nat.and_le_right (by omega)

theorem masked_eq_mod (full : mask + 1 = 2 ^ bits) (n : Nat) : n &&& mask = n % 2 ^ bits := by
  obtain rfl : mask = 2 ^ bits - 1 := by omega
  exact Nat.and_two_pow_sub_one_eq_mod n bits

theorem seek_stops (full : mask + 1 = 2 ^ bits) (sought : seek stop mask fuel slot = some found)
    (inside : slot < 2 ^ bits) : stop found = true ∧ found < 2 ^ bits := by
  induction fuel generalizing slot with
  | zero => cases sought
  | succ fuel ih =>
    unfold seek at sought
    split at sought
    · cases sought
      exact ⟨‹_›, inside⟩
    · exact ih sought (masked_lt full _)

/-- Fewer stops do not move a walk whose own stop remains. -/
theorem seek_fewer (sought : seek stop mask fuel slot = some found)
    (fewer : ∀ n, other n = true → stop n = true) (remains : other found = true) :
    seek other mask fuel slot = some found := by
  induction fuel generalizing slot with
  | zero => cases sought
  | succ fuel ih =>
    unfold seek at sought ⊢
    split at sought
    · cases sought
      rw [if_pos remains]
    · rename_i passed
      rw [if_neg (fun stopped => passed (fewer slot stopped)), ih sought]

theorem seek_none (full : mask + 1 = 2 ^ bits) (missed : seek stop mask fuel slot = none)
    (inside : slot < 2 ^ bits) : ∀ d < fuel, stop ((slot + d) % 2 ^ bits) = false := by
  induction fuel generalizing slot with
  | zero => exact fun d below => absurd below (Nat.not_lt_zero d)
  | succ fuel ih =>
    unfold seek at missed
    split at missed
    · cases missed
    · rename_i passed
      intro d below
      cases d with
      | zero =>
        rw [Nat.add_zero, Nat.mod_eq_of_lt inside]
        exact Bool.eq_false_iff.mpr passed
      | succ d =>
        have later := ih missed (masked_lt full _) d (Nat.lt_of_succ_lt_succ below)
        rw [masked_eq_mod full, Nat.mod_add_mod] at later
        rw [← later, Nat.add_assoc, Nat.add_comm 1 d]

/-- A walk over all slots meets every stop there is. -/
theorem seek_isSome (full : mask + 1 = 2 ^ bits) (inside : slot < 2 ^ bits) {target : Nat}
    (there : target < 2 ^ bits) (stopped : stop target = true) :
    ∃ found, seek stop mask (2 ^ bits) slot = some found := by
  cases missed : seek stop mask (2 ^ bits) slot with
  | some found => exact ⟨found, rfl⟩
  | none =>
    have passed := seek_none full missed inside ((target + 2 ^ bits - slot) % 2 ^ bits)
      (Nat.mod_lt _ (Nat.two_pow_pos bits))
    have reached : (slot + (target + 2 ^ bits - slot) % 2 ^ bits) % 2 ^ bits = target := by
      rw [Nat.add_mod_mod, Nat.add_sub_cancel' (by omega), Nat.add_mod_right, Nat.mod_eq_of_lt there]
    rw [reached, stopped] at passed
    cases passed

end RustSql.Foundation
