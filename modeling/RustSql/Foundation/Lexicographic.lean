import Mathlib.Data.Nat.Basic
import Mathlib.Data.List.Basic
import Mathlib.Order.Compare
import Mathlib.Tactic.Ring

/-! Lexicographic comparison of code words. A prefix-free code that preserves
the order of single symbols preserves the order of whole rows of symbols. Among sorted keys those
that begin with a word stand together, behind all keys below the word. -/

namespace RustSql.Foundation

universe u v

section Codes

variable {α : Type u} {β : Type v} {cmp : β → β → Ordering}

/-- No code word is a proper prefix of another code word. -/
def PrefixFree (encode : α → List β) : Prop :=
  ∀ x y, encode x <+: encode y → encode x = encode y

/-- Neither word can end inside the other, so the first words decide unless
they agree completely. -/
theorem compareLex_append [Std.LawfulEqCmp cmp] (x y s t : List β)
    (left : x <+: y → x = y) (right : y <+: x → y = x) :
    List.compareLex cmp (x ++ s) (y ++ t) =
      (List.compareLex cmp x y).then (List.compareLex cmp s t) := by
  induction x generalizing y with
  | nil =>
    have same := left (List.nil_prefix)
    subst same
    simp [List.compareLex_nil_nil]
  | cons head rest ih =>
    cases y with
    | nil => exact absurd (right List.nil_prefix) (by simp)
    | cons other more =>
      simp only [List.cons_append, List.compareLex_cons_cons, Ordering.then_assoc]
      by_cases same : cmp head other = .eq
      · have heads := Std.LawfulEqCmp.eq_of_compare same
        subst heads
        rw [ih more]
        · intro part
          simpa using left ((List.prefix_cons_inj head).mpr part)
        · intro part
          simpa using right ((List.prefix_cons_inj head).mpr part)
      · cases decided : cmp head other <;> simp_all

/-- Rows of code words compare as the rows of symbols they encode. -/
theorem compareLex_flatMap [Std.LawfulEqCmp cmp]
    {encode : α → List β} {order : α → α → Ordering} (domain : α → Prop)
    (free : PrefixFree encode)
    (single : ∀ x y, domain x → domain y →
      List.compareLex cmp (encode x) (encode y) = order x y)
    (left right : List α) (length : left.length = right.length)
    (leftDomain : ∀ x ∈ left, domain x) (rightDomain : ∀ x ∈ right, domain x) :
    List.compareLex cmp (left.flatMap encode) (right.flatMap encode) =
      List.compareLex order left right := by
  induction left generalizing right with
  | nil =>
    have empty : right = [] := List.length_eq_zero_iff.mp length.symm
    simp [empty, List.compareLex_nil_nil]
  | cons x rest ih =>
    cases right with
    | nil => simp at length
    | cons y more =>
      simp only [List.flatMap_cons, List.compareLex_cons_cons]
      rw [compareLex_append _ _ _ _ (free x y) (free y x),
        single x y (leftDomain x (by simp)) (rightDomain y (by simp)),
        ih more (by simpa using length)
          (fun z member => leftDomain z (by simp [member]))
          (fun z member => rightDomain z (by simp [member]))]

/-- A total word order distinguishes every two different words. -/
theorem compareLex_eq_iff [Std.LawfulEqCmp cmp] (x y : List β) :
    List.compareLex cmp x y = .eq ↔ x = y :=
  Std.LawfulEqCmp.compare_eq_iff_eq

/-- Rows of one length compare equal exactly when they do so value by value. -/
theorem compareLex_eq_forall₂ {order : α → α → Ordering} (left right : List α)
    (length : left.length = right.length) :
    List.compareLex order left right = .eq ↔
      List.Forall₂ (fun x y => order x y = .eq) left right := by
  induction left generalizing right with
  | nil =>
    have empty : right = [] := List.length_eq_zero_iff.mp length.symm
    simp [empty, List.compareLex_nil_nil]
  | cons x rest ih =>
    cases right with
    | nil => simp at length
    | cons y more =>
      rw [List.compareLex_cons_cons, Ordering.then_eq_eq, List.forall₂_cons,
        ih more (by simpa using length)]

end Codes

/-- The `width` low bytes of a number, most significant byte first. -/
def bigEndian : Nat → Nat → List UInt8
  | 0, _ => []
  | width + 1, n => UInt8.ofNat (n / 256 ^ width) :: bigEndian width n

@[simp] theorem bigEndian_length (width n : Nat) : (bigEndian width n).length = width := by
  induction width with
  | zero => rfl
  | succ width ih => simp [bigEndian, ih]

theorem compare_byte (x y : Nat) :
    compare (UInt8.ofNat x) (UInt8.ofNat y) = compare (x % 256) (y % 256) := by
  simp only [compare, compareOfLessAndEq, UInt8.lt_iff_toNat_lt, UInt8.toNat_ofNat',
    ← UInt8.toNat_inj]

/-- Two-digit comparison in a positional system. -/
theorem compare_digits (base high high' low low' : Nat)
    (bound : low < base) (bound' : low' < base) :
    compare (high * base + low) (high' * base + low') =
      (compare high high').then (compare low low') := by
  rcases Nat.lt_trichotomy high high' with less | same | more
  · have step : high * base + base ≤ high' * base := by
      calc high * base + base = (high + 1) * base := by ring
        _ ≤ high' * base := Nat.mul_le_mul_right _ less
    rw [compare_lt_iff_lt.mpr less, compare_lt_iff_lt.mpr (by omega)]
    rfl
  · subst same
    rw [compare_eq_iff_eq.mpr rfl]
    rcases Nat.lt_trichotomy low low' with less | same | more
    · rw [compare_lt_iff_lt.mpr less, compare_lt_iff_lt.mpr (by omega)]; rfl
    · rw [same, compare_eq_iff_eq.mpr rfl, compare_eq_iff_eq.mpr rfl]; rfl
    · rw [compare_gt_iff_gt.mpr more, compare_gt_iff_gt.mpr (by omega)]; rfl
  · have step : high' * base + base ≤ high * base := by
      calc high' * base + base = (high' + 1) * base := by ring
        _ ≤ high * base := Nat.mul_le_mul_right _ more
    rw [compare_gt_iff_gt.mpr more, compare_gt_iff_gt.mpr (by omega)]
    rfl

/-- Byte order of big-endian words is the order of the numbers they hold. -/
theorem compareLex_bigEndian (width x y : Nat) :
    List.compareLex compare (bigEndian width x) (bigEndian width y) =
      compare (x % 256 ^ width) (y % 256 ^ width) := by
  induction width with
  | zero => simp [bigEndian, List.compareLex_nil_nil, Nat.mod_one]
  | succ width ih =>
    have split (n : Nat) : n % 256 ^ (width + 1) =
        (n / 256 ^ width % 256) * 256 ^ width + n % 256 ^ width := by
      rw [pow_succ, Nat.mod_mul]
      ring
    have positive : 0 < 256 ^ width := Nat.pow_pos (by decide)
    rw [split x, split y,
      compare_digits _ _ _ _ _ (Nat.mod_lt _ positive) (Nat.mod_lt _ positive)]
    simp only [bigEndian, List.compareLex_cons_cons, compare_byte, ih]

end RustSql.Foundation

namespace RustSql.Foundation

universe u v

variable {α : Type u} {β : Type v} {cmp : β → β → Ordering}

/-- What begins with a word is not below it. -/
theorem isGE_of_initial [Std.LawfulEqCmp cmp] {word key : List β} (part : word <+: key) :
    (List.compareLex cmp key word).isGE := by
  induction word generalizing key with
  | nil =>
    cases key with
    | nil => simp [List.compareLex_nil_nil]
    | cons head rest => simp [List.compareLex_cons_nil]
  | cons first word ih =>
    cases key with
    | nil => exact absurd part (by simp)
    | cons head rest =>
      obtain ⟨rfl, later⟩ := List.cons_prefix_cons.mp part
      have same : cmp first first = .eq := Std.ReflCmp.compare_self
      rw [List.compareLex_cons_cons, same]
      exact ih later

/-- Between a word and a key that begins with it, every key does. -/
theorem initial_of_between [Std.LawfulEqCmp cmp] {word middle key : List β} (part : word <+: key)
    (above : (List.compareLex cmp middle word).isGE) (below : (List.compareLex cmp middle key).isLE) :
    word <+: middle := by
  induction word generalizing middle key with
  | nil => exact List.nil_prefix
  | cons first word ih =>
    cases key with
    | nil => exact absurd part (by simp)
    | cons head rest =>
      obtain ⟨rfl, later⟩ := List.cons_prefix_cons.mp part
      cases middle with
      | nil => simp [List.compareLex_nil_cons] at above
      | cons other middle =>
        rw [List.compareLex_cons_cons] at above below
        cases order : cmp other first with
        | lt => simp [order] at above
        | gt => simp [order] at below
        | eq =>
          obtain rfl := Std.LawfulEqCmp.eq_of_compare order
          rw [order] at above below
          exact List.cons_prefix_cons.mpr ⟨rfl, ih later above below⟩

/-- Of a property that holds of all before where it holds, the front part is all of it. -/
theorem takeWhile_eq_filter {holds : α → Bool} {entries : List α}
    (before : entries.Pairwise fun one two => holds two = true → holds one = true) :
    entries.takeWhile holds = entries.filter holds := by
  induction entries with
  | nil => rfl
  | cons entry rest ih =>
    rw [List.pairwise_cons] at before
    by_cases here : holds entry = true
    · rw [List.takeWhile_cons_of_pos here, List.filter_cons_of_pos here, ih before.2]
    · rw [List.takeWhile_cons_of_neg here, List.filter_cons_of_neg here]
      exact (List.filter_eq_nil_iff.mpr fun other member later => here (before.1 other member later)).symm

/-- The entries from the first key on that is not below the word. -/
def scanFrom (cmp : β → β → Ordering) (key : α → List β) (word : List β) (entries : List α) : List α :=
  entries.dropWhile fun entry => List.compareLex cmp (key entry) word == .lt

/-- A scan from a word on, as far as the keys begin with it, finds all keys that do. -/
theorem scanFrom_takeWhile [DecidableEq β] [Std.LawfulEqCmp cmp] [Std.TransCmp cmp]
    {key : α → List β} {word : List β} {entries : List α}
    (sorted : entries.Pairwise fun one two => (List.compareLex cmp (key one) (key two)).isLE) :
    (scanFrom cmp key word entries).takeWhile (fun entry => decide (word <+: key entry)) =
      entries.filter fun entry => decide (word <+: key entry) := by
  induction entries with
  | nil => rfl
  | cons entry rest ih =>
    have ordered := List.pairwise_cons.mp sorted
    by_cases below : List.compareLex cmp (key entry) word = .lt
    · have apart : ¬ word <+: key entry := fun part => by
        have above := @isGE_of_initial _ cmp _ _ _ part
        rw [below] at above
        cases above
      rw [scanFrom, List.dropWhile_cons_of_pos (by simp [below]), List.filter_cons_of_neg (by simp [apart])]
      exact ih ordered.2
    · -- nothing is below the word any more
      have first : (List.compareLex cmp word (key entry)).isLE := by
        rw [@Std.OrientedCmp.eq_swap _ (List.compareLex cmp)]
        cases order : List.compareLex cmp (key entry) word <;> simp_all
      have above : ∀ other ∈ entry :: rest, (List.compareLex cmp (key other) word).isGE := by
        intro other member
        have least : (List.compareLex cmp word (key other)).isLE := by
          rcases List.mem_cons.mp member with rfl | later
          · exact first
          · exact Std.TransCmp.isLE_trans first (ordered.1 other later)
        rw [@Std.OrientedCmp.eq_swap _ (List.compareLex cmp)]
        simpa using least
      rw [scanFrom, List.dropWhile_cons_of_neg (by simp [below])]
      refine takeWhile_eq_filter (sorted.imp_of_mem fun one _ order part => ?_)
      rw [decide_eq_true_eq] at part ⊢
      exact initial_of_between part (above _ one) order

end RustSql.Foundation
