import Mathlib.Data.List.Nodup
import Mathlib.Data.List.Perm.Subperm
import RustSql.Session.CaptureRecord
import RustSql.Session.Generate

/-! The resolution of a change by its key: placeholders are numbered by columns, values packed. -/

namespace RustSql.Session

open RustSql.Foundation RustSql.Types

/-- The columns with a flag, in order. -/
def keyColumns (abPk : List UInt8) : List Nat :=
  (List.range abPk.length).filter fun i => abPk.getD i 0 != 0

theorem keyColumns_cons (pk : UInt8) (abPk : List UInt8) :
    keyColumns (pk :: abPk) =
      (if pk ≠ 0 then [0] else []) ++ (keyColumns abPk).map Nat.succ := by
  rw [keyColumns, List.length_cons, List.range_succ_eq_map, List.filter_cons, List.filter_map]
  by_cases key : pk = 0
  · rw [if_neg (by simp [key]), if_neg (not_not.mpr key)]
    rfl
  · rw [if_pos (by simpa using key), if_pos key]
    rfl

/-- No column without a flag stands before one with a flag. -/
def KeysFirst (abPk : List UInt8) : Prop :=
  ∀ i j, i < j → j ∈ keyColumns abPk → i ∈ keyColumns abPk

theorem keyColumns_nodup (abPk : List UInt8) : (keyColumns abPk).Nodup :=
  List.nodup_range.filter _

/-- The flags come first just when the columns with a flag are the first ones. -/
theorem keysFirst_iff {abPk : List UInt8} :
    KeysFirst abPk ↔ ∀ c ∈ keyColumns abPk, c < (keyColumns abPk).length := by
  constructor
  · intro first c member
    have below : List.range (c + 1) ⊆ keyColumns abPk := by
      intro i inside
      rcases Nat.lt_succ_iff_lt_or_eq.mp (List.mem_range.mp inside) with earlier | rfl
      · exact first i c earlier member
      · exact member
    have length := (List.subperm_of_subset List.nodup_range below).length_le
    rw [List.length_range] at length
    exact length
  · intro low i j earlier member
    have inside : keyColumns abPk ⊆ List.range (keyColumns abPk).length :=
      fun c member => List.mem_range.mpr (low c member)
    have same := (List.subperm_of_subset (keyColumns_nodup abPk) inside).perm_of_length_le
      (by rw [List.length_range])
    exact same.mem_iff.mpr (List.mem_range.mpr (earlier.trans (low j member)))

theorem keyColumns_sorted (abPk : List UInt8) : (keyColumns abPk).Pairwise (· < ·) :=
  List.pairwise_lt_range.filter _

theorem keyColumns_of_keysFirst {abPk : List UInt8} (first : KeysFirst abPk) :
    keyColumns abPk = List.range (keyColumns abPk).length := by
  have inside : keyColumns abPk ⊆ List.range (keyColumns abPk).length :=
    fun c member => List.mem_range.mpr (keysFirst_iff.mp first c member)
  have same := (List.subperm_of_subset (keyColumns_nodup abPk) inside).perm_of_length_le
    (by rw [List.length_range])
  exact same.eq_of_pairwise (fun _ _ _ _ up down => absurd up (Nat.lt_asymm down))
    (keyColumns_sorted abPk) List.pairwise_lt_range

theorem pickKey_keyColumns {α : Type} {abPk : List UInt8} {xs : List α}
    (wide : xs.length = abPk.length) :
    (pickKey abPk xs).map some = (keyColumns abPk).map (xs[·]?) := by
  induction abPk generalizing xs with
  | nil => rfl
  | cons pk abPk ih =>
    match xs with
    | x :: xs =>
      have rest := ih (Nat.succ.inj wide)
      rw [pickKey, keyColumns_cons, List.map_append, List.map_map]
      by_cases key : pk = 0
      · rw [if_neg (not_not.mpr key), if_neg (not_not.mpr key), rest]
        rfl
      · rw [if_pos key, if_pos key, List.map_cons, rest]
        rfl

namespace SessionTable

variable {t : SessionTable}

theorem whereTerms_eq (t : SessionTable) :
    t.whereTerms = (keyColumns t.abPk).map fun i => ⟨t.azCol.getD i [], i + 1⟩ := by
  rw [whereTerms, keyColumns, ← List.filterMap_eq_map, List.filterMap_filter]
  congr 1
  funext i
  by_cases key : t.abPk.getD i 0 = 0 <;> simp

/-- The record of a change: a field for each column, and a value in each key column. -/
structure StoredRecord (t : SessionTable) where
  fields : List (Option Datum)
  wide : fields.length = t.abPk.length
  keyed : ∀ field ∈ pickKey t.abPk fields, field.isSome

def StoredRecord.bytes (stored : StoredRecord t) : List UInt8 :=
  recordOf (stored.fields.map Field.of)

/-- The value stored for a column. -/
def StoredRecord.value (stored : StoredRecord t) (i : Nat) : Option Value :=
  stored.fields[i]?.join.map fun v => shownValue v.1

theorem pkValuesFrom_fields {abPk : List UInt8} {fields : List (Option Datum)}
    {rec rest : List UInt8} {pos : Nat} (fits : rec.length < 2 ^ 64)
    (wide : fields.length = abPk.length)
    (keyed : ∀ field ∈ pickKey abPk fields, field.isSome)
    (there : rec.drop pos = recordOf (fields.map Field.of) ++ rest) :
    ∃ vals, pkValuesFrom rec pos abPk = .ok (some vals) ∧
      vals.map some = (pickKey abPk fields).map (Option.map fun v => shownValue v.1) := by
  induction abPk generalizing fields pos with
  | nil => exact ⟨[], rfl, rfl⟩
  | cons pk abPk ih =>
    match fields with
    | field :: fields =>
      rw [List.map_cons, recordOf_cons, List.append_assoc] at there
      have read := parseValue_field (Field.of field) fits there
      rw [pickKey] at keyed ⊢
      rw [pkValuesFrom, read]
      simp only [Checked.attempt, Checked.ok_bind]
      by_cases key : pk = 0
      · rw [if_neg (not_not.mpr key)] at keyed ⊢
        rw [if_neg (not_not.mpr key)]
        exact ih (Nat.succ.inj wide) keyed (drop_append_of_eq there)
      · rw [if_pos key] at keyed ⊢
        rw [if_pos key]
        obtain ⟨vals, rest, same⟩ := ih (Nat.succ.inj wide)
          (fun field member => keyed field (List.mem_cons_of_mem _ member))
          (drop_append_of_eq there)
        obtain ⟨v, rfl⟩ := Option.isSome_iff_exists.mp (keyed field List.mem_cons_self)
        rw [toValue_field v]
        simp only
        rw [rest, Checked.ok_bind]
        exact ⟨shownValue v.1 :: vals, rfl, by rw [List.map_cons, List.map_cons, same]; rfl⟩

/-- The values packed for a change are those of its key columns. -/
theorem pkValuesOf_stored (stored : StoredRecord t) (fits : stored.bytes.length < 2 ^ 63) :
    ∃ vals, t.pkValuesOf stored.bytes = .ok (some vals) ∧
      vals.map some = (keyColumns t.abPk).map stored.value := by
  have there : stored.bytes.drop 0 = recordOf (stored.fields.map Field.of) ++ [] := by
    rw [List.drop_zero, List.append_nil]
    rfl
  obtain ⟨vals, read, same⟩ := pkValuesFrom_fields (by omega) stored.wide stored.keyed there
  refine ⟨vals, read, ?_⟩
  have picked := congrArg (List.map fun field => Option.map (fun v : Datum => shownValue v.1) field.join)
    (pickKey_keyColumns stored.wide)
  rw [List.map_map, List.map_map] at picked
  rw [same]
  exact picked

/-- Each equation is about a key column, and what is bound to it is the column's stored value. -/
def ResolvesByKey (t : SessionTable) (stored : StoredRecord t) : Prop :=
  ∃ vals, t.pkValuesOf stored.bytes = .ok (some vals) ∧
    List.Forall₂ (fun i term => term.column = t.azCol.getD i [] ∧
      ∃ v, stored.value i = some v ∧ term.bound vals = some v) (keyColumns t.abPk) t.whereTerms

theorem resolves_by_key (t : SessionTable) (stored : StoredRecord t)
    (fits : stored.bytes.length < 2 ^ 63) : ResolvesByKey t stored ↔ KeysFirst t.abPk := by
  obtain ⟨vals, read, same⟩ := pkValuesOf_stored stored fits
  have length : vals.length = (keyColumns t.abPk).length := by
    have length := congrArg List.length same
    rwa [List.length_map, List.length_map] at length
  constructor
  · rintro ⟨vals', read', bound⟩
    rw [read, Except.ok.injEq, Option.some.injEq] at read'
    subst read'
    rw [whereTerms_eq, List.forall₂_map_right_iff, List.forall₂_same] at bound
    refine keysFirst_iff.mpr fun c member => ?_
    obtain ⟨_, v, _, there⟩ := bound c member
    rw [← length]
    exact (List.getElem?_eq_some_iff.mp there).1
  · intro first
    refine ⟨vals, read, ?_⟩
    rw [whereTerms_eq, List.forall₂_map_right_iff, List.forall₂_same]
    intro c member
    refine ⟨rfl, ?_⟩
    have inside := keysFirst_iff.mp first c member
    have column : (keyColumns t.abPk)[c] = c := by
      have at_c := congrArg (·[c]?) (keyColumns_of_keysFirst first)
      rw [List.getElem?_eq_getElem inside, List.getElem?_range inside] at at_c
      exact Option.some.inj at_c
    have value := congrArg (·[c]?) same
    simp only [List.getElem?_map, List.getElem?_eq_getElem inside, Option.map_some, column] at value
    rw [List.getElem?_eq_getElem (by omega), Option.map_some, Option.some.injEq] at value
    exact ⟨vals[c], value.symm, List.getElem?_eq_getElem (show c < vals.length by omega)⟩

/-- A table of two columns by the flags of their key. -/
def pairTable (abPk : List UInt8) : SessionTable :=
  { SessionTable.new (ascii "t") with
    nCol := 2
    abPk
    azCol := [ascii "a", ascii "b"]
    initialized := true }

def pairRecord (first second : UInt8) : StoredRecord (pairTable [first, second]) :=
  { fields := [some ⟨.integer 1, trivial⟩, some ⟨.integer 2, trivial⟩]
    wide := rfl
    keyed := by
      intro field member
      have both : field ∈ [some (⟨.integer 1, trivial⟩ : Datum), some ⟨.integer 2, trivial⟩] := by
        simp only [pairTable, pickKey] at member
        split at member <;> split at member <;> simp_all
      rcases List.mem_cons.mp both with rfl | second
      · rfl
      · rw [List.mem_singleton.mp second]
        rfl }

theorem resolves_leading_key : ResolvesByKey (pairTable [1, 0]) (pairRecord 1 0) :=
  (resolves_by_key (pairTable [1, 0]) (pairRecord 1 0) (by decide)).mpr (by
    intro i j earlier member
    have low : j ∈ [0] := member
    rw [List.mem_singleton.mp low] at earlier
    exact absurd earlier (Nat.not_lt_zero i))

/-- The key `b` behind the column `a` is looked up by `?2`, and one value is bound. -/
theorem resolves_trailing_key_not : ¬ ResolvesByKey (pairTable [0, 1]) (pairRecord 0 1) := by
  rintro ⟨vals, read, bound⟩
  have packed : (pairTable [0, 1]).pkValuesOf (pairRecord 0 1).bytes =
      .ok (some [.integer 2]) := by decide
  rw [packed, Except.ok.injEq, Option.some.injEq] at read
  subst read
  have terms : (pairTable [0, 1]).whereTerms = [⟨ascii "b", 2⟩] := rfl
  rw [terms] at bound
  obtain ⟨_, v, _, there⟩ := (List.forall₂_cons.mp bound).1
  cases there

end SessionTable

end RustSql.Session
