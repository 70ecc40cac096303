import RustSql.Session.GroupRun

/-! The output of a group as a changeset of its own. -/

namespace RustSql.Session

open RustSql.Foundation RustSql.Types

/-- The values in the key columns of a change. -/
def Change.keyValues (change : Change) : List (Option SessVal) :=
  pickKey change.pk (if change.op = .insert then change.new else change.old)

theorem pickKey_unkeyed {α : Type} {abPk : List UInt8} (unkeyed : ∀ pk ∈ abPk, pk = 0)
    (xs : List α) : pickKey abPk xs = [] := by
  induction abPk generalizing xs with
  | nil => rfl
  | cons pk abPk ih =>
    cases xs with
    | nil => rfl
    | cons x xs =>
      rw [pickKey, if_neg (not_not.mpr (unkeyed pk List.mem_cons_self)),
        ih fun pk member => unkeyed pk (List.mem_cons_of_mem _ member)]

theorem pickKey_spreadKey {abPk : List UInt8} {vals : List SessVal}
    (wide : vals.length = abPk.countP (· ≠ 0)) :
    pickKey abPk (ChangesetIter.spreadKey abPk vals) = vals.map some := by
  induction abPk generalizing vals with
  | nil =>
    rw [List.length_eq_zero_iff.mp wide]
    rfl
  | cons pk abPk ih =>
    rw [ChangesetIter.spreadKey]
    by_cases key : pk ≠ 0
    · rw [List.countP_cons_of_pos (by simpa using key)] at wide
      match vals with
      | v :: vals =>
        rw [if_pos key, pickKey, if_pos key, List.tail_cons, ih (Nat.succ.inj wide)]
        rfl
    · rw [List.countP_cons_of_neg (by simpa using key)] at wide
      rw [if_neg key, pickKey, if_neg key, ih wide]

theorem keyPart_keyed {α : Type} {abPk : List UInt8} {xs : List α}
    (wide : xs.length = abPk.countP (· ≠ 0)) : keyPart true abPk xs = xs := by
  induction abPk generalizing xs with
  | nil =>
    rw [List.length_eq_zero_iff.mp wide]
    rfl
  | cons pk abPk ih =>
    rw [keyPart]
    by_cases key : pk = 0
    · rw [List.countP_cons_of_neg (by simpa using key)] at wide
      rw [if_pos ⟨rfl, key⟩, ih wide]
    · rw [List.countP_cons_of_pos (by simpa using key)] at wide
      obtain ⟨x, xs, rfl⟩ := List.exists_cons_of_length_eq_add_one wide
      rw [if_neg (fun both => key both.2), if_pos key, List.tail_cons, ih (Nat.succ.inj wide)]
      rfl

namespace GroupTable

variable {t : GroupTable}

/-- The key values of a change read back are those of the key it was written with. -/
theorem keyValues_changeOf {e : GroupEntry} {fields : List Field}
    (wide : fields.length = entryWidth t.abPk t.bPatch e.op) (shown : Shown t.abPk t.bPatch e.op) :
    (changeOf t e fields).keyValues =
      ((keyOf t.abPk t.bPatch e.op fields).map Subtype.val).map fun field => some (valueOf field) := by
  have values : ∀ xs : List Field, ((xs.map Subtype.val).map fun field => some (valueOf field)) =
      (xs.map fun field => valueOf field.1).map some := fun xs => by
    rw [List.map_map, List.map_map]
    rfl
  rw [values]
  obtain ⟨op, indirect, record⟩ := e
  simp only at wide shown
  simp only [Change.keyValues, changeOf]
  unfold sidesOf
  unfold entryWidth at wide
  cases patch : t.bPatch <;> rw [patch] at wide shown <;> cases op <;>
    simp only [Bool.false_eq_true, if_false, if_true, reduceCtorEq] at wide ⊢
  case true.delete =>
    rw [pickKey_spreadKey (by rw [List.length_map]; exact wide), keyOf,
      show bPkOnlyEntry .delete true = true from rfl, keyPart_keyed wide]
  case true.update =>
    have unkeyed : ∀ pk ∈ t.abPk, pk = 0 := fun pk member => by
      by_contra key
      exact shown ⟨rfl, rfl, pk, member, key⟩
    rw [keyOf_full _ rfl, pickKey_unkeyed unkeyed, pickKey_unkeyed unkeyed]
    rfl
  case false.update =>
    rw [keyOf_full _ rfl, ← pickKey_map, ← pickKey_map, ← List.map_take]
    conv_rhs => rw [← List.take_append_drop t.abPk.length fields, List.map_append, List.map_append,
      pickKey_append (by
        rw [List.length_map, List.length_map, List.length_take]
        omega)]
  all_goals rw [keyOf_full _ rfl, ← pickKey_map, ← pickKey_map]

/-- An entry is the one the table has for its key. -/
def AtEntry (t : GroupTable) (e : GroupEntry × List Field) : Prop :=
  t.At ((keyOf t.abPk t.bPatch e.1.op e.2).map Subtype.val) (some (e.1.op, e.2))

/-- The entries of a table with the fields they are written from. -/
theorem Kept.legible (kept : t.Kept) (entered : t.Entered) :
    ∃ entries : List (GroupEntry × List Field), entries.map Prod.fst = t.chains.listed ∧
      ∀ e ∈ entries, ChangesetIter.Legible t e ∧ t.AtEntry e := by
  have each : ∀ e ∈ t.chains.listed, ∃ fields, ChangesetIter.Legible t (e, fields) ∧
      t.AtEntry (e, fields) := by
    intro e member
    have has := kept.filed.mem_listed.mp member
    obtain ⟨fields, record, filled⟩ := kept.filled has
    obtain ⟨op, indirect, rec⟩ := e
    simp only at record filled
    subst record
    have there : t.AtEntry (⟨op, indirect, recordOf fields⟩, fields) := ⟨indirect, has, filled, rfl⟩
    exact ⟨fields, ⟨rfl, filled.wide, entered _ op fields there⟩, there⟩
  generalize t.chains.listed = listed at each
  induction listed with
  | nil => exact ⟨[], rfl, nofun⟩
  | cons e listed ih =>
    obtain ⟨fields, first⟩ := each e List.mem_cons_self
    obtain ⟨entries, same, rest⟩ := ih fun e member => each e (List.mem_cons_of_mem _ member)
    refine ⟨(e, fields) :: entries, by rw [List.map_cons, same], fun e' member => ?_⟩
    rcases List.mem_cons.mp member with rfl | later
    · exact first
    · exact rest e' later

theorem plain_injective {key key' : RowKey} (plain : Plain key) (plain' : Plain key')
    (same : (key.map fun field => some (valueOf field)) = key'.map fun field => some (valueOf field)) :
    key = key' := by
  have written_key : ∀ {key : RowKey}, Plain key →
      (key.map fun field => some (valueOf field)).filterMap (Option.map written) = key := by
    intro key plain
    rw [List.filterMap_map]
    refine (List.filterMap_congr fun field member => ?_).trans List.filterMap_some
    simp only [Function.comp, Option.map_some]
    rw [← plain field member]
  rw [← written_key plain, same, written_key plain']

/-- No key of a table is read back twice. -/
theorem Kept.keys_nodup (kept : t.Kept) {entries : List (GroupEntry × List Field)}
    (listed : entries.map Prod.fst = t.chains.listed)
    (each : ∀ e ∈ entries, ChangesetIter.Legible t e ∧ t.AtEntry e)
    (plain : ∀ e ∈ entries, Plain ((keyOf t.abPk t.bPatch e.1.op e.2).map Subtype.val)) :
    ((entries.map fun e => changeOf t e.1 e.2).map Change.keyValues).Nodup := by
  have keys := kept.filed.nodup_listed
  rw [← listed, List.map_map, List.Nodup, List.pairwise_map] at keys
  rw [List.map_map, List.Nodup, List.pairwise_map]
  refine keys.imp_of_mem fun {e e'} first second apart same => apart ?_
  obtain ⟨legible, _, _, filled, _⟩ := each e first
  obtain ⟨legible', _, _, filled', _⟩ := each e' second
  simp only [Function.comp] at same ⊢
  rw [keyValues_changeOf legible.wide legible.shown,
    keyValues_changeOf legible'.wide legible'.shown] at same
  rw [entryKey, entryKey, legible.record, legible'.record, filled.keyFields, filled'.keyFields,
    plain_injective (plain e first) (plain e' second) same]

end GroupTable

namespace ChangeGroup

variable {g g' : ChangeGroup}

theorem tableBytes_eq {t : GroupTable} (kept : t.Kept) :
    tableBytes t = if t.chains.listed = [] then []
      else headerBytes t ++ t.chains.listed.flatMap entryBytes := by
  have vacant : t.nEntry = 0 ↔ t.chains.listed = [] := by
    rw [kept.counted, HashChains.count_eq_zero, List.eq_nil_iff_forall_not_mem]
    constructor
    · intro dead e member
      obtain ⟨id, live⟩ := kept.filed.mem_listed.mp member
      rw [dead id] at live
      cases live
    · intro none id
      match live : t.chains.live id with
      | some e => exact absurd (kept.filed.mem_listed.mpr ⟨id, live⟩) (none e)
      | Option.none => rfl
  rw [tableBytes]
  by_cases empty : t.nEntry = 0
  · rw [if_pos empty, if_pos (vacant.mp empty)]
  · rw [if_neg empty, if_neg (mt vacant.mpr empty)]
    rw [@HashChains.flatMap_listed _ t.chains _ entryBytes]
    intro id
    cases t.chains.live id <;> rfl

/-- A table of the group with its entries as they are written. -/
structure Written (t : GroupTable) (entries : List (GroupEntry × List Field)) : Prop where
  kept : t.Kept
  headed : ChangesetIter.Headed t.name t.nCol t.abPk
  listed : entries.map Prod.fst = t.chains.listed
  each : ∀ e ∈ entries, ChangesetIter.Legible t e ∧ t.AtEntry e

/-- The tables of a group that have entries, each with its entries. -/
structure Tables (g : ChangeGroup) (tables : List (GroupTable × List (GroupEntry × List Field))) :
    Prop where
  bytes : g.output = tables.flatMap ChangesetIter.tableChunk
  names : (tables.map fun table => lowered table.1.name).Nodup
  entries : (tables.flatMap fun table => table.2.map fun e => (table.1.name, e.1)) =
    g.tables.flatMap fun t => t.chains.listed.map fun e => (t.name, e)
  each : ∀ table ∈ tables, table.1 ∈ g.tables ∧ Written table.1 table.2

/-- The output of a group is made of its tables that have entries. -/
theorem Whole.written (whole : g.Whole) : ∃ tables, g.Tables tables := by
  suffices made : ∃ tables : List (GroupTable × List (GroupEntry × List Field)),
      g.output = tables.flatMap ChangesetIter.tableChunk ∧
      (tables.map fun table => lowered table.1.name).Nodup ∧
      (tables.flatMap fun table => table.2.map fun e => (table.1.name, e.1)) =
        (g.tables.flatMap fun t => t.chains.listed.map fun e => (t.name, e)) ∧
      ∀ table ∈ tables, table.1 ∈ g.tables ∧ Written table.1 table.2 by
    obtain ⟨tables, bytes, names, entries, each⟩ := made
    exact ⟨tables, bytes, names, entries, each⟩
  obtain ⟨_, names, kept, entered, headed, _⟩ := whole
  rw [output]
  generalize g.tables = all at names kept entered headed
  induction all with
  | nil => exact ⟨[], rfl, List.nodup_nil, rfl, nofun⟩
  | cons t all ih =>
    rw [List.map_cons, List.nodup_cons] at names
    obtain ⟨tables, bytes, apart, entries, each⟩ := ih names.2
      (fun t member => kept t (List.mem_cons_of_mem _ member))
      (fun t member => entered t (List.mem_cons_of_mem _ member))
      (fun t member => headed t (List.mem_cons_of_mem _ member))
    have kept_t := kept t List.mem_cons_self
    have later : ∀ table ∈ tables, table.1 ∈ t :: all ∧ Written table.1 table.2 :=
      fun table member => ⟨List.mem_cons_of_mem _ (each table member).1, (each table member).2⟩
    rw [List.flatMap_cons, List.flatMap_cons, tableBytes_eq kept_t]
    by_cases empty : t.chains.listed = []
    · refine ⟨tables, ?_, apart, ?_, later⟩
      · rw [if_pos empty, List.nil_append, bytes]
      · rw [empty, List.map_nil, List.nil_append, entries]
    · obtain ⟨mine, listed, legible⟩ := kept_t.legible (entered t List.mem_cons_self)
      refine ⟨(t, mine) :: tables, ?_, ?_, ?_, fun table member => ?_⟩
      · rw [if_neg empty, bytes, List.flatMap_cons, ChangesetIter.tableChunk, ← listed,
          List.flatMap_map]
      · rw [List.map_cons, List.nodup_cons]
        refine ⟨fun again => names.1 ?_, apart⟩
        obtain ⟨table, member, same⟩ := List.mem_map.mp again
        exact List.mem_map.mpr ⟨table.1, (each table member).1, same⟩
      · rw [List.flatMap_cons, entries, ← listed, List.map_map]
        rfl
      · rcases List.mem_cons.mp member with rfl | rest
        · exact ⟨List.mem_cons_self, kept_t, headed t List.mem_cons_self, listed, legible⟩
        · exact later table rest

/-- A changeset the iterator reads to its end, with whole records and no row twice. -/
structure WellFormed (changes : List Change) : Prop where
  wide : ∀ change ∈ changes, change.nCol = change.pk.length ∧ ∃ fields,
    change.raw = recordOf fields ∧
      fields.length = entryWidth change.pk change.patchset change.op
  once : (changes.map fun change => (lowered change.table, change.keyValues)).Nodup

/-- The changes of the tables, as the iterator shows them. -/
def shownTables (tables : List (GroupTable × List (GroupEntry × List Field))) : List Change :=
  tables.flatMap fun table => table.2.map fun e => changeOf table.1 e.1 e.2

/-- The output of a group is read back. -/
theorem Tables.all {tables : List (GroupTable × List (GroupEntry × List Field))}
    (made : g.Tables tables) (allocated : g.output.length < 2 ^ 63) :
    (ChangesetIter.start g.output false).all = .ok (shownTables tables) := by
  have read := @ChangesetIter.foldChanges_tables (ChangesetIter.start g.output false)
    (by change g.output.length < _; omega) rfl tables
    (fun table member => (made.each table member).2.headed)
    (fun table member e inside => ((made.each table member).2.each e inside).1) made.bytes []
  rwa [List.nil_append] at read

variable {tables : List (GroupTable × List (GroupEntry × List Field))}

/-- The entries of a table are the changes of its rows. -/
theorem Tables.at (whole : g.Whole) (made : g.Tables tables)
    {table : GroupTable × List (GroupEntry × List Field)} (member : table ∈ tables)
    {e : GroupEntry × List Field} (entry : e ∈ table.2) :
    g.At (lowered table.1.name)
      ((keyOf table.1.abPk table.1.bPatch e.1.op e.2).map Subtype.val) (some (e.1.op, e.2)) := by
  obtain ⟨inside, written⟩ := made.each table member
  rw [At, whole.tableNamed inside]
  exact (written.each e entry).2

theorem Tables.wellFormed (whole : g.Whole) (plain : g.PlainKeys) (made : g.Tables tables) :
    WellFormed (shownTables tables) := by
  constructor
  · intro change member
    obtain ⟨table, inside, member⟩ := List.mem_flatMap.mp member
    obtain ⟨e, entry, rfl⟩ := List.mem_map.mp member
    have written := (made.each table inside).2
    obtain ⟨legible, _⟩ := written.each e entry
    exact ⟨written.headed.cols, e.2, legible.record, legible.wide⟩
  · rw [shownTables, List.map_flatMap, List.Nodup, List.pairwise_flatMap]
    constructor
    · intro table member
      have written := (made.each table member).2
      have keys := written.kept.keys_nodup written.listed written.each
        fun e entry => plain _ _ _ (made.at whole member entry)
      rw [List.Nodup, List.pairwise_map] at keys
      rw [List.pairwise_map]
      exact keys.imp fun apart same => apart (Prod.mk.inj same).2
    · have names := made.names
      rw [List.Nodup, List.pairwise_map] at names
      refine names.imp fun apart a first b second same => apart ?_
      rw [List.map_map] at first second
      obtain ⟨_, _, rfl⟩ := List.mem_map.mp first
      obtain ⟨_, _, rfl⟩ := List.mem_map.mp second
      exact (Prod.mk.inj same).1

theorem Tables.shown (made : g.Tables tables) :
    ((shownTables tables).map fun change =>
        (change.table, (⟨change.op, change.indirect, change.raw⟩ : GroupEntry))) =
      g.tables.flatMap fun t => t.chains.listed.map fun e => (t.name, e) := by
  rw [← made.entries, shownTables, List.map_flatMap]
  refine List.flatMap_congr fun table member => ?_
  rw [List.map_map]
  rfl

/-- Every change fits the group it is added to. -/
def FitChanges (g : ChangeGroup) : List Change → Prop
  | [] => True
  | change :: rest => g.Fit change ∧ ∀ g', g.addOne change = .ok g' → g'.FitChanges rest

/-- Every change of every input fits. -/
def FitAdds (g : ChangeGroup) : List (List UInt8) → Prop
  | [] => True
  | cs :: rest =>
    (∀ changes, (ChangesetIter.start cs false).all = .ok changes → g.FitChanges changes) ∧
      ∀ g', g.add cs = .ok g' → g'.FitAdds rest

theorem Whole.changes (whole : g.Whole) (plain : g.PlainKeys) {changes : List Change}
    (fit : g.FitChanges changes) (given : ∀ change ∈ changes, Given change)
    (added : changes.foldlM ChangeGroup.addOne g = .ok g') : g'.Whole ∧ g'.PlainKeys := by
  induction changes generalizing g with
  | nil =>
    cases added
    exact ⟨whole, plain⟩
  | cons change changes ih =>
    rw [List.foldlM_cons] at added
    obtain ⟨g₁, first, rest⟩ := Checked.bind_ok_iff.mp added
    obtain ⟨whole', plain'⟩ := whole.addOne plain fit.1 (given change List.mem_cons_self) first
    exact ih whole' plain' (fit.2 g₁ first)
      (fun change member => given change (List.mem_cons_of_mem _ member)) rest

theorem Whole.add (whole : g.Whole) (plain : g.PlainKeys) {cs : List UInt8}
    (fit : ∀ changes, (ChangesetIter.start cs false).all = .ok changes → g.FitChanges changes)
    (added : g.add cs = .ok g') : g'.Whole ∧ g'.PlainKeys := by
  obtain ⟨changes, collected, folded⟩ := ChangesetIter.foldChanges_all added
  have given := ChangesetIter.foldChanges_given (fun named => absurd rfl named) rfl
    (fun change none => absurd none List.not_mem_nil) collected
  exact whole.changes plain (fit changes collected) given folded

theorem Whole.adds (whole : g.Whole) (plain : g.PlainKeys) {inputs : List (List UInt8)}
    (fit : g.FitAdds inputs) (added : inputs.foldlM ChangeGroup.add g = .ok g') :
    g'.Whole ∧ g'.PlainKeys := by
  induction inputs generalizing g with
  | nil =>
    cases added
    exact ⟨whole, plain⟩
  | cons cs inputs ih =>
    rw [List.foldlM_cons] at added
    obtain ⟨g₁, first, rest⟩ := Checked.bind_ok_iff.mp added
    obtain ⟨whole', plain'⟩ := whole.add plain fit.1 first
    exact ih whole' plain' (fit.2 g₁ first) rest

/-- When every change fits, the output of the group is a changeset: the iterator reads it to its
end, and shows the entries of the group with whole records and no row twice. -/
theorem output_well_formed (inputs : List (List UInt8)) (g : ChangeGroup)
    (added : inputs.foldlM ChangeGroup.add new = .ok g) (fit : new.FitAdds inputs)
    (allocated : g.output.length < 2 ^ 63) :
    ∃ changes, (ChangesetIter.start g.output false).all = .ok changes ∧ WellFormed changes ∧
      (changes.map fun change =>
        (change.table, (⟨change.op, change.indirect, change.raw⟩ : GroupEntry))) =
        g.tables.flatMap fun t => t.chains.listed.map fun e => (t.name, e) := by
  obtain ⟨whole, plain⟩ := whole_new.adds (fun name key body (there : some body = none) => nomatch there)
    fit added
  obtain ⟨tables, made⟩ := whole.written
  exact ⟨_, made.all allocated, made.wellFormed whole plain, made.shown⟩

/-- An insert into a table with a key column and one more. -/
def insertSet : List UInt8 :=
  [0x54, 2, 1, 0, 0x74, 0, 18, 0, 1, 0, 0, 0, 0, 0, 0, 0, 1, 1, 0, 0, 0, 0, 0, 0, 0, 2]

def integerField (i : Int64) : Field := Field.of (some ⟨.integer i, trivial⟩)

theorem insertSet_fits : new.FitAdds [insertSet] := by
  refine ⟨fun changes collected => ?_, fun _ _ => trivial⟩
  have shown : (ChangesetIter.start insertSet false).all = .ok [⟨ascii "t", 2, [1, 0], false, .insert,
      false, [], [some (.int 1), some (.int 2)], recordOf [integerField 1, integerField 2]⟩] := by
    decide +kernel
  rw [shown] at collected
  cases collected
  refine ⟨⟨[integerField 1, integerField 2], ⟨rfl, rfl, ⟨rfl, ?_⟩, ?_⟩, ?_⟩, fun _ _ => trivial⟩
  · rintro field member
    rw [List.mem_singleton.mp member]
    exact ⟨_, _, rfl, .inl rfl⟩
  · rintro body ⟨_, ⟨id, found⟩, _⟩
    cases found
  · rintro field member
    rw [List.mem_singleton.mp member]
    decide

theorem output_well_formed_insert : ∃ g changes,
    [insertSet].foldlM ChangeGroup.add new = .ok g ∧
      (ChangesetIter.start g.output false).all = .ok changes ∧ WellFormed changes := by
  have runs : (match [insertSet].foldlM ChangeGroup.add new with
      | .ok g => decide (g.output.length < 2 ^ 63)
      | .error _ => false) = true := by decide +kernel
  split at runs
  next g added =>
    obtain ⟨changes, read, formed, _⟩ := output_well_formed [insertSet] g added insertSet_fits
      (of_decide_eq_true runs)
    exact ⟨g, changes, added, read, formed⟩
  · cases runs

/-- A patchset deletes a row, and the next inserts it again. -/
def deletePatch : List UInt8 := [0x50, 2, 1, 0, 0x74, 0, 9, 0, 1, 0, 0, 0, 0, 0, 0, 0, 1]

def insertPatch : List UInt8 :=
  [0x50, 2, 1, 0, 0x74, 0, 18, 0, 1, 0, 0, 0, 0, 0, 0, 0, 1, 1, 0, 0, 0, 0, 0, 0, 0, 2]

/-- The group has an update then, and the iterator that reads it back panics. -/
theorem patchset_reinsert :
    (∃ changes, (ChangesetIter.start deletePatch false).all = .ok changes) ∧
      (∃ changes, (ChangesetIter.start insertPatch false).all = .ok changes) ∧
      ∃ g, [deletePatch, insertPatch].foldlM ChangeGroup.add new = .ok g ∧
        (ChangesetIter.start g.output false).all = .error .slice := by
  have computed : (match [deletePatch, insertPatch].foldlM ChangeGroup.add new with
      | .ok g => (ChangesetIter.start g.output false).all == .error .slice
      | .error _ => false) = true := by decide +kernel
  refine ⟨⟨[⟨ascii "t", 2, [1, 0], true, .delete, false, [some (.int 1), none], [],
      recordOf [integerField 1]⟩], by decide +kernel⟩,
    ⟨[⟨ascii "t", 2, [1, 0], true, .insert, false, [], [some (.int 1), some (.int 2)],
      recordOf [integerField 1, integerField 2]⟩], by decide +kernel⟩, ?_⟩
  · split at computed
    next g added => exact ⟨g, added, eq_of_beq computed⟩
    · cases computed

end ChangeGroup

end RustSql.Session
