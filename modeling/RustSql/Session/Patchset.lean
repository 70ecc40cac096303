import Mathlib.Data.List.ReduceOption
import RustSql.Session.Generate

/-! Generated patchsets, as the iterator shows them. -/

namespace RustSql.Session

open RustSql.Foundation RustSql.Types

/-- `old(i)` and `new_val(i)`. -/
def Change.oldVal (change : Change) (i : Nat) : Option SessVal := change.old[i]?.join

def Change.newVal (change : Change) (i : Nat) : Option SessVal := change.new[i]?.join

/-- A stored field against the current value. -/
def changedAt (field : Field) (current : Datum) : Bool :=
  match (valueOf field.1).toValue with
  | none => true
  | some old => !valuesEqual old current.1

def changedFields (fields : List Field) (row : List Datum) : List Bool :=
  List.zipWith changedAt fields row

theorem differs_field {rec rest : List UInt8} {pos : Nat} (field : Field) (current : Datum)
    (fits : rec.length < 2 ^ 64) (there : rec.drop pos = field.1 ++ rest) :
    @differs ε rec pos current.1 = .ok (changedAt field current) := by
  rw [differs, parseValue_field field fits there]
  simp only [Checked.attempt, Checked.ok_bind, changedAt]
  cases (valueOf field.1).toValue <;> rfl

theorem differs_fields {rec rest : List UInt8} {pos : Nat} {fields : List Field}
    {row : List Datum} (fits : rec.length < 2 ^ 64) (wide : row.length = fields.length)
    (there : rec.drop pos = recordOf fields ++ rest) :
    ∃ spans, @fieldSpans ε rec pos fields.length = .ok spans ∧
      ((spans.zip row).mapM fun (span, now) => @differs ε rec span.1 now.1) =
        .ok (changedFields fields row) := by
  induction fields generalizing pos row with
  | nil =>
    rw [List.length_eq_zero_iff.mp wide]
    exact ⟨[], rfl, rfl⟩
  | cons field fields ih =>
    match row with
    | now :: row =>
      rw [recordOf_cons, List.append_assoc] at there
      obtain ⟨spans, read, changed⟩ := ih (Nat.succ.inj wide) (drop_append_of_eq there)
      have inside := length_of_drop there field.2.ne_nil
      refine ⟨(pos, field.1.length) :: spans, ?_, ?_⟩
      · rw [List.length_cons, fieldSpans, there, serialLen_field, Checked.ok_bind,
          Checked.add_ok (by omega), Checked.ok_bind, read, Checked.ok_bind]
      · rw [List.zip_cons_cons, List.mapM_cons]
        simp only
        rw [differs_field field now fits there, Checked.ok_bind, changed, Checked.ok_bind]
        rfl

namespace SessionTable

variable {t : SessionTable}

theorem keyBytes_fields {abPk : List UInt8} {fields : List Field} {rec rest : List UInt8}
    {pos : Nat} (fits : rec.length < 2 ^ 64) (wide : fields.length = abPk.length)
    (there : rec.drop pos = recordOf fields ++ rest) :
    @keyBytes ε rec pos abPk = .ok (recordOf (pickKey abPk fields)) := by
  induction abPk generalizing fields pos with
  | nil => rfl
  | cons pk abPk ih =>
    match fields with
    | field :: fields =>
      rw [recordOf_cons, List.append_assoc] at there
      have inside := length_of_drop there field.2.ne_nil
      rw [keyBytes, there, serialLen_field, Checked.ok_bind, Checked.add_ok (by omega),
        Checked.ok_bind, sliceRange_front there inside rfl, ih (Nat.succ.inj wide)
          (drop_append_of_eq there), pickKey]
      by_cases key : pk ≠ 0
      · rw [if_pos key, if_pos key, recordOf_cons]
        rfl
      · rw [if_neg key, if_neg key]
        rfl

/-- The table as the header of a patchset names it. -/
def patchTable (t : SessionTable) : GroupTable := ⟨t.name, t.nCol, t.abPk, true, .empty, 0⟩

def rowFields (row : List Datum) : List Field := row.map fun v => Field.of (some v)

/-- The new record of an update. -/
def newRecord (t : SessionTable) (fields : List Field) (row : List Datum) : List UInt8 :=
  (List.range t.nCol).flatMap (t.newField true row (changedFields fields row))

/-- The entry a change is written as, and the fields it shows. -/
def entryOf (t : SessionTable) (c : SessionChange × List Field) :
    Option (List Datum) → Option (GroupEntry × List Field)
  | some row =>
    if c.1.op = .insert then
      some (⟨.insert, c.1.indirect, recordOf (rowFields row)⟩, rowFields row)
    else if (changedFields c.2 row).any id then
      some (⟨.update, c.1.indirect, t.newRecord c.2 row⟩, [])
    else none
  | none =>
    if c.1.op = .insert then none
    else some (⟨.delete, c.1.indirect, recordOf (pickKey t.abPk c.2)⟩, pickKey t.abPk c.2)

/-- The record of a change has a field for each column. -/
structure Whole (t : SessionTable) (c : SessionChange × List Field) : Prop where
  record : c.1.record = recordOf c.2
  wide : c.2.length = t.nCol
  fits : c.1.record.length < 2 ^ 63

theorem recordOf_rowFields (row : List Datum) :
    recordOf (rowFields row) = row.flatMap fun v => fieldOf (some v.1) := by
  rw [recordOf, rowFields, List.flatMap_map]
  rfl

theorem appendUpdate_entry {entry : SessionChange} {fields : List Field} {row : List Datum}
    (whole : t.Whole (entry, fields)) (width : row.length = t.nCol) :
    t.appendUpdate true entry row = .ok (
      if (changedFields fields row).any id then
        some (Op.update.code :: indirectByte entry.indirect :: t.newRecord fields row)
      else none) := by
  have there : entry.record.drop 0 = recordOf fields ++ [] := by
    rw [List.drop_zero, List.append_nil]
    exact whole.record
  have fits : entry.record.length < 2 ^ 63 := whole.fits
  obtain ⟨spans, read, changed⟩ :=
    @differs_fields GenError _ _ _ _ _ (by omega) (width.trans whole.wide.symm) there
  rw [whole.wide] at read
  rw [appendUpdate, read, Checked.ok_bind, changed, Checked.ok_bind]
  split <;> rfl

theorem appendDelete_entry {entry : SessionChange} {fields : List Field}
    (cols : t.nCol = t.abPk.length) (whole : t.Whole (entry, fields)) :
    t.appendDelete true entry = .ok (Op.delete.code :: indirectByte entry.indirect ::
      recordOf (pickKey t.abPk fields)) := by
  have there : entry.record.drop 0 = recordOf fields ++ [] := by
    rw [List.drop_zero, List.append_nil]
    exact whole.record
  have fits : entry.record.length < 2 ^ 63 := whole.fits
  rw [appendDelete, if_pos rfl, keyBytes_fields (by omega) (whole.wide.trans cols) there]
  rfl

/-- A change is written as its entry. -/
theorem emit_entry {c : SessionChange × List Field} (cols : t.nCol = t.abPk.length)
    (whole : t.Whole c) {current : Option (List Datum)} {part : Option (List UInt8)}
    (emitted : t.emit true c.1 current = .ok part) :
    part = (t.entryOf c current).map (fun e => ChangeGroup.entryBytes e.1) ∧
      ∀ row, current = some row → row.length = t.nCol := by
  cases current with
  | some row =>
    by_cases width : row.length = t.nCol
    · refine ⟨?_, fun row' same => by cases same; exact width⟩
      by_cases kind : c.1.op = .insert
      · rw [emit_insert _ kind, if_neg (not_not.mpr width), Except.ok.injEq] at emitted
        rw [← emitted, entryOf, if_pos kind, ← recordOf_rowFields]
        rfl
      · rw [emit_current _ kind, if_neg (not_not.mpr width), appendUpdate_entry whole width,
          Except.ok.injEq] at emitted
        rw [← emitted, entryOf, if_neg kind]
        split <;> rfl
    · have failed : t.emit true c.1 (some row) = Checked.fail (.corruption resolutionWidth) := by
        by_cases kind : c.1.op = .insert
        · rw [emit_insert _ kind, if_pos width]
        · rw [emit_current _ kind, if_pos width]
      rw [failed] at emitted
      cases emitted
  | none =>
    refine ⟨?_, nofun⟩
    rw [entryOf]
    by_cases kind : c.1.op = .insert
    · have nothing : t.emit true c.1 none = .ok none := by
        obtain ⟨⟨op, indirect, record⟩, fields⟩ := c
        cases kind
        rfl
      rw [nothing, Except.ok.injEq] at emitted
      rw [← emitted, if_pos kind]
      rfl
    · rw [emit_gone _ kind, appendDelete_entry cols whole, Checked.ok_bind,
        Except.ok.injEq] at emitted
      rw [← emitted, if_neg kind]
      rfl

end SessionTable

/-- The changes of a table that a session tracks, and how their keys are resolved. -/
structure PatchSource where
  t : SessionTable
  changes : List (SessionChange × List Field)
  resolve : SessionChange → Checked GenError (Option (Option (List Datum)))
  headed : ChangesetIter.Headed t.name t.nCol t.abPk
  keyed : ∃ pk ∈ t.abPk, pk ≠ 0
  whole : ∀ c ∈ changes, t.Whole c

namespace PatchSource

variable (s : PatchSource)

/-- The row of a change now, when its key could be used. -/
def current (c : SessionChange × List Field) : Option (Option (List Datum)) :=
  match s.resolve c.1 with
  | .ok found => found
  | .error _ => none

def bytes : Checked GenError (List UInt8) :=
  s.t.generateTable true s.resolve (s.changes.map Prod.fst)

def entries : List (GroupEntry × List Field) :=
  s.changes.filterMap fun c => (s.current c).bind (s.t.entryOf c)

/-- No change is resolved to an update. -/
def NoUpdate : Prop :=
  ∀ c ∈ s.changes, ∀ row, s.current c = some (some row) → c.1.op ≠ .insert →
    (changedFields c.2 row).any id = false

variable {s}

theorem parts_entries {changes : List (SessionChange × List Field)} {parts : List (Option (List UInt8))}
    (whole : ∀ c ∈ changes, s.t.Whole c)
    (written : List.Forall₂ (fun c part => (do
      match ← s.resolve c.1 with
      | none => .ok none
      | some current => s.t.emit true c.1 current) = .ok part) changes parts) :
    parts.reduceOption = (changes.filterMap fun c => (s.current c).bind (s.t.entryOf c)).map
        (fun e => ChangeGroup.entryBytes e.1) ∧
      ∀ c ∈ changes, ∀ row, s.current c = some (some row) → row.length = s.t.nCol := by
  induction written with
  | nil => exact ⟨rfl, nofun⟩
  | @cons c part changes parts head tail ih =>
    obtain ⟨same, wide⟩ := ih fun c member => whole c (List.mem_cons_of_mem _ member)
    obtain ⟨found, resolved, emitted⟩ := Checked.bind_ok_iff.mp head
    have current : s.current c = found := by rw [PatchSource.current, resolved]
    have first : part = ((s.current c).bind (s.t.entryOf c)).map
        (fun e => ChangeGroup.entryBytes e.1) ∧
        ∀ row, s.current c = some (some row) → row.length = s.t.nCol := by
      rw [current]
      match found with
      | none =>
        cases emitted
        exact ⟨rfl, nofun⟩
      | some now =>
        obtain ⟨entry, width⟩ := SessionTable.emit_entry s.headed.cols
          (whole c List.mem_cons_self) emitted
        exact ⟨entry, fun row same => width row (Option.some.inj same)⟩
    refine ⟨?_, ?_⟩
    · rw [List.filterMap_cons, first.1]
      match (s.current c).bind (s.t.entryOf c) with
      | none => exact same
      | some e => exact congrArg (ChangeGroup.entryBytes e.1 :: ·) same
    · intro c' member
      rcases List.mem_cons.mp member with rfl | later
      · exact first.2
      · exact wide c' later

/-- A table is written as its header and its entries, or not at all. -/
theorem bytes_entries {data : List UInt8} (written : s.bytes = .ok data) :
    data = (if s.entries = [] then [] else ChangesetIter.tableChunk (s.t.patchTable, s.entries)) ∧
      ∀ c ∈ s.changes, ∀ row, s.current c = some (some row) → row.length = s.t.nCol := by
  obtain ⟨parts, each, done⟩ := Checked.bind_ok_iff.mp written
  obtain ⟨same, wide⟩ := parts_entries s.whole
    (List.forall₂_map_left_iff.mp (Checked.forall₂_mapM each))
  change _ = s.entries.map _ at same
  refine ⟨?_, wide⟩
  cases done
  rw [same]
  by_cases empty : s.entries = []
  · rw [if_pos empty, if_pos (List.map_eq_nil_iff.mpr empty)]
  · rw [if_neg empty, if_neg (fun none => empty (List.map_eq_nil_iff.mp none)), ChangesetIter.tableChunk,
      ← List.flatMap_def]
    rfl

end PatchSource

/-- What a reader is told of a change. -/
structure Report where
  table : Name
  op : Op
  indirect : Bool
  old : List (Option SessVal)
  new : List (Option SessVal)

def Shows (change : Change) (report : Report) : Prop :=
  change.table = report.table ∧ change.op = report.op ∧ change.indirect = report.indirect ∧
    ∀ i, change.oldVal i = report.old[i]?.join ∧ change.newVal i = report.new[i]?.join

/-- The values of the key columns, nothing elsewhere. -/
def keyedValues (abPk : List UInt8) (vals : List SessVal) : List (Option SessVal) :=
  List.zipWith (fun pk v => if pk ≠ 0 then some v else none) abPk vals

/-- The changed values outside the key, nothing elsewhere. -/
def changedValues (abPk : List UInt8) (changed : List Bool) (vals : List SessVal) :
    List (Option SessVal) :=
  List.zipWith (fun kept v => if kept then some v else none)
    (List.zipWith (fun pk different => pk == 0 && different) abPk changed) vals

/-- What is emitted for a change, given the row of its key. -/
def SessionTable.reportOf (t : SessionTable) (c : SessionChange × List Field) :
    Option (List Datum) → Option Report
  | some row =>
    let now := row.map fun v => SessVal.ofValue v.1
    if c.1.op = .insert then some ⟨t.name, .insert, c.1.indirect, [], now.map some⟩
    else if (changedFields c.2 row).any id then
      some ⟨t.name, .update, c.1.indirect, keyedValues t.abPk now,
        changedValues t.abPk (changedFields c.2 row) now⟩
    else none
  | none =>
    if c.1.op = .insert then none
    else some ⟨t.name, .delete, c.1.indirect,
      keyedValues t.abPk (c.2.map fun field => valueOf field.1), []⟩

def PatchSource.reports (s : PatchSource) : List Report :=
  s.changes.filterMap fun c => (s.current c).bind (s.t.reportOf c)

theorem spreadKey_pickKey {abPk : List UInt8} {vals : List SessVal}
    (wide : vals.length = abPk.length) :
    ChangesetIter.spreadKey abPk (pickKey abPk vals) = keyedValues abPk vals := by
  induction abPk generalizing vals with
  | nil => rfl
  | cons pk abPk ih =>
    match vals with
    | v :: vals =>
      rw [pickKey, ChangesetIter.spreadKey, keyedValues, List.zipWith_cons_cons, ← keyedValues,
        ← ih (Nat.succ.inj wide)]
      by_cases key : pk ≠ 0
      · rw [if_pos key, if_pos key, if_pos key]
        rfl
      · rw [if_neg key, if_neg key, if_neg key]

theorem pickKey_length {α : Type} {abPk : List UInt8} {xs : List α}
    (wide : xs.length = abPk.length) : (pickKey abPk xs).length = abPk.countP (· ≠ 0) := by
  induction abPk generalizing xs with
  | nil => rfl
  | cons pk abPk ih =>
    match xs with
    | x :: xs =>
      rw [pickKey]
      by_cases key : pk ≠ 0
      · rw [if_pos key, List.length_cons, ih (Nat.succ.inj wide),
          List.countP_cons_of_pos (by simpa using key)]
      · rw [if_neg key, ih (Nat.succ.inj wide), List.countP_cons_of_neg (by simpa using key)]

/-- An insert and a delete are shown as they are reported. -/
theorem SessionTable.entryOf_reportOf {t : SessionTable} {c : SessionChange × List Field}
    (cols : t.nCol = t.abPk.length) (whole : t.Whole c) {current : Option (List Datum)}
    (width : ∀ row, current = some row → row.length = t.nCol)
    (unchanged : ∀ row, current = some row → c.1.op ≠ .insert →
      (changedFields c.2 row).any id = false) :
    Option.Rel (fun e report => ChangesetIter.Legible t.patchTable e ∧
      Shows (changeOf t.patchTable e.1 e.2) report) (t.entryOf c current) (t.reportOf c current) := by
  cases current with
  | some row =>
    rw [entryOf, reportOf]
    by_cases kind : c.1.op = .insert
    · rw [if_pos kind, if_pos kind]
      refine .some ⟨⟨rfl, ?_, fun ⟨_, update, _⟩ => nomatch update⟩, rfl, rfl, rfl, fun i => ⟨rfl, ?_⟩⟩
      · rw [rowFields, List.length_map, width row rfl]
        exact cols
      · have values : (rowFields row).map (fun field => valueOf field.1) =
            row.map fun v => SessVal.ofValue v.1 := by
          rw [rowFields, List.map_map]
          exact List.map_congr_left fun v _ => valueOf_fieldOf v
        exact congrArg (fun vals => (vals.map some)[i]?.join) values
    · have none := unchanged row rfl kind
      rw [if_neg kind, if_neg kind, none]
      exact .none
  | none =>
    rw [entryOf, reportOf]
    by_cases kind : c.1.op = .insert
    · rw [if_pos kind, if_pos kind]
      exact .none
    · rw [if_neg kind, if_neg kind]
      have wide : c.2.length = t.abPk.length := whole.wide.trans cols
      refine .some ⟨⟨rfl, pickKey_length wide, fun ⟨_, update, _⟩ => nomatch update⟩,
        rfl, rfl, rfl, fun i => ⟨?_, rfl⟩⟩
      have values := @spreadKey_pickKey t.abPk (c.2.map fun field => valueOf field.1)
        (by rw [List.length_map, wide])
      rw [pickKey_map] at values
      exact congrArg (fun vals => vals[i]?.join) values

namespace ChangesetIter

variable {it : ChangesetIter} {t : GroupTable}

/-- There is no old side for the key fields of an update to go to. -/
theorem next_update (patch : t.bPatch = true) (keyed : ∃ pk ∈ t.abPk, pk ≠ 0) {rest : List UInt8}
    (there : it.ahead = Op.update.code :: rest) (read : Option Change × ChangesetIter) :
    (it.under t).next ≠ .ok read := by
  intro done
  have code : (it.under t).readOp = .ok (some Op.update.code, (it.under t).skip 1) :=
    readOp_code there (code_opens_nothing .update)
  rw [next, code, Checked.ok_bind] at done
  obtain ⟨shown, body, _⟩ := Checked.bind_ok_iff.mp done
  unfold readChange at body
  rw [Op.ofCode_code] at body
  simp only at body
  split at body
  · cases body
  · split at body
    · cases body
    · obtain ⟨flag, _, body⟩ := Checked.bind_ok_iff.mp body
      obtain ⟨sides, _, body⟩ := Checked.bind_ok_iff.mp body
      obtain ⟨raw, _, body⟩ := Checked.bind_ok_iff.mp body
      have key : ((it.under t).skip 1).bPatchset = true ∧ True ∧
          ∃ pk ∈ ((it.under t).skip 1).abPk, pk ≠ 0 := ⟨patch, trivial, keyed⟩
      rw [if_pos key] at body
      cases body

theorem entries_noUpdate (fits : it.data.length < 2 ^ 64) (straight : it.bInvert = false)
    (headed : Headed t.name t.nCol t.abPk) (patch : t.bPatch = true)
    (keyed : ∃ pk ∈ t.abPk, pk ≠ 0) {entries : List (GroupEntry × List Field)}
    (legible : ∀ e ∈ entries, e.1.op = .update ∨ Legible t e) {rest : List UInt8}
    (there : it.ahead = entries.flatMap (fun e => ChangeGroup.entryBytes e.1) ++ rest)
    {seen out : List Change}
    (read : (it.under t).foldChanges (fun seen change => .ok (seen ++ [change])) seen = .ok out) :
    (∀ e ∈ entries, e.1.op ≠ .update) ∧ ∃ seen',
      ((it.under t).skip (entries.flatMap fun e => ChangeGroup.entryBytes e.1).length).foldChanges
        (fun seen change => .ok (seen ++ [change])) seen' = .ok out := by
  induction entries generalizing it seen with
  | nil => exact ⟨nofun, seen, read⟩
  | cons e entries ih =>
    rw [List.flatMap_cons, List.append_assoc] at there
    rcases legible e List.mem_cons_self with update | first
    · match failed : (it.under t).next with
      | .ok shown =>
        rw [ChangeGroup.entryBytes, update] at there
        exact absurd failed (next_update patch keyed there shown)
      | .error fault =>
        rw [foldChanges_error failed] at read
        cases read
    · rw [foldChanges_some (next_entry fits straight headed.named headed.cols first.shown first.wide
        first.record there), Checked.ok_bind] at read
      obtain ⟨none, seen', behind⟩ := @ih (it.skip (ChangeGroup.entryBytes e.1).length) fits straight
        (fun e member => legible e (List.mem_cons_of_mem _ member)) (ahead_skip there) _ read
      refine ⟨?_, seen', ?_⟩
      · intro e' member
        rcases List.mem_cons.mp member with rfl | later
        · intro update
          exact first.shown ⟨patch, update, keyed⟩
        · exact none e' later
      · rw [List.flatMap_cons, List.length_append]
        rw [← behind]
        simp only [skip, under, Nat.add_assoc]

/-- A patchset that is read to its end has no updates. -/
theorem tables_noUpdate (fits : it.data.length < 2 ^ 64) (straight : it.bInvert = false)
    {tables : List (GroupTable × List (GroupEntry × List Field))}
    (headed : ∀ table ∈ tables, Headed table.1.name table.1.nCol table.1.abPk ∧
      table.1.bPatch = true ∧ ∃ pk ∈ table.1.abPk, pk ≠ 0)
    (legible : ∀ table ∈ tables, ∀ e ∈ table.2, e.1.op = .update ∨ Legible table.1 e)
    (there : it.ahead = tables.flatMap tableChunk) {seen out : List Change}
    (read : it.foldChanges (fun seen change => .ok (seen ++ [change])) seen = .ok out) :
    ∀ table ∈ tables, ∀ e ∈ table.2, e.1.op ≠ .update := by
  induction tables generalizing it seen with
  | nil => exact nofun
  | cons table tables ih =>
    obtain ⟨t, entries⟩ := table
    obtain ⟨header, patch, keyed⟩ := headed _ List.mem_cons_self
    rw [List.flatMap_cons, tableChunk, List.append_assoc] at there
    have behind : ((it.skip (ChangeGroup.headerBytes t).length).under t).ahead =
        (entries.flatMap fun e => ChangeGroup.entryBytes e.1) ++ tables.flatMap tableChunk :=
      ahead_skip there
    rw [foldChanges_next (next_header fits header there)] at read
    obtain ⟨none, seen', rest⟩ := @entries_noUpdate (it.skip (ChangeGroup.headerBytes t).length) t
      fits straight header patch keyed entries (legible _ List.mem_cons_self) _ behind _ _ read
    have others := @ih (((it.skip (ChangeGroup.headerBytes t).length).under t).skip
        (entries.flatMap fun e => ChangeGroup.entryBytes e.1).length) fits straight (fun table member => headed table (List.mem_cons_of_mem _ member))
      (fun table member => legible table (List.mem_cons_of_mem _ member)) (ahead_skip behind) _ rest
    intro table member
    rcases List.mem_cons.mp member with rfl | later
    · exact none
    · exact others table later

end ChangesetIter

/-- The buffers of the tables, one behind the other. -/
def patchset (sources : List PatchSource) : Checked GenError (List UInt8) := do
  let parts ← sources.mapM PatchSource.bytes
  .ok parts.flatten

namespace PatchSource

/-- The table of a source, when anything is written of it. -/
def table (s : PatchSource) : Option (GroupTable × List (GroupEntry × List Field)) :=
  if s.entries = [] then none else some (s.t.patchTable, s.entries)

theorem patchset_tables {sources : List PatchSource} {data : List UInt8}
    (written : patchset sources = .ok data) :
    data = (sources.filterMap table).flatMap ChangesetIter.tableChunk ∧
      ∀ s ∈ sources, ∀ c ∈ s.changes, ∀ row, s.current c = some (some row) →
        row.length = s.t.nCol := by
  obtain ⟨parts, each, done⟩ := Checked.bind_ok_iff.mp written
  cases done
  have tables := Checked.forall₂_mapM each
  clear each written
  induction tables with
  | nil => exact ⟨rfl, nofun⟩
  | @cons s part sources parts head tail ih =>
    obtain ⟨same, wide⟩ := bytes_entries head
    refine ⟨?_, ?_⟩
    · rw [List.flatten_cons, ih.1, List.filterMap_cons, same, table]
      by_cases empty : s.entries = []
      · rw [if_pos empty, if_pos empty]
        rfl
      · rw [if_neg empty, if_neg empty]
        rfl
    · intro s' member
      rcases List.mem_cons.mp member with rfl | later
      · exact wide
      · exact ih.2 s' later

theorem tables_changes (sources : List PatchSource) :
    ((sources.filterMap table).flatMap fun table => table.2.map fun e => changeOf table.1 e.1 e.2) =
      sources.flatMap fun s => s.entries.map fun e => changeOf s.t.patchTable e.1 e.2 := by
  induction sources with
  | nil => rfl
  | cons s sources ih =>
    rw [List.filterMap_cons, table, List.flatMap_cons, ← ih]
    by_cases empty : s.entries = []
    · rw [if_pos empty, empty]
      rfl
    · rw [if_neg empty, List.flatMap_cons]

variable {s : PatchSource}

/-- Without updates each entry can be read, and is shown as it is reported. -/
theorem entries_reports (wide : ∀ c ∈ s.changes, ∀ row, s.current c = some (some row) →
    row.length = s.t.nCol) (none : s.NoUpdate) :
    List.Forall₂ (fun e report => ChangesetIter.Legible s.t.patchTable e ∧
      Shows (changeOf s.t.patchTable e.1 e.2) report) s.entries s.reports := by
  have same : List.Forall₂ (fun c c' => c = c' ∧ c ∈ s.changes) s.changes s.changes :=
    List.forall₂_same.mpr fun c member => ⟨rfl, member⟩
  refine List.rel_filterMap (fun c c' both => ?_) same
  obtain ⟨rfl, member⟩ := both
  match current : s.current c with
  | Option.none => exact .none
  | some now =>
    exact SessionTable.entryOf_reportOf s.headed.cols (s.whole c member)
      (fun row same => wide c member row (by rw [current, same]))
      (fun row same => none c member row (by rw [current, same]))

/-- An entry is an update, or it can be read. -/
theorem entries_legible (wide : ∀ c ∈ s.changes, ∀ row, s.current c = some (some row) →
    row.length = s.t.nCol) {e : GroupEntry × List Field} (member : e ∈ s.entries) :
    e.1.op = .update ∨ ChangesetIter.Legible s.t.patchTable e := by
  obtain ⟨c, changes, written⟩ := List.mem_filterMap.mp member
  obtain ⟨now, current, entry⟩ := Option.bind_eq_some_iff.mp written
  by_cases update : ∃ row, now = some row ∧ c.1.op ≠ .insert ∧ (changedFields c.2 row).any id
  · obtain ⟨row, rfl, kind, any⟩ := update
    rw [SessionTable.entryOf, if_neg kind, if_pos any, Option.some.injEq] at entry
    left
    rw [← entry]
  · have report := SessionTable.entryOf_reportOf s.headed.cols (s.whole c changes)
      (fun row same => wide c changes row (current.trans (congrArg some same)))
      (fun row same kind => by
        by_contra any
        exact update ⟨row, same, kind, Bool.eq_true_of_not_eq_false any⟩)
    rw [entry] at report
    generalize s.t.reportOf c now = told at report
    cases report with
    | some both => exact .inr both.1

/-- A patchset without updates is shown as it was emitted; one with an update cannot be read. -/
theorem patchset_iterates (sources : List PatchSource) (data : List UInt8)
    (written : patchset sources = .ok data) (fits : data.length < 2 ^ 63) :
    (∃ changes, (ChangesetIter.start data false).all = .ok changes ∧
        List.Forall₂ Shows changes (sources.flatMap reports)) ↔ ∀ s ∈ sources, s.NoUpdate := by
  obtain ⟨bytes, wide⟩ := patchset_tables written
  have small : data.length < 2 ^ 64 := by omega
  have there : (ChangesetIter.start data false).ahead =
      (sources.filterMap table).flatMap ChangesetIter.tableChunk := by
    rw [← bytes]
    rfl
  have source (table' : GroupTable × List (GroupEntry × List Field))
      (member : table' ∈ sources.filterMap table) :
      ∃ s ∈ sources, table' = (s.t.patchTable, s.entries) := by
    obtain ⟨s, here, same⟩ := List.mem_filterMap.mp member
    rw [table] at same
    split at same
    · cases same
    · exact ⟨s, here, (Option.some.inj same).symm⟩
  constructor
  · rintro ⟨changes, read, _⟩ s here c member row current kind
    have plain := ChangesetIter.tables_noUpdate small rfl
      (fun table' member => by
        obtain ⟨s, _, rfl⟩ := source table' member
        exact ⟨s.headed, rfl, s.keyed⟩)
      (fun table' member e inside => by
        obtain ⟨s, here, rfl⟩ := source table' member
        exact entries_legible (wide s here) inside) there read
    by_contra any
    have entry : s.t.entryOf c (some row) =
        some (⟨.update, c.1.indirect, s.t.newRecord c.2 row⟩, []) := by
      rw [SessionTable.entryOf, if_neg kind, if_pos (Bool.eq_true_of_not_eq_false any)]
    have inside : (⟨.update, c.1.indirect, s.t.newRecord c.2 row⟩, []) ∈ s.entries :=
      List.mem_filterMap.mpr ⟨c, member, by rw [current]; exact entry⟩
    have shown : (s.t.patchTable, s.entries) ∈ sources.filterMap table :=
      List.mem_filterMap.mpr ⟨s, here, if_neg (List.ne_nil_of_mem inside)⟩
    exact plain _ shown _ inside rfl
  · intro none
    have headed (table' : GroupTable × List (GroupEntry × List Field))
        (member : table' ∈ sources.filterMap table) :
        ChangesetIter.Headed table'.1.name table'.1.nCol table'.1.abPk := by
      obtain ⟨s, _, rfl⟩ := source table' member
      exact s.headed
    have legible (table' : GroupTable × List (GroupEntry × List Field))
        (member : table' ∈ sources.filterMap table) :
        ∀ e ∈ table'.2, ChangesetIter.Legible table'.1 e := by
      obtain ⟨s, here, rfl⟩ := source table' member
      exact ((List.forall₂_and_left _ _).mp (entries_reports (wide s here) (none s here))).1
    refine ⟨_, ChangesetIter.foldChanges_tables small rfl headed legible there [], ?_⟩
    rw [List.nil_append, tables_changes]
    have same : List.Forall₂ (fun s s' => s = s' ∧ s ∈ sources) sources sources :=
      List.forall₂_same.mpr fun s member => ⟨rfl, member⟩
    refine List.rel_flatMap same fun s s' both => ?_
    obtain ⟨rfl, here⟩ := both
    rw [List.forall₂_map_left_iff]
    exact ((List.forall₂_and_left _ _).mp (entries_reports (wide s here) (none s here))).2

def rowOneTwo : List Field :=
  [Field.of (some ⟨.integer 1, trivial⟩), Field.of (some ⟨.integer 2, trivial⟩)]

/-- A table `t(a PRIMARY KEY, b)` with one change of the row `(1, 2)`, which is now `(1, 3)` or
gone. -/
def oneChange (op : Op) (now : Option (List Datum)) : PatchSource :=
  { t := { SessionTable.new (ascii "t") with
      nCol := 2
      abPk := [1, 0]
      azCol := [ascii "a", ascii "b"]
      initialized := true }
    changes := [(⟨op, false, recordOf rowOneTwo⟩, rowOneTwo)]
    resolve := fun _ => .ok (some now)
    headed := ⟨by decide, by decide, by decide, rfl, by decide⟩
    keyed := ⟨1, List.mem_cons_self, by decide⟩
    whole := by
      intro c member
      rw [List.mem_singleton.mp member]
      exact ⟨rfl, rfl, (by decide : (recordOf rowOneTwo).length < 2 ^ 63)⟩ }

def rowOneThree : List Datum := [⟨.integer 1, trivial⟩, ⟨.integer 3, trivial⟩]

def rowThreeFour : List Field :=
  [Field.of (some ⟨.integer 3, trivial⟩), Field.of (some ⟨.integer 4, trivial⟩)]

/-- The row `(3, 4)` is new, and the row `(1, 2)` is gone. -/
def twoChanges : PatchSource where
  t := (oneChange .delete none).t
  changes := [(⟨.insert, false, recordOf rowThreeFour⟩, rowThreeFour),
    (⟨.delete, false, recordOf rowOneTwo⟩, rowOneTwo)]
  resolve c := .ok (some (if c.op = .insert then some [⟨.integer 3, trivial⟩, ⟨.integer 4, trivial⟩] else none))
  headed := (oneChange .delete none).headed
  keyed := (oneChange .delete none).keyed
  whole := by
    intro c member
    rcases List.mem_pair.mp member with rfl | rfl
    · exact ⟨rfl, rfl, (by decide : (recordOf rowThreeFour).length < 2 ^ 63)⟩
    · exact ⟨rfl, rfl, (by decide : (recordOf rowOneTwo).length < 2 ^ 63)⟩

theorem patchset_iterates_two :
    ∃ changes, (ChangesetIter.start [0x50, 2, 1, 0, 0x74, 0, 18, 0, 1, 0, 0, 0, 0, 0, 0, 0, 3,
        1, 0, 0, 0, 0, 0, 0, 0, 4, 9, 0, 1, 0, 0, 0, 0, 0, 0, 0, 1] false).all =
      .ok changes ∧ List.Forall₂ Shows changes ([twoChanges].flatMap reports) :=
  (patchset_iterates [twoChanges] _ (by decide) (by decide)).mpr (by
    intro s member
    rw [List.mem_singleton.mp member]
    intro c inside row current kind
    rcases List.mem_pair.mp inside with rfl | rfl
    · cases kind rfl
    · cases current)

/-- The patchset of one update is written, and the iterator panics on it. -/
theorem patchset_update_panics :
    ∃ data, patchset [oneChange .update (some rowOneThree)] = .ok data ∧
      (ChangesetIter.start data false).all = .error .slice :=
  ⟨[0x50, 2, 1, 0, 0x74, 0, 23, 0, 1, 0, 0, 0, 0, 0, 0, 0, 1, 1, 0, 0, 0, 0, 0, 0, 0, 3],
    by decide, by decide +kernel⟩

end PatchSource

end RustSql.Session
