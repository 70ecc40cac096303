import Mathlib.Data.Set.Card
import RustSql.Session.GroupOutput
import RustSql.Session.RowApply

/-! Concatenation as sequential composition: the changes of a group against the rows they lead to. -/

namespace RustSql.Session

open RustSql.Foundation RustSql.Types

/-- A row by its table and its serialized key. -/
abbrev RowId := Name × RowKey

abbrev Store := RowId → Option Row

open Classical in
/-- The fields of a record of that many. -/
noncomputable def fieldsOf (n : Nat) (raw : List UInt8) : Option (List Field) :=
  if whole : ∃ fields : List Field, fields.length = n ∧ recordOf fields = raw then some whole.choose
  else none

theorem fieldsOf_record {n : Nat} {fields : List Field} (wide : fields.length = n) :
    fieldsOf n (recordOf fields) = some fields := by
  have whole : ∃ fields' : List Field, fields'.length = n ∧ recordOf fields' = recordOf fields :=
    ⟨fields, wide, rfl⟩
  rw [fieldsOf, dif_pos whole]
  obtain ⟨length, same⟩ := whole.choose_spec
  rw [recordOf_injective (length.trans wide.symm) same]

def rowIdOf (change : Change) (fields : List Field) : RowId :=
  (lowered change.table, (pickKey change.pk fields).map Subtype.val)

/-- One change on a store; none when it does not apply. -/
noncomputable def applyChange (s : Store) (change : Change) : Option Store := do
  let fields ← fieldsOf (entryWidth change.pk change.patchset change.op) change.raw
  let row ← rowApply change.pk.length (some (change.op, fields)) (s (rowIdOf change fields))
  some (Function.update s (rowIdOf change fields) row)

/-- A changeset on a store. -/
noncomputable def applySet (bytes : List UInt8) (s : Store) : Option Store :=
  match (ChangesetIter.start bytes false).all with
  | .ok changes => changes.foldlM applyChange s
  | .error _ => none

/-- A change of a well-formed changeset, with the flags its table has. -/
structure Proper (columns : Name → List UInt8) (change : Change) (fields : List Field) : Prop where
  patchset : change.patchset = false
  flags : change.pk = columns (lowered change.table)
  raw : change.raw = recordOf fields
  sound : Sound change.pk (change.op, fields)
  keyable : ∀ field ∈ pickKey change.pk fields, Keyable field.1

/-- The changes of the rows, one change more. -/
noncomputable def netAdd (net : RowId → Option Body) (change : Change) : RowId → Option Body :=
  match fieldsOf (entryWidth change.pk change.patchset change.op) change.raw with
  | some fields =>
    Function.update net (rowIdOf change fields)
      (combine change.pk false (net (rowIdOf change fields)) (change.op, fields))
  | none => net

/-- Fewer than `2 ^ 30` rows of the table of a change have a change. -/
def Roomy (net : RowId → Option Body) (change : Change) : Prop :=
  Set.ncard { key | net (lowered change.table, key) ≠ none } < 2 ^ 30

/-- There is room for every change. -/
def RoomyAll (net : RowId → Option Body) : List Change → Prop
  | [] => True
  | change :: rest => Roomy net change ∧ RoomyAll (netAdd net change) rest

variable {columns : Name → List UInt8} {change : Change} {fields : List Field}

theorem Sound.wide {abPk : List UInt8} {op : Op} {fields : List Field}
    (sound : Sound abPk (op, fields)) : fields.length = entryWidth abPk false op := by
  cases op
  case update =>
    simp only [entryWidth, Bool.false_eq_true, if_false, if_true]
    exact sound.1
  all_goals
    simp only [entryWidth, Bool.false_eq_true, if_false, reduceCtorEq]
    exact sound.1

namespace Proper

theorem fieldsOf (proper : Proper columns change fields) :
    fieldsOf (entryWidth change.pk change.patchset change.op) change.raw = some fields := by
  rw [proper.raw, proper.patchset]
  exact fieldsOf_record proper.sound.wide

theorem netAdd (proper : Proper columns change fields) (net : RowId → Option Body) :
    netAdd net change = Function.update net (rowIdOf change fields)
      (combine change.pk false (net (rowIdOf change fields)) (change.op, fields)) := by
  rw [Session.netAdd, proper.fieldsOf]

theorem applyChange (proper : Proper columns change fields) {s s' : Store} :
    applyChange s change = some s' ↔ ∃ row,
      rowApply change.pk.length (some (change.op, fields)) (s (rowIdOf change fields)) = some row ∧
        s' = Function.update s (rowIdOf change fields) row := by
  rw [Session.applyChange, proper.fieldsOf, Option.bind_eq_bind, Option.bind_some]
  simp only [Option.bind_eq_bind, Option.bind_eq_some_iff, Option.some.injEq]
  exact ⟨fun ⟨row, applied, same⟩ => ⟨row, applied, same.symm⟩,
    fun ⟨row, applied, same⟩ => ⟨row, applied, same.symm⟩⟩

end Proper

/-- The net change of each row is a change its table can have. -/
def SoundNet (columns : Name → List UInt8) (net : RowId → Option Body) : Prop :=
  ∀ id body, net id = some body → Sound (columns id.1) body

/-- The net changes lead from a store to another. -/
def Leads (columns : Name → List UInt8) (net : RowId → Option Body) (s s' : Store) : Prop :=
  ∀ id, rowApply (columns id.1).length (net id) (s id) = some (s' id)

variable {net : RowId → Option Body}

theorem Leads.step {s s₁ s₂ : Store} (leads : Leads columns net s s₁) (sound : SoundNet columns net)
    (proper : Proper columns change fields)
    (keyed : ∀ body, net (rowIdOf change fields) = some body →
      pickKey change.pk body.2 = pickKey change.pk fields)
    (applied : applyChange s₁ change = some s₂) :
    Leads columns (netAdd net change) s s₂ ∧ SoundNet columns (netAdd net change) := by
  obtain ⟨row, stepped, rfl⟩ := proper.applyChange.mp applied
  rw [proper.netAdd]
  have flags := proper.flags
  have here : (rowIdOf change fields).1 = lowered change.table := rfl
  have first := leads (rowIdOf change fields)
  rw [here, ← flags] at first
  obtain ⟨result, sound'⟩ := rowApply_combine
    (fun body found => by rw [flags]; exact sound _ _ found) proper.sound keyed first stepped
  constructor
  · intro id
    by_cases same : id = rowIdOf change fields
    · subst same
      rw [Function.update_self, Function.update_self, here, ← flags]
      exact result
    · rw [Function.update_of_ne same, Function.update_of_ne same]
      exact leads id
  · intro id body found
    by_cases same : id = rowIdOf change fields
    · subst same
      rw [Function.update_self] at found
      rw [here, ← flags]
      exact sound' body found
    · rw [Function.update_of_ne same] at found
      exact sound id body found

/-- A list of changes of different rows does what its changes do to each row. -/
theorem Leads.applyAll {s s' : Store} (leads : Leads columns net s s')
    {changes : List (Change × List Field)}
    (proper : ∀ c ∈ changes, c.1.pk = columns (lowered c.1.table) ∧ c.1.raw = recordOf c.2 ∧
      c.2.length = entryWidth c.1.pk c.1.patchset c.1.op)
    (apart : (changes.map fun c => rowIdOf c.1 c.2).Nodup)
    (each : ∀ c ∈ changes, net (rowIdOf c.1 c.2) = some (c.1.op, c.2))
    (all : ∀ id, net id ≠ none → id ∈ changes.map fun c => rowIdOf c.1 c.2) :
    (changes.map Prod.fst).foldlM applyChange s = some s' := by
  induction changes generalizing net s with
  | nil =>
    have same : s = s' := by
      funext id
      have none : net id = none := by
        by_contra some
        cases all id some
      have result := leads id
      rw [none, rowApply] at result
      exact Option.some.inj result
    rw [same]
    rfl
  | cons c changes ih =>
    obtain ⟨flags, raw, wide⟩ := proper c List.mem_cons_self
    rw [List.map_cons, List.nodup_cons] at apart
    have first := leads (rowIdOf c.1 c.2)
    have here : (rowIdOf c.1 c.2).1 = lowered c.1.table := rfl
    rw [each c List.mem_cons_self, here, ← flags] at first
    have step : applyChange s c.1 =
        some (Function.update s (rowIdOf c.1 c.2) (s' (rowIdOf c.1 c.2))) := by
      rw [applyChange, raw, fieldsOf_record wide, Option.bind_eq_bind, Option.bind_some, first]
      rfl
    rw [List.map_cons, List.foldlM_cons, step, Option.bind_eq_bind, Option.bind_some]
    refine @ih (Function.update net (rowIdOf c.1 c.2) none) _ (fun id => ?_)
      (fun c member => proper c (List.mem_cons_of_mem _ member)) apart.2 (fun c' member => ?_)
      fun id some => ?_
    · by_cases same : id = rowIdOf c.1 c.2
      · subst same
        rw [Function.update_self, Function.update_self]
        rfl
      · rw [Function.update_of_ne same, Function.update_of_ne same]
        exact leads id
    · have other : rowIdOf c'.1 c'.2 ≠ rowIdOf c.1 c.2 := fun same =>
        apart.1 (same ▸ List.mem_map_of_mem (f := fun c => rowIdOf c.1 c.2) member)
      rw [Function.update_of_ne other]
      exact each c' (List.mem_cons_of_mem _ member)
    · by_cases same : id = rowIdOf c.1 c.2
      · subst same
        exact absurd (Function.update_self ..) some
      · rw [Function.update_of_ne same] at some
        rcases List.mem_cons.mp (all id some) with equal | later
        · exact absurd equal same
        · exact later

/-- A table has as many entries as it has rows with a change. -/
theorem GroupTable.Kept.nEntry_eq {t : GroupTable} (kept : t.Kept) {net : RowKey → Option Body}
    (rows : ∀ key, t.At key (net key)) : t.nEntry = Set.ncard { key | net key ≠ none } := by
  have keyed : ∀ e ∈ t.chains.listed, ∃ key, t.entryKey e = .ok key := by
    intro e member
    obtain ⟨fields, record, filled⟩ := kept.filled (kept.filed.mem_listed.mp member)
    exact ⟨_, by rw [GroupTable.entryKey, record]; exact filled.keyFields⟩
  let keyOf (e : GroupEntry) : RowKey := (t.entryKey e).toOption.getD []
  have ok : ∀ e ∈ t.chains.listed, t.entryKey e = .ok (keyOf e) := by
    intro e member
    obtain ⟨key, same⟩ := keyed e member
    simp only [keyOf, same]
    rfl
  have apart : (t.chains.listed.map keyOf).Nodup := by
    have distinct := kept.filed.nodup_listed
    rw [List.Nodup, List.pairwise_map] at distinct ⊢
    refine distinct.imp_of_mem fun {e e'} first second other same => other ?_
    rw [ok e first, ok e' second, same]
  have members : { key | net key ≠ none } = ↑(t.chains.listed.map keyOf).toFinset := by
    ext key
    rw [Set.mem_ofPred_eq, Finset.mem_coe, List.mem_toFinset, List.mem_map]
    constructor
    · intro some
      obtain ⟨⟨op, fields⟩, body⟩ := Option.ne_none_iff_exists'.mp some
      have there := rows key
      rw [body] at there
      obtain ⟨indirect, has, filled, same⟩ := there
      refine ⟨_, kept.filed.mem_listed.mpr has, ?_⟩
      have entry := ok _ (kept.filed.mem_listed.mpr has)
      rw [GroupTable.Filled.entryKey filled, same] at entry
      exact (Except.ok.inj entry).symm
    · rintro ⟨e, member, rfl⟩ none
      have there := rows (keyOf e)
      rw [none] at there
      exact there e (kept.filed.mem_listed.mp member) (ok e member)
  rw [members, Set.ncard_coe_finset, List.toFinset_card_of_nodup apart, List.length_map,
    kept.filed.length_listed, kept.counted]

/-- The group has the net changes of the rows. -/
structure Tracks (columns : Name → List UInt8) (g : ChangeGroup) (net : RowId → Option Body) :
    Prop where
  whole : g.Whole
  kind : g.bPatch.getD false = false
  flags : ∀ t ∈ g.tables, t.abPk = columns (lowered t.name)
  rows : ∀ name key, g.At name key (net (name, key))

theorem tracks_new : Tracks columns ChangeGroup.new fun _ => none :=
  ⟨ChangeGroup.whole_new, rfl, nofun, fun _ _ => rfl⟩

namespace Tracks

variable {g g' : ChangeGroup} {net : RowId → Option Body}

theorem kind_of (tracks : Tracks columns g net) (patchset : change.patchset = false) :
    g.bPatch.getD change.patchset = change.patchset := by
  rw [patchset]
  exact tracks.kind

/-- The table of a change has the columns of the change. -/
theorem tableFor (tracks : Tracks columns g net) (proper : Proper columns change fields)
    (given : Given change) :
    (g.tableFor change).abPk = change.pk ∧ (g.tableFor change).bPatch = false ∧
      (g.tableFor change).nCol = change.nCol := by
  obtain ⟨kept, _, patch⟩ := tracks.whole.tableFor given (tracks.kind_of proper.patchset)
  have flags : (g.tableFor change).abPk = change.pk := by
    rcases g.tableFor_cases change with ⟨i, inside, same, named, _⟩ | ⟨_, same, _⟩
    · rw [same, tracks.flags _ (List.getElem_mem inside), named, proper.flags]
    · rw [same]
      rfl
  exact ⟨flags, patch.trans proper.patchset, by rw [← kept.wide, flags, given.headed.cols]⟩

/-- The new fields of a key are undefined. -/
theorem keeps_of_sound {abPk : List UInt8} {old new : List Field}
    (sound : SoundColumns abPk old new) : KeepsKey abPk old new := by
  induction abPk generalizing old new with
  | nil => nofun
  | cons pk abPk ih =>
    match old, new, sound with
    | o :: old, n :: new, ⟨column, rest⟩ =>
      intro entry member key there
      rcases List.mem_cons.mp member with rfl | later
      · rw [if_pos key] at column
        rw [column.2] at there
        cases there
      · exact ih rest entry later key there

theorem fits (tracks : Tracks columns g net) (proper : Proper columns change fields)
    (given : Given change) : (g.tableFor change).Fits change fields := by
  obtain ⟨flags, patch, cols⟩ := tracks.tableFor proper given
  refine ⟨cols.symm, proper.raw, ?_, ?_⟩
  · rw [flags, patch]
    refine ⟨proper.sound.wide, ?_⟩
    rw [keyOf_full _ (by cases change.op <;> rfl)]
    exact proper.keyable
  · intro body _
    rw [flags, patch]
    refine ⟨fun _ _ update => ?_, nofun⟩
    have sound := proper.sound
    simp only at update
    rw [update] at sound
    exact keeps_of_sound sound.2

theorem roomy_iff (tracks : Tracks columns g net) (proper : Proper columns change fields)
    (given : Given change) : Roomy net change ↔ (g.tableFor change).nEntry < 2 ^ 30 := by
  obtain ⟨kept, _⟩ := tracks.whole.tableFor given (tracks.kind_of proper.patchset)
  rw [kept.nEntry_eq fun key => ChangeGroup.at_tableFor.mp (tracks.rows (lowered change.table) key)]
  rfl

theorem compatible (tracks : Tracks columns g net) (proper : Proper columns change fields)
    (given : Given change) : (g.tableFor change).compatible change.nCol change.pk = true := by
  obtain ⟨flags, _⟩ := tracks.tableFor proper given
  rw [given.headed.cols, GroupTable.compatible_flags (by rw [flags]), flags]

/-- A group with room has the net changes with one change more. -/
theorem step (tracks : Tracks columns g net) (proper : Proper columns change fields)
    (given : Given change) (roomy : Roomy net change) :
    ∃ g', g.addOne change = .ok g' ∧ Tracks columns g' (netAdd net change) := by
  obtain ⟨flags, patch, _⟩ := tracks.tableFor proper given
  obtain ⟨t, added, header, whole, rows⟩ := tracks.whole.step given
    (tracks.kind_of proper.patchset) (tracks.compatible proper given) (tracks.fits proper given)
    ((tracks.roomy_iff proper given).mp roomy)
  refine ⟨_, added, whole, ?_, ?_, ?_⟩
  · exact proper.patchset
  · intro t' member
    rcases ChangeGroup.mem_place member with before | rfl
    · exact tracks.flags t' before
    · rw [header]
      simp only
      rw [g.lowered_tableFor change, ← proper.flags, flags]
  · intro name key
    have after := rows name key _ (tracks.rows name key)
    have here : rowIdOf change fields = (lowered change.table, g.keyIn change fields) := by
      rw [ChangeGroup.keyIn, flags, patch, keyOf_full _ (by cases change.op <;> rfl)]
      rfl
    rw [proper.netAdd, here, Function.update_apply]
    simp only [Prod.mk.injEq]
    rw [flags, patch] at after
    split
    next same =>
      rw [if_pos same, same.1, same.2] at after
      rw [same.1, same.2]
      exact after
    next other =>
      rw [if_neg other] at after
      exact after

/-- A group without room panics. -/
theorem crowded (tracks : Tracks columns g net) (proper : Proper columns change fields)
    (given : Given change) (crowd : ¬ Roomy net change) : g.addOne change = .error .overflow := by
  obtain ⟨kept, _⟩ := tracks.whole.tableFor given (tracks.kind_of proper.patchset)
  rw [tracks.roomy_iff proper given] at crowd
  rw [ChangeGroup.addOne_eq (tracks.kind_of proper.patchset),
    if_pos (tracks.compatible proper given), GroupTable.addChange,
    kept.growHash_panics (Nat.le_of_not_lt crowd)]
  rfl

/-- The change a row has is one of its own key. -/
theorem keyed (tracks : Tracks columns g net) (proper : Proper columns change fields)
    (given : Given change) {body : Body} (found : net (rowIdOf change fields) = some body) :
    pickKey change.pk body.2 = pickKey change.pk fields := by
  obtain ⟨flags, patch, _⟩ := tracks.tableFor proper given
  have there := ChangeGroup.at_tableFor.mp (tracks.rows (lowered change.table) (rowIdOf change fields).2)
  rw [show (lowered change.table, (rowIdOf change fields).2) = rowIdOf change fields from rfl,
    found] at there
  obtain ⟨_, _, _, key⟩ := there
  rw [flags, patch, keyOf_full _ (by cases body.1 <;> rfl)] at key
  exact List.map_injective_iff.mpr Subtype.val_injective key

/-- The changes of a set are proper ones of the iterator. -/
structure ProperAll (columns : Name → List UInt8) (changes : List Change) : Prop where
  proper : ∀ change ∈ changes, ∃ fields, Proper columns change fields
  given : ∀ change ∈ changes, Given change

theorem ProperAll.tail {changes : List Change} (all : ProperAll columns (change :: changes)) :
    ProperAll columns changes :=
  ⟨fun c member => all.proper c (List.mem_cons_of_mem _ member),
    fun c member => all.given c (List.mem_cons_of_mem _ member)⟩

/-- As long as there is room, the group follows the rows. -/
theorem run (tracks : Tracks columns g net) {s s₁ s₂ : Store} (leads : Leads columns net s s₁)
    (sound : SoundNet columns net) {changes : List Change} (all : ProperAll columns changes)
    (roomy : RoomyAll net changes) (applied : changes.foldlM applyChange s₁ = some s₂) :
    ∃ g' net', changes.foldlM ChangeGroup.addOne g = .ok g' ∧ Tracks columns g' net' ∧
      Leads columns net' s s₂ := by
  induction changes generalizing g net s₁ with
  | nil =>
    cases applied
    exact ⟨g, net, rfl, tracks, leads⟩
  | cons change changes ih =>
    obtain ⟨fields, proper⟩ := all.proper change List.mem_cons_self
    have given := all.given change List.mem_cons_self
    rw [List.foldlM_cons, Option.bind_eq_bind, Option.bind_eq_some_iff] at applied
    obtain ⟨s₁', first, rest⟩ := applied
    obtain ⟨g', added, tracks'⟩ := tracks.step proper given roomy.1
    obtain ⟨leads', sound'⟩ := leads.step sound proper (fun body => tracks.keyed proper given) first
    rw [List.foldlM_cons, added, Checked.ok_bind]
    exact ih tracks' leads' sound' all.tail roomy.2 rest

/-- Without room for one of the changes the group panics. -/
theorem run_crowded (tracks : Tracks columns g net) {changes : List Change}
    (all : ProperAll columns changes) (crowd : ¬ RoomyAll net changes) :
    changes.foldlM ChangeGroup.addOne g = .error .overflow := by
  induction changes generalizing g net with
  | nil => exact absurd trivial crowd
  | cons change changes ih =>
    obtain ⟨fields, proper⟩ := all.proper change List.mem_cons_self
    have given := all.given change List.mem_cons_self
    rw [List.foldlM_cons]
    by_cases roomy : Roomy net change
    · obtain ⟨g', added, tracks'⟩ := tracks.step proper given roomy
      rw [added, Checked.ok_bind]
      exact ih tracks' all.tail fun rest => crowd ⟨roomy, rest⟩
    · rw [tracks.crowded proper given roomy]
      rfl

/-- The output of a group has its net changes, once for each row. -/
theorem output_applies (tracks : Tracks columns g net) {s s' : Store} (leads : Leads columns net s s')
    (allocated : g.output.length < 2 ^ 63) : applySet g.output s = some s' := by
  obtain ⟨tables, made⟩ := tracks.whole.written
  rw [applySet, made.all allocated]
  let changes : List (Change × List Field) :=
    tables.flatMap fun table => table.2.map fun e => (changeOf table.1 e.1 e.2, e.2)
  have shown : ChangeGroup.shownTables tables = changes.map Prod.fst := by
    simp only [changes, ChangeGroup.shownTables, List.map_flatMap, List.map_map]
    rfl
  have inside : ∀ table ∈ tables, table.1.abPk = columns (lowered table.1.name) ∧
      table.1.bPatch = false := by
    intro table member
    have there := (made.each table member).1
    refine ⟨tracks.flags _ there, ?_⟩
    have kind := tracks.kind
    rw [tracks.whole.kind _ there] at kind
    exact kind
  have ids : ∀ table ∈ tables, ∀ e ∈ table.2, rowIdOf (changeOf table.1 e.1 e.2) e.2 =
        (lowered table.1.name, (keyOf table.1.abPk table.1.bPatch e.1.op e.2).map Subtype.val) ∧
      table.1.entryKey e.1 =
        .ok ((keyOf table.1.abPk table.1.bPatch e.1.op e.2).map Subtype.val) := by
    intro table there e entry
    obtain ⟨legible, _, _, filled, _⟩ := (made.each table there).2.each e entry
    constructor
    · rw [(inside table there).2, keyOf_full _ (by cases e.1.op <;> rfl)]
      rfl
    · rw [GroupTable.entryKey, legible.record]
      exact filled.keyFields
  simp only
  rw [shown]
  refine leads.applyAll ?_ ?_ ?_ ?_
  · intro c member
    obtain ⟨table, there, member⟩ := List.mem_flatMap.mp member
    obtain ⟨e, entry, rfl⟩ := List.mem_map.mp member
    obtain ⟨legible, _⟩ := (made.each table there).2.each e entry
    exact ⟨(inside table there).1, legible.record, legible.wide⟩
  · simp only [changes, List.map_flatMap, List.map_map]
    rw [List.Nodup, List.pairwise_flatMap]
    constructor
    · intro table there
      have written := (made.each table there).2
      have keys := written.kept.filed.nodup_listed
      rw [← written.listed, List.map_map, List.Nodup, List.pairwise_map] at keys
      rw [List.pairwise_map]
      refine keys.imp_of_mem fun {e e'} first second apart same => apart ?_
      simp only [Function.comp] at same ⊢
      obtain ⟨id, key⟩ := ids table there e first
      obtain ⟨id', key'⟩ := ids table there e' second
      rw [id, id'] at same
      rw [key, key', (Prod.mk.inj same).2]
    · have names := made.names
      rw [List.Nodup, List.pairwise_map] at names
      refine names.imp fun apart a first b second same => apart ?_
      obtain ⟨_, _, rfl⟩ := List.mem_map.mp first
      obtain ⟨_, _, rfl⟩ := List.mem_map.mp second
      exact (Prod.mk.inj same).1
  · intro c member
    obtain ⟨table, there, member⟩ := List.mem_flatMap.mp member
    obtain ⟨e, entry, rfl⟩ := List.mem_map.mp member
    have at_row := made.at tracks.whole there entry
    simp only
    rw [(ids table there e entry).1]
    exact tracks.whole.at_unique (tracks.rows _ _) at_row
  · rintro ⟨name, key⟩ some
    obtain ⟨⟨op, fields⟩, body⟩ := Option.ne_none_iff_exists'.mp some
    have row := tracks.rows name key
    rw [body, ChangeGroup.At] at row
    cases found : g.tableNamed name with
    | none =>
      rw [found] at row
      cases row
    | some t =>
      rw [found] at row
      obtain ⟨indirect, has, filled, keyed⟩ := row
      have member := List.mem_of_find?_eq_some found
      have matched := @List.find?_some _ (fun t : GroupTable => lowered t.name == name) t g.tables
        found
      have named := beq_iff_eq.mp matched
      have listed := (tracks.whole.kept t member).filed.mem_listed.mpr has
      have entry : (t.name, (⟨op, indirect, recordOf fields⟩ : GroupEntry)) ∈
          tables.flatMap fun table => table.2.map fun e => (table.1.name, e.1) := by
        rw [made.entries]
        exact List.mem_flatMap.mpr ⟨t, member, List.mem_map.mpr ⟨_, listed, rfl⟩⟩
      obtain ⟨table, there, entry⟩ := List.mem_flatMap.mp entry
      obtain ⟨e, inside_table, same⟩ := List.mem_map.mp entry
      obtain ⟨same_name, same_entry⟩ := Prod.mk.inj same
      have same_table : table.1 = t := by
        have first := tracks.whole.tableNamed (made.each table there).1
        rw [same_name, tracks.whole.tableNamed member] at first
        exact (Option.some.inj first).symm
      obtain ⟨id, entryKey⟩ := ids table there e inside_table
      have stored : table.1.entryKey e.1 = .ok key := by
        rw [same_table, same_entry, GroupTable.Filled.entryKey filled, keyed]
      rw [stored] at entryKey
      refine List.mem_map.mpr ⟨(changeOf table.1 e.1 e.2, e.2), List.mem_flatMap.mpr
        ⟨table, there, List.mem_map.mpr ⟨e, inside_table, rfl⟩⟩, ?_⟩
      simp only
      rw [id, same_name, named, ← Except.ok.inj entryKey]

end Tracks

theorem add_all {g : ChangeGroup} {cs : List UInt8} {changes : List Change}
    (read : (ChangesetIter.start cs false).all = .ok changes) :
    g.add cs = changes.foldlM ChangeGroup.addOne g := ChangesetIter.foldChanges_of_all read _ _

theorem concat_all {a b : List UInt8} {as bs : List Change}
    (first : (ChangesetIter.start a false).all = .ok as)
    (second : (ChangesetIter.start b false).all = .ok bs) :
    concat a b = (as ++ bs).foldlM ChangeGroup.addOne ChangeGroup.new >>=
      fun g => .ok g.output := by
  rw [concat, add_all first, List.foldlM_append, bind_assoc]
  simp only [add_all second]

/-- The changesets are well formed, with the same flags for each table. -/
def ProperSets (columns : Name → List UInt8) (changes : List Change) : Prop :=
  ∀ change ∈ changes, ∃ fields, Proper columns change fields

/-- The changes of the iterator, when they are proper. -/
theorem properAll {a b : List UInt8} {as bs : List Change}
    (first : (ChangesetIter.start a false).all = .ok as)
    (second : (ChangesetIter.start b false).all = .ok bs)
    (proper : ProperSets columns (as ++ bs)) : Tracks.ProperAll columns (as ++ bs) := by
  refine ⟨proper, fun change member => ?_⟩
  have given : ∀ {cs changes}, (ChangesetIter.start cs false).all = .ok changes →
      ∀ change ∈ changes, Given change := fun read =>
    ChangesetIter.foldChanges_given (fun named => absurd rfl named) rfl
      (fun _ none => absurd none List.not_mem_nil) read
  rcases List.mem_append.mp member with left | right
  · exact given first change left
  · exact given second change right

/-- Where `a` and then `b` apply, their concatenation is made and does what the two do, exactly when
every change finds fewer than `2 ^ 30` rows of its table with a change. -/
theorem concat_composes (columns : Name → List UInt8) (a b : List UInt8) (as bs : List Change)
    (first : (ChangesetIter.start a false).all = .ok as)
    (second : (ChangesetIter.start b false).all = .ok bs)
    (proper : ProperSets columns (as ++ bs)) (s s₁ s₂ : Store) (applied : applySet a s = some s₁)
    (applied' : applySet b s₁ = some s₂)
    (allocated : ∀ out, concat a b = .ok out → out.length < 2 ^ 63) :
    (∃ out, concat a b = .ok out ∧ applySet out s = some s₂) ↔
      RoomyAll (fun _ => none) (as ++ bs) := by
  have all := properAll first second proper
  constructor
  · rintro ⟨out, done, _⟩
    by_contra crowd
    rw [concat_all first second, tracks_new.run_crowded all crowd] at done
    cases done
  · intro roomy
    have both : (as ++ bs).foldlM applyChange s = some s₂ := by
      rw [applySet, first] at applied
      rw [applySet, second] at applied'
      simp only at applied applied'
      rw [List.foldlM_append, applied, Option.bind_eq_bind, Option.bind_some, applied']
    obtain ⟨g, net, added, tracks, leads⟩ := tracks_new.run (fun _ => rfl) nofun all roomy both
    have done : concat a b = .ok g.output := by
      rw [concat_all first second, added, Checked.ok_bind]
    exact ⟨g.output, done, tracks.output_applies leads (allocated _ done)⟩

/-- An update of the inserted row. -/
def updateSet : List UInt8 :=
  [0x54, 2, 1, 0, 0x74, 0, 23, 0, 1, 0, 0, 0, 0, 0, 0, 0, 1, 1, 0, 0, 0, 0, 0, 0, 0, 2, 0,
    1, 0, 0, 0, 0, 0, 0, 0, 3]

def pairChange (op : Op) (old new : List (Option SessVal)) (fields : List Field) : Change :=
  ⟨ascii "t", 2, [1, 0], false, op, false, old, new, recordOf fields⟩

def insertChange : Change :=
  pairChange .insert [] [some (.int 1), some (.int 2)]
    [ChangeGroup.integerField 1, ChangeGroup.integerField 2]

def updateChange : Change :=
  pairChange .update [some (.int 1), some (.int 2)] [some .undef, some (.int 3)]
    [ChangeGroup.integerField 1, ChangeGroup.integerField 2, undefField, ChangeGroup.integerField 3]

theorem insertSet_read : (ChangesetIter.start ChangeGroup.insertSet false).all = .ok [insertChange] := by
  decide +kernel

theorem updateSet_read : (ChangesetIter.start updateSet false).all = .ok [updateChange] := by
  decide +kernel

theorem keyable_integer (i : Int64) : Keyable (ChangeGroup.integerField i).1 :=
  ⟨_, _, rfl, .inl rfl⟩

theorem insertChange_proper : Proper (fun _ => [1, 0]) insertChange
    [ChangeGroup.integerField 1, ChangeGroup.integerField 2] := by
  refine ⟨rfl, rfl, rfl, ⟨rfl, by decide⟩, fun field member => ?_⟩
  rw [List.mem_singleton.mp member]
  exact keyable_integer 1

theorem updateChange_proper : Proper (fun _ => [1, 0]) updateChange
    [ChangeGroup.integerField 1, ChangeGroup.integerField 2, undefField,
      ChangeGroup.integerField 3] := by
  refine ⟨rfl, rfl, rfl, ⟨rfl, ⟨⟨rfl, rfl⟩, rfl, trivial⟩⟩, fun field member => ?_⟩
  rw [List.mem_singleton.mp member]
  exact keyable_integer 1

/-- The row of key 1. -/
def rowOne : RowId := (ascii "t", [(ChangeGroup.integerField 1).1])

def storeOf (b : Int64) : Store :=
  Function.update (fun _ => none) rowOne
    (some [ChangeGroup.integerField 1, ChangeGroup.integerField b])

/-- One change leaves at most its own row changed. -/
theorem roomy_one (change : Change) (net : RowId → Option Body) {id : RowId}
    (only : ∀ other, other ≠ id → net other = none) : Roomy net change := by
  have inside : { key | net (lowered change.table, key) ≠ none } ⊆ {id.2} := by
    intro key some
    by_contra other
    exact some (only _ fun same => other (congrArg Prod.snd same))
  have small := Set.ncard_le_ncard inside
  rw [Set.ncard_singleton] at small
  exact small.trans_lt (by decide)

theorem concat_composes_update : ∃ out, concat ChangeGroup.insertSet updateSet = .ok out ∧
    applySet out (fun _ => none) = some (storeOf 3) := by
  have sized : (match concat ChangeGroup.insertSet updateSet with
      | .ok out => decide (out.length < 2 ^ 63)
      | .error _ => true) = true := by decide +kernel
  refine (concat_composes (fun _ => [1, 0]) ChangeGroup.insertSet updateSet [insertChange]
    [updateChange] insertSet_read updateSet_read ?_ (fun _ => none) (storeOf 2) (storeOf 3) ?_ ?_
    ?_).mpr ?_
  · intro change member
    rcases List.mem_pair.mp member with rfl | rfl
    · exact ⟨_, insertChange_proper⟩
    · exact ⟨_, updateChange_proper⟩
  · rw [applySet, insertSet_read]
    simp only [List.foldlM_cons, List.foldlM_nil]
    rw [insertChange_proper.applyChange.mpr ⟨_, rfl, rfl⟩]
    rfl
  · have row : storeOf 2 (rowIdOf updateChange [ChangeGroup.integerField 1,
        ChangeGroup.integerField 2, undefField, ChangeGroup.integerField 3]) =
        some [ChangeGroup.integerField 1, ChangeGroup.integerField 2] := Function.update_self ..
    rw [applySet, updateSet_read]
    simp only [List.foldlM_cons, List.foldlM_nil]
    rw [updateChange_proper.applyChange.mpr ⟨some [ChangeGroup.integerField 1,
      ChangeGroup.integerField 3], by rw [row]; decide +kernel, rfl⟩, storeOf]
    simp only [Option.bind_eq_bind, Option.bind_some, Option.pure_def, Option.some.injEq]
    exact Function.update_idem ..
  · intro out done
    rw [done] at sized
    exact of_decide_eq_true sized
  · refine ⟨@roomy_one _ _ rowOne fun _ _ => rfl, ?_, trivial⟩
    rw [insertChange_proper.netAdd]
    exact @roomy_one _ _ rowOne fun other apart => Function.update_of_ne apart ..

/-- A table with a key column and no other. -/
def keyTable : GroupTable := .new (ascii "t") 1 [1] false

def keyEntry (i : Nat) : GroupEntry × List Field :=
  (⟨.insert, false, recordOf [ChangeGroup.integerField (Int64.ofNat i)]⟩,
    [ChangeGroup.integerField (Int64.ofNat i)])

/-- The inserts of so many keys. -/
def keyInserts (first n : Nat) : List UInt8 :=
  ChangesetIter.tableChunk (keyTable, (List.range' first n).map keyEntry)

def keyChange (i : Nat) : Change := changeOf keyTable (keyEntry i).1 (keyEntry i).2

theorem keyEntry_length (i : Nat) : (ChangeGroup.entryBytes (keyEntry i).1).length = 11 := by
  have eight := putI64_length (Int64.ofNat i).toUInt64
  simp only [ChangeGroup.entryBytes, keyEntry, recordOf_cons, recordOf_nil, List.append_nil,
    List.length_cons]
  exact congrArg (· + 3) eight

theorem keyInserts_read {first n : Nat} (small : n < 2 ^ 40) :
    (ChangesetIter.start (keyInserts first n) false).all = .ok ((List.range' first n).map keyChange) := by
  have length : (keyInserts first n).length = 5 + n * 11 := by
    simp only [keyInserts, ChangesetIter.tableChunk, List.length_append, List.flatMap_map,
      List.length_flatMap, keyEntry_length, List.map_const', List.sum_replicate, List.length_range']
    rfl
  have headed : ChangesetIter.Headed keyTable.name keyTable.nCol keyTable.abPk :=
    ⟨by decide, by decide, by decide, rfl, by decide⟩
  have read := @ChangesetIter.foldChanges_tables (ChangesetIter.start (keyInserts first n) false)
    (by change (keyInserts first n).length < _; omega) rfl
    [(keyTable, (List.range' first n).map keyEntry)]
    (fun table member => by rw [List.mem_singleton.mp member]; exact headed)
    (fun table member e entry => by
      rw [List.mem_singleton.mp member] at entry ⊢
      obtain ⟨i, _, rfl⟩ := List.mem_map.mp entry
      exact ⟨rfl, rfl, fun both => by cases both.1⟩)
    (by rw [List.flatMap_singleton]; rfl) []
  rw [List.nil_append, List.flatMap_singleton] at read
  rw [ChangesetIter.all, read, List.map_map]
  rfl

theorem keyChange_proper (i : Nat) :
    Proper (fun _ => [1]) (keyChange i) [ChangeGroup.integerField (Int64.ofNat i)] := by
  refine ⟨rfl, rfl, rfl, ⟨rfl, fun field member => ?_⟩, fun field member => ?_⟩
  · rw [List.mem_singleton.mp member]
    rfl
  · rw [List.mem_singleton.mp member]
    exact keyable_integer _

def keyId (i : Nat) : RowId := rowIdOf (keyChange i) [ChangeGroup.integerField (Int64.ofNat i)]

theorem keyId_fst (i : Nat) : (keyId i).1 = lowered (ascii "t") := rfl

theorem keyId_injective {i j : Nat} (small : i < 2 ^ 63) (small' : j < 2 ^ 63)
    (same : keyId i = keyId j) : i = j := by
  have bytes : typeInt :: putI64 (Int64.ofNat i).toUInt64 = typeInt :: putI64 (Int64.ofNat j).toUInt64 :=
    (List.cons.inj (Prod.mk.inj same).2).1
  have read := @getI64_putI64 String (Int64.ofNat i).toUInt64 []
  rw [(List.cons.inj bytes).2, getI64_putI64] at read
  have words := congrArg UInt64.toNat (Except.ok.inj read)
  have word : ∀ k : Nat, k < 2 ^ 63 → (Int64.ofNat k).toUInt64.toNat = k := by
    intro k bound
    have whole : (Int64.ofNat k).toUInt64 = UInt64.ofNat k := rfl
    rw [whole, UInt64.toNat_ofNat', Nat.mod_eq_of_lt (by omega)]
  rw [word i small, word j small'] at words
  exact words.symm

/-- New keys are inserted one after the other. -/
theorem apply_keys {is : List Nat} (apart : is.Nodup) (small : ∀ i ∈ is, i < 2 ^ 63) {s : Store}
    (absent : ∀ i ∈ is, s (keyId i) = none) :
    ∃ s', (is.map keyChange).foldlM applyChange s = some s' ∧
      ∀ j, j < 2 ^ 63 → j ∉ is → s' (keyId j) = s (keyId j) := by
  induction is generalizing s with
  | nil => exact ⟨s, rfl, fun _ _ _ => rfl⟩
  | cons i is ih =>
    rw [List.nodup_cons] at apart
    have bound := small i List.mem_cons_self
    have here : s (rowIdOf (keyChange i) [ChangeGroup.integerField (Int64.ofNat i)]) = none :=
      absent i List.mem_cons_self
    have step : applyChange s (keyChange i) = some (Function.update s (keyId i)
        (some [ChangeGroup.integerField (Int64.ofNat i)])) :=
      (keyChange_proper i).applyChange.mpr ⟨_, by rw [here]; rfl, rfl⟩
    have other : ∀ j, j < 2 ^ 63 → j ≠ i → keyId j ≠ keyId i :=
      fun j bound' differ same => differ (keyId_injective bound' bound same)
    obtain ⟨s', done, kept⟩ := ih apart.2 (fun j member => small j (List.mem_cons_of_mem _ member))
      fun j member => (Function.update_of_ne (other j (small j (List.mem_cons_of_mem _ member))
        fun same => apart.1 (same ▸ member)) ..).trans (absent j (List.mem_cons_of_mem _ member))
    refine ⟨s', ?_, fun j bound' outside => ?_⟩
    · rw [List.map_cons, List.foldlM_cons, step]
      exact done
    · rw [List.mem_cons, not_or] at outside
      exact (kept j bound' outside.2).trans (Function.update_of_ne (other j bound' outside.1) ..)

theorem netAdd_key (inserts : ∀ id body, net id = some body → body.1 = .insert) (i : Nat) :
    ∃ body : Body, body.1 = .insert ∧
      netAdd net (keyChange i) = Function.update net (keyId i) (some body) := by
  have added : netAdd net (keyChange i) = Function.update net (keyId i)
      (combine [1] false (net (keyId i)) (.insert, [ChangeGroup.integerField (Int64.ofNat i)])) :=
    (keyChange_proper i).netAdd net
  rw [added]
  match found : net (keyId i) with
  | none => exact ⟨_, rfl, rfl⟩
  | some (op, fields) =>
    have kind : op = .insert := inserts _ _ found
    subst kind
    exact ⟨(.insert, fields), rfl, rfl⟩

/-- The rows with a change are those of the inserted keys. -/
theorem net_keys {is : List Nat} (inserts : ∀ id body, net id = some body → body.1 = .insert)
    (id : RowId) :
    (is.map keyChange).foldl netAdd net id ≠ none ↔ net id ≠ none ∨ id ∈ is.map keyId := by
  induction is generalizing net with
  | nil => simp
  | cons i is ih =>
    obtain ⟨body, kind, added⟩ := netAdd_key inserts i
    rw [List.map_cons, List.foldl_cons, added, ih fun other body' found => ?_, List.map_cons,
      List.mem_cons]
    · by_cases same : id = keyId i
      · rw [same, Function.update_self]
        simp
      · rw [Function.update_of_ne same]
        simp [same]
    · by_cases same : other = keyId i
      · rw [same, Function.update_self] at found
        cases found
        exact kind
      · rw [Function.update_of_ne same] at found
        exact inserts other body' found

theorem roomyAll_append {xs ys : List Change} :
    RoomyAll net (xs ++ ys) ↔ RoomyAll net xs ∧ RoomyAll (xs.foldl netAdd net) ys := by
  induction xs generalizing net with
  | nil => exact ⟨fun all => ⟨trivial, all⟩, And.right⟩
  | cons x xs ih => rw [List.cons_append, RoomyAll, RoomyAll, ih, List.foldl_cons, and_assoc]

/-- So many inserted keys are so many rows with a change. -/
theorem crowded_keys {n : Nat} (small : n < 2 ^ 40) :
    Set.ncard { key | ((List.range' 0 n).map keyChange).foldl netAdd (fun _ => none)
      (lowered (ascii "t"), key) ≠ none } = n := by
  have rows := @net_keys (fun _ => none) (List.range' 0 n) nofun
  have set : { key | ((List.range' 0 n).map keyChange).foldl netAdd (fun _ => none)
      (lowered (ascii "t"), key) ≠ none } =
        ↑((List.range' 0 n).map fun i => (keyId i).2).toFinset := by
    ext key
    rw [Set.mem_ofPred_eq, rows, Finset.mem_coe, List.mem_toFinset]
    simp only [ne_eq, not_true_eq_false, false_or, List.mem_map]
    constructor
    · rintro ⟨i, member, same⟩
      exact ⟨i, member, congrArg Prod.snd same⟩
    · rintro ⟨i, member, rfl⟩
      exact ⟨i, member, rfl⟩
  have apart : ((List.range' 0 n).map fun i => (keyId i).2).Nodup := by
    refine List.Nodup.map_on (fun i member j member' same => ?_) List.nodup_range'
    have bound := (List.mem_range'_1.mp member).2
    have bound' := (List.mem_range'_1.mp member').2
    exact keyId_injective (by omega) (by omega) (Prod.ext ((keyId_fst i).trans (keyId_fst j).symm) same)
  rw [set, Set.ncard_coe_finset, List.toFinset_card_of_nodup apart, List.length_map,
    List.length_range']

/-- The rows of the changes, each once. -/
def OnePerKey (changes : List Change) : Prop :=
  (changes.map fun change => (fieldsOf (entryWidth change.pk change.patchset change.op)
    change.raw).map (rowIdOf change)).Nodup

theorem onePerKey_keys {first n : Nat} (small : first + n < 2 ^ 63) :
    OnePerKey ((List.range' first n).map keyChange) := by
  rw [OnePerKey, List.map_map]
  refine List.Nodup.map_on (fun i member j member' same => ?_) List.nodup_range'
  simp only [Function.comp, (keyChange_proper i).fieldsOf, (keyChange_proper j).fieldsOf,
    Option.map_some, Option.some.injEq] at same
  have bound := (List.mem_range'_1.mp member).2
  have bound' := (List.mem_range'_1.mp member').2
  exact keyId_injective (by omega) (by omega) same

/-- `2 ^ 30` keys are inserted by one changeset and one more by the next: both apply, and their
concatenation panics. -/
theorem concat_crowded : ∃ as bs s₁ s₂,
    (ChangesetIter.start (keyInserts 0 (2 ^ 30)) false).all = .ok as ∧
      (ChangesetIter.start (keyInserts (2 ^ 30) 1) false).all = .ok bs ∧
      ProperSets (fun _ => [1]) (as ++ bs) ∧ OnePerKey as ∧ OnePerKey bs ∧
      applySet (keyInserts 0 (2 ^ 30)) (fun _ => none) = some s₁ ∧
      applySet (keyInserts (2 ^ 30) 1) s₁ = some s₂ ∧
      concat (keyInserts 0 (2 ^ 30)) (keyInserts (2 ^ 30) 1) = .error .overflow := by
  have first := @keyInserts_read 0 (2 ^ 30) (by decide)
  have second := @keyInserts_read (2 ^ 30) 1 (by decide)
  have proper : ProperSets (fun _ => [1]) ((List.range' 0 (2 ^ 30)).map keyChange ++
      (List.range' (2 ^ 30) 1).map keyChange) := by
    intro change member
    rw [← List.map_append] at member
    obtain ⟨i, _, rfl⟩ := List.mem_map.mp member
    exact ⟨_, keyChange_proper i⟩
  obtain ⟨s₁, applied, kept⟩ := @apply_keys (List.range' 0 (2 ^ 30)) List.nodup_range'
    (fun i member => by have := (List.mem_range'_1.mp member).2; omega) (fun _ => none)
    fun _ _ => rfl
  obtain ⟨s₂, applied', _⟩ := @apply_keys (List.range' (2 ^ 30) 1) List.nodup_range'
    (fun i member => by have := (List.mem_range'_1.mp member).2; omega) s₁ fun i member => by
      have range := List.mem_range'_1.mp member
      exact kept i (by omega) fun there => by have := (List.mem_range'_1.mp there).2; omega
  refine ⟨_, _, s₁, s₂, first, second, proper, onePerKey_keys (by decide), onePerKey_keys (by decide),
    by rw [applySet, first]; exact applied, by rw [applySet, second]; exact applied', ?_⟩
  rw [concat_all first second, tracks_new.run_crowded (properAll first second proper)]
  · rfl
  · intro roomy
    have last : Set.ncard { key | ((List.range' 0 (2 ^ 30)).map keyChange).foldl netAdd
        (fun _ => none) (lowered (ascii "t"), key) ≠ none } < 2 ^ 30 := (roomyAll_append.mp roomy).2.1
    rw [crowded_keys (by decide)] at last
    exact Nat.lt_irrefl _ last

end RustSql.Session
