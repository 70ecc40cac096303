import RustSql.Session.GroupKept
import RustSql.Session.ReadBack

/-! A group under changes: what it keeps true of its tables, from its first change on. -/

namespace RustSql.Session

open RustSql.Foundation RustSql.Types

/-- A key in the form that is written: every length in its shortest form. -/
def Plain (key : RowKey) : Prop := ∀ field ∈ key, field = written (valueOf field)

/-- A change of a row meets the entry of that row: an update keeps the key of an inserted row, and a
patchset deletes no keyed row to insert it again. -/
structure Meets (abPk : List UInt8) (patch : Bool) (old new : Body) : Prop where
  keeps : patch = false → old.1 = .insert → new.1 = .update →
    KeepsKey abPk (new.2.take abPk.length) (new.2.drop abPk.length)
  apart : patch = true → old.1 = .delete → new.1 = .insert → ∀ pk ∈ abPk, pk = 0

/-- The kind of a combined change. -/
theorem combine_op {abPk : List UInt8} {patch : Bool} {old new body : Body}
    (result : combine abPk patch (some old) new = some body) :
    body.1 = old.1 ∨ old.1 = .delete ∧ new.1 = .insert ∨ body.1 = .delete := by
  obtain ⟨op, fields⟩ := old
  obtain ⟨op', fields'⟩ := new
  unfold combine mergedFields at result
  cases op <;> cases op'
  case delete.insert => exact .inr (.inl ⟨rfl, rfl⟩)
  case update.delete =>
    cases result
    exact .inr (.inr rfl)
  case insert.delete => cases result
  case update.update =>
    dsimp only at result
    split at result
    next unchanged => cases unchanged
    · cases result
    next op fields'' updated =>
      rw [Option.some.injEq, Prod.mk.injEq] at updated
      cases result
      exact .inl updated.1.symm
  all_goals
    cases result
    exact .inl rfl

theorem shown_combine {abPk : List UInt8} {patch : Bool} {old : Option Body} {new body : Body}
    (before : ∀ body, old = some body → Shown abPk patch body.1) (after : Shown abPk patch new.1)
    (meets : ∀ body, old = some body → Meets abPk patch body new)
    (result : combine abPk patch old new = some body) : Shown abPk patch body.1 := by
  match old with
  | none =>
    cases result
    exact after
  | some old =>
    rintro ⟨patched, update, pk, member, key⟩
    rcases combine_op result with same | ⟨deleted, inserted⟩ | deleted
    · exact before _ rfl ⟨patched, same ▸ update, pk, member, key⟩
    · exact key ((meets _ rfl).apart patched deleted inserted pk member)
    · rw [deleted] at update
      cases update

/-- What the iterator gives of every change. -/
structure Given (change : Change) : Prop where
  headed : ChangesetIter.Headed change.table change.nCol change.pk
  shown : Shown change.pk change.patchset change.op

namespace ChangesetIter

variable {it it' : ChangesetIter} {change : Change}

/-- The iterator is behind a header, or in front of the first. -/
def Ready (it : ChangesetIter) : Prop := it.zTab ≠ [] → Headed it.zTab it.nCol it.abPk

theorem readTblhdr_ready (read : it.readTblhdr = .ok it') : it'.Ready ∧ it'.bInvert = it.bInvert := by
  unfold readTblhdr at read
  split at read
  · cases read
  · simp only at read
    split at read
    · cases read
    next some =>
      obtain ⟨stop, added, read⟩ := Checked.bind_ok_iff.mp read
      obtain ⟨_, rfl⟩ := Checked.add_eq_ok.mp added
      split at read
      · cases read
      next inside =>
        rw [Checked.sliceRange_ok (Nat.le_add_right _ _) (by omega), Checked.ok_bind] at read
        split at read
        · cases read
        next nameEnd found =>
          split at read
          next utf8 =>
            cases read
            refine ⟨fun named => ⟨named, fun zero => ?_, utf8, ?_, Nat.pos_of_ne_zero some⟩, rfl⟩
            · obtain ⟨_, _, before⟩ := List.findIdx?_eq_some_iff_getElem.mp found
              obtain ⟨j, small, byte⟩ := List.mem_iff_getElem.mp zero
              rw [List.length_take] at small
              rw [List.getElem_take] at byte
              exact before j (by omega) (decide_eq_true byte)
            · simp only [List.length_take, List.length_drop]
              omega
          · cases read

theorem readOp_ready {code : Option UInt8} (ready : it.Ready)
    (read : it.readOp = .ok (code, it')) : it'.Ready ∧ it'.bInvert = it.bInvert := by
  fun_induction readOp it with
  | case1 => cases read
  | case2 it inside op header it₁ moved ih =>
    obtain ⟨ready', straight⟩ := readTblhdr_ready moved
    obtain ⟨final, same⟩ := ih ready' read
    exact ⟨final, same.trans straight⟩
  | case3 it inside op =>
    cases read
    exact ⟨ready, rfl⟩
  | case4 it outside =>
    cases read
    exact ⟨ready, rfl⟩

theorem readChange_given {code : UInt8} (ready : it.Ready) (straight : it.bInvert = false)
    (read : it.readChange code = .ok (change, it')) :
    Given change ∧ it'.Ready ∧ it'.bInvert = false := by
  unfold readChange at read
  split at read
  · cases read
  next header =>
    have named : it.zTab ≠ [] := fun empty => header (.inl empty)
    split at read
    · cases read
    next op kind =>
      split at read
      · cases read
      · obtain ⟨flag, _, read⟩ := Checked.bind_ok_iff.mp read
        obtain ⟨⟨old, new, stop⟩, _, read⟩ := Checked.bind_ok_iff.mp read
        obtain ⟨raw, _, read⟩ := Checked.bind_ok_iff.mp read
        dsimp only at read
        split at read
        · cases read
        next shown =>
          cases read
          have same : (it.shownSides op old new).1 = op := by
            unfold shownSides
            rw [if_neg (by rw [straight]; exact nofun)]
            split <;> rfl
          exact ⟨⟨ready named, by rw [same]; exact shown⟩, ready, straight⟩

theorem next_given (ready : it.Ready) (straight : it.bInvert = false)
    (read : it.next = .ok (some change, it')) : Given change ∧ it'.Ready ∧ it'.bInvert = false := by
  unfold next at read
  obtain ⟨⟨code, it₁⟩, op, read⟩ := Checked.bind_ok_iff.mp read
  cases code with
  | none => cases read
  | some code =>
    obtain ⟨⟨change', it₂⟩, body, done⟩ := Checked.bind_ok_iff.mp read
    cases done
    obtain ⟨ready', same⟩ := readOp_ready ready op
    exact readChange_given ready' (same.trans straight) body

/-- Every change of the iterator has a header and can be shown. -/
theorem foldChanges_given {seen changes : List Change} (ready : it.Ready)
    (straight : it.bInvert = false) (given : ∀ change ∈ seen, Given change)
    (done : it.foldChanges (fun seen change => .ok (seen ++ [change])) seen = .ok changes) :
    ∀ change ∈ changes, Given change := by
  fun_induction foldChanges (fun seen change => .ok (seen ++ [change])) it seen with
  | case1 => cases done
  | case2 =>
    cases done
    exact given
  | case3 it seen change it' read ih =>
    rw [Checked.ok_bind] at done
    obtain ⟨first, ready', straight'⟩ := next_given ready straight read
    refine ih _ ready' straight' (fun other member => ?_) done
    rcases List.mem_append.mp member with before | last
    · exact given other before
    · rw [List.mem_singleton.mp last]
      exact first

end ChangesetIter

namespace GroupTable

/-- The entries of a table can be read back. -/
def Entered (t : GroupTable) : Prop :=
  ∀ key op fields, t.At key (some (op, fields)) → Shown t.abPk t.bPatch op

variable {t t' : GroupTable}

/-- The flags of a change of all columns are those of the table. -/
theorem compatible_flags {pk : List UInt8} (wide : pk.length = t.abPk.length) :
    t.compatible pk.length pk = true ↔ pk.map (· != 0) = t.abPk.map (· != 0) := by
  rw [compatible, wide, decide_eq_true (Nat.le_refl _), Bool.true_and, ← wide, List.take_length]
  generalize t.abPk = flags at wide
  induction pk generalizing flags with
  | nil =>
    rw [List.length_eq_zero_iff.mp wide.symm]
    exact ⟨fun _ => rfl, fun _ => rfl⟩
  | cons p pk ih =>
    match flags with
    | f :: flags =>
      rw [List.zip_cons_cons, List.all_cons, Bool.and_eq_true, ih flags (Nat.succ.inj wide),
        List.map_cons, List.map_cons, List.cons.injEq, beq_iff_eq]
      exact and_congr_left fun _ => eq_comm

/-- A change that fits its table: its record has the columns of the table and a key that can be
hashed and compared. -/
structure Fits (t : GroupTable) (change : Change) (fields : List Field) : Prop where
  nCol : change.nCol = t.nCol
  raw : change.raw = recordOf fields
  filled : Filled t.abPk t.bPatch change.op fields
  meets : ∀ body, t.At ((keyOf t.abPk t.bPatch change.op fields).map Subtype.val) (some body) →
    Meets t.abPk t.bPatch body (change.op, fields)

/-- A table with room takes a change that fits. -/
theorem Fits.addChange {change : Change} {fields : List Field} (fits : t.Fits change fields)
    (kept : t.Kept) (entered : t.Entered) (patchset : change.patchset = t.bPatch)
    (shown : Shown t.abPk t.bPatch change.op) (room : t.nEntry < 2 ^ 30) {key : RowKey}
    (keyed : (keyOf t.abPk t.bPatch change.op fields).map Subtype.val = key) :
    ∃ t', t.addChange false change = .ok t' ∧ t.Reentered t' ∧ t'.Kept ∧ t'.Entered ∧
      ∀ key' body, t.At key' body → t'.At key'
        (if key' = key then combine t.abPk t.bPatch body (change.op, fields) else body) := by
  have meets := fits.meets
  rw [keyed] at meets
  obtain ⟨body, at_key⟩ := kept.exists_at key
  obtain ⟨t', done, header, kept', there, others⟩ := kept.addChange room fits.filled fits.raw
    fits.nCol patchset keyed at_key fun fields' found full update => by
      subst found
      exact (meets _ at_key).keeps full rfl update
  have all : ∀ key' body, t.At key' body → t'.At key'
      (if key' = key then combine t.abPk t.bPatch body (change.op, fields) else body) := by
    intro key' body' before
    split
    next same =>
      subst same
      rw [kept.at_unique before at_key]
      exact there
    next other => exact others key' body' other before
  refine ⟨t', done, header, kept', fun key' op fields' after => ?_, all⟩
  have flags : t'.abPk = t.abPk ∧ t'.bPatch = t.bPatch := by
    rw [header]
    exact ⟨rfl, rfl⟩
  rw [flags.1, flags.2]
  obtain ⟨body', before⟩ := kept.exists_at key'
  have result := kept'.at_unique (all key' body' before) after
  split at result
  next same =>
    subst same
    refine shown_combine (fun old found => ?_) shown (fun old found => ?_) result
    · subst found
      exact entered _ _ _ before
    · subst found
      exact meets _ before
  next other =>
    subst result
    exact entered key' op fields' before

end GroupTable

/-- A table name up to the case of its letters. -/
def lowered (name : Name) : Name := name.map toAsciiLower

theorem eqIgnoreAsciiCase_iff {a b : Name} :
    eqIgnoreAsciiCase a b = true ↔ lowered a = lowered b := beq_iff_eq

namespace ChangeGroup

variable {g g' : ChangeGroup} {change : Change}

/-- The table a change goes to, a new one where it is the first. -/
def tableFor (g : ChangeGroup) (change : Change) : GroupTable :=
  (g.tables.find? fun t => eqIgnoreAsciiCase t.name change.table).getD
    (.new change.table change.nCol change.pk change.patchset)

/-- The group with the table of a change in its place. -/
def place (g : ChangeGroup) (change : Change) (t : GroupTable) : ChangeGroup :=
  { g with
    bPatch := some change.patchset
    tables := match g.tables.findIdx? fun t => eqIgnoreAsciiCase t.name change.table with
      | some i => g.tables.set i t
      | none => g.tables ++ [t] }

/-- One change goes to its table. -/
theorem addOne_eq (kind : g.bPatch.getD change.patchset = change.patchset) :
    g.addOne change =
      if (g.tableFor change).compatible change.nCol change.pk then do
        let t ← (g.tableFor change).addChange g.bRebase change
        .ok (g.place change t)
      else Checked.fail mismatchMessage := by
  rw [addOne, if_neg (not_not.mpr kind), findTable, tableFor]
  unfold place
  match found : g.tables.findIdx? fun t => eqIgnoreAsciiCase t.name change.table with
  | some i =>
    obtain ⟨inside, _⟩ := List.findIdx?_eq_some_iff_getElem.mp found
    have table : (g.tables.find? fun t => eqIgnoreAsciiCase t.name change.table) =
        some g.tables[i] := by
      rw [List.find?_eq_bind_findIdx?_getElem?, found]
      exact List.getElem?_eq_getElem inside
    simp only [found, table, List.getElem?_eq_getElem inside, Option.getD_some]
  | none =>
    have table : (g.tables.find? fun t => eqIgnoreAsciiCase t.name change.table) = none := by
      rw [List.find?_eq_none]
      exact fun t member => Bool.eq_false_iff.mp (List.findIdx?_eq_none_iff.mp found t member)
    have last : (g.tables ++ [GroupTable.new change.table change.nCol change.pk
        change.patchset])[g.tables.length]? = some (.new change.table change.nCol change.pk
          change.patchset) := List.getElem?_concat_length
    simp only [found, table, Option.getD_none, last, List.set_append_right _ _ (Nat.le_refl _),
      Nat.sub_self, List.set_cons_zero]

/-- What a group keeps true. -/
structure Whole (g : ChangeGroup) : Prop where
  plain : g.bRebase = false
  names : (g.tables.map fun t => lowered t.name).Nodup
  kept : ∀ t ∈ g.tables, t.Kept
  entered : ∀ t ∈ g.tables, t.Entered
  headed : ∀ t ∈ g.tables, ChangesetIter.Headed t.name t.nCol t.abPk
  kind : ∀ t ∈ g.tables, g.bPatch = some t.bPatch

theorem whole_new : new.Whole := ⟨rfl, List.nodup_nil, nofun, nofun, nofun, nofun⟩

/-- The table of a change is one of the group, or new to it. -/
theorem tableFor_cases (g : ChangeGroup) (change : Change) :
    (∃ i, ∃ inside : i < g.tables.length, g.tableFor change = g.tables[i] ∧
      lowered g.tables[i].name = lowered change.table ∧
      ∀ t, g.place change t = { g with
        bPatch := some change.patchset
        tables := g.tables.set i t }) ∨
    (∀ t ∈ g.tables, lowered t.name ≠ lowered change.table) ∧
      g.tableFor change = .new change.table change.nCol change.pk change.patchset ∧
      ∀ t, g.place change t = { g with
        bPatch := some change.patchset
        tables := g.tables ++ [t] } := by
  unfold place tableFor
  rw [List.find?_eq_bind_findIdx?_getElem?]
  match found : g.tables.findIdx? fun t => eqIgnoreAsciiCase t.name change.table with
  | some i =>
    obtain ⟨inside, named, _⟩ := List.findIdx?_eq_some_iff_getElem.mp found
    refine .inl ⟨i, inside, ?_, eqIgnoreAsciiCase_iff.mp named,
      fun t => by rw [found]⟩
    rw [found, Option.bind_some, List.getElem?_eq_getElem inside, Option.getD_some]
  | none =>
    refine .inr ⟨fun t member same => ?_, by rw [found]; rfl, fun t => by rw [found]⟩
    have other := List.findIdx?_eq_none_iff.mp found t member
    rw [eqIgnoreAsciiCase_iff.mpr same] at other
    cases other

theorem lowered_tableFor (g : ChangeGroup) (change : Change) :
    lowered (g.tableFor change).name = lowered change.table := by
  rcases g.tableFor_cases change with ⟨i, inside, same, named, _⟩ | ⟨_, same, _⟩
  · rw [same]
    exact named
  · rw [same]
    rfl

theorem mem_place {t t' : GroupTable} (member : t' ∈ (g.place change t).tables) :
    t' ∈ g.tables ∨ t' = t := by
  rcases g.tableFor_cases change with ⟨i, _, _, _, placed⟩ | ⟨_, _, placed⟩
  · rw [placed] at member
    exact List.mem_or_eq_of_mem_set member
  · rw [placed] at member
    exact (List.mem_append.mp member).imp_right List.mem_singleton.mp

theorem Whole.place (whole : g.Whole) (kind : g.bPatch.getD change.patchset = change.patchset)
    {t : GroupTable} (header : (g.tableFor change).Reentered t) (kept : t.Kept)
    (entered : t.Entered)
    (headed : ChangesetIter.Headed change.table change.nCol change.pk) :
    (g.place change t).Whole := by
  rcases g.tableFor_cases change with ⟨i, inside, same, named, placed⟩ | ⟨fresh, same, placed⟩
  · have member := List.getElem_mem inside
    rw [same] at header
    have patch : change.patchset = g.tables[i].bPatch := by
      rw [whole.kind _ member] at kind
      exact kind.symm
    rw [placed]
    refine ⟨whole.plain, ?_, ?_, ?_, ?_, ?_⟩
    · have names : (g.tables.set i t).map (fun t => lowered t.name) =
          g.tables.map fun t => lowered t.name := by
        rw [List.map_set, header]
        refine List.ext_getElem (by simp) fun j _ _ => ?_
        rw [List.getElem_set]
        split
        next equal => subst equal; rw [List.getElem_map]
        · rfl
      simp only
      rw [names]
      exact whole.names
    all_goals
      intro t' there
      rcases List.mem_or_eq_of_mem_set there with old | rfl
    · exact whole.kept t' old
    · exact kept
    · exact whole.entered t' old
    · exact entered
    · exact whole.headed t' old
    · rw [header]
      exact whole.headed g.tables[i] member
    · simp only
      rw [patch, ← whole.kind _ member, whole.kind t' old]
    · rw [header, patch]
  · rw [same] at header
    rw [placed]
    refine ⟨whole.plain, ?_, ?_, ?_, ?_, ?_⟩
    · rw [List.map_append, List.nodup_append]
      refine ⟨whole.names, List.nodup_singleton _, ?_⟩
      intro a old b new equal
      obtain ⟨t', member, rfl⟩ := List.mem_map.mp old
      rw [List.map_singleton, List.mem_singleton, header] at new
      exact fresh t' member (equal.trans new)
    all_goals
      intro t' there
      rcases List.mem_append.mp there with old | new
    · exact whole.kept t' old
    · rw [List.mem_singleton.mp new]
      exact kept
    · exact whole.entered t' old
    · rw [List.mem_singleton.mp new]
      exact entered
    · exact whole.headed t' old
    · rw [List.mem_singleton.mp new, header]
      exact headed
    · rw [whole.kind t' old] at kind
      exact congrArg some kind.symm
    · rw [List.mem_singleton.mp new, header]
      rfl

theorem Whole.tableFor (whole : g.Whole) (given : Given change)
    (kind : g.bPatch.getD change.patchset = change.patchset) :
    (g.tableFor change).Kept ∧ (g.tableFor change).Entered ∧
      (g.tableFor change).bPatch = change.patchset := by
  rcases g.tableFor_cases change with ⟨i, inside, same, _⟩ | ⟨_, same, _⟩
  · rw [same]
    have member := List.getElem_mem inside
    rw [whole.kind _ member] at kind
    exact ⟨whole.kept _ member, whole.entered _ member, kind⟩
  · rw [same]
    refine ⟨GroupTable.kept_new given.headed.cols.symm _, ?_, rfl⟩
    rintro key op fields ⟨_, ⟨id, found⟩, _⟩
    cases found

def tableNamed (g : ChangeGroup) (name : Name) : Option GroupTable :=
  g.tables.find? fun t => lowered t.name == name

/-- The change a group has for a row. -/
def At (g : ChangeGroup) (name : Name) (key : RowKey) (body : Option Body) : Prop :=
  match g.tableNamed name with
  | some t => t.At key body
  | none => body = none

theorem find?_of_nodup {α β : Type} [BEq β] [LawfulBEq β] {f : α → β} {xs : List α}
    (nodup : (xs.map f).Nodup) {x : α} (member : x ∈ xs) : xs.find? (fun y => f y == f x) = some x := by
  induction xs with
  | nil => cases member
  | cons y ys ih =>
    rw [List.map_cons, List.nodup_cons] at nodup
    rcases List.mem_cons.mp member with rfl | later
    · rw [List.find?_cons_of_pos (by exact beq_self_eq_true _)]
    · have other : f y ≠ f x := fun same => nodup.1 (same ▸ List.mem_map_of_mem later)
      rw [List.find?_cons_of_neg (by simpa using other), ih nodup.2 later]

theorem find?_set_other {α : Type} {p : α → Bool} {xs : List α} {i : Nat} {x y : α}
    (there : xs[i]? = some y) (old : p y = false) (new : p x = false) :
    (xs.set i x).find? p = xs.find? p := by
  induction xs generalizing i with
  | nil => rfl
  | cons z zs ih =>
    cases i with
    | zero =>
      cases there
      rw [List.set_cons_zero, List.find?_cons, List.find?_cons, old, new]
    | succ i =>
      rw [List.set_cons_succ, List.find?_cons, List.find?_cons, ih there]

theorem Whole.exists_at (whole : g.Whole) (name : Name) (key : RowKey) :
    ∃ body, g.At name key body := by
  unfold At
  match found : g.tableNamed name with
  | some t => exact (whole.kept t (List.mem_of_find?_eq_some found)).exists_at key
  | none => exact ⟨none, rfl⟩

theorem Whole.at_unique (whole : g.Whole) {name : Name} {key : RowKey} {body body' : Option Body}
    (first : g.At name key body) (second : g.At name key body') : body = body' := by
  unfold At at first second
  match found : g.tableNamed name with
  | some t =>
    rw [found] at first second
    exact (whole.kept t (List.mem_of_find?_eq_some found)).at_unique first second
  | none =>
    rw [found] at first second
    exact first.trans second.symm

theorem Whole.tableNamed (whole : g.Whole) {t : GroupTable} (member : t ∈ g.tables) :
    g.tableNamed (lowered t.name) = some t := find?_of_nodup whole.names member

theorem tableNamed_place {t : GroupTable} (whole : (g.place change t).Whole)
    (named : lowered t.name = lowered change.table) (name : Name) :
    (g.place change t).tableNamed name =
      if name = lowered change.table then some t else g.tableNamed name := by
  have member : t ∈ (g.place change t).tables := by
    rcases g.tableFor_cases change with ⟨i, inside, _, _, placed⟩ | ⟨_, _, placed⟩
    · rw [placed]
      exact List.mem_set inside t
    · rw [placed]
      exact List.mem_append_right _ (List.mem_singleton_self t)
  split
  next same =>
    rw [same, ← named]
    exact whole.tableNamed member
  next other =>
    have apart : ∀ {n : Name}, lowered n = lowered change.table → (lowered n == name) = false :=
      fun same => beq_eq_false_iff_ne.mpr (same ▸ Ne.symm other)
    rcases g.tableFor_cases change with ⟨i, inside, _, same, placed⟩ | ⟨_, _, placed⟩
    · rw [placed]
      exact find?_set_other (List.getElem?_eq_getElem inside) (apart same) (apart named)
    · rw [placed]
      simp only [ChangeGroup.tableNamed]
      rw [List.find?_append, List.find?_singleton, apart named]
      exact Option.or_none

/-- The changes of a table are those of its rows; a new table has none. -/
theorem at_tableFor {key : RowKey} {body : Option Body} :
    g.At (lowered change.table) key body ↔ (g.tableFor change).At key body := by
  have table : g.tableFor change = (g.tableNamed (lowered change.table)).getD
      (.new change.table change.nCol change.pk change.patchset) := rfl
  rw [At, table]
  match g.tableNamed (lowered change.table) with
  | some t => rfl
  | none =>
    match body with
    | none =>
      refine ⟨fun _ => ?_, fun _ => rfl⟩
      rintro e ⟨id, found⟩
      cases found
    | some body =>
      refine ⟨nofun, ?_⟩
      rintro ⟨_, ⟨id, found⟩, _⟩
      cases found

/-- The key of a change in its table. -/
def keyIn (g : ChangeGroup) (change : Change) (fields : List Field) : RowKey :=
  (keyOf (g.tableFor change).abPk (g.tableFor change).bPatch change.op fields).map Subtype.val

/-- A group takes a change that fits a table with room. -/
theorem Whole.step (whole : g.Whole) (given : Given change)
    (kind : g.bPatch.getD change.patchset = change.patchset)
    (compatible : (g.tableFor change).compatible change.nCol change.pk = true)
    {fields : List Field} (fits : (g.tableFor change).Fits change fields)
    (room : (g.tableFor change).nEntry < 2 ^ 30) :
    ∃ t, g.addOne change = .ok (g.place change t) ∧ (g.tableFor change).Reentered t ∧
      (g.place change t).Whole ∧
      ∀ name key body, g.At name key body → (g.place change t).At name key
        (if name = lowered change.table ∧ key = g.keyIn change fields then
          combine (g.tableFor change).abPk (g.tableFor change).bPatch body (change.op, fields)
        else body) := by
  obtain ⟨kept, entered, patch⟩ := whole.tableFor given kind
  have wide : change.pk.length = (g.tableFor change).abPk.length := by
    rw [kept.wide, ← fits.nCol, given.headed.cols]
  have flags := compatible
  rw [given.headed.cols, GroupTable.compatible_flags wide] at flags
  have shown : Shown (g.tableFor change).abPk (g.tableFor change).bPatch change.op := by
    rintro ⟨patched, update, flag, member, key⟩
    have there : true ∈ (g.tableFor change).abPk.map (· != 0) :=
      List.mem_map.mpr ⟨flag, member, bne_iff_ne.mpr key⟩
    rw [← flags] at there
    obtain ⟨flag', member', key'⟩ := List.mem_map.mp there
    rw [patch] at patched
    exact given.shown ⟨patched, update, flag', member', bne_iff_ne.mp key'⟩
  obtain ⟨t, added, header, kept', entered', rows⟩ := fits.addChange kept entered patch.symm shown
    room rfl
  have whole' := whole.place kind header kept' entered' given.headed
  refine ⟨t, ?_, header, whole', fun name key body before => ?_⟩
  · rw [addOne_eq kind, if_pos compatible, whole.plain, added, Checked.ok_bind]
  · have named : lowered t.name = lowered change.table := by
      rw [header]
      exact g.lowered_tableFor change
    rw [At, tableNamed_place whole' named]
    by_cases same : name = lowered change.table
    · subst same
      rw [if_pos rfl]
      simp only [true_and]
      exact rows key body (at_tableFor.mp before)
    · rw [if_neg same, if_neg fun both => same both.1]
      exact before

/-- A change that fits the table it goes to, with a key in the form that is written. -/
def Fit (g : ChangeGroup) (change : Change) : Prop :=
  ∃ fields, (g.tableFor change).Fits change fields ∧ Plain (g.keyIn change fields)

def PlainKeys (g : ChangeGroup) : Prop := ∀ name key body, g.At name key (some body) → Plain key

/-- A change that fits and is taken leaves the group whole. -/
theorem Whole.addOne (whole : g.Whole) (plain : g.PlainKeys) (fit : g.Fit change)
    (given : Given change) (added : g.addOne change = .ok g') : g'.Whole ∧ g'.PlainKeys := by
  have kind : g.bPatch.getD change.patchset = change.patchset := by
    by_contra mixed
    rw [ChangeGroup.addOne, if_pos mixed] at added
    cases added
  obtain ⟨fields, fits, key_plain⟩ := fit
  obtain ⟨kept, _⟩ := whole.tableFor given kind
  have unfolded := added
  rw [addOne_eq kind] at unfolded
  split at unfolded
  next compatible =>
    have room : (g.tableFor change).nEntry < 2 ^ 30 := by
      by_contra many
      rw [GroupTable.addChange, kept.growHash_panics (Nat.le_of_not_lt many)] at unfolded
      cases unfolded
    obtain ⟨t, done, _, whole', rows⟩ := whole.step given kind compatible fits room
    rw [added] at done
    cases done
    refine ⟨whole', fun name key body after => ?_⟩
    obtain ⟨body', before⟩ := whole.exists_at name key
    have result := whole'.at_unique (rows name key body' before) after
    split at result
    next same =>
      rw [same.2]
      exact key_plain
    · subst result
      exact plain name key body before
  · cases unfolded

end ChangeGroup

end RustSql.Session
