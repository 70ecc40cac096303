import RustSql.Session.RowKeys

/-! The record of a captured change, and the entry it makes. -/

namespace RustSql.Session

open RustSql.Foundation RustSql.Types

/-- What an event records at one key. -/
structure Capture where
  key : RowKey
  op : Op
  record : List UInt8
deriving DecidableEq, Repr

/-- The capture of an event at a table; none where the session ignores it. -/
def SessionTable.capture (t : SessionTable) (sop : Op) (event : Event) (bNewKey : Bool) :
    Option Capture :=
  let old := t.oldView sop event
  let new := t.newView sop event
  match t.rowKey event.rowid (keySide sop bNewKey old new), t.serialize sop event.rowid old new with
  | some key, .ok record => some ⟨key, sop, record⟩
  | _, _ => none

/-- The side of a capture is also where its record comes from. -/
structure Sided (t : SessionTable) (sop : Op) (event : Event) (bNewKey : Bool) (side : List Datum) :
    Prop where
  key : keySide sop bNewKey (t.oldView sop event) (t.newView sop event) = some side
  wide : side.length = event.tbl.columns.length
  inserted : sop = .insert → t.newView sop event = some side
  removed : sop ≠ .insert → t.oldView sop event = some side

theorem viewRow_length (bStat1 : Bool) (row : List Datum) :
    (viewRow bStat1 row).length = row.length := List.length_mapIdx

theorem sided (t : SessionTable) (event : Event) {a : Op × Bool}
    (member : a ∈ SessionCore.attempts event.op) :
    ∃ side, Sided t a.1 event a.2 side := by
  have olds : event.op ≠ .insert → ∃ s, event.old = some s ∧
      s.length = event.tbl.columns.length := fun kind =>
    Option.map_eq_some_iff.mp (event.oldWide kind)
  have news : event.op ≠ .delete → ∃ s, event.new = some s ∧
      s.length = event.tbl.columns.length := fun kind =>
    Option.map_eq_some_iff.mp (event.newWide kind)
  have newSide : ∀ s bNewKey, event.new = some s → s.length = event.tbl.columns.length →
      Sided t .insert event bNewKey (viewRow t.bStat1 s) := by
    intro s bNewKey has wide
    have view : t.newView .insert event = some (viewRow t.bStat1 s) := by
      rw [SessionTable.newView, if_pos (by decide), has]
      rfl
    exact ⟨by rw [keySide, if_pos (.inr rfl), view], by rw [viewRow_length, wide], fun _ => view,
      fun other => absurd rfl other⟩
  have oldSide : ∀ s sop, sop ≠ .insert → event.old = some s →
      s.length = event.tbl.columns.length → Sided t sop event false (viewRow t.bStat1 s) := by
    intro s sop kind has wide
    have view : t.oldView sop event = some (viewRow t.bStat1 s) := by
      rw [SessionTable.oldView, if_pos kind, has]
      rfl
    exact ⟨by rw [keySide, if_neg (by simp [kind]), view], by rw [viewRow_length, wide],
      fun other => absurd other kind, fun _ => view⟩
  cases kind : event.op with
  | insert =>
    rw [kind] at member
    obtain ⟨s, has, wide⟩ := news (by rw [kind]; decide)
    rcases List.mem_singleton.mp member with rfl
    exact ⟨_, newSide s false has wide⟩
  | delete =>
    rw [kind] at member
    obtain ⟨s, has, wide⟩ := olds (by rw [kind]; decide)
    rcases List.mem_singleton.mp member with rfl
    exact ⟨_, oldSide s .delete (by decide) has wide⟩
  | update =>
    rw [kind] at member
    rcases List.mem_cons.mp member with rfl | second
    · obtain ⟨s, has, wide⟩ := olds (by rw [kind]; decide)
      exact ⟨_, oldSide s .update (by decide) has wide⟩
    · rcases List.mem_singleton.mp second with rfl
      obtain ⟨s, has, wide⟩ := news (by rw [kind]; decide)
      exact ⟨_, newSide s true has wide⟩

/-- The declared column of a record. -/
def columnField (t : SessionTable) (sop : Op) (side : List Datum) (i : Nat) : Field :=
  Field.of (if sop = .insert ∧ t.abPk.getD (i + t.offset) 0 = 0 then none else side[i]?)

def recordFields (t : SessionTable) (sop : Op) (rowid : Int64) (side : List Datum) : List Field :=
  (if t.bRowid then [rowidField rowid] else []) ++
    (List.range t.nDbCol).map (columnField t sop side)

theorem mapM_ok {α β : Type} {f : α → Checked ε β} {g : α → β} (xs : List α)
    (each : ∀ x ∈ xs, f x = .ok (g x)) : xs.mapM f = .ok (xs.map g) := by
  induction xs with
  | nil => rfl
  | cons x xs ih =>
    rw [List.mapM_cons, each x List.mem_cons_self, Checked.ok_bind,
      ih fun y member => each y (List.mem_cons_of_mem _ member)]
    rfl

theorem Modelled.columns {t : SessionTable} (modelled : Modelled t) :
    t.nDbCol + t.offset = t.abPk.length := by
  rw [modelled.wide]
  unfold SessionTable.nDbCol SessionTable.offset
  split
  next implicit =>
    obtain ⟨n, flags⟩ := modelled.rowid implicit
    have positive := congrArg List.length flags
    rw [modelled.wide, List.length_cons] at positive
    omega
  next => rw [Nat.sub_zero, Nat.add_zero]

variable {t : SessionTable} {sop : Op} {event : Event} {bNewKey : Bool} {side : List Datum}

theorem Sided.recordColumns (sided : Sided t sop event bNewKey side) (modelled : Modelled t)
    (fits : side.length = t.nDbCol) :
    t.recordColumns sop (t.oldView sop event) (t.newView sop event) =
      .ok ((List.range t.nDbCol).map fun i => (columnField t sop side i).1) := by
  apply mapM_ok
  intro i member
  have columns := modelled.columns
  have below := List.mem_range.mp member
  have inside : i < side.length := by omega
  have flagged : i + t.offset < t.abPk.length := by omega
  have flag : t.abPk.getD (i + t.offset) 0 = t.abPk[i + t.offset] := by
    rw [List.getD_eq_getElem?_getD, List.getElem?_eq_getElem flagged]
    rfl
  rw [columnField, flag, Checked.get, List.getElem?_eq_getElem flagged]
  simp only [Checked.ok_bind]
  by_cases kind : sop = .insert
  · rw [if_pos kind, sided.inserted kind]
    by_cases key : t.abPk[i + t.offset] = 0
    · rw [if_neg (not_not.mpr key), if_pos ⟨kind, key⟩]
      rfl
    · rw [if_pos key, if_neg (fun both => key both.2), List.getElem?_eq_getElem inside]
      simp only [Checked.get, List.getElem?_eq_getElem inside]
      rfl
  · rw [if_neg kind, sided.removed kind, if_neg (fun both => kind both.1),
      List.getElem?_eq_getElem inside]
    simp only [Checked.get, List.getElem?_eq_getElem inside]
    rfl

theorem Sided.serialize (sided : Sided t sop event bNewKey side) (modelled : Modelled t)
    (fits : side.length = t.nDbCol) :
    t.serialize sop event.rowid (t.oldView sop event) (t.newView sop event) =
      .ok (recordOf (recordFields t sop event.rowid side)) := by
  rw [SessionTable.serialize, sided.recordColumns modelled fits, Checked.ok_bind, recordFields,
    recordOf_append]
  congr 2
  · split <;> rfl
  · rw [recordOf, List.flatMap_def, List.map_map]
    rfl

theorem pickKey_agree {α β : Type} {f : β → α} {abPk : List UInt8} {xs : List α} {ys : List β}
    (left : xs.length = abPk.length) (right : ys.length = abPk.length)
    (agree : ∀ (i : Nat) (flag : UInt8), abPk[i]? = some flag → flag ≠ 0 →
      xs[i]? = ys[i]?.map f) :
    pickKey abPk xs = (pickKey abPk ys).map f := by
  induction abPk generalizing xs ys with
  | nil => rfl
  | cons flag abPk ih =>
    match xs, ys with
    | x :: xs, y :: ys =>
      have rest := @ih xs ys (Nat.succ.inj left) (Nat.succ.inj right) fun i flag' at_i key =>
        agree (i + 1) flag' at_i key
      rw [pickKey, pickKey]
      by_cases key : flag ≠ 0
      · have first := agree 0 flag rfl key
        rw [List.getElem?_cons_zero, List.getElem?_cons_zero, Option.map_some] at first
        rw [if_pos key, if_pos key, Option.some.inj first, rest, List.map_cons]
      · rw [if_neg key, if_neg key, rest]

/-- The key of a record is the key of its event. -/
theorem pickKey_recordFields (modelled : Modelled t) (fits : side.length = t.nDbCol)
    (declared : t.bRowid = false) (rowid : Int64) :
    pickKey t.abPk (recordFields t sop rowid side) =
      (pickKey t.abPk side).map fun v => Field.of (some v) := by
  have none : t.offset = 0 := if_neg (by simp [declared])
  have columns := modelled.columns
  rw [none, Nat.add_zero] at columns
  rw [recordFields, declared, if_neg (by decide), List.nil_append]
  apply pickKey_agree
  · rw [List.length_map, List.length_range, columns]
  · rw [fits, columns]
  · intro i flag at_i key
    obtain ⟨inside, value⟩ := List.getElem?_eq_some_iff.mp at_i
    have row : i < side.length := by omega
    rw [List.getElem?_map, List.getElem?_range (by omega), Option.map_some,
      List.getElem?_eq_getElem row, Option.map_some, columnField, none, Nat.add_zero,
      List.getD_eq_getElem?_getD, at_i, if_neg (fun both => key both.2),
      List.getElem?_eq_getElem row]

theorem Sided.stored (fits : side.length = t.nDbCol) (modelled : Modelled t) {rowid : Int64}
    {key : RowKey} (keyed : t.rowKey rowid (some side) = some key) (indirect : Bool) :
    Stored t ⟨sop, indirect, recordOf (recordFields t sop rowid side)⟩
        (recordFields t sop rowid side) ∧
      (pickKey t.abPk (recordFields t sop rowid side)).map Subtype.val = key := by
  have columns := modelled.columns
  have wide : (recordFields t sop rowid side).length = t.nCol := by
    have front : (if t.bRowid = true then [rowidField rowid] else []).length = t.offset := by
      unfold SessionTable.offset
      split <;> rfl
    rw [recordFields, List.length_append, front, List.length_map, List.length_range,
      ← modelled.wide, ← columns, Nat.add_comm]
  unfold SessionTable.rowKey at keyed
  by_cases implicit : t.bRowid = true
  · rw [if_pos implicit] at keyed
    have first : recordFields t sop rowid side =
        rowidField rowid :: (List.range t.nDbCol).map (columnField t sop side) := by
      rw [recordFields, if_pos implicit]
      rfl
    have picked : pickKey t.abPk (recordFields t sop rowid side) = [rowidField rowid] := by
      rw [first, modelled.pick_rowid implicit]
    refine ⟨⟨rfl, wide, ?_, fun _ => ⟨rowid, by rw [first]; rfl⟩⟩, ?_⟩
    · intro field member
      rw [picked] at member
      rw [List.mem_singleton.mp member]
      exact ⟨_, _, rfl, .inl rfl⟩
    · rw [picked]
      exact Option.some.inj keyed
  · have declared := Bool.eq_false_iff.mpr implicit
    rw [if_neg implicit] at keyed
    simp only [fits, true_and] at keyed
    split at keyed
    next values =>
      have picked := @pickKey_recordFields t sop side modelled fits declared rowid
      refine ⟨⟨rfl, wide, ?_, fun other => absurd other implicit⟩, ?_⟩
      · intro field member
        rw [picked] at member
        obtain ⟨v, inside, rfl⟩ := List.mem_map.mp member
        exact keyable_fieldOf (values v inside)
      · rw [picked, List.map_map]
        exact Option.some.inj keyed
    · cases keyed

end RustSql.Session
