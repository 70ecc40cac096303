import RustSql.Plugin.RtreeRuns
import RustSql.Plugin.RtreeTable

/-! What updates and reindexing keep of an rtree table: the row map and the tree hold the same
entries. -/

namespace RustSql.Plugin.Rtree

open RustSql.Foundation RustSql.Foundation.SummaryEntry RustSql.Types

variable {cfg : RtConfig}

/-- A coordinate that is an integer of 64 bits. -/
def Whole (v : Binary64) : Prop := v.scaled = exact (Int64.ofInt (asI64 v))

/-- A box of numbers, and of integers where the table shows integers. -/
structure BoxFits (cfg : RtConfig) (bbox : BBox cfg.dims) : Prop where
  proper : bbox.Proper
  whole : cfg.i32Mode = true → ∀ d, Whole (bbox.lo d) ∧ Whole (bbox.hi d)

/-- The map of boxes that the rows are, beside the tree. -/
def RtState.mapped (st : RtState cfg) : Mapped cfg.dims :=
  ⟨st.root, fun id => (st.rows.lookup id).map (·.2)⟩

/-- The row map and the tree hold the same entries, each under its own rowid. -/
structure Agree (st : RtState cfg) : Prop where
  inv : Inv st.mapped
  own : ∀ rid row, st.rows.lookup rid = some row → row.1 = rid
  whole : cfg.i32Mode = true → ∀ rid row, st.rows.lookup rid = some row →
    ∀ d, Whole (row.2.lo d) ∧ Whole (row.2.hi d)

theorem opened_agree : Agree (RtState.opened cfg) where
  inv := by
    have same : (RtState.opened cfg).mapped = Mapped.opened cfg.dims := by
      simp [RtState.mapped, RtState.opened, Mapped.opened]
    rw [same]
    exact opened_inv
  own rid row held := by simp [RtState.opened] at held
  whole _ rid row held := by simp [RtState.opened] at held

/-- A new row comes to both. -/
theorem Agree.inserted {st : RtState cfg} (agree : Agree st) {rid : Int64} {bbox : BBox cfg.dims}
    (fits : BoxFits cfg bbox) (fresh : st.rows.lookup rid = none) :
    ∃ root, insert st.root rid bbox = some root ∧ Agree (⟨st.rows.insert rid (rid, bbox), root⟩ : RtState cfg) := by
  obtain ⟨root, done, sound, perm⟩ := @insert_some _ _ agree.inv.sound rid _ fits.proper
  refine ⟨root, done, ?_, fun other row held => ?_, fun mode other row held => ?_⟩
  · refine agree.inv.inserted (by simp [RtState.mapped, fresh]) sound perm ?_
    funext other
    simp only [RtState.mapped, AssocMap.lookup_insert_eq, Function.update_apply]
    split <;> rfl
  · rw [AssocMap.lookup_insert_eq] at held
    split at held
    · next same =>
      cases held
      exact same.symm
    · exact agree.own other row held
  · rw [AssocMap.lookup_insert_eq] at held
    split at held
    · cases held
      exact fits.whole mode
    · exact agree.whole mode other row held

/-- A row that the removal comes to, or that is not there, goes from both. -/
theorem Agree.removed {st : RtState cfg} (agree : Agree st) {rid : Int64}
    (reached : st.rows.lookup rid ≠ none → Reaches rid st.root) :
    Agree (⟨st.rows.erase rid, remove st.root rid⟩ : RtState cfg) where
  inv := by
    have boxes : (fun id => ((st.rows.erase rid).lookup id).map (·.2)) =
        Function.update (fun id => (st.rows.lookup id).map (·.2)) rid none := by
      funext other
      simp only [AssocMap.lookup_erase_eq, Function.update_apply]
      split <;> rfl
    cases held : st.rows.lookup rid with
    | some row => exact agree.inv.removed (reached (by simp [held])) rfl boxes
    | none =>
      have absent : (fun id => ((st.rows.erase rid).lookup id).map (·.2)) =
          fun id => (st.rows.lookup id).map (·.2) := by
        rw [boxes, Function.update_eq_self_iff, held]
        rfl
      have missed : ¬ Reaches rid st.root := by
        intro reaches
        obtain ⟨⟨id, bbox⟩, member, rfl⟩ := mem_of_reaches reaches
        have found := (agree.inv.mem_iff id bbox).mp member
        simp [RtState.mapped, held] at found
      have same := ((removeRec_items rid st.root).2 missed).1
      refine ⟨removeRec_sound rid agree.inv.sound, ?_, fun id bbox => ?_⟩
      · show ((items (removeRec rid st.root).1).map (·.1)).Nodup
        rw [same]
        exact agree.inv.distinct
      · show (id, bbox) ∈ items (removeRec rid st.root).1 ↔ _
        rw [same, RtState.mapped, absent]
        exact agree.inv.mem_iff id bbox
  own other row held := by
    rw [AssocMap.lookup_erase_eq] at held
    split at held
    · cases held
    · exact agree.own other row held
  whole mode other row held := by
    rw [AssocMap.lookup_erase_eq] at held
    split at held
    · cases held
    · exact agree.whole mode other row held

/-- An operation that both take alike: an inserted rowid is new, a removed one is come to, and
the box fits. -/
def OpFits (st : RtState cfg) (op : UpdateOp) : Prop :=
  match op.oldRowid, op.newRowid with
  | none, some rid => ∀ bbox, validate cfg (opRow cfg op none) = .ok bbox → checkRange cfg bbox = .ok () →
    BoxFits cfg bbox ∧ st.rows.lookup (insertedRowid (opRow cfg op none) rid) = none
  | some old, some new => ∀ bbox, validate cfg (opRow cfg op (st.rows.lookup old)) = .ok bbox →
    BoxFits cfg bbox ∧ (st.rows.lookup old ≠ none → Reaches old st.root) ∧
      (new ≠ old → st.rows.lookup new = none)
  | some old, none => st.rows.lookup old ≠ none → Reaches old st.root
  | none, none => True

/-- An operation that fits does not panic, and whether it fails or not both hold the same. -/
theorem applyOp_agree {st : RtState cfg} (agree : Agree st) {op : UpdateOp} (fits : OpFits st op) :
    ∃ out after, applyOp st op = some (out, after) ∧ Agree after := by
  obtain ⟨oldRowid, newRowid, columns⟩ := op
  unfold applyOp
  cases oldRowid with
  | none =>
    cases newRowid with
    | none => exact ⟨_, _, rfl, agree⟩
    | some rid =>
      dsimp only
      split
      · exact ⟨_, _, rfl, agree⟩
      · next bbox valid =>
        split
        · exact ⟨_, _, rfl, agree⟩
        · next range =>
          obtain ⟨boxFits, fresh⟩ := fits bbox valid range
          obtain ⟨root, done, after⟩ := agree.inserted boxFits fresh
          exact ⟨_, _, by rw [done]; rfl, after⟩
  | some old =>
    cases newRowid with
    | none => exact ⟨_, _, rfl, agree.removed fits⟩
    | some new =>
      dsimp only
      split
      · exact ⟨_, _, rfl, agree⟩
      · next bbox valid =>
        obtain ⟨boxFits, reached, apart⟩ := fits bbox valid
        have fresh : (st.rows.erase old).lookup new = none := by
          rw [AssocMap.lookup_erase_eq]
          split
          · rfl
          · next differ => exact apart differ
        obtain ⟨root, done, after⟩ := (agree.removed reached).inserted boxFits fresh
        exact ⟨_, _, by rw [done]; rfl, after⟩

/-- Every operation of an update fits where it is made. -/
def OpsFit (st : RtState cfg) : List UpdateOp → Prop
  | [] => True
  | op :: ops => OpFits st op ∧ ∀ out after, applyOp st op = some (.ok out, after) → OpsFit after ops

theorem update_agree {ops : List UpdateOp} {st : RtState cfg} (agree : Agree st) (fits : OpsFit st ops) :
    ∃ out after, update st ops = some (out, after) ∧ Agree after := by
  induction ops generalizing st with
  | nil => exact ⟨_, _, rfl, agree⟩
  | cons op ops ih =>
    obtain ⟨out, after, done, agreed⟩ := applyOp_agree agree fits.1
    cases out with
    | error e => exact ⟨.error e, after, by simp [update, done], agreed⟩
    | ok out =>
      obtain ⟨rest, last, later, still⟩ := ih agreed (fits.2 out after done)
      exact ⟨_, last, by simp [update, done, later]; rfl, still⟩

/-- The rows of a reindex: when all are valid their rowids are their ids and differ, and their
boxes fit. -/
def RowsFit (cfg : RtConfig) (rows : List (Int64 × List Value)) : Prop :=
  (∀ row ∈ rows, ∃ bbox, validate cfg row.2 = .ok bbox) →
    (rows.map (·.1)).Nodup ∧ ∀ row ∈ rows, rowId row.2 row.1 = row.1 ∧
      ∀ bbox, validate cfg row.2 = .ok bbox → BoxFits cfg bbox

theorem reindexRows_agree {rows : List (Int64 × List Value)} {st : RtState cfg} (agree : Agree st)
    (distinct : (rows.map (·.1)).Nodup) (fresh : ∀ row ∈ rows, st.rows.lookup row.1 = none)
    (fits : ∀ row ∈ rows, rowId row.2 row.1 = row.1 ∧ ∀ bbox, validate cfg row.2 = .ok bbox → BoxFits cfg bbox)
    (valid : ∀ row ∈ rows, ∃ bbox, validate cfg row.2 = .ok bbox) :
    ∃ after, reindexRows st rows = some (.ok after) ∧ Agree after := by
  induction rows generalizing st with
  | nil => exact ⟨st, rfl, agree⟩
  | cons row rest ih =>
    obtain ⟨rid, vals⟩ := row
    obtain ⟨bbox, ok⟩ := valid _ (.head _)
    obtain ⟨same, boxFits⟩ := fits _ (.head _)
    obtain ⟨root, done, agreed⟩ := agree.inserted (boxFits bbox ok) (fresh _ (.head _))
    rw [List.map_cons, List.nodup_cons] at distinct
    have others : ∀ row ∈ rest, (st.rows.insert rid (rid, bbox)).lookup row.1 = none := by
      intro row member
      have differ : row.1 ≠ rid :=
        fun equal => distinct.1 (List.mem_map.mpr ⟨row, member, equal⟩)
      rw [AssocMap.lookup_insert_eq, if_neg differ]
      exact fresh row (.tail _ member)
    obtain ⟨after, later, still⟩ := ih agreed distinct.2 others
      (fun row member => fits row (.tail _ member)) fun row member => valid row (.tail _ member)
    refine ⟨after, ?_, still⟩
    dsimp only at same ok
    rw [reindexRows, ok]
    simp [done, same, later]

/-- A row that is not valid ends a reindex, unless one before it panics. -/
theorem reindexRows_error {rows : List (Int64 × List Value)} {st built : RtState cfg}
    (done : reindexRows st rows = some (.ok built)) : ∀ row ∈ rows, ∃ bbox, validate cfg row.2 = .ok bbox := by
  induction rows generalizing st with
  | nil => exact fun row member => by cases member
  | cons row rest ih =>
    obtain ⟨rid, vals⟩ := row
    rw [reindexRows] at done
    cases valid : validate cfg vals with
    | error e => simp [valid] at done
    | ok bbox =>
      rw [valid] at done
      obtain ⟨root, _, later⟩ := Option.bind_eq_some_iff.mp done
      intro row member
      rcases List.mem_cons.mp member with rfl | inside
      · exact ⟨bbox, valid⟩
      · exact ih later row inside

theorem reindex_agree {rows : List (Int64 × List Value)} {st after : RtState cfg} {out : Except RtError Unit}
    (agree : Agree st) (fits : RowsFit cfg rows) (done : reindex st rows = some (out, after)) : Agree after := by
  unfold reindex at done
  obtain ⟨outcome, built, ended⟩ := Option.bind_eq_some_iff.mp done
  cases outcome with
  | error e =>
    obtain ⟨_, rfl⟩ := Prod.mk.inj (Option.some.inj ended)
    exact agree
  | ok state =>
    obtain ⟨_, rfl⟩ := Prod.mk.inj (Option.some.inj ended)
    have valid := reindexRows_error built
    obtain ⟨distinct, every⟩ := fits valid
    obtain ⟨other, again, agreed⟩ := reindexRows_agree opened_agree distinct
      (fun row _ => by simp [RtState.opened]) every valid
    rw [built] at again
    cases again
    exact agreed

end RustSql.Plugin.Rtree
