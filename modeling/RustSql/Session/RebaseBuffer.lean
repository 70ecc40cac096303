import RustSql.Session.ApplyAtomic
import RustSql.Session.GroupOutput

/-! The rebase buffer of an application: what it holds, and what a reader finds in it. -/

namespace RustSql.Session

open RustSql.Foundation RustSql.Types

namespace Apply

/-- The buffer of these resolved conflicts: one header, that of the first one, and all records. -/
def rebaseBytes : List Resolution → List UInt8
  | [] => []
  | r :: rest =>
    rebaseHeader r.ctx ++ (r :: rest).flatMap fun r => rebaseRecord r.ctx r.raw r.replace

variable {resolved : List Resolution}

theorem rebaseBytes_append (some : resolved ≠ []) (r : Resolution) :
    rebaseBytes (resolved ++ [r]) =
      rebaseBytes resolved ++ rebaseRecord r.ctx r.raw r.replace := by
  match resolved with
  | [] => exact absurd rfl some
  | first :: rest =>
    rw [List.cons_append, rebaseBytes, rebaseBytes, List.append_assoc]
    congr 1
    rw [← List.cons_append, List.flatMap_append, List.flatMap_singleton]

theorem rebaseBytes_ne_nil (some : resolved ≠ []) : rebaseBytes resolved ≠ [] := by
  match resolved with
  | [] => exact absurd rfl some
  | r :: rest => exact nofun

/-- The buffer holds what was resolved, under headers that can be read. -/
structure Recorded (w : World E τ) : Prop where
  rebase : w.st.bRebase = true
  buffer : w.st.rebaseBuf = rebaseBytes w.resolved
  started : w.st.rebaseStarted = true ↔ w.resolved ≠ []
  headed : ∀ r ∈ w.resolved, HeadedCtx r.ctx

variable {E : Engine} {τ : Type}

variable {c : ApplyCtx}

theorem Recorded.resolve {w : World E τ} (recorded : Recorded w) (headed : HeadedCtx c)
    (raw : RawChange) (replace : Bool) :
    Recorded ({ w with
      st := rebaseAdd c raw replace w.st
      resolved := w.resolved ++ [⟨c, raw, replace⟩] } : World E τ) := by
  have rebase := recorded.rebase
  have buffer := recorded.buffer
  rw [rebaseAdd, if_pos rebase]
  refine ⟨rebase, ?_, ?_, ?_⟩
  · dsimp only
    rw [buffer]
    by_cases empty : w.resolved = []
    · have fresh : w.st.rebaseStarted = false := by
        rw [← Bool.not_eq_true, recorded.started]
        exact fun some => some empty
      rw [fresh, empty]
      simp [rebaseBytes]
    · rw [recorded.started.mpr empty, rebaseBytes_append empty]
      simp
  · exact iff_of_true rfl (by simp)
  · intro r member
    rcases List.mem_append.mp member with old | new
    · exact recorded.headed r old
    · rw [List.mem_singleton.mp new]
      exact headed

/-- Every step keeps the buffer to what was resolved. -/
theorem applies_recorded (cb : Callbacks τ) :
    Applies cb fun w w' : World E τ => Recorded w → Recorded w' where
  frame := ⟨fun _ recorded => recorded, fun first second recorded => second (first recorded)⟩
  change _ _ headed := within_applyOneWithRetry cb
    { frame := ⟨fun _ recorded => recorded, fun first second recorded => second (first recorded)⟩
      execute := fun _ _ _ _ recorded => ⟨recorded.1, recorded.2, recorded.3, recorded.4⟩
      calls := fun _ _ recorded => ⟨recorded.1, recorded.2, recorded.3, recorded.4⟩
      written := fun _ _ recorded => ⟨recorded.1, recorded.2, recorded.3, recorded.4⟩
      buffer := fun _ _ _ recorded => ⟨recorded.1, recorded.2, recorded.3, recorded.4⟩
      resolve := fun _ replace recorded => recorded.resolve headed _ replace }
    fun _ _ recorded => ⟨recorded.1, recorded.2, recorded.3, recorded.4⟩
  pending _ _ _ recorded := ⟨recorded.1, recorded.2, recorded.3, recorded.4⟩
  calls _ _ recorded := ⟨recorded.1, recorded.2, recorded.3, recorded.4⟩

/-- The buffer that an application returns. -/
theorem apply_recorded {cb : Callbacks τ} {cs : List UInt8} {flags : ApplyFlags}
    (rebase : flags.rebase = true) {w w' : World E τ} {out : Option (List UInt8)}
    (done : apply cb cs flags w = .ok out w') :
    (∀ r ∈ w'.resolved, HeadedCtx r.ctx) ∧
      out = if w'.resolved = [] then none else some (rebaseBytes w'.resolved) := by
  have applies := @applies_recorded E τ cb
  have frame := applies.frame
  have controls (statement : Control) :
      Effect.Within (fun w w' : World E τ => Recorded w → Recorded w') (control statement) :=
    within_control (fun _ _ recorded => ⟨recorded.1, recorded.2, recorded.3, recorded.4⟩) statement
  obtain ⟨w₁, _, _, done⟩ := Effect.bind_ok.mp done
  obtain ⟨_, w₂, entered, done⟩ := Effect.bind_ok.mp done
  obtain ⟨rc, w₃, all, done⟩ := Effect.bind_ok.mp done
  obtain ⟨_, w₄, left, done⟩ := Effect.bind_ok.mp done
  obtain ⟨_, w₅, restored, done⟩ := Effect.bind_ok.mp done
  have start : Recorded w₂ := by
    obtain ⟨_, w₀, fresh, entered⟩ := Effect.bind_ok.mp entered
    have first : Recorded w₀ := by
      cases fresh
      exact ⟨rebase, rfl, by simp [startState], nofun⟩
    refine (frame.bind ?_ fun _ => ?_).ok entered first
    · unfold suspendKeys
      split
      · exact controls _
      · exact frame.pure _
    · split
      · exact frame.pure _
      · exact controls _
  have applied := (within_applyAll applies cs flags _).ok all start
  have leaving : Effect.Within (fun w w' : World E τ => Recorded w → Recorded w')
      (leave flags rc) := by
    unfold leave
    split
    · split
      · exact frame.pure _
      · exact controls _
    · split
      · exact frame.pure _
      · exact frame.bind (within_ignore frame (controls _)) fun _ =>
          within_ignore frame (controls _)
  have restoring : Effect.Within (fun w w' : World E τ => Recorded w → Recorded w')
      (restoreKeys (E.foreignKeysEnabled w₁.db)) := by
    unfold restoreKeys
    split
    · exact within_ignore frame (controls _)
    · exact frame.pure _
  have last := restoring.ok restored (leaving.ok left applied)
  match rc with
  | .error fault => cases done
  | .ok () =>
    obtain ⟨_, _, read, done⟩ := Effect.bind_ok.mp done
    cases read
    cases done
    refine ⟨last.headed, ?_⟩
    rw [last.rebase, last.buffer]
    by_cases empty : w'.resolved = []
    · rw [empty]
      rfl
    · rw [if_neg empty, if_pos ⟨rfl, rebaseBytes_ne_nil empty⟩]

/-- A field as the buffer lists it: its value, undefined where it has none. -/
def listedField (v : Option SessVal) : SessVal :=
  match v.bind SessVal.toValue with
  | none => .undef
  | some x => SessVal.ofValue x

/-- A reader is shown a conflict under its own table, with its verdict and its fields. -/
structure Shows (change : Change) (r : Resolution) : Prop where
  table : change.table = r.ctx.name
  nCol : change.nCol = r.ctx.nCol
  pk : change.pk = r.ctx.abPk
  changeset : change.patchset = false
  op : change.op = if r.raw.op = .delete then .delete else .insert
  replace : change.indirect = r.replace
  fields : (if r.raw.op = .delete then change.old else change.new) =
    (List.range r.ctx.nCol).map fun i => some (listedField (rebasedSide r.ctx r.raw i))

/-- The buffer is read to its end, and lists the resolved conflicts in their order. -/
def Lists : Option (List UInt8) → List Resolution → Prop
  | none, resolved => resolved = []
  | some bytes, resolved => ∃ changes,
      (ChangesetIter.start bytes false).all = .ok changes ∧ List.Forall₂ Shows changes resolved

def headerOf (c : ApplyCtx) : Name × Nat × List UInt8 := (c.name, c.nCol, c.abPk)

def OneTable (resolved : List Resolution) : Prop :=
  ∀ r ∈ resolved, ∀ r' ∈ resolved, headerOf r.ctx = headerOf r'.ctx

theorem rebasedField_eq (v : Option SessVal) : rebasedField v = fieldOf (v.bind SessVal.toValue) := by
  cases v with
  | none => rfl
  | some v => cases v <;> rfl

theorem allocated_of_field {x : Value} (short : (fieldOf (some x)).length < 2 ^ 63) :
    Allocated x := by
  cases x with
  | text t =>
    rw [fieldOf, List.length_cons, List.length_append, asStr_length] at short
    exact Nat.lt_of_le_of_lt (by omega) short
  | blob b =>
    rw [fieldOf, List.length_cons, List.length_append] at short
    exact Nat.lt_of_le_of_lt (by omega) short
  | null | integer | real => trivial

/-- What is written for a side is read as its listed fields. -/
theorem rebasedField_field {v : Option SessVal} (short : (rebasedField v).length < 2 ^ 63) :
    ∃ field : Field, field.1 = rebasedField v ∧ valueOf field.1 = listedField v := by
  rw [rebasedField_eq] at short ⊢
  unfold listedField
  generalize v.bind SessVal.toValue = value at short ⊢
  cases value with
  | none => exact ⟨undefField, rfl, rfl⟩
  | some x =>
    have allocated := allocated_of_field short
    exact ⟨Field.of (some ⟨x, allocated⟩), rfl, valueOf_fieldOf ⟨x, allocated⟩⟩

theorem rebasedFields {vs : List (Option SessVal)}
    (short : (vs.flatMap rebasedField).length < 2 ^ 63) :
    ∃ fields : List Field, recordOf fields = vs.flatMap rebasedField ∧
      (fields.map fun field => valueOf field.1) = vs.map listedField := by
  induction vs with
  | nil => exact ⟨[], rfl, rfl⟩
  | cons v vs ih =>
    rw [List.flatMap_cons, List.length_append] at short
    obtain ⟨field, bytes, value⟩ := @rebasedField_field v (by omega)
    obtain ⟨fields, record, values⟩ := ih (by omega)
    refine ⟨field :: fields, ?_, ?_⟩
    · rw [recordOf_cons, bytes, record, List.flatMap_cons]
    · rw [List.map_cons, List.map_cons, value, values]

/-- The table of a header, and the entry of a resolved conflict. -/
def tableOf (c : ApplyCtx) : GroupTable := ⟨c.name, c.nCol, c.abPk, false, .empty, 0⟩

def rebasedOp (r : Resolution) : Op := if r.raw.op = .delete then .delete else .insert

def sideOf (r : Resolution) : List (Option SessVal) :=
  (List.range r.ctx.nCol).map (rebasedSide r.ctx r.raw)

def entryOf (r : Resolution) : GroupEntry :=
  ⟨rebasedOp r, r.replace, (sideOf r).flatMap rebasedField⟩

theorem entryBytes_entryOf (r : Resolution) :
    ChangeGroup.entryBytes (entryOf r) = rebaseRecord r.ctx r.raw r.replace := by
  rw [ChangeGroup.entryBytes, entryOf, rebaseRecord, sideOf, List.flatMap_map]
  rfl

/-- The entry of a resolved conflict is read under its own header. -/
theorem entry_legible {r : Resolution} (headed : HeadedCtx r.ctx)
    (same : headerOf c = headerOf r.ctx)
    (short : (rebaseRecord r.ctx r.raw r.replace).length < 2 ^ 63) :
    ∃ fields, ChangesetIter.Legible (tableOf c) (entryOf r, fields) ∧
      Shows (changeOf (tableOf c) (entryOf r) fields) r := by
  rw [headerOf, headerOf, Prod.mk.injEq, Prod.mk.injEq] at same
  obtain ⟨name, nCol, abPk⟩ := same
  rw [← entryBytes_entryOf, ChangeGroup.entryBytes, List.length_cons, List.length_cons] at short
  obtain ⟨fields, record, values⟩ := @rebasedFields (sideOf r) (by
    change ((sideOf r).flatMap rebasedField).length + 1 + 1 < 2 ^ 63 at short
    omega)
  have count : fields.length = r.ctx.nCol := by
    have length := congrArg List.length values
    rw [List.length_map, List.length_map, sideOf, List.length_map, List.length_range] at length
    exact length
  have cols := headed.cols
  have listed : (fields.map fun field => valueOf field.1).map some =
      (List.range r.ctx.nCol).map fun i => some (listedField (rebasedSide r.ctx r.raw i)) := by
    rw [values, sideOf, List.map_map, List.map_map]
    rfl
  refine ⟨fields, ⟨record.symm, ?_, fun both => by cases both.1⟩,
    ⟨name, nCol, abPk, rfl, rfl, rfl, ?_⟩⟩
  · change fields.length = entryWidth c.abPk false (rebasedOp r)
    rw [abPk, count, cols, rebasedOp]
    split <;> rfl
  · rw [← listed]
    change (if r.raw.op = .delete then (sidesOf c.abPk false (rebasedOp r) _).1
      else (sidesOf c.abPk false (rebasedOp r) _).2) = _
    rw [rebasedOp]
    split <;> rfl

/-- The bytes of the records, as the entries they are read as. -/
theorem entries_legible (headed : ∀ r ∈ resolved, HeadedCtx r.ctx)
    (same : ∀ r ∈ resolved, headerOf c = headerOf r.ctx)
    (short : (resolved.flatMap fun r => rebaseRecord r.ctx r.raw r.replace).length < 2 ^ 63) :
    ∃ entries : List (GroupEntry × List Field),
      (entries.flatMap fun e => ChangeGroup.entryBytes e.1) =
        (resolved.flatMap fun r => rebaseRecord r.ctx r.raw r.replace) ∧
      (∀ e ∈ entries, ChangesetIter.Legible (tableOf c) e) ∧
      List.Forall₂ Shows (entries.map fun e => changeOf (tableOf c) e.1 e.2) resolved := by
  induction resolved with
  | nil => exact ⟨[], rfl, nofun, .nil⟩
  | cons r rest ih =>
    rw [List.flatMap_cons, List.length_append] at short
    obtain ⟨fields, legible, shows⟩ := entry_legible (headed r List.mem_cons_self)
      (same r List.mem_cons_self) (by omega)
    obtain ⟨entries, bytes, each, shown⟩ := ih
      (fun r member => headed r (List.mem_cons_of_mem _ member))
      (fun r member => same r (List.mem_cons_of_mem _ member)) (by omega)
    refine ⟨(entryOf r, fields) :: entries, ?_, ?_, .cons shows shown⟩
    · rw [List.flatMap_cons, List.flatMap_cons, bytes, entryBytes_entryOf]
    · intro e member
      rcases List.mem_cons.mp member with rfl | later
      · exact legible
      · exact each e later

theorem headerBytes_tableOf (c : ApplyCtx) :
    ChangeGroup.headerBytes (tableOf c) = rebaseHeader c := by
  rw [ChangeGroup.headerBytes, rebaseHeader]
  simp [tableOf]

/-- A reader behind the header and some records of its table, with what it was shown. -/
theorem behind_records (headedCtx : HeadedCtx c) {front : List Resolution}
    (headed : ∀ r ∈ front, HeadedCtx r.ctx) (same : ∀ r ∈ front, headerOf c = headerOf r.ctx)
    {bytes tail : List UInt8} (short : bytes.length < 2 ^ 63) (whole : bytes = rebaseHeader c ++
      ((front.flatMap fun r => rebaseRecord r.ctx r.raw r.replace) ++ tail)) :
    ∃ (shown : List Change) (it : ChangesetIter), List.Forall₂ Shows shown front ∧
      it.ahead = tail ∧ it.zTab = c.name ∧ it.nCol = c.nCol ∧ it.abPk = c.abPk ∧
      (ChangesetIter.start bytes false).all =
        it.foldChanges (fun seen change => .ok (seen ++ [change])) shown := by
  have size := congrArg List.length whole
  rw [List.length_append, List.length_append] at size
  obtain ⟨entries, records, legible, shown⟩ := entries_legible headed same (by omega)
  rw [← records] at whole
  generalize start : ChangesetIter.start bytes false = it
  have fits : it.data.length < 2 ^ 64 := by
    rw [← start]
    change bytes.length < _
    omega
  have straight : it.bInvert = false := by rw [← start]; rfl
  have there : it.ahead = ChangeGroup.headerBytes (tableOf c) ++
      ((entries.flatMap fun e => ChangeGroup.entryBytes e.1) ++ tail) := by
    rw [headerBytes_tableOf, ← whole, ← start]
    rfl
  have ahead := ChangesetIter.ahead_skip there
  have under : ((it.skip (ChangeGroup.headerBytes (tableOf c)).length).under (tableOf c)).ahead =
      (entries.flatMap fun e => ChangeGroup.entryBytes e.1) ++ tail := ahead
  refine ⟨_, (((it.skip (ChangeGroup.headerBytes (tableOf c)).length).under (tableOf c)).skip
    (entries.flatMap fun e => ChangeGroup.entryBytes e.1).length), shown,
    ChangesetIter.ahead_skip under, rfl, rfl, rfl, ?_⟩
  rw [ChangesetIter.all,
    ChangesetIter.foldChanges_next (@ChangesetIter.next_header it (tableOf c) _ fits headedCtx there),
    @ChangesetIter.foldChanges_entries (it.skip (ChangeGroup.headerBytes (tableOf c)).length)
      (tableOf c) _ fits straight headedCtx entries legible ahead, List.nil_append]

/-- Behind the header of a table, a record is shown under that table or not at all. -/
theorem next_under {it : ChangesetIter} {r : Resolution} {tail : List UInt8}
    (name : it.zTab = c.name) (nCol : it.nCol = c.nCol) (abPk : it.abPk = c.abPk)
    (there : it.ahead = rebaseRecord r.ctx r.raw r.replace ++ tail) :
    (∃ fault, it.next = .error fault) ∨ ∃ change it', it.next = .ok (some change, it') ∧
      (change.table, change.nCol, change.pk) = headerOf c := by
  have op : it.readOp = .ok (some (rebasedOp r).code, it.skip 1) :=
    ChangesetIter.readOp_code there (ChangesetIter.code_opens_nothing _)
  match read : (it.skip 1).readChange (rebasedOp r).code with
  | .error fault =>
    refine .inl ⟨fault, ?_⟩
    rw [ChangesetIter.next, op, Checked.ok_bind]
    simp only [read]
    rfl
  | .ok (change, it') =>
    obtain ⟨_, table, cols, pk, _⟩ := ChangesetIter.readChange_table read
    refine .inr ⟨change, it', ?_, ?_⟩
    · rw [ChangesetIter.next, op, Checked.ok_bind]
      simp only [read]
      rfl
    · rw [headerOf, table, cols, pk, ← name, ← nCol, ← abPk]
      rfl

/-- When the reader is shown every conflict under its own table, all are of the first one's. -/
theorem same_table (headedCtx : HeadedCtx c) {bytes : List UInt8} (short : bytes.length < 2 ^ 63)
    {changes : List Change} (read : (ChangesetIter.start bytes false).all = .ok changes)
    {front rest : List Resolution} (headed : ∀ r ∈ front ++ rest, HeadedCtx r.ctx)
    (whole : bytes = rebaseHeader c ++
      (front ++ rest).flatMap fun r => rebaseRecord r.ctx r.raw r.replace)
    (shows : List.Forall₂ Shows changes (front ++ rest))
    (same : ∀ r ∈ front, headerOf c = headerOf r.ctx) :
    ∀ r ∈ front ++ rest, headerOf c = headerOf r.ctx := by
  induction rest generalizing front with
  | nil => rwa [List.append_nil]
  | cons r rest ih =>
    have bytes_front := whole
    rw [List.flatMap_append, List.flatMap_cons] at bytes_front
    obtain ⟨shown, it, front_shown, ahead, name, nCol, abPk, collected⟩ :=
      behind_records headedCtx (fun r member => headed r (List.mem_append_left _ member)) same
        short bytes_front
    have under : headerOf c = headerOf r.ctx := by
      rw [collected] at read
      rcases next_under name nCol abPk ahead with ⟨fault, failed⟩ | ⟨change, it', stepped, header⟩
      · rw [ChangesetIter.foldChanges_error failed] at read
        cases read
      · rw [ChangesetIter.foldChanges_some stepped, Checked.ok_bind] at read
        obtain ⟨more, rfl, _⟩ := ChangesetIter.foldChanges_collected read
        rw [List.append_assoc, List.singleton_append] at shows
        have behind := List.forall₂_drop_append _ _ _ shows
        rw [← front_shown.length_eq, List.drop_left] at behind
        obtain ⟨first, _⟩ := List.forall₂_cons.mp behind
        rw [← header, headerOf, first.table, first.nCol, first.pk]
    rw [List.append_cons] at headed whole shows ⊢
    refine ih headed whole shows fun r' member => ?_
    rcases List.mem_append.mp member with before | last
    · exact same r' before
    · rw [List.mem_singleton.mp last]
      exact under

/-- The buffer lists the conflicts under their tables exactly when they are of one table. -/
theorem lists_rebaseBytes (headed : ∀ r ∈ resolved, HeadedCtx r.ctx)
    (short : (rebaseBytes resolved).length < 2 ^ 63) (nonempty : resolved ≠ []) :
    Lists (some (rebaseBytes resolved)) resolved ↔ OneTable resolved := by
  match resolved with
  | [] => exact absurd rfl nonempty
  | first :: rest =>
    have first_headed := headed first List.mem_cons_self
    constructor
    · rintro ⟨changes, read, shows⟩
      have same := @same_table first.ctx first_headed _ short changes read [] (first :: rest) headed
        rfl shows nofun
      exact fun r member r' member' => (same r member).symm.trans (same r' member')
    · intro one
      obtain ⟨shown, it, shows, ahead, _, _, _, collected⟩ :=
        @behind_records first.ctx first_headed (first :: rest) headed
          (fun r member => one first List.mem_cons_self r member) (rebaseBytes (first :: rest)) []
          short (by rw [List.append_nil, rebaseBytes])
      have done : it.next = .ok (none, it) := by
        rw [ChangesetIter.next, ChangesetIter.readOp_end ahead, Checked.ok_bind]
      rw [ChangesetIter.foldChanges_none done] at collected
      exact ⟨shown, collected, shows⟩

/-- A database of empty tables of one key column each. -/
def emptyTables : Engine where
  Db := Unit
  foreignKeysEnabled _ := false
  control _ db := (.ok (), db)
  execute _ _ db := (.ok (), db)
  changes _ := 0
  query _ _ _ := .ok []
  getTable name _ := some ⟨name, [keyColumn], false⟩
  countFkViolations _ _ := .ok 0

/-- Every conflict is omitted. -/
def omitting : Callbacks Unit := ⟨none, fun _ calls => (changesetOmit, calls)⟩

def rebasing : ApplyFlags := ⟨false, false, false, false, true⟩

def beginning : World emptyTables Unit := ⟨(), (), startState rebasing false, []⟩

def deleteOf (table : Name) (key : UInt8) : List UInt8 :=
  [0x54, 1, 1] ++ table ++ [0, 9, 0, 1, 0, 0, 0, 0, 0, 0, 0, key]

end Apply

end RustSql.Session
