import RustSql.Session.Apply
import RustSql.Session.ReadBack

/-! The application of a whole changeset: tables, retries of buffered conflicts, savepoints. -/

namespace RustSql.Session

open RustSql.Foundation RustSql.Types

namespace ChangesetIter

/-- The header of the table that is open can be written and read back. -/
def Opened (it : ChangesetIter) : Prop := it.zTab ≠ [] → Headed it.zTab it.nCol it.abPk

variable {it it' : ChangesetIter}

theorem readTblhdr_opened (read : it.readTblhdr = .ok it') : it'.Opened := by
  unfold readTblhdr at read
  split at read
  · cases read
  · simp only at read
    split at read
    · cases read
    next some =>
      obtain ⟨stop, added, read⟩ := Checked.bind_ok_iff.mp read
      split at read
      · cases read
      · obtain ⟨abPk, sliced, read⟩ := Checked.bind_ok_iff.mp read
        obtain ⟨_, rfl⟩ := Checked.add_eq_ok.mp added
        split at read
        · cases read
        next inside _ nameEnd found =>
          split at read
          next utf8 =>
            cases read
            intro named
            refine ⟨named, ?_, utf8, ?_, Nat.pos_of_ne_zero some⟩
            · intro member
              obtain ⟨j, short, zero⟩ := List.getElem_of_mem member
              obtain ⟨_, _, before⟩ := List.findIdx?_eq_some_iff_getElem.mp found
              rw [List.length_take] at short
              rw [List.getElem_take] at zero
              exact absurd (before j (by omega)) (by simpa using zero)
            · dsimp only
              rw [Checked.sliceRange_ok (Nat.le_add_right _ _) (by omega)] at sliced
              cases sliced
              rw [List.length_take, List.length_drop]
              omega
          next => cases read

theorem readOp_opened {code : Option UInt8} (opened : it.Opened)
    (read : it.readOp = .ok (code, it')) : it'.Opened := by
  fun_induction readOp it with
  | case1 => cases read
  | case2 it inside op header it₁ moved ih => exact ih (readTblhdr_opened moved) read
  | case3 it inside op =>
    cases read
    exact opened
  | case4 it outside =>
    cases read
    exact opened

/-- A change is shown under the table that is open. -/
theorem readChange_table {code : UInt8} {change : Change}
    (read : it.readChange code = .ok (change, it')) :
    it.zTab ≠ [] ∧ change.table = it.zTab ∧ change.nCol = it.nCol ∧ change.pk = it.abPk ∧
      it'.zTab = it.zTab ∧ it'.nCol = it.nCol ∧ it'.abPk = it.abPk := by
  unfold readChange at read
  split at read
  · cases read
  next sane =>
    split at read
    · cases read
    · split at read
      · cases read
      · obtain ⟨flag, _, read⟩ := Checked.bind_ok_iff.mp read
        obtain ⟨⟨old, new, stop⟩, _, read⟩ := Checked.bind_ok_iff.mp read
        obtain ⟨raw, _, read⟩ := Checked.bind_ok_iff.mp read
        dsimp only at read
        split at read
        · cases read
        · cases read
          exact ⟨fun empty => sane (.inl empty), rfl, rfl, rfl, rfl, rfl, rfl⟩

theorem next_opened {change : Change} (opened : it.Opened) (read : it.next = .ok (some change, it')) :
    it'.Opened ∧ Headed change.table change.nCol change.pk := by
  unfold next at read
  obtain ⟨⟨code, it₁⟩, op, read⟩ := Checked.bind_ok_iff.mp read
  cases code with
  | none => cases read
  | some code =>
    obtain ⟨⟨change', it₂⟩, body, done⟩ := Checked.bind_ok_iff.mp read
    cases done
    obtain ⟨named, table, nCol, pk, zTab', nCol', abPk'⟩ := readChange_table body
    have header := readOp_opened opened op named
    refine ⟨fun _ => ?_, ?_⟩
    · rw [zTab', nCol', abPk']
      exact header
    · rw [table, nCol, pk]
      exact header

end ChangesetIter

namespace Apply

variable {E : Engine} {τ : Type}

/-- The buffered changes of a round, each applied again. -/
def retryRound (cb : Callbacks τ) (c : ApplyCtx) (cons : List RawChange) : Apply E τ PUnit :=
  cons.forM (applyOneWithRetry cb c)

/-- Without progress, or after many rounds, conflicts go to the handler. -/
def settle (before rounds : Nat) (w : World E τ) : World E τ :=
  if before ≤ w.st.constraints.length ∨ 1000 < rounds then
    { w with st := { w.st with bDefer := false } }
  else w

/-- Buffering is not taken up again, and without it nothing is buffered. -/
def Drains (w w' : World E τ) : Prop :=
  w'.st.bDefer = w.st.bDefer ∧ (w.st.bDefer = false → w'.st.constraints = w.st.constraints)

theorem rebaseAdd_bDefer (c : ApplyCtx) (raw : RawChange) (replace : Bool) (st : ApplyState) :
    (rebaseAdd c raw replace st).bDefer = st.bDefer ∧
      (rebaseAdd c raw replace st).constraints = st.constraints := by
  unfold rebaseAdd
  split
  · exact ⟨rfl, rfl⟩
  · exact ⟨rfl, rfl⟩

theorem admits_drains (c : ApplyCtx) (raw : RawChange) :
    Admits (Drains : World E τ → World E τ → Prop) c raw where
  frame :=
    { refl := fun _ => ⟨rfl, fun _ => rfl⟩
      trans := fun first second => ⟨second.1.trans first.1, fun off =>
        (second.2 (first.1.trans off)).trans (first.2 off)⟩ }
  execute _ _ _ _ := ⟨rfl, fun _ => rfl⟩
  calls _ _ := ⟨rfl, fun _ => rfl⟩
  written _ _ := ⟨rfl, fun _ => rfl⟩
  buffer _ on _ := ⟨rfl, fun off => absurd (on.symm.trans off) nofun⟩
  resolve w replace :=
    ⟨(rebaseAdd_bDefer c raw replace w.st).1, fun _ => (rebaseAdd_bDefer c raw replace w.st).2⟩

variable {c : ApplyCtx}

theorem within_retryRound {rel : World E τ → World E τ → Prop} {cons : List RawChange}
    (cb : Callbacks τ) (frame : Effect.Frame rel) (admits : ∀ raw ∈ cons, Admits rel c raw)
    (step : ∀ (w : World E τ) statement, rel w { w with db := (E.control statement w.db).2 }) :
    Effect.Within rel (retryRound cb c cons : Apply E τ PUnit) :=
  frame.forM fun raw member => within_applyOneWithRetry cb (admits raw member) step

theorem retryRound_drains {cb : Callbacks τ} {c : ApplyCtx} {cons : List RawChange}
    {w w' : World E τ} (done : retryRound cb c cons w = .ok ⟨⟩ w') : Drains w w' :=
  (within_retryRound cb (admits_drains c ⟨.insert, false, [], []⟩).frame
    (fun raw _ => admits_drains c raw) fun _ _ => ⟨rfl, fun _ => rfl⟩).ok done

/-- `retry_constraints`, with so many rounds behind it. -/
def retryFrom (cb : Callbacks τ) (c : ApplyCtx) (rounds : Nat) (w : World E τ) :
    EStateM.Result (Fault ApplyError) (World E τ) Unit :=
  if _empty : w.st.constraints = [] then .ok () w
  else
    match _round : retryRound cb c w.st.constraints
        { w with st := { w.st with constraints := [] } } with
    | .error fault w => .error fault w
    | .ok _ w' => retryFrom cb c (rounds + 1) (settle w.st.constraints.length (rounds + 1) w')
termination_by (if w.st.bDefer then 1 else 0, w.st.constraints.length)
decreasing_by
  obtain ⟨same, stays⟩ := retryRound_drains _round
  dsimp only at same stays
  have some := List.length_pos_iff.mpr _empty
  unfold settle
  split
  next stalled =>
    by_cases on : w.st.bDefer = true
    · exact .left _ _ (by simp [on])
    · rw [Bool.not_eq_true] at on
      rw [on]
      refine .right _ ?_
      rw [stays on]
      exact some
  next moved =>
    rw [same]
    exact .right _ (by omega)

def retryConstraints (cb : Callbacks τ) (c : ApplyCtx) : Apply E τ Unit := fun w =>
  match w.st.constraints with
  | [] => .ok () w
  | _ :: _ => retryFrom cb c 0 w

/-- Does a changeset's key say that the rows are kept by their rowid? -/
def impliesRowid (tbl : Table) (bStat1 : Bool) (abPkCs : List UInt8) : Bool :=
  abPkCs.any (· != 0) && tbl.columns.all (fun col => !col.primaryKey) && !tbl.withoutRowid &&
    !bStat1 && abPkCs.head? == some 1 && abPkCs.length == tbl.columns.length + 1

/-- One more than the place of the last key column. -/
def minPk (abPk : List UInt8) : Nat := (abPk.reverse.dropWhile (· == 0)).length

/-- Do the changes of a table not fit its model? -/
def mismatched (model : SessionTable) (nCs : Nat) (abPkCs : List UInt8) : Bool :=
  decide (model.nCol < nCs) || decide (model.abPk.length < nCs) ||
    decide (nCs < minPk model.abPk) ||
    ((model.abPk.take nCs).zip abPkCs).any fun flags => flags.1 != flags.2

def ctxOf (change : Change) (tbl : Table) : ApplyCtx :=
  let bStat1 := eqIgnoreAsciiCase change.table (ascii "sqlite_stat1")
  let model := (SessionTable.new change.table).initTableModel tbl
    (impliesRowid tbl bStat1 change.pk)
  { name := change.table
    nCol := change.nCol
    abPk := change.pk
    azCol := model.azCol
    bStat1
    bPatchset := change.patchset
    skip := mismatched model change.nCol change.pk }

def buildApplyCtx (change : Change) : Apply E τ ApplyCtx := do
  let w ← get
  match E.getTable change.table w.db with
  | none => fail (.engine (.other (ascii "no such table: " ++ change.table)))
  | some tbl => pure (ctxOf change tbl)

/-- A table whose changes are passed over. -/
def skippedCtx (change : Change) : ApplyCtx :=
  ⟨change.table, change.nCol, change.pk, [], false, change.patchset, true⟩

/-- What the filter says of a table. -/
def admitted (cb : Callbacks τ) (table : Name) : Apply E τ Bool :=
  match cb.filter with
  | none => pure true
  | some f => Effect.call fun w =>
    let (admits, calls) := f table w.calls
    (.ok admits, { w with calls })

def enterTable (cb : Callbacks τ) (change : Change) : Apply E τ ApplyCtx := do
  modifyState fun st => { st with bDefer := true, constraints := [] }
  let admits ← admitted cb change.table
  if admits then buildApplyCtx change else pure (skippedCtx change)

/-- The table of a change, after the conflicts of the one before it. -/
def tableFor (cb : Callbacks τ) (ctx : Option ApplyCtx) (change : Change) : Apply E τ ApplyCtx :=
  match ctx with
  | none => enterTable cb change
  | some c =>
    if c.name = change.table then pure c
    else do
      retryConstraints cb c
      enterTable cb change

def rawOf (change : Change) : RawChange :=
  { op := change.op
    indirect := change.indirect
    old := (List.range change.nCol).map fun i => change.old.getD i none
    new := (List.range change.nCol).map fun i => change.new.getD i none }

/-- One turn of the loop. -/
def applyChange (cb : Callbacks τ) (ctx : Option ApplyCtx) (change : Change) :
    Apply E τ ApplyCtx := do
  let c ← tableFor cb ctx change
  if c.skip then pure c
  else
    applyOneWithRetry cb c (rawOf change)
    pure c

def corrupted : Fault String → Fault ApplyError
  | .reported message => .reported (.corrupt message)
  | .overflow => .overflow
  | .slice => .slice
  | .assertion => .assertion

/-- The loop over the changes: an error of the iterator is returned at once, another one ends the
loop. -/
def applyLoop (cb : Callbacks τ) (it : ChangesetIter) (ctx : Option ApplyCtx) :
    Apply E τ (Except (Fault ApplyError) (Option ApplyCtx)) :=
  match _read : it.next with
  | .error fault => throw (corrupted fault)
  | .ok (none, _) => pure (.ok ctx)
  | .ok (some change, it') => do
    match ← Effect.attempt (applyChange cb ctx change) with
    | .error fault => pure (.error fault)
    | .ok c => applyLoop cb it' (some c)
termination_by it.data.length - it.pos
decreasing_by
  obtain ⟨data, inside, later⟩ := ChangesetIter.next_pos _read
  rw [data]
  omega

def foreignKeyFailed : Name := ascii "FOREIGN KEY constraint failed"

/-- `fk_end_check`. -/
def fkEndCheck (cb : Callbacks τ) : Apply E τ Unit := do
  let w ← get
  let violations ← onDb fun db => (E.countFkViolations w.st.written db, db)
  if violations = 0 then pure ()
  else
    let res ← askHandler cb ⟨.foreignKey, none, [], 0, [], false, [], [], none⟩
    if res = changesetOmit then pure () else fail (.engine (.constraint foreignKeyFailed))

structure ApplyFlags where
  noSavepoint : Bool
  invert : Bool
  ignoreNoop : Bool
  fkNoAction : Bool
  rebase : Bool

def startState (flags : ApplyFlags) (fkWasOn : Bool) : ApplyState :=
  ⟨flags.rebase, false, [], [], true, flags.ignoreNoop, [], fkWasOn⟩

def changesetApply : Name := ascii "changeset_apply"

/-- The conflicts of the last table. -/
def retryLast (cb : Callbacks τ) : Option ApplyCtx → Apply E τ Unit
  | some c => retryConstraints cb c
  | none => pure ()

/-- What comes behind the changes: the last conflicts, and the check of the foreign keys. -/
def finish (cb : Callbacks τ) (flags : ApplyFlags) (fkWasOn : Bool) (ctx : Option ApplyCtx) :
    Apply E τ Unit := do
  retryLast cb ctx
  if fkWasOn ∧ flags.fkNoAction = false then fkEndCheck cb else pure ()

/-- The changes and what comes behind them, with the error that ended them. -/
def applyAll (cb : Callbacks τ) (cs : List UInt8) (flags : ApplyFlags) (fkWasOn : Bool) :
    Apply E τ (Except (Fault ApplyError) Unit) := do
  match ← applyLoop cb (ChangesetIter.start cs flags.invert) none with
  | .error fault => pure (.error fault)
  | .ok ctx => Effect.attempt (finish cb flags fkWasOn ctx)

/-- The savepoint is kept or taken back. -/
def leave (flags : ApplyFlags) : Except (Fault ApplyError) Unit → Apply E τ Unit
  | .ok () => if flags.noSavepoint then pure () else control (.release changesetApply)
  | .error _ =>
    if flags.noSavepoint then pure ()
    else do
      ignore (control (.rollbackTo changesetApply))
      ignore (control (.release changesetApply))

/-- The foreign keys are not enforced during the application. -/
def suspendKeys (fkWasOn : Bool) : Apply E τ Unit :=
  if fkWasOn then control (.foreignKeys false) else pure ()

def restoreKeys (fkWasOn : Bool) : Apply E τ Unit :=
  if fkWasOn then ignore (control (.foreignKeys true)) else pure ()

def enter (flags : ApplyFlags) (fkWasOn : Bool) : Apply E τ Unit := do
  modify fun w => { w with st := startState flags fkWasOn, resolved := [] }
  suspendKeys fkWasOn
  if flags.noSavepoint then pure () else control (.savepoint changesetApply)

/-- The rebase buffer, when there is one. -/
def rebaseOutput : Apply E τ (Option (List UInt8)) := do
  let w ← get
  pure (if w.st.bRebase ∧ w.st.rebaseBuf ≠ [] then some w.st.rebaseBuf else none)

/-- The part of `apply` inside its savepoint, and the clean-up. -/
def applyEntered (cb : Callbacks τ) (cs : List UInt8) (flags : ApplyFlags) (fkWasOn : Bool) :
    Apply E τ (Option (List UInt8)) := do
  let rc ← applyAll cb cs flags fkWasOn
  leave flags rc
  restoreKeys fkWasOn
  match rc with
  | .error fault => throw fault
  | .ok () => rebaseOutput

/-- `apply`. -/
def apply (cb : Callbacks τ) (cs : List UInt8) (flags : ApplyFlags) :
    Apply E τ (Option (List UInt8)) := do
  let w ← get
  let fkWasOn := E.foreignKeysEnabled w.db
  enter flags fkWasOn
  applyEntered cb cs flags fkWasOn

def HeadedCtx (c : ApplyCtx) : Prop := ChangesetIter.Headed c.name c.nCol c.abPk

variable {w w' : World E τ}

theorem attempt_ok {α : Type} {m : Apply E τ α} {a : α} (done : Effect.attempt m w = .ok (.ok a) w') :
    m w = .ok a w' := by
  unfold Effect.attempt at done
  split at done
  next same =>
    cases done
    exact same
  next => cases done

variable {cb : Callbacks τ}

variable {change : Change}

theorem headed_enterTable (under : ChangesetIter.Headed change.table change.nCol change.pk)
    (entered : enterTable cb change w = .ok c w') : HeadedCtx c := by
  obtain ⟨_, w₁, _, entered⟩ := Effect.bind_ok.mp entered
  obtain ⟨admits, w₂, _, entered⟩ := Effect.bind_ok.mp entered
  split at entered
  · obtain ⟨w₃, w₄, read, built⟩ := Effect.bind_ok.mp entered
    cases found : E.getTable change.table w₃.db with
    | none =>
      rw [found] at built
      cases built
    | some tbl =>
      rw [found] at built
      cases built
      exact under
  · cases entered
    exact under

theorem headed_tableFor {ctx : Option ApplyCtx} (headed : ∀ c ∈ ctx, HeadedCtx c)
    (under : ChangesetIter.Headed change.table change.nCol change.pk)
    (entered : tableFor cb ctx change w = .ok c w') : HeadedCtx c := by
  cases ctx with
  | none => exact headed_enterTable under entered
  | some c' =>
    unfold tableFor at entered
    simp only at entered
    split at entered
    · cases entered
      exact headed _ rfl
    · obtain ⟨_, _, _, entered⟩ := Effect.bind_ok.mp entered
      exact headed_enterTable under entered

theorem headed_applyChange {ctx : Option ApplyCtx} (headed : ∀ c ∈ ctx, HeadedCtx c)
    (under : ChangesetIter.Headed change.table change.nCol change.pk)
    (applied : applyChange cb ctx change w = .ok c w') : HeadedCtx c := by
  obtain ⟨c', w₁, entered, applied⟩ := Effect.bind_ok.mp applied
  have found := headed_tableFor headed under entered
  split at applied
  · cases applied
    exact found
  · obtain ⟨_, _, _, applied⟩ := Effect.bind_ok.mp applied
    cases applied
    exact found

theorem applyLoop_error {it : ChangesetIter} {fault : Fault String} (read : it.next = .error fault)
    (ctx : Option ApplyCtx) : (applyLoop cb it ctx : Apply E τ _) = throw (corrupted fault) := by
  rw [applyLoop]
  split
  next other =>
    rw [read] at other
    cases other
    rfl
  next other => rw [read] at other; cases other
  next other => rw [read] at other; cases other

theorem applyLoop_none {it it' : ChangesetIter} (read : it.next = .ok (none, it'))
    (ctx : Option ApplyCtx) : (applyLoop cb it ctx : Apply E τ _) = pure (.ok ctx) := by
  rw [applyLoop]
  split
  next other => rw [read] at other; cases other
  next => rfl
  next other => rw [read] at other; cases other

theorem applyLoop_some {it it' : ChangesetIter} (read : it.next = .ok (some change, it'))
    (ctx : Option ApplyCtx) :
    (applyLoop cb it ctx : Apply E τ _) =
      (do match ← Effect.attempt (applyChange cb ctx change) with
        | .error fault => pure (.error fault)
        | .ok c => applyLoop cb it' (some c)) := by
  rw [applyLoop]
  split
  next other => rw [read] at other; cases other
  next other => rw [read] at other; cases other
  next other =>
    rw [read] at other
    cases other
    rfl

theorem headed_applyLoop {cb : Callbacks τ} {it : ChangesetIter} (opened : it.Opened)
    {ctx ctx' : Option ApplyCtx} (headed : ∀ c ∈ ctx, HeadedCtx c) {w w' : World E τ}
    (done : applyLoop cb it ctx w = .ok (.ok ctx') w') : ∀ c ∈ ctx', HeadedCtx c := by
  match read : it.next with
  | .error fault =>
    rw [applyLoop_error read] at done
    cases done
  | .ok (none, it') =>
    rw [applyLoop_none read] at done
    cases done
    exact headed
  | .ok (some change, it') =>
    rw [applyLoop_some read] at done
    obtain ⟨opened', under⟩ := ChangesetIter.next_opened opened read
    obtain ⟨outcome, w₁, applied, done⟩ := Effect.bind_ok.mp done
    match outcome with
    | .error fault => cases done
    | .ok c =>
      have entered := headed_applyChange headed under (attempt_ok applied)
      exact headed_applyLoop opened' (fun c' same => Option.some.inj same ▸ entered) done
termination_by it.data.length - it.pos
decreasing_by
  obtain ⟨data, inside, later⟩ := ChangesetIter.next_pos read
  rw [data]
  omega

/-- A relation between states that allows every change of a headed table, and the bookkeeping
between the changes. -/
structure Applies (cb : Callbacks τ) (rel : World E τ → World E τ → Prop) : Prop where
  frame : Effect.Frame rel
  change : ∀ c raw, HeadedCtx c → Effect.Within rel (applyOneWithRetry cb c raw)
  pending : ∀ w constraints bDefer, rel w { w with st := { w.st with constraints, bDefer } }
  calls : ∀ w calls, rel w { w with calls }

section Within

open Effect

variable {cb : Callbacks τ} {rel : World E τ → World E τ → Prop} (applies : Applies cb rel)

include applies

theorem within_settle (before rounds : Nat) (w : World E τ) : rel w (settle before rounds w) := by
  unfold settle
  split
  · exact applies.pending w _ _
  · exact applies.frame.refl w

theorem within_retryFrom {c : ApplyCtx} (headed : HeadedCtx c)
    (rounds : Nat) (w : World E τ) : rel w (final (retryFrom cb c rounds w)) := by
  have frame := applies.frame
  have round (cons : List RawChange) : Within rel (retryRound cb c cons) :=
    frame.forM fun raw _ => applies.change c raw headed
  have taken : rel w { w with st := { w.st with constraints := [] } } := applies.pending w _ _
  fun_induction retryFrom cb c rounds w with
  | case1 => exact frame.refl _
  | case2 rounds w some fault w' stopped =>
    exact frame.trans taken ((round _).error stopped)
  | case3 rounds w some _ w' done ih =>
    exact frame.trans (frame.trans taken ((round _).ok done))
      (frame.trans (within_settle applies _ _ w') (ih (applies.pending _ _ _)))

theorem within_retryConstraints {c : ApplyCtx} (headed : HeadedCtx c) :
    Within rel (retryConstraints cb c) := by
  intro w
  unfold retryConstraints
  split
  · exact applies.frame.refl w
  · exact within_retryFrom applies headed 0 w

theorem within_enterTable (change : Change) : Within rel (enterTable cb change) := by
  have frame := applies.frame
  refine frame.bind (Within.modify fun w => applies.pending w _ _) fun _ => frame.bind ?_ fun _ => ?_
  · unfold admitted
    split
    · exact frame.pure _
    · exact Within.call fun w => applies.calls w _
  · split
    · refine Within.get fun w => ?_
      split
      · exact frame.throw _
      · exact frame.pure _
    · exact frame.pure _

variable {ctx : Option ApplyCtx}

theorem within_tableFor (headed : ∀ c ∈ ctx, HeadedCtx c) (change : Change) :
    Within rel (tableFor cb ctx change) := by
  have frame := applies.frame
  unfold tableFor
  split
  · exact within_enterTable applies change
  next c =>
    split
    · exact frame.pure _
    · exact frame.bind (within_retryConstraints applies (headed c rfl)) fun _ =>
        within_enterTable applies change

theorem within_applyChange (headed : ∀ c ∈ ctx, HeadedCtx c) {change : Change}
    (under : ChangesetIter.Headed change.table change.nCol change.pk) :
    Within rel (applyChange cb ctx change) := by
  have frame := applies.frame
  refine frame.bind_from (within_tableFor applies headed change) fun w c w' entered => ?_
  split
  · exact frame.pure _
  · exact frame.bind (applies.change c _ (headed_tableFor headed under entered)) fun _ =>
      frame.pure _

/-- The loop, by what is left of the changeset. -/
theorem within_applyLoop {it : ChangesetIter} (opened : it.Opened) {ctx : Option ApplyCtx}
    (headed : ∀ c ∈ ctx, HeadedCtx c) : Within rel (applyLoop cb it ctx) := by
  have frame := applies.frame
  match read : it.next with
  | .error fault =>
    rw [applyLoop_error read]
    exact frame.throw _
  | .ok (none, it') =>
    rw [applyLoop_none read]
    exact frame.pure _
  | .ok (some change, it') =>
    rw [applyLoop_some read]
    obtain ⟨opened', under⟩ := ChangesetIter.next_opened opened read
    refine frame.bind_from (within_applyChange applies headed under).attempt
      fun w outcome w' done => ?_
    match outcome with
    | .error fault => exact frame.pure _
    | .ok c =>
      have entered := headed_applyChange headed under (attempt_ok done)
      exact within_applyLoop opened' fun c' same => Option.some.inj same ▸ entered
termination_by it.data.length - it.pos
decreasing_by
  obtain ⟨data, inside, later⟩ := ChangesetIter.next_pos read
  rw [data]
  omega

theorem within_fkEndCheck : Within rel (fkEndCheck cb) := by
  have frame := applies.frame
  refine Within.get fun w => frame.bind (within_onDb fun w => frame.refl w) fun violations => ?_
  split
  · exact frame.pure _
  · refine frame.bind (Within.call fun w => applies.calls w _) fun res => ?_
    split
    · exact frame.pure _
    · exact frame.throw _

theorem within_finish (flags : ApplyFlags) (fkWasOn : Bool) (headed : ∀ c ∈ ctx, HeadedCtx c) :
    Within rel (finish cb flags fkWasOn ctx) := by
  have frame := applies.frame
  have checked : Within rel (if fkWasOn ∧ flags.fkNoAction = false then fkEndCheck cb
      else (pure () : Apply E τ Unit)) := by
    split
    · exact within_fkEndCheck applies
    · exact frame.pure _
  refine frame.bind ?_ fun _ => checked
  match ctx with
  | some c => exact within_retryConstraints applies (headed c rfl)
  | none => exact frame.pure _

theorem within_applyAll (cs : List UInt8) (flags : ApplyFlags) (fkWasOn : Bool) :
    Within rel (applyAll cb cs flags fkWasOn) := by
  have frame := applies.frame
  have opened : (ChangesetIter.start cs flags.invert).Opened := fun named => absurd rfl named
  have loop := @within_applyLoop E τ cb rel applies _ opened none (by simp)
  refine frame.bind_from loop fun w outcome w' done => ?_
  match outcome with
  | .error fault => exact frame.pure _
  | .ok ctx =>
    exact (within_finish applies flags fkWasOn (headed_applyLoop opened (by simp) done)).attempt

end Within

end Apply

end RustSql.Session
