import RustSql.Foundation.Effects
import RustSql.Session.ApplySql
import RustSql.Session.Iter

/-! Application of a changeset: one change after the other, conflicts to a handler, buffered
constraint conflicts again behind the changes of their table. -/

namespace RustSql.Session

open RustSql.Foundation RustSql.Types

inductive DbError where
  | constraint (text : Name)
  | other (text : Name)
deriving DecidableEq, Repr

inductive ApplyError where
  | engine (error : DbError)
  | corrupt (message : String)
  | misuse (message : String)
  | abort
deriving DecidableEq, Repr

/-- The statements that apply puts around the changes. -/
inductive Control where
  | foreignKeys (on : Bool)
  | savepoint (name : Name)
  | rollbackTo (name : Name)
  | release (name : Name)
deriving DecidableEq, Repr

/-- A row that was written: its table, whether it came or went, its values. -/
structure Written where
  table : Name
  op : Op
  row : List Value

structure Engine where
  Db : Type
  foreignKeysEnabled : Db → Bool
  control : Control → Db → Except DbError Unit × Db
  execute : Name → List Value → Db → Except DbError Unit × Db
  changes : Db → Nat
  query : Name → List Value → Db → Except DbError (List (List Value))
  getTable : Name → Db → Option Table
  countFkViolations : List Written → Db → Except DbError Nat

inductive ConflictCode where
  | data | notFound | conflict | constraint | foreignKey
deriving DecidableEq, Repr

structure ConflictEvent where
  code : ConflictCode
  op : Option Op
  table : Name
  nCol : Nat
  pk : List UInt8
  indirect : Bool
  old : List (Option SessVal)
  new : List (Option SessVal)
  conflictRow : Option (List Value)

/-- The filter and the conflict handler, on a state of their own. -/
structure Callbacks (τ : Type) where
  filter : Option (Name → τ → Bool × τ)
  conflict : ConflictEvent → τ → Int × τ

def changesetOmit : Int := 1
def changesetReplace : Int := 5
def changesetAbort : Int := 18

structure ApplyState where
  bRebase : Bool
  rebaseStarted : Bool
  rebaseBuf : List UInt8
  constraints : List RawChange
  bDefer : Bool
  bIgnoreNoop : Bool
  written : List Written
  fkWasOn : Bool

/-- A conflict that was resolved: the table and the change, and whether it was replaced. -/
structure Resolution where
  ctx : ApplyCtx
  raw : RawChange
  replace : Bool

structure World (E : Engine) (τ : Type) where
  db : E.Db
  calls : τ
  st : ApplyState
  /-- What was resolved so far; nothing reads it. -/
  resolved : List Resolution

abbrev Apply (E : Engine) (τ : Type) := Effect (World E τ) (Fault ApplyError)

namespace Apply

variable {E : Engine} {τ : Type}

def fail {α : Type} (error : ApplyError) : Apply E τ α := throw (.reported error)

/-- A change of the state of the application. -/
def modifyState (f : ApplyState → ApplyState) : Apply E τ PUnit :=
  modify fun w => { w with st := f w.st }

/-- A call on the database, its error passed on. -/
def onDb {α : Type} (f : E.Db → Except DbError α × E.Db) : Apply E τ α :=
  Effect.call fun w =>
    let (result, db) := f w.db
    (result.mapError (fun error => .reported (.engine error)), { w with db })

def control (statement : Control) : Apply E τ Unit := onDb (E.control statement)

def execute (sql : Name) (params : List Value) : Apply E τ Unit := onDb (E.execute sql params)

def query (sql : Name) (params : List Value) : Apply E τ (List (List Value)) :=
  onDb fun db => (E.query sql params db, db)

/-- A statement whose error is dropped. -/
def ignore (m : Apply E τ Unit) : Apply E τ Unit := do
  let _ ← Effect.attempt m

/-- `append_rebased_field`. -/
def rebasedField : Option SessVal → List UInt8
  | some .null => [typeNull]
  | some v => fieldOf v.toValue
  | none => [typeUndef]

/-- The fields of a resolved change: the old ones of a deletion and of the key of an update. -/
def rebasedSide (c : ApplyCtx) (raw : RawChange) (i : Nat) : Option SessVal :=
  if raw.op = .delete ∨ (raw.op = .update ∧ c.isPk i = true) then raw.oldAt i else raw.newAt i

def rebaseHeader (c : ApplyCtx) : List UInt8 :=
  0x54 :: (putVarint c.nCol ++ c.abPk ++ c.name ++ [0])

def rebaseRecord (c : ApplyCtx) (raw : RawChange) (replace : Bool) : List UInt8 :=
  (if raw.op = .delete then Op.delete else Op.insert).code :: (if replace then 1 else 0) ::
    (List.range c.nCol).flatMap fun i => rebasedField (rebasedSide c raw i)

/-- `rebase_add`. -/
def rebaseAdd (c : ApplyCtx) (raw : RawChange) (replace : Bool) (st : ApplyState) : ApplyState :=
  if st.bRebase then
    { st with
      rebaseStarted := true
      rebaseBuf := st.rebaseBuf ++ (if st.rebaseStarted then [] else rebaseHeader c) ++
        rebaseRecord c raw replace }
  else st

/-- A conflict is resolved. -/
def resolve (c : ApplyCtx) (raw : RawChange) (replace : Bool) : Apply E τ PUnit :=
  modify fun w =>
    { w with st := rebaseAdd c raw replace w.st, resolved := w.resolved ++ [⟨c, raw, replace⟩] }

/-- Does a row already have every new value outside the key? -/
def isNoop (c : ApplyCtx) (raw : RawChange) (row : List Value) : Bool :=
  (List.range c.nCol).all fun i =>
    c.isPk i || match row[i]?, (raw.newAt i).bind SessVal.toValue with
      | some current, some new => valuesEqual new current
      | _, _ => true

def keySideOf (raw : RawChange) (i : Nat) : Option SessVal :=
  if raw.op = .insert then raw.newAt i else raw.oldAt i

/-- The row at the key of a change; only a first attempt looks for it. -/
def conflictingRow (c : ApplyCtx) (raw : RawChange) (attempt1 : Bool) :
    Apply E τ (Option (List Value)) :=
  if attempt1 then do
    let rows ← query c.buildConflictSelect (c.bindPk (keySideOf raw) c.nCol)
    pure rows.head?
  else pure none

/-- The verdict of the handler on a conflict. -/
def askHandler (cb : Callbacks τ) (event : ConflictEvent) : Apply E τ Int :=
  Effect.call fun w =>
    let (verdict, calls) := cb.conflict event w.calls
    (.ok verdict, { w with calls })

/-- The two codes of a conflict: with the row at its key, and without one. -/
def codeOf (insertion : Bool) (found : Bool) : ConflictCode :=
  match insertion, found with
  | false, true => .data
  | false, false => .notFound
  | true, true => .conflict
  | true, false => .constraint

def eventOf (c : ApplyCtx) (raw : RawChange) (code : ConflictCode) (row : Option (List Value)) :
    ConflictEvent :=
  ⟨code, some raw.op, c.name, c.nCol, c.abPk, raw.indirect, raw.old, raw.new, row⟩

/-- What is to become of a conflict; none when it is buffered. -/
def verdict (cb : Callbacks τ) (c : ApplyCtx) (raw : RawChange) (insertion attempt1 : Bool) :
    Apply E τ (Option Int) := do
  let row ← conflictingRow c raw attempt1
  let w ← get
  if w.st.bIgnoreNoop ∧ raw.op ≠ .delete ∧ row.any (isNoop c raw) then pure (some changesetOmit)
  else
    let code := codeOf insertion row.isSome
    if w.st.bDefer ∧ code = .constraint ∧ raw.op = .insert then
      modifyState fun st => { st with constraints := st.constraints ++ [raw] }
      pure none
    else
      let res ← askHandler cb (eventOf c raw code row)
      pure (some res)

def replaceMisuse : String := "CHANGESET_REPLACE on NOTFOUND/CONSTRAINT"

def verdictMisuse : String := "invalid conflict handler verdict"

/-- `conflict_handler`: is the change to be tried again? -/
def conflictHandler (cb : Callbacks τ) (c : ApplyCtx) (raw : RawChange)
    (insertion attempt1 : Bool) : Apply E τ Bool := do
  match ← verdict cb c raw insertion attempt1 with
  | none => pure false
  | some res =>
    if res = changesetReplace then
      if attempt1 then
        resolve c raw true
        pure true
      else fail (.misuse replaceMisuse)
    else if res = changesetOmit then
      resolve c raw false
      pure false
    else if res = changesetAbort then fail .abort
    else fail (.misuse verdictMisuse)

/-- `record_written_insert` and its like. -/
def writtenRow (c : ApplyCtx) (op : Op) (side : Nat → Option SessVal) : Written :=
  ⟨c.name, op, (List.range c.nCol).map fun i => ((side i).bind SessVal.toValue).getD .null⟩

def record (rows : List Written) : Apply E τ PUnit :=
  modifyState fun st => { st with written := st.written ++ rows }

def undefinedDelete : String := "undefined field in changeset DELETE"

def undefinedInsert : String := "undefined field in changeset INSERT"

/-- The values bound by a deletion. -/
def deleteParams (c : ApplyCtx) (raw : RawChange) (verify : Bool) : Apply E τ (List Value) :=
  if verify then
    match c.deleteRowParams raw with
    | some params => pure params
    | none => fail (.corrupt undefinedDelete)
  else pure (c.deleteKeyParams raw.oldAt)

/-- What a change wants tried again: the change with its row replaced, or without verification. -/
structure Again where
  replace : Bool
  retry : Bool

def applyDelete (cb : Callbacks τ) (c : ApplyCtx) (raw : RawChange) (attempt1 : Bool) :
    Apply E τ Again := do
  let params ← deleteParams c raw (attempt1 && !c.bPatchset)
  execute c.buildDeleteSql params
  let w ← get
  if 0 < E.changes w.db then
    record [writtenRow c .delete raw.oldAt]
    pure ⟨false, false⟩
  else
    let retry ← conflictHandler cb c raw false attempt1
    pure ⟨false, retry⟩

def applyUpdate (cb : Callbacks τ) (c : ApplyCtx) (raw : RawChange) (attempt1 : Bool) :
    Apply E τ Again := do
  let verify := attempt1 && !c.bPatchset
  execute (c.buildUpdateSql raw verify) (c.updateParams raw verify)
  let w ← get
  if 0 < E.changes w.db then
    record [writtenRow c .delete raw.oldAt, writtenRow c .insert raw.newAt]
    pure ⟨false, false⟩
  else
    let retry ← conflictHandler cb c raw false attempt1
    pure ⟨false, retry⟩

def applyInsert (cb : Callbacks τ) (c : ApplyCtx) (raw : RawChange) (attempt1 : Bool) :
    Apply E τ Again :=
  match c.sideValues raw.newAt with
  | none => fail (.corrupt undefinedInsert)
  | some values => do
    match ← Effect.attempt (execute c.buildInsertSql (c.insertParams values)) with
    | .ok () =>
      record [writtenRow c .insert raw.newAt]
      pure ⟨false, false⟩
    | .error (.reported (.engine (.constraint _))) =>
      let replace ← conflictHandler cb c raw true attempt1
      pure ⟨replace, false⟩
    | .error fault => throw fault

/-- `apply_one_op`. -/
def applyOneOp (cb : Callbacks τ) (c : ApplyCtx) (raw : RawChange) (attempt1 : Bool) :
    Apply E τ Again :=
  match raw.op with
  | .delete => applyDelete cb c raw attempt1
  | .update => applyUpdate cb c raw attempt1
  | .insert => applyInsert cb c raw attempt1

def replaceOp : Name := ascii "replace_op"

/-- The row in the way of an insertion is removed. -/
def removeRow (c : ApplyCtx) (raw : RawChange) : Apply E τ Unit := do
  execute c.buildDeleteSql (c.deleteKeyParams raw.newAt)
  let w ← get
  if 0 < E.changes w.db then record [writtenRow c .delete raw.oldAt] else pure ()

def replaceRow (cb : Callbacks τ) (c : ApplyCtx) (raw : RawChange) : Apply E τ Unit := do
  removeRow c raw
  let _ ← applyOneOp cb c raw false

/-- `apply_one_with_retry`. -/
def applyOneWithRetry (cb : Callbacks τ) (c : ApplyCtx) (raw : RawChange) : Apply E τ Unit := do
  let again ← applyOneOp cb c raw true
  if again.retry then
    let _ ← applyOneOp cb c raw false
  else if again.replace then
    control (.savepoint replaceOp)
    match ← Effect.attempt (replaceRow cb c raw) with
    | .ok () => control (.release replaceOp)
    | .error fault =>
      ignore (control (.rollbackTo replaceOp))
      ignore (control (.release replaceOp))
      throw fault

/-- A relation between states that allows the steps of a change: on the database, on the callbacks'
state, on the list of written rows, a buffered insertion, a resolved conflict. -/
structure Admits (rel : World E τ → World E τ → Prop) (c : ApplyCtx) (raw : RawChange) : Prop where
  frame : Effect.Frame rel
  execute : ∀ w sql params, ApplyCtx.RowStatement sql →
    rel w { w with db := (E.execute sql params w.db).2 }
  calls : ∀ w calls, rel w { w with calls }
  written : ∀ w rows, rel w { w with st := { w.st with written := w.st.written ++ rows } }
  buffer : ∀ w : World E τ, w.st.bDefer = true → raw.op = .insert →
    rel w { w with st := { w.st with constraints := w.st.constraints ++ [raw] } }
  resolve : ∀ w replace, rel w { w with
    st := rebaseAdd c raw replace w.st, resolved := w.resolved ++ [⟨c, raw, replace⟩] }

section Within

open Effect

variable {rel : World E τ → World E τ → Prop} {c : ApplyCtx} {raw : RawChange}

theorem within_onDb {α : Type} {f : E.Db → Except DbError α × E.Db}
    (step : ∀ w, rel w { w with db := (f w.db).2 }) : Within rel (onDb f) :=
  Within.call step

theorem within_record (admits : Admits rel c raw) (rows : List Written) :
    Within rel (record rows : Apply E τ PUnit) :=
  Within.modify fun w => admits.written w rows

theorem within_query (admits : Admits rel c raw) (sql : Name) (params : List Value) :
    Within rel (query sql params : Apply E τ (List (List Value))) :=
  within_onDb fun w => admits.frame.refl w

theorem within_execute (admits : Admits rel c raw) {sql : Name} (row : ApplyCtx.RowStatement sql)
    (params : List Value) : Within rel (Apply.execute sql params : Apply E τ Unit) :=
  within_onDb fun w => admits.execute w sql params row

theorem within_verdict (cb : Callbacks τ) (admits : Admits rel c raw) (insertion attempt1 : Bool) :
    Within rel (verdict cb c raw insertion attempt1 : Apply E τ (Option Int)) := by
  have frame := admits.frame
  unfold verdict
  refine frame.bind ?_ fun row => ?_
  · unfold conflictingRow
    split
    · exact frame.bind (within_query admits _ _) fun _ => frame.pure _
    · exact frame.pure _
  · intro w
    change rel w (final ((if w.st.bIgnoreNoop ∧ raw.op ≠ .delete ∧ row.any (isNoop c raw) then
      (pure (some changesetOmit) : Apply E τ (Option Int)) else _) w))
    split
    · exact frame.pure _ w
    · split
      next buffered =>
        exact frame.trans (admits.buffer w buffered.1 buffered.2.2) (frame.refl _)
      next => exact frame.bind (Within.call fun w => admits.calls w _) (fun _ => frame.pure _) w

theorem within_conflictHandler (cb : Callbacks τ) (admits : Admits rel c raw)
    (insertion attempt1 : Bool) :
    Within rel (conflictHandler cb c raw insertion attempt1 : Apply E τ Bool) := by
  have frame := admits.frame
  have resolved (replace : Bool) : Within rel (Apply.resolve c raw replace : Apply E τ PUnit) :=
    Within.modify fun w => admits.resolve w replace
  refine frame.bind (within_verdict cb admits insertion attempt1) fun outcome => ?_
  split
  · exact frame.pure _
  · split
    · split
      · exact frame.bind (resolved true) fun _ => frame.pure _
      · exact frame.throw _
    · split
      · exact frame.bind (resolved false) fun _ => frame.pure _
      · split
        · exact frame.throw _
        · exact frame.throw _

/-- A row change, then the rows that it wrote or its conflict. -/
theorem within_changed (cb : Callbacks τ) (admits : Admits rel c raw) {sql : Name}
    (row : ApplyCtx.RowStatement sql) (params : List Value) (rows : List Written) (attempt1 : Bool) :
    Within rel (do
      Apply.execute sql params
      let w ← get
      if 0 < E.changes w.db then
        record rows
        pure ⟨false, false⟩
      else
        let retry ← conflictHandler cb c raw false attempt1
        pure ⟨false, retry⟩ : Apply E τ Again) := by
  have frame := admits.frame
  refine frame.bind (within_execute admits row params) fun _ => Within.get fun w => ?_
  split
  · exact frame.bind (within_record admits rows) fun _ => frame.pure _
  · exact frame.bind (within_conflictHandler cb admits false attempt1) fun _ => frame.pure _

theorem within_applyOneOp (cb : Callbacks τ) (admits : Admits rel c raw) (attempt1 : Bool) :
    Within rel (applyOneOp cb c raw attempt1 : Apply E τ Again) := by
  have frame := admits.frame
  unfold applyOneOp
  split
  · refine frame.bind ?_ fun params => within_changed cb admits (.delete c) params _ attempt1
    unfold deleteParams
    split
    · split
      · exact frame.pure _
      · exact frame.throw _
    · exact frame.pure _
  · exact within_changed cb admits (.update c raw _) _ _ attempt1
  · unfold applyInsert
    split
    · exact frame.throw _
    · refine frame.bind (within_execute admits (.insert c) _).attempt fun outcome => ?_
      split
      · exact frame.bind (within_record admits _) fun _ => frame.pure _
      · exact frame.bind (within_conflictHandler cb admits true attempt1) fun _ => frame.pure _
      · exact frame.throw _

theorem within_replaceRow (cb : Callbacks τ) (admits : Admits rel c raw) :
    Within rel (replaceRow cb c raw : Apply E τ Unit) := by
  have frame := admits.frame
  have removed : Within rel (removeRow c raw : Apply E τ Unit) := by
    refine frame.bind (within_execute admits (.delete c) _) fun _ => Within.get fun w => ?_
    split
    · exact within_record admits _
    · exact frame.pure _
  exact frame.bind removed fun _ =>
    frame.bind (within_applyOneOp cb admits false) fun _ => frame.pure _

theorem within_control (step : ∀ (w : World E τ) statement,
    rel w { w with db := (E.control statement w.db).2 }) (statement : Control) :
    Within rel (control statement : Apply E τ Unit) :=
  within_onDb fun w => step w statement

theorem within_ignore (frame : Frame rel) {m : Apply E τ Unit} (steps : Within rel m) :
    Within rel (ignore m) :=
  frame.bind steps.attempt fun _ => frame.pure _

theorem within_applyOneWithRetry (cb : Callbacks τ) (admits : Admits rel c raw)
    (step : ∀ (w : World E τ) statement, rel w { w with db := (E.control statement w.db).2 }) :
    Within rel (applyOneWithRetry cb c raw : Apply E τ Unit) := by
  have frame := admits.frame
  refine frame.bind (within_applyOneOp cb admits true) fun again => ?_
  split
  · exact frame.bind (within_applyOneOp cb admits false) fun _ => frame.pure _
  · split
    · refine frame.bind (within_control step _) fun _ =>
        frame.bind (within_replaceRow cb admits).attempt fun outcome => ?_
      split
      · exact within_control step _
      · exact frame.bind (within_ignore frame (within_control step _)) fun _ =>
          frame.bind (within_ignore frame (within_control step _)) fun _ => frame.throw _
    · exact frame.pure _

end Within

end Apply

end RustSql.Session
