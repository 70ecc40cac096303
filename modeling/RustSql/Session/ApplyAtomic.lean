import RustSql.Session.ApplyRun

/-! All or nothing: what an application leaves of the tables, the savepoints and the setting of the
foreign keys. -/

namespace RustSql.Session

open RustSql.Foundation RustSql.Types

namespace Apply

/-- What a transaction is about: the tables, the savepoints with the tables as they were, is a
transaction begun outside of them, and the setting. -/
structure View (C : Type) where
  contents : C
  savepoints : List (Name × C)
  begun : Bool
  foreignKeys : Bool
deriving DecidableEq

namespace View

variable {C : Type}

/-- The setting cannot be changed inside a transaction. -/
def setKeys (on : Bool) (v : View C) : View C :=
  if v.begun ∨ v.savepoints ≠ [] then v else { v with foreignKeys := on }

def push (name : Name) (v : View C) : View C :=
  { v with savepoints := (name, v.contents) :: v.savepoints }

/-- The innermost savepoint of a name, and those around it. -/
def innermost (name : Name) (v : View C) : List (Name × C) :=
  v.savepoints.dropWhile fun savepoint => savepoint.1 != name

/-- A control statement; none when there is no savepoint of its name. -/
def control : Control → View C → Option (View C)
  | .foreignKeys on, v => some (v.setKeys on)
  | .savepoint name, v => some (v.push name)
  | .rollbackTo name, v =>
    match v.innermost name with
    | [] => none
    | savepoint :: rest => some { v with contents := savepoint.2, savepoints := savepoint :: rest }
  | .release name, v =>
    match v.innermost name with
    | [] => none
    | _ :: rest => some { v with savepoints := rest }

theorem control_rollbackTo (name : Name) (v : View C) (contents : C) :
    control (.rollbackTo name) { v.push name with contents } = some (v.push name) := by
  simp [control, innermost, push]

theorem control_release (name : Name) (v : View C) (contents : C) :
    control (.release name) { v.push name with contents } = some { v with contents } := by
  simp [control, innermost, push]

/-- The setting is as it was when it is turned on again under the same conditions. -/
theorem setKeys_restores (v : View C) (on : v.foreignKeys = true) (contents : C) :
    setKeys true { v.setKeys false with contents } = { v with contents } := by
  obtain ⟨old, savepoints, begun, foreignKeys⟩ := v
  cases on
  by_cases inside : begun = true ∨ savepoints ≠ []
  · simp [setKeys, inside]
  · simp [setKeys, inside]

end View

/-- An engine with exact savepoints: the control statements do what they say, and a statement that
changes rows changes the tables only. -/
structure Exact (E : Engine) (C : Type) where
  view : E.Db → View C
  keys : ∀ db, E.foreignKeysEnabled db = (view db).foreignKeys
  control : ∀ statement db v, View.control statement (view db) = some v →
    ∃ db', E.control statement db = (.ok (), db') ∧ view db' = v
  rows : ∀ sql params db, ApplyCtx.RowStatement sql →
    ∃ contents, view (E.execute sql params db).2 = { view db with contents }

variable {E : Engine} {C τ : Type}

/-- Only the tables changed. -/
def Kept (exact : Exact E C) (w w' : World E τ) : Prop :=
  ∃ contents, exact.view w'.db = { exact.view w.db with contents }

theorem kept_of_db {exact : Exact E C} {w w' : World E τ} (same : w'.db = w.db) :
    Kept exact w w' := ⟨_, congrArg exact.view same⟩

theorem frame_kept (exact : Exact E C) :
    Effect.Frame (Kept exact : World E τ → World E τ → Prop) where
  refl _ := kept_of_db rfl
  trans := by
    rintro w w₁ w₂ ⟨first, middle⟩ ⟨second, last⟩
    exact ⟨second, by rw [last, middle]⟩

theorem admits_kept (exact : Exact E C) (c : ApplyCtx) (raw : RawChange) :
    Admits (Kept exact : World E τ → World E τ → Prop) c raw where
  frame := frame_kept exact
  execute w sql params row := exact.rows sql params w.db row
  calls _ _ := kept_of_db rfl
  written _ _ := kept_of_db rfl
  buffer _ _ _ := kept_of_db rfl
  resolve _ _ := kept_of_db rfl

/-- A control statement that is possible is carried out. -/
theorem control_ok (exact : Exact E C) {statement : Control} {w : World E τ} {v : View C}
    (possible : View.control statement (exact.view w.db) = some v) :
    ∃ w', control statement w = .ok () w' ∧ ignore (control statement) w = .ok () w' ∧
      exact.view w'.db = v := by
  obtain ⟨db', done, same⟩ := exact.control statement w.db v possible
  have carried : control statement w = .ok () { w with db := db' } := by
    simp only [control, onDb, Effect.call, done]
    rfl
  refine ⟨{ w with db := db' }, carried, ?_, same⟩
  rw [ignore, Effect.bind_eq, Effect.attempt, carried]
  rfl

/-- A savepoint that is released keeps what was done since. -/
theorem released (exact : Exact E C) {name : Name} {v : View C} {contents : C} {w : World E τ}
    (pushed : exact.view w.db = { v.push name with contents }) :
    ∃ w', control (.release name) w = .ok () w' ∧ exact.view w'.db = { v with contents } := by
  obtain ⟨w', done, _, same⟩ := @control_ok E C τ exact (.release name) w { v with contents }
    (by rw [pushed, View.control_release])
  exact ⟨w', done, same⟩

/-- A savepoint that is taken back and released leaves nothing of what was done since. -/
theorem takenBack (exact : Exact E C) {name : Name} {v : View C} {contents : C} {w : World E τ}
    (pushed : exact.view w.db = { v.push name with contents }) :
    ∃ w₁ w₂, ignore (control (.rollbackTo name)) w = .ok () w₁ ∧
      ignore (control (.release name)) w₁ = .ok () w₂ ∧ exact.view w₂.db = v := by
  obtain ⟨w₁, _, back, same₁⟩ := @control_ok E C τ exact (.rollbackTo name) w (v.push name)
    (by rw [pushed, View.control_rollbackTo])
  obtain ⟨w₂, _, gone, same₂⟩ := @control_ok E C τ exact (.release name) w₁ v
    (by rw [same₁]; exact View.control_release name v v.contents)
  exact ⟨w₁, w₂, back, gone, same₂⟩

/-- A savepoint around a change of the tables is gone behind it. -/
theorem applyOneWithRetry_kept (exact : Exact E C) (cb : Callbacks τ) (c : ApplyCtx)
    (raw : RawChange) : Effect.Within (Kept exact) (applyOneWithRetry cb c raw : Apply E τ Unit) := by
  have frame := @frame_kept E C τ exact
  have admits := @admits_kept E C τ exact c raw
  refine frame.bind (within_applyOneOp cb admits true) fun again => ?_
  split
  · exact frame.bind (within_applyOneOp cb admits false) fun _ => frame.pure _
  · split
    · intro w
      obtain ⟨w₁, saved, _, pushed⟩ := @control_ok E C τ exact (.savepoint replaceOp) w _ rfl
      obtain ⟨contents, replaced⟩ := within_replaceRow cb admits w₁
      rw [pushed] at replaced
      rw [Effect.bind_eq, saved]
      dsimp only
      rw [Effect.bind_eq, Effect.attempt]
      cases done : replaceRow cb c raw w₁ with
      | ok _ w₂ =>
        rw [done] at replaced
        obtain ⟨w₃, gone, same⟩ := @released E C τ exact _ _ _ w₂ replaced
        dsimp only
        rw [gone]
        exact ⟨contents, same⟩
      | error fault w₂ =>
        rw [done] at replaced
        obtain ⟨w₃, w₄, back, gone, same⟩ := @takenBack E C τ exact _ _ _ w₂ replaced
        dsimp only
        rw [Effect.bind_eq, back]
        dsimp only
        rw [Effect.bind_eq, gone]
        exact ⟨_, same⟩
    · exact frame.pure _

theorem applies_kept (exact : Exact E C) (cb : Callbacks τ) :
    Applies cb (Kept exact : World E τ → World E τ → Prop) where
  frame := frame_kept exact
  change c raw _ := applyOneWithRetry_kept exact cb c raw
  pending _ _ _ := kept_of_db rfl
  calls _ _ := kept_of_db rfl

/-- The loop gets to a place where the iterator reports an error. -/
inductive MeetsCorruption (cb : Callbacks τ) :
    ChangesetIter → Option ApplyCtx → World E τ → Prop
  | here {it : ChangesetIter} {ctx : Option ApplyCtx} {w : World E τ} {message : String} :
    it.next = .error (.reported message) → MeetsCorruption cb it ctx w
  | behind {it it' : ChangesetIter} {ctx : Option ApplyCtx} {w w' : World E τ} {change : Change}
      {c : ApplyCtx} :
    it.next = .ok (some change, it') → applyChange cb ctx change w = .ok c w' →
      MeetsCorruption cb it' (some c) w' → MeetsCorruption cb it ctx w

theorem applyLoop_corrupt {cb : Callbacks τ} {it : ChangesetIter} {ctx : Option ApplyCtx}
    {w : World E τ} (meets : MeetsCorruption cb it ctx w) :
    ∃ error w', applyLoop cb it ctx w = .error (.reported error) w' := by
  induction meets with
  | here read =>
    rw [applyLoop_error read]
    exact ⟨_, _, rfl⟩
  | behind read applied _ ih =>
    obtain ⟨error, w', stopped⟩ := ih
    refine ⟨error, w', ?_⟩
    rw [applyLoop_some read, Effect.bind_eq, Effect.attempt, applied]
    exact stopped

theorem meets_of_applyLoop {cb : Callbacks τ} {it : ChangesetIter} {ctx : Option ApplyCtx}
    {w w' : World E τ} {error : ApplyError}
    (stopped : applyLoop cb it ctx w = .error (.reported error) w') : MeetsCorruption cb it ctx w := by
  match read : it.next with
  | .error fault =>
    rw [applyLoop_error read] at stopped
    cases fault with
    | reported message => exact .here read
    | overflow | slice | assertion => cases stopped
  | .ok (none, it') =>
    rw [applyLoop_none read] at stopped
    cases stopped
  | .ok (some change, it') =>
    rw [applyLoop_some read, Effect.bind_eq, Effect.attempt] at stopped
    cases applied : applyChange cb ctx change w with
    | error fault w₁ =>
      rw [applied] at stopped
      cases stopped
    | ok c w₁ =>
      rw [applied] at stopped
      exact .behind read applied (meets_of_applyLoop stopped)
termination_by it.data.length - it.pos
decreasing_by
  obtain ⟨data, inside, later⟩ := ChangesetIter.next_pos read
  rw [data]
  omega

/-- The iterator, by itself, gets there too. -/
theorem foldChanges_meets {cb : Callbacks τ} {it : ChangesetIter} {ctx : Option ApplyCtx}
    {w : World E τ} (meets : MeetsCorruption cb it ctx w) (seen : List Change) :
    ∃ message, it.foldChanges (fun seen change => .ok (seen ++ [change])) seen =
      .error (.reported message) := by
  induction meets generalizing seen with
  | here read => exact ⟨_, ChangesetIter.foldChanges_error read seen⟩
  | behind read _ _ ih =>
    rw [ChangesetIter.foldChanges_some read, Checked.ok_bind]
    exact ih _

/-- An application gets to a corrupt place of its changeset. -/
def GetsToCorruption (cb : Callbacks τ) (cs : List UInt8) (flags : ApplyFlags) (w : World E τ) :
    Prop :=
  ∃ w₁, enter flags (E.foreignKeysEnabled w.db) w = .ok () w₁ ∧
    MeetsCorruption cb (.start cs flags.invert) none w₁

/-- A changeset that the iterator reads to its end has no corrupt place. -/
theorem not_getsToCorruption {cb : Callbacks τ} {cs : List UInt8} {flags : ApplyFlags}
    {w : World E τ} {changes : List Change}
    (read : (ChangesetIter.start cs flags.invert).all = .ok changes) :
    ¬ GetsToCorruption cb cs flags w := by
  rintro ⟨_, _, meets⟩
  obtain ⟨message, stopped⟩ := foldChanges_meets meets []
  rw [ChangesetIter.all, stopped] at read
  cases read

/-- What is left of a call that returns: after an error nothing, else a change of the tables. -/
def AllOrNothing {α : Type} (exact : Exact E C) (w : World E τ) :
    EStateM.Result (Fault ApplyError) (World E τ) α → Prop
  | .ok _ w' => Kept exact w w'
  | .error (.reported _) w' => exact.view w'.db = exact.view w.db
  | .error .overflow _ => True
  | .error .slice _ => True
  | .error .assertion _ => True

/-- What is in force while the changes are applied. -/
def suspended {C : Type} (v : View C) : View C := if v.foreignKeys then v.setKeys false else v

theorem suspended_savepoints {C : Type} (v : View C) : (suspended v).savepoints = v.savepoints := by
  unfold suspended View.setKeys
  split
  · split <;> rfl
  · rfl

theorem suspended_contents {C : Type} (v : View C) : (suspended v).contents = v.contents := by
  unfold suspended View.setKeys
  split
  · split <;> rfl
  · rfl

theorem enter_ok (exact : Exact E C) {flags : ApplyFlags} (saves : flags.noSavepoint = false)
    (w : World E τ) : ∃ w₁, enter flags (E.foreignKeysEnabled w.db) w = .ok () w₁ ∧
      exact.view w₁.db = (suspended (exact.view w.db)).push changesetApply := by
  have keys : ∃ w₀, suspendKeys (E.foreignKeysEnabled w.db)
      { w with st := startState flags (E.foreignKeysEnabled w.db), resolved := [] } = .ok () w₀ ∧
      exact.view w₀.db = suspended (exact.view w.db) := by
    rw [suspendKeys, suspended, ← exact.keys]
    split
    · obtain ⟨w₀, done, _, same⟩ := @control_ok E C τ exact (.foreignKeys false)
        { w with st := startState flags (E.foreignKeysEnabled w.db), resolved := [] } _ rfl
      exact ⟨w₀, done, same⟩
    · exact ⟨_, rfl, rfl⟩
  obtain ⟨w₀, off, same₀⟩ := keys
  obtain ⟨w₁, saved, _, same₁⟩ := @control_ok E C τ exact (.savepoint changesetApply) w₀ _ rfl
  refine ⟨w₁, ?_, by rw [same₁, same₀]⟩
  rw [enter, Effect.bind_eq]
  change (suspendKeys _ >>= _) _ = _
  rw [Effect.bind_eq, off, saves]
  exact saved

/-- With the savepoint gone, the setting is as it was. -/
theorem restoreKeys_ok (exact : Exact E C) {v : View C} {contents : C} {w : World E τ}
    (left : exact.view w.db = { suspended v with contents }) :
    ∃ w', restoreKeys v.foreignKeys w = .ok () w' ∧ exact.view w'.db = { v with contents } := by
  rw [restoreKeys]
  rw [suspended] at left
  split at left
  next on =>
    obtain ⟨w', _, done, same⟩ := @control_ok E C τ exact (.foreignKeys true) w { v with contents }
      (by rw [left, View.control, View.setKeys_restores v on contents])
    rw [if_pos on]
    exact ⟨w', done, same⟩
  next off =>
    rw [if_neg off]
    exact ⟨w, rfl, left⟩

/-- The clean-up leaves all or nothing of the changes. -/
theorem leave_ok (exact : Exact E C) {flags : ApplyFlags} (saves : flags.noSavepoint = false)
    {v : View C} {contents : C} {w : World E τ} (rc : Except (Fault ApplyError) Unit)
    (applied : exact.view w.db = { v.push changesetApply with contents }) :
    ∃ w', leave flags rc w = .ok () w' ∧ exact.view w'.db =
      { v with contents := if rc.isOk then contents else v.contents } := by
  match rc with
  | .ok () =>
    obtain ⟨w', done, same⟩ := released exact applied
    refine ⟨w', ?_, same⟩
    rw [leave, saves]
    exact done
  | .error fault =>
    obtain ⟨w₁, w₂, back, gone, same⟩ := takenBack exact applied
    refine ⟨w₂, ?_, same⟩
    rw [leave, saves]
    change (ignore (control (.rollbackTo changesetApply)) >>= _) w = _
    rw [Effect.bind_eq, back]
    exact gone

theorem applyAll_error {cb : Callbacks τ} {cs : List UInt8} {flags : ApplyFlags} {fkWasOn : Bool}
    {w w' : World E τ} {fault : Fault ApplyError}
    (stopped : applyAll cb cs flags fkWasOn w = .error fault w') :
    applyLoop cb (.start cs flags.invert) none w = .error fault w' := by
  rw [applyAll, Effect.bind_eq] at stopped
  cases loop : applyLoop cb (.start cs flags.invert) none w with
  | error fault' w₁ =>
    rw [loop] at stopped
    cases stopped
    rfl
  | ok outcome w₁ =>
    rw [loop] at stopped
    match outcome with
    | .error fault' => cases stopped
    | .ok ctx =>
      dsimp only [Effect.attempt] at stopped
      cases finished : finish cb flags fkWasOn ctx w₁ with
      | ok _ _ =>
        rw [finished] at stopped
        cases stopped
      | error _ _ =>
        rw [finished] at stopped
        cases stopped

/-- An application is all or nothing exactly when it does not get to a corrupt place. -/
theorem all_or_nothing {E : Engine} {C τ : Type} (exact : Exact E C) (cb : Callbacks τ)
    (cs : List UInt8) (flags : ApplyFlags) (saves : flags.noSavepoint = false) (w : World E τ) :
    AllOrNothing exact w (apply cb cs flags w) ↔ ¬ GetsToCorruption cb cs flags w := by
  obtain ⟨w₁, entered, same₁⟩ := enter_ok exact saves w
  obtain ⟨contents, same₂⟩ :=
    within_applyAll (applies_kept exact cb) cs flags (E.foreignKeysEnabled w.db) w₁
  have corrupt : GetsToCorruption cb cs flags w ↔
      MeetsCorruption cb (.start cs flags.invert) none w₁ := by
    constructor
    · rintro ⟨w₁', entered', meets⟩
      rw [entered] at entered'
      cases entered'
      exact meets
    · exact fun meets => ⟨w₁, entered, meets⟩
  have opened : apply cb cs flags w =
      applyEntered cb cs flags (E.foreignKeysEnabled w.db) w₁ := by
    refine (Effect.bind_eq (enter flags (E.foreignKeysEnabled w.db)) _ w).trans ?_
    simp only [entered]
  rw [corrupt, opened, applyEntered, Effect.bind_eq]
  cases done : applyAll cb cs flags (E.foreignKeysEnabled w.db) w₁ with
  | error fault w₂ =>
    rw [done] at same₂
    have loop := applyAll_error done
    cases fault with
    | reported error =>
      refine iff_of_false (fun same => ?_) (fun none => none (meets_of_applyLoop loop))
      have savepoints := congrArg (fun v => v.savepoints.length) (same₂.symm.trans same)
      rw [same₁] at savepoints
      simp [View.push, suspended_savepoints] at savepoints
    | overflow | slice | assertion =>
      refine iff_of_true trivial fun meets => ?_
      obtain ⟨error, w', stopped⟩ := applyLoop_corrupt meets
      rw [loop] at stopped
      cases stopped
  | ok rc w₂ =>
    rw [done, same₁] at same₂
    obtain ⟨w₃, left, same₃⟩ := @leave_ok E C τ exact flags saves _ _ w₂ rc same₂
    rw [suspended_contents] at same₃
    obtain ⟨w₄, restored, same₄⟩ := restoreKeys_ok exact same₃
    dsimp only
    rw [Effect.bind_eq, left]
    dsimp only
    rw [Effect.bind_eq, exact.keys, restored]
    dsimp only
    have passed : ¬ MeetsCorruption cb (.start cs flags.invert) none w₁ := by
      intro meets
      obtain ⟨error, w', stopped⟩ := applyLoop_corrupt meets
      rw [applyAll, Effect.bind_eq, stopped] at done
      cases done
    match rc with
    | .error (.reported error) => exact iff_of_true same₄ passed
    | .error .overflow | .error .slice | .error .assertion => exact iff_of_true trivial passed
    | .ok () => exact iff_of_true ⟨_, same₄⟩ passed

def keyColumn : Column := ⟨ascii "k", true, 1, ⟨.null, trivial⟩, nofun⟩

/-- A database of one table, with one column, that is its key. -/
def keyTable : Engine where
  Db := View (List Value) × Nat
  foreignKeysEnabled db := db.1.foreignKeys
  control statement db :=
    match View.control statement db.1 with
    | some v => (.ok (), (v, db.2))
    | none => (.error (.other (ascii "no such savepoint")), db)
  execute sql params db :=
    let rows := db.1.contents
    let key := params.headD .null
    if sql.take 6 = ascii "INSERT" then
      if key ∈ rows then (.error (.constraint (ascii "UNIQUE constraint failed: t.k")), db)
      else (.ok (), ({ db.1 with contents := rows ++ [key] }, 1))
    else (.ok (), ({ db.1 with contents := rows.erase key }, rows.count key))
  changes db := db.2
  query _ params db := .ok (if params.headD .null ∈ db.1.contents then [params] else [])
  getTable name _ :=
    if name = ascii "t" then some ⟨name, [keyColumn], false⟩
    else none
  countFkViolations _ _ := .ok 0

def keyTable_exact : Exact keyTable (List Value) where
  view := Prod.fst
  keys _ := rfl
  control statement db v possible := by
    refine ⟨(v, db.2), ?_, rfl⟩
    simp only [keyTable, possible]
  rows sql params db _ := by
    simp only [keyTable]
    split
    · split
      · exact ⟨db.1.contents, rfl⟩
      · exact ⟨_, rfl⟩
    · exact ⟨_, rfl⟩

/-- Every conflict aborts. -/
def aborting : Callbacks Unit := ⟨none, fun _ calls => (changesetAbort, calls)⟩

def guarded : ApplyFlags := ⟨false, false, false, false, false⟩

/-- No rows, no transaction, foreign keys on. -/
def fresh : World keyTable Unit := ⟨(⟨[], [], false, true⟩, 0), (), startState guarded false, []⟩

def insertOne : List UInt8 := [0x54, 1, 1, 0x74, 0, 18, 0, 1, 0, 0, 0, 0, 0, 0, 0, 1]

theorem all_or_nothing_insert :
    AllOrNothing keyTable_exact fresh (apply aborting insertOne guarded fresh) := by
  have read : (match (ChangesetIter.start insertOne false).all with
      | .ok _ => true
      | .error _ => false) = true := by decide +kernel
  split at read
  next changes all =>
    exact (all_or_nothing keyTable_exact aborting insertOne guarded rfl fresh).mpr
      (not_getsToCorruption all)
  next => cases read

/-- Behind a change that is applied, a byte that is none leaves the row, the savepoint, and the
foreign keys off. -/
theorem corrupt_tail_left : ∃ w',
    apply aborting (insertOne ++ [0]) guarded fresh =
      .error (.reported (.corrupt corruptChangeset)) w' ∧
    keyTable_exact.view w'.db =
      ⟨[.integer 1], [(changesetApply, [])], false, false⟩ ∧
    ¬ AllOrNothing keyTable_exact fresh (apply aborting (insertOne ++ [0]) guarded fresh) := by
  have runs : (match apply aborting (insertOne ++ [0]) guarded fresh with
      | .error (.reported error) w' => decide (error = .corrupt corruptChangeset ∧
          keyTable_exact.view w'.db = ⟨[.integer 1], [(changesetApply, [])], false, false⟩)
      | .error .overflow _ | .error .slice _ | .error .assertion _ | .ok _ _ => false) = true := by
    decide +kernel
  split at runs
  next error w' stopped =>
    obtain ⟨rfl, view⟩ := of_decide_eq_true runs
    refine ⟨w', stopped, view, ?_⟩
    rw [stopped]
    intro same
    have keys := congrArg View.foreignKeys (view.symm.trans same)
    cases keys
  all_goals cases runs

end Apply

end RustSql.Session
