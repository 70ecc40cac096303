import RustSql.Storage.ConcurrentSavepoint
import RustSql.Storage.SavepointRun

/-! Runs of a concurrent transaction with savepoints: when every page is recorded before it
changes, rolling back brings the marked state back. -/

namespace RustSql.Storage.Concurrent

open RustSql.Foundation

/-- What happens while a concurrent transaction is open. The last two calls are those of
sibling connections, which take pages and publish commits. -/
inductive TxnCall (size : Nat) where
  | fetch (id : Nat) (stale : Option String) (refused : Bool)
  | mutate (id : Nat) (change : Bytes size → Bytes size) (stale : Option String) (refused : Bool)
  | allocate
  | free (id : Nat)
  | rowWrite (op : JournalOp) (ok : Bool)
  | rootSplit (oldRoot newRoot : Nat)
  | savepoint (name : String)
  | release (name : String)
  | rollback (name : String)
  | siblingAllocate
  | siblingCommit (committed : Nat → Option (Bytes size)) (stampOf : Nat → Nat)

/-- A transaction with its savepoints as they were opened. -/
structure TxnClient (size : Nat) where
  writer : Writer size
  marks : List (TxnMark size)

/-- `begin_concurrent`: siblings may hold pages past the committed count already. -/
def Writer.begin (committed : Nat → Option (Bytes size)) (stampOf : Nat → Nat)
    (beginEpoch beginNPages taken : Nat) : Writer size where
  txn := ConcurrentTxn.new beginEpoch beginNPages
  committed := committed
  stampOf := stampOf
  nPages := beginNPages + taken
  committedNPages := beginNPages

namespace TxnCall

def run : TxnCall size → WriterM size Unit
  | .fetch id stale refused => do
      let _ ← Writer.writerShadowFetch id stale refused
      return ()
  | .mutate id change stale refused => Writer.mutate id change stale refused
  | .allocate => modify Writer.writerShadowAlloc
  | .free id => Writer.writerShadowFree id
  | .rowWrite op ok => modify (Writer.noteRowWrite op ok)
  | .rootSplit oldRoot newRoot => modify (Writer.noteRootSplit oldRoot newRoot)
  | .savepoint name => modify (Writer.savepointConcurrent name)
  | .release name => modify fun writer => (writer.releaseConcurrentSavepoint name).2
  | .rollback name => modify fun writer => (writer.rollbackConcurrentSavepoint name).2
  | .siblingAllocate => modify fun writer => { writer with nPages := (writer.nPages + 1) % 2 ^ 32 }
  | .siblingCommit committed stampOf => modify fun writer =>
    { writer with
      committed := committed
      stampOf := stampOf
      committedNPages := writer.nPages }

/-- The stack of marks after a call: SQL's rule for named savepoints. -/
def marks (client : TxnClient size) : TxnCall size → List (TxnMark size)
  | .savepoint name => client.marks ++ [⟨name.toLower, client.writer.state⟩]
  | .release name =>
    match Pager.savepointIndex (client.marks.map TxnMark.name) name with
    | some index => client.marks.take index
    | none => client.marks
  | .rollback name =>
    match Pager.savepointIndex (client.marks.map TxnMark.name) name with
    | some index => client.marks.take (index + 1)
    | none => client.marks
  | _ => client.marks

/-- One call, whether it returns or fails. -/
def Step (before : TxnClient size) (call : TxnCall size) (_ : Unit) (after : TxnClient size) :
    Prop :=
  Meets call.run before.writer (fun _ writer => after.writer = writer)
      (fun writer => after.writer = writer) ∧
    after.marks = call.marks before

/-- No sibling commits while a savepoint is open. -/
def Quiet (client : TxnClient size) : TxnCall size → Prop
  | .siblingCommit _ _ => client.writer.txn.savepoints = []
  | _ => True

/-- Every open savepoint can learn the page's bytes before the call changes the page. -/
def Recorded (client : TxnClient size) : TxnCall size → Prop
  | .mutate id _ _ _ => Coverable client.writer.txn id
  | .free id => Droppable client.writer id
  | _ => True

/-- The page count does not wrap. -/
def HasRoom (client : TxnClient size) : TxnCall size → Prop
  | .allocate => client.writer.nPages + 1 < 2 ^ 32
  | .siblingAllocate => client.writer.nPages + 1 < 2 ^ 32
  | _ => True

def Guarded (client : TxnClient size) (call : TxnCall size) : Prop :=
  Quiet client call ∧ Recorded client call ∧ HasRoom client call

end TxnCall

open TxnCall

theorem begin_tracked (committed : Nat → Option (Bytes size)) (stampOf : Nat → Nat)
    (beginEpoch beginNPages taken : Nat) :
    Tracked (Writer.begin committed stampOf beginEpoch beginNPages taken) [] := by
  refine ⟨⟨List.Pairwise.nil, ?_, ?_, ?_, Nat.le_add_right _ _, Nat.le_add_right _ _, rfl⟩,
    [], rfl, rfl, ?_, List.Pairwise.nil⟩
  · intro id member
    cases member
  · intro id held
    cases held
  · intro level member
    cases member
  · intro pair member
    cases member

variable {marks : List (TxnMark size)}

variable {writer : Writer size}

theorem Tracked.names (tracked : Tracked writer marks) :
    writer.txn.savepoints.map ConcurrentSavepoint.name = marks.map TxnMark.name := by
  obtain ⟨pairs, rfl, stack⟩ := tracked.stack
  rw [stack.levels, List.map_map, List.map_map]
  refine List.map_congr_left fun pair member => ?_
  exact (stack.tracks pair member).marks.name

variable {client : TxnClient size}

theorem releaseConcurrentSavepoint_tracked (name : String)
    (tracked : Tracked client.writer client.marks) :
    Tracked (client.writer.releaseConcurrentSavepoint name).2
      (TxnCall.marks client (.release name)) := by
  simp only [Writer.releaseConcurrentSavepoint, TxnCall.marks, tracked.names]
  cases Pager.savepointIndex (client.marks.map TxnMark.name) name with
  | none => exact tracked
  | some index => exact tracked.take index

/-- ROLLBACK TO finds the level of the newest savepoint of the name and brings its state
back. -/
theorem rollbackConcurrentSavepoint_restores (tracked : Tracked writer marks) {name : String}
    {index : Nat} (found : Pager.savepointIndex (marks.map TxnMark.name) name = some index) :
    ∃ mark after, marks[index]? = some mark ∧ mark.name = name.toLower ∧
      writer.rollbackConcurrentSavepoint name = (some (index + 1), after) ∧
      after.state = mark.state ∧ Tracked after (marks.take (index + 1)) := by
  have names := tracked.names
  obtain ⟨pairs, rfl, stack⟩ := tracked.stack
  have inside : index < pairs.length := by
    have marked := Pager.savepointIndex_some found
    simpa using (List.getElem?_eq_some_iff.mp marked).1
  have level : writer.txn.savepoints[index]? = some pairs[index].1 := by
    rw [stack.levels, List.getElem?_map, List.getElem?_eq_getElem inside, Option.map_some]
  have split : pairs = pairs.take index ++ (pairs[index].1, pairs[index].2) ::
      pairs.drop (index + 1) := by
    rw [Prod.mk.eta, List.getElem_cons_drop, List.take_append_drop]
  obtain ⟨state, kept⟩ := rollbackTo_tracked tracked.numbered (split ▸ stack)
  refine ⟨pairs[index].2, writer.rollbackTo ((pairs.take index).map Prod.fst) pairs[index].1,
    ?_, ?_, ?_, state, ?_⟩
  · rw [List.getElem?_map, List.getElem?_eq_getElem inside, Option.map_some]
  · have marked := Pager.savepointIndex_some found
    simpa [inside] using marked
  · unfold Writer.rollbackConcurrentSavepoint
    simp only [names, found, level]
    rw [stack.levels, List.map_take]
  · rw [List.take_add_one, List.getElem?_map, List.getElem?_eq_getElem inside, ← List.map_take]
    exact kept

/-- What siblings do leaves a transaction that has no savepoint to keep. -/
theorem siblingCommit_tracked (tracked : Tracked writer marks) (closed : writer.txn.savepoints = [])
    (committed : Nat → Option (Bytes size)) (stampOf : Nat → Nat) :
    Tracked { writer with
      committed := committed
      stampOf := stampOf
      committedNPages := writer.nPages } marks := by
  obtain ⟨pairs, rfl, stack⟩ := tracked.stack
  have empty : pairs = [] := List.map_eq_nil_iff.mp (stack.levels.symm.trans closed)
  subst empty
  refine ⟨{ tracked.numbered with committed := Nat.le_refl _ }, [], rfl, closed, ?_,
    List.Pairwise.nil⟩
  intro pair member
  cases member

theorem siblingAllocate_tracked (tracked : Tracked writer marks) (room : writer.nPages + 1 < 2 ^ 32) :
    Tracked { writer with nPages := (writer.nPages + 1) % 2 ^ 32 } marks := by
  rw [Nat.mod_eq_of_lt room]
  have numbered := tracked.numbered
  have numbered : Numbered { writer with nPages := writer.nPages + 1 } := by
    refine ⟨numbered.ascending, ?_, ?_, ?_, Nat.le_succ_of_le numbered.begun,
      Nat.le_succ_of_le numbered.committed, numbered.parallel⟩
    · intro id member
      have range := numbered.allocated id member
      exact ⟨range.1, Nat.lt_succ_of_lt range.2⟩
    · exact fun id held => Nat.lt_succ_of_lt (numbered.shadows id held)
    · exact fun level member id held => Nat.lt_succ_of_lt (numbered.undo level member id held)
  exact tracked.advance numbered rfl rfl rfl (Extends.refl _) (fun _ _ _ _ _ _ _ _ => rfl)
    (fun other since => absurd since.1 since.2)

/-- Every call keeps the undo invariant for the marks it leaves. -/
theorem call_tracked (call : TxnCall size) (tracked : Tracked client.writer client.marks)
    (guarded : Guarded client call) :
    Meets call.run client.writer (fun _ after => Tracked after (call.marks client))
      (fun after => Tracked after (call.marks client)) := by
  obtain ⟨quiet, recorded, room⟩ := guarded
  cases call with
  | fetch id stale refused =>
    simp only [TxnCall.run, Meets.bind_iff]
    exact (writerShadowFetch_tracked tracked id stale refused).mono (fun _ _ kept => kept.1)
      (fun _ kept => kept)
  | mutate id change stale refused =>
    exact mutate_tracked tracked id change stale refused recorded
  | allocate => exact writerShadowAlloc_tracked tracked room
  | free id => exact writerShadowFree_tracked tracked id recorded
  | rowWrite op ok => exact noteRowWrite_tracked tracked op ok
  | rootSplit oldRoot newRoot => exact noteRootSplit_tracked tracked oldRoot newRoot
  | savepoint name => exact savepointConcurrent_tracked tracked name
  | release name => exact releaseConcurrentSavepoint_tracked name tracked
  | rollback name =>
    simp only [TxnCall.run, Meets.modify_iff, TxnCall.marks]
    cases found : Pager.savepointIndex (client.marks.map TxnMark.name) name with
    | none =>
      simp only [Writer.rollbackConcurrentSavepoint, tracked.names, found]
      exact tracked
    | some index =>
      obtain ⟨mark, after, _, _, rolled, _, kept⟩ :=
        rollbackConcurrentSavepoint_restores tracked found
      rw [rolled]
      exact kept
  | siblingAllocate => exact siblingAllocate_tracked tracked room
  | siblingCommit committed stampOf => exact siblingCommit_tracked tracked quiet committed stampOf

/-- The undo invariant holds along every guarded run. -/
theorem run_tracked {start client : TxnClient size} {calls : List (TxnCall size)}
    (ready : Tracked start.writer start.marks) (run : Run Step Guarded start calls client) :
    Tracked client.writer client.marks := by
  refine run.invariant (fun client => Tracked client.writer client.marks) ?_ ready
  rintro before call _ after tracked guarded ⟨stepped, marks⟩
  have kept := call_tracked call tracked guarded
  rw [marks]
  unfold Meets at kept stepped
  cases ran : call.run before.writer with
  | ok value writer =>
    rw [ran] at kept stepped
    exact stepped ▸ kept
  | error error writer =>
    rw [ran] at kept stepped
    exact stepped ▸ kept

/-- ROLLBACK TO the newest savepoint of a name brings its state back, and again. -/
def RollsBack (writer : Writer size) (name : String) (depth : Nat) (state : TxnState size) :
    Prop :=
  ∃ after, writer.rollbackConcurrentSavepoint name = (some depth, after) ∧ after.state = state ∧
    ∃ again, after.rollbackConcurrentSavepoint name = (some depth, again) ∧ again.state = state

/-- In every run in which each page is recorded by the open savepoints before it changes,
ROLLBACK TO is exact. -/
theorem rollbackConcurrentSavepoint_exact {committed : Nat → Option (Bytes size)}
    {stampOf : Nat → Nat} {beginEpoch beginNPages taken : Nat} {client : TxnClient size}
    {calls : List (TxnCall size)}
    (run : Run Step Guarded ⟨Writer.begin committed stampOf beginEpoch beginNPages taken, []⟩
      calls client) {name : String} {index : Nat}
    (found : Pager.savepointIndex (client.marks.map TxnMark.name) name = some index) :
    ∃ mark, client.marks[index]? = some mark ∧ mark.name = name.toLower ∧
      RollsBack client.writer name (index + 1) mark.state := by
  have tracked := run_tracked (begin_tracked committed stampOf beginEpoch beginNPages taken) run
  obtain ⟨mark, after, marked, named, rolled, state, kept⟩ :=
    rollbackConcurrentSavepoint_restores tracked found
  refine ⟨mark, marked, named, after, rolled, state, ?_⟩
  have inside := (List.getElem?_eq_some_iff.mp marked).1
  have stack : client.marks.take (index + 1) = client.marks.take index ++ [mark] := by
    rw [List.take_add_one, marked]
    rfl
  rw [stack] at kept
  have length : ((client.marks.take index).map TxnMark.name).length = index := by
    simp
    omega
  have again : Pager.savepointIndex ((client.marks.take index ++ [mark]).map TxnMark.name) name =
      some index := by
    rw [List.map_append, List.map_singleton, named, Pager.savepointIndex_last, length]
  obtain ⟨top, final, marked', _, rolled', state', _⟩ :=
    rollbackConcurrentSavepoint_restores kept again
  have same : (client.marks.take index ++ [mark])[index]? = some mark := by
    rw [List.getElem?_append_right (by simp)]
    simp [Nat.min_eq_left (Nat.le_of_lt inside)]
  rw [same] at marked'
  cases marked'
  exact ⟨final, rolled', state'⟩

/-- The outcome of a call. -/
def TxnClient.next (client : TxnClient size) (call : TxnCall size) : TxnClient size where
  writer :=
    match call.run client.writer with
    | .ok _ writer => writer
    | .error _ writer => writer
  marks := call.marks client

theorem step_next (client : TxnClient size) (call : TxnCall size) :
    ∃ result, Step client call result (client.next call) := by
  refine ⟨(), ?_, rfl⟩
  unfold Meets TxnClient.next
  cases call.run client.writer <;> rfl

/-- A page that holds one byte throughout. -/
def filled (byte : UInt8) : Bytes 512 := Vector.replicate 512 byte

/-- A transaction over two committed pages of zeros. -/
def twoPages : TxnClient 512 where
  writer := Writer.begin (fun id => if id < 2 then some (filled 0) else none) (fun _ => 0) 0 2 0
  marks := []

/-- Writes around two savepoints of one name, and a page freed after a look at it. -/
def nestedCalls : List (TxnCall 512) :=
  [.mutate 1 (fun _ => filled 1) none false, .savepoint "s", .allocate,
    .mutate 1 (fun _ => filled 2) none false, .savepoint "s", .fetch 1 none false, .free 1]

instance (txn : ConcurrentTxn size) (id : Nat) : Decidable (Coverable txn id) :=
  inferInstanceAs (Decidable (∀ level ∈ txn.savepoints,
    txn.existedAt level id = true ∨ id ∈ txn.allocated.drop level.allocatedMark))

theorem nestedCalls_guarded : Run.Along Guarded TxnClient.next twoPages nestedCalls := by
  have first : Coverable twoPages.writer.txn 1 := by decide
  have second : Coverable ((nestedCalls.take 3).foldl TxnClient.next twoPages).writer.txn 1 := by
    decide
  have recorded : ∀ level ∈ ((nestedCalls.take 6).foldl TxnClient.next
      twoPages).writer.txn.savepoints, (level.undo.lookup 1).isSome ∨ 1 ∈
        ((nestedCalls.take 6).foldl TxnClient.next twoPages).writer.txn.allocated.drop
          level.allocatedMark := by
    decide
  have room : ((nestedCalls.take 2).foldl TxnClient.next twoPages).writer.nPages + 1 < 2 ^ 32 := by
    decide
  exact ⟨⟨trivial, first, trivial⟩, ⟨trivial, trivial, trivial⟩, ⟨trivial, trivial, room⟩,
    ⟨trivial, second, trivial⟩, ⟨trivial, trivial, trivial⟩, ⟨trivial, trivial, trivial⟩,
    ⟨trivial, Or.inr recorded, trivial⟩, trivial⟩

/-- The client after a list of calls. -/
def TxnClient.after (client : TxnClient size) (calls : List (TxnCall size)) : TxnClient size :=
  calls.foldl TxnClient.next client

theorem nestedCalls_names :
    (twoPages.after nestedCalls).marks.map TxnMark.name = ["s".toLower, "s".toLower] := rfl

theorem rollbackConcurrentSavepoint_exact_nested :
    ∃ mark, (twoPages.after nestedCalls).marks[1]? = some mark ∧ mark.name = "s".toLower ∧
      RollsBack (twoPages.after nestedCalls).writer "s" 2 mark.state :=
  rollbackConcurrentSavepoint_exact (Run.of_along step_next nestedCalls_guarded)
    (nestedCalls_names ▸ Pager.savepointIndex_last ["s".toLower] "s")

/-- A page a sibling committed, read before the savepoint and changed after it. -/
def lateCalls : List (TxnCall 512) :=
  [.siblingAllocate, .siblingCommit (fun id => if id < 3 then some (filled 0) else none)
      (fun id => if id = 2 then 1 else 0), .fetch 2 none false, .savepoint "s",
    .mutate 2 (fun _ => filled 1) none false]

/-- A page changed before the savepoint and freed after it. -/
def droppedCalls : List (TxnCall 512) :=
  [.mutate 1 (fun _ => filled 1) none false, .savepoint "s", .free 1]

theorem quiet_lateCalls : Run.Along Quiet TxnClient.next twoPages lateCalls :=
  ⟨trivial, rfl, trivial, trivial, trivial, trivial⟩

theorem quiet_droppedCalls : Run.Along Quiet TxnClient.next twoPages droppedCalls :=
  ⟨trivial, trivial, trivial, trivial⟩

/-- A transaction whose rollback to its one savepoint shows a page in another state. -/
def Misses (client : TxnClient size) (name : String) (id : Nat) : Prop :=
  ∃ mark, client.marks = [mark] ∧ mark.name = name.toLower ∧ ∃ after,
    client.writer.rollbackConcurrentSavepoint name = (some 1, after) ∧
      after.view id ≠ mark.state.view id

theorem misses_of_single {name : String} {id : Nat} {level : ConcurrentSavepoint size}
    {mark : TxnMark size} (levels : client.writer.txn.savepoints = [level])
    (named : level.name = name.toLower) (marks : client.marks = [mark])
    (marked : mark.name = name.toLower)
    (changed : (restoredCopy level client.writer.txn id).or (client.writer.committed id) ≠
      mark.state.view id) : Misses client name id := by
  refine ⟨mark, marks, marked, client.writer.rollbackTo [] level, ?_, ?_⟩
  · have found : Pager.savepointIndex [name.toLower] name = some 0 :=
      Pager.savepointIndex_last [] name
    simp [Writer.rollbackConcurrentSavepoint, levels, named, found]
  · rw [rollbackTo_view]
    exact changed

theorem filled_ne : some (filled 0) ≠ some (filled 1) := by
  intro same
  have first := congrArg (fun page => page[0]) (Option.some.inj same)
  simp [filled] at first

/-- A page a sibling committed after the transaction began was there at the savepoint but is
not recorded for it, and neither is a page that is freed without a look at it. -/
theorem rollback_misses_pages :
    (∃ client, Run Step Quiet twoPages lateCalls client ∧ Misses client "s" 2) ∧
      ∃ client, Run Step Quiet twoPages droppedCalls client ∧ Misses client "s" 1 := by
  refine ⟨⟨twoPages.after lateCalls, Run.of_along step_next quiet_lateCalls, ?_⟩,
    twoPages.after droppedCalls, Run.of_along step_next quiet_droppedCalls, ?_⟩
  · exact misses_of_single rfl rfl rfl rfl filled_ne.symm
  · exact misses_of_single rfl rfl rfl rfl filled_ne

end RustSql.Storage.Concurrent
