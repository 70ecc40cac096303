import RustSql.Foundation.GuardedRun
import RustSql.Storage.SavepointRollback

/-! Runs of one transaction with savepoints: rolling back brings the marked state back. -/

namespace RustSql.Storage.Pager

open RustSql.Foundation

/-- What happens inside a transaction. `evict` is cache pressure outside the other calls. -/
inductive SavepointCall (size : Nat) where
  | fetch (id : Nat)
  | mutate (id : Nat) (change : Bytes size → Bytes size)
  | allocatePage
  | allocatePages (wanted : Nat)
  | freePage (id : Nat)
  | truncateTail (freed : List Nat)
  | evict
  | savepoint (name : String)
  | release (name : String)
  | rollback (name : String)

/-- A pager with its savepoints as they were opened. -/
structure SavepointClient (size : Nat) where
  pager : Pager size
  marks : List (Mark size)

namespace SavepointCall

/-- A call whose result does not matter. -/
def ignore (computation : PagerM size α) : PagerM size Unit := do
  let _ ← computation
  return ()

def run : SavepointCall size → PagerM size Unit
  | .fetch id => ignore (getPage [] id)
  | .mutate id change => writePage [] id change
  | .allocatePage => ignore Pager.allocatePage
  | .allocatePages wanted => ignore (Pager.allocatePages wanted)
  | .freePage id => Pager.freePage id
  | .truncateTail freed => ignore (Pager.truncateTail freed)
  | .evict => modify (fun pager => pager.maybeEvict [])
  | .savepoint name => modify (Pager.savepoint name)
  | .release name => ignore (releaseSavepoint name)
  | .rollback name => ignore (rollbackSavepoint name)

/-- The stack of marks after a call: SQL's rule for named savepoints. -/
def marks (client : SavepointClient size) : SavepointCall size → List (Mark size)
  | .savepoint name => client.marks ++ [client.pager.mark name]
  | .release name =>
    match savepointIndex (client.marks.map Mark.name) name with
    | some index => client.marks.take index
    | none => client.marks
  | .rollback name =>
    match savepointIndex (client.marks.map Mark.name) name with
    | some index => client.marks.take (index + 1)
    | none => client.marks
  | _ => client.marks

/-- One call, whether it returns or fails. -/
def Step (before : SavepointClient size) (call : SavepointCall size) (_ : Unit)
    (after : SavepointClient size) : Prop :=
  Meets call.run before.pager (fun _ pager => after.pager = pager)
      (fun pager => after.pager = pager) ∧
    after.marks = call.marks before

/-- The page count stays within `u32`, and a tail truncation stays above the base of every
open savepoint. -/
def Contained (client : SavepointClient size) : SavepointCall size → Prop
  | .allocatePage => client.pager.nPages + 1 < 2 ^ 32
  | .allocatePages wanted => client.pager.nPages + wanted < 2 ^ 32
  | .truncateTail freed => ∀ level ∈ client.pager.savepoints,
      level.base.nPages ≤ max (tailBound freed client.pager.nPages)
        (client.pager.savepointMinBase.getD 0)
  | _ => True

end SavepointCall

open SavepointCall

theorem maybeEvict_journaled {pager : Pager size} {marks : List (Mark size)}
    (journaled : pager.Journaled marks) (pins : List Nat) :
    (pager.maybeEvict pins).Journaled marks := by
  have evicted := maybeEvict_evicted journaled.undoable.sound pins
  exact journaled.carry evicted.carried ⟨evicted.savepoints, evicted.undisturbed.minBase,
    evicted.undisturbed.gate, evicted.undisturbed.suspended⟩ (by simp) evicted.undisturbed.nPages
    (journaled.undoable.header.maybeEvict pins)

theorem meets_ignore {computation : PagerM size α} {start : Pager size}
    {inv : Pager size → Prop}
    (run : Meets computation start (fun _ after => inv after) inv) :
    Meets (ignore computation) start (fun _ after => inv after) inv := by
  unfold ignore
  rw [Meets.bind_iff]
  exact run.mono (fun _ _ holds => holds) (fun _ holds => holds)

theorem release_meets {client : SavepointClient size} (name : String)
    (journaled : client.pager.Journaled client.marks) :
    Meets (releaseSavepoint name) client.pager
      (fun _ after => after.Journaled (SavepointCall.marks client (.release name)))
      (fun after => after.Journaled (SavepointCall.marks client (.release name))) := by
  unfold releaseSavepoint SavepointCall.marks
  simp only [Meets.bind_iff, Meets.get_iff, (stack_marks journaled.stack).1]
  cases savepointIndex (client.marks.map Mark.name) name with
  | none => exact journaled
  | some index => exact releaseSavepoint_journaled journaled index

theorem rollback_meets {client : SavepointClient size} (name : String)
    (journaled : client.pager.Journaled client.marks) :
    Meets (rollbackSavepoint name) client.pager
      (fun _ after => after.Journaled (SavepointCall.marks client (.rollback name)))
      (fun after => after.Journaled (SavepointCall.marks client (.rollback name))) := by
  cases found : savepointIndex (client.marks.map Mark.name) name with
  | none =>
    unfold rollbackSavepoint SavepointCall.marks
    simp only [Meets.bind_iff, Meets.get_iff, (stack_marks journaled.stack).1, found]
    exact journaled
  | some index =>
    obtain ⟨mark, marked, _, run⟩ := rollbackSavepoint_restores journaled found
    apply Meets.of_succeeds
    apply run.mono
    rintro _ after ⟨_, kept, _⟩
    simp only [SavepointCall.marks, found]
    rwa [List.take_add_one, marked]

/-- Every call keeps the undo invariant for the marks it leaves. -/
theorem call_journaled {client : SavepointClient size} (call : SavepointCall size)
    (journaled : client.pager.Journaled client.marks) (contained : Contained client call) :
    Meets call.run client.pager (fun _ after => after.Journaled (call.marks client))
      (fun after => after.Journaled (call.marks client)) := by
  cases call with
  | fetch id =>
    exact meets_ignore ((getPage_journaled journaled [] id).mono (fun _ _ kept => kept.1)
      (fun _ kept => kept))
  | mutate id change =>
    exact (writePage_journaled journaled [] id change).mono (fun _ _ kept => kept.1)
      (fun _ kept => kept)
  | allocatePage => exact meets_ignore (allocatePage_journaled journaled contained)
  | allocatePages wanted =>
    exact meets_ignore (allocatePagesOpts_journaled journaled wanted _ contained)
  | freePage id =>
    exact (freePage_journaled journaled id).mono (fun _ _ kept => kept.1) (fun _ kept => kept)
  | truncateTail freed =>
    exact meets_ignore (truncateTail_journaled journaled freed contained)
  | evict => exact maybeEvict_journaled journaled []
  | savepoint name => exact savepoint_journaled journaled name
  | release name => exact meets_ignore (release_meets name journaled)
  | rollback name => exact meets_ignore (rollback_meets name journaled)

/-- The undo invariant holds along every contained run. -/
theorem run_journaled {start client : SavepointClient size} {calls : List (SavepointCall size)}
    (ready : start.pager.Journaled start.marks) (run : Run Step Contained start calls client) :
    client.pager.Journaled client.marks := by
  refine run.invariant (fun client => client.pager.Journaled client.marks) ?_ ready
  rintro before call _ after journaled contained ⟨stepped, marks⟩
  have kept := call_journaled call journaled contained
  rw [marks]
  unfold Meets at kept stepped
  cases ran : call.run before.pager with
  | ok value pager =>
    rw [ran] at kept stepped
    exact stepped ▸ kept
  | error error pager =>
    rw [ran] at kept stepped
    exact stepped ▸ kept

theorem savepointIndex_last (names : List String) (name : String) :
    savepointIndex (names ++ [name.toLower]) name = some names.length := by
  induction names with
  | nil => simp [savepointIndex]
  | cons first rest ih => simp [savepointIndex, ih]

/-- The state a rollback to `mark` leaves: its counters, and `get_page` returns what the
pages held. -/
def Restores (mark : Mark size) (pager : Pager size) : Prop :=
  pager.snapshot = mark.base ∧ ∀ id data, id < pager.nPages → mark.holds id data →
    Succeeds (getPage [] id) pager (fun page _ => page.data = data)

theorem restores_of_holds {pager : Pager size} {marks : List (Mark size)} {mark : Mark size}
    (journaled : pager.Journaled marks) (base : pager.snapshot = mark.base)
    (held : ∀ id data, id < mark.base.nPages → mark.holds id data → pager.Holds id data) :
    Restores mark pager := by
  refine ⟨base, ?_⟩
  intro id data inside marked
  have nPages : mark.base.nPages = pager.nPages := by rw [← base]; rfl
  have seen := (held id data (nPages ▸ inside) marked).2
  apply (getPage_fetched journaled.undoable.sound [] (Or.inr (Or.inl inside)) seen).mono
  rintro page _ ⟨same, _⟩
  exact same

/-- In every contained run, ROLLBACK TO the newest savepoint of a name succeeds, brings
its counters back and the bytes of every page that was not a stale clean copy when the
savepoint was opened, and can be repeated. -/
theorem rollbackSavepoint_exact {start client : SavepointClient size}
    {calls : List (SavepointCall size)} (ready : start.pager.Journaled start.marks)
    (run : Run Step Contained start calls client) {name : String} {index : Nat}
    (found : savepointIndex (client.marks.map Mark.name) name = some index) :
    ∃ mark, client.marks[index]? = some mark ∧ mark.name = name.toLower ∧
      Succeeds (rollbackSavepoint name) client.pager (fun depth after =>
        depth = some (index + 1) ∧ Restores mark after ∧
        Succeeds (rollbackSavepoint name) after (fun depth again =>
          depth = some (index + 1) ∧ Restores mark again)) := by
  have journaled := run_journaled ready run
  obtain ⟨mark, marked, named, restored⟩ := rollbackSavepoint_restores journaled found
  refine ⟨mark, marked, named, restored.mono ?_⟩
  rintro depth after ⟨same, kept, base, held⟩
  refine ⟨same, restores_of_holds kept base held, ?_⟩
  have inside := (List.getElem?_eq_some_iff.mp marked).1
  have length : ((client.marks.take index).map Mark.name).length = index := by
    simp
    omega
  have again : savepointIndex ((client.marks.take index ++ [mark]).map Mark.name) name =
      some index := by
    rw [List.map_append, List.map_singleton, named, savepointIndex_last, length]
  obtain ⟨mark', marked', _, restored'⟩ := rollbackSavepoint_restores kept again
  have top : (client.marks.take index ++ [mark])[index]? = some mark := by
    rw [List.getElem?_append_right (by simp)]
    simp [Nat.min_eq_left (Nat.le_of_lt inside)]
  rw [top] at marked'
  cases marked'
  apply restored'.mono
  rintro _ final ⟨same', kept', base', held'⟩
  exact ⟨same', restores_of_holds kept' base' held'⟩

/-- The outcome of a call. -/
def SavepointClient.next (client : SavepointClient size) (call : SavepointCall size) :
    SavepointClient size where
  pager :=
    match call.run client.pager with
    | .ok _ pager => pager
    | .error _ pager => pager
  marks := call.marks client

theorem step_next (client : SavepointClient size) (call : SavepointCall size) :
    Step client call () (client.next call) := by
  refine ⟨?_, rfl⟩
  unfold Meets SavepointClient.next
  cases call.run client.pager <;> rfl

theorem run_foldl (start : SavepointClient size) (calls : List (SavepointCall size))
    (contained : ∀ call ∈ calls, ∀ client, Contained client call) :
    Run Step Contained start calls (calls.foldl SavepointClient.next start) := by
  induction calls generalizing start with
  | nil => exact .refl
  | cons call rest ih =>
    have first : Run Step Contained start [call] (start.next call) :=
      Run.single (contained call List.mem_cons_self start) (step_next start call)
    exact first.trans (ih (start.next call)
      (fun other member => contained other (List.mem_cons_of_mem _ member)))

/-- A three-page file whose last page holds ones, and a cache that drops page 2 at the
third chance. -/
def freedStart : SavepointClient 512 where
  pager := { initializeNewDb 512 (fun chain _ => chain) [[], [], [2]] with
    store := [Bytes.zero 512, Bytes.zero 512, Vector.replicate 512 1]
    isNew := false
    cache := fun _ => none
    nPages := 3
    committedNPages := 3 }
  marks := []

theorem freedStart_ready : freedStart.pager.Journaled freedStart.marks := by
  refine ⟨⟨⟨?_, ?_, ?_, ?_⟩, ?_, ?_, ?_, ?_, rfl, rfl, List.Pairwise.nil⟩, rfl, .nil⟩
  · intro state attached
    cases attached
  · intro state attached
    cases attached
  · intro state attached
    cases attached
  · intro lazy
    cases lazy
  · intro new
    cases new
  · intro id inside
    have low : id < 3 := inside
    refine Or.inr ?_
    rcases (by omega : id = 0 ∨ id = 1 ∨ id = 2) with rfl | rfl | rfl <;> rfl
  · intro level member
    cases member
  · show 1 ≤ 3
    omega

def openedCalls : List (SavepointCall 512) := [.freePage 1, .freePage 2, .savepoint "s"]

def openedClient : SavepointClient 512 := openedCalls.foldl SavepointClient.next freedStart

def closedCalls : List (SavepointCall 512) := [.evict, .rollback "s"]

def closedClient : SavepointClient 512 := closedCalls.foldl SavepointClient.next openedClient

/-- The bytes `get_page` returns. -/
def fetchBytes (pager : Pager size) (id : Nat) : Option (Bytes size) :=
  match getPage [] id pager with
  | .ok page _ => some page.data
  | .error _ _ => none

theorem openedCalls_contained : ∀ call ∈ openedCalls, ∀ client, Contained client call := by
  intro call member client
  simp only [openedCalls, List.mem_cons, List.not_mem_nil, or_false] at member
  rcases member with rfl | rfl | rfl <;> trivial

theorem closedCalls_contained : ∀ call ∈ closedCalls, ∀ client, Contained client call := by
  intro call member client
  simp only [closedCalls, List.mem_cons, List.not_mem_nil, or_false] at member
  rcases member with rfl | rfl <;> trivial

/-- A savepoint, a write after it, and the same name again. -/
def nestedCalls : List (SavepointCall 512) :=
  [.savepoint "s", .mutate 2 (fun _ => Bytes.zero 512), .savepoint "s", .fetch 1]

def nestedClient : SavepointClient 512 := nestedCalls.foldl SavepointClient.next freedStart

theorem nestedCalls_contained : ∀ call ∈ nestedCalls, ∀ client, Contained client call := by
  intro call member client
  simp only [nestedCalls, List.mem_cons, List.not_mem_nil, or_false] at member
  rcases member with rfl | rfl | rfl | rfl <;> trivial

theorem nestedClient_names : nestedClient.marks.map Mark.name = ["s".toLower, "s".toLower] := rfl

theorem rollbackSavepoint_exact_nested : ∃ mark, nestedClient.marks[1]? = some mark ∧
    mark.name = "s".toLower ∧
    Succeeds (rollbackSavepoint "s") nestedClient.pager (fun depth after =>
      depth = some 2 ∧ Restores mark after ∧
      Succeeds (rollbackSavepoint "s") after (fun depth again =>
        depth = some 2 ∧ Restores mark again)) :=
  rollbackSavepoint_exact freedStart_ready (run_foldl freedStart nestedCalls nestedCalls_contained)
    (nestedClient_names ▸ savepointIndex_last ["s".toLower] "s")

/-- A freed page is zeroed in the cache only. Once the cache has dropped it, `get_page`
returns what the file has, also after a rollback to a savepoint that saw the zeros. -/
theorem rollback_stale_copy : freedStart.pager.Journaled freedStart.marks ∧
    Run Step Contained freedStart openedCalls openedClient ∧
    Run Step Contained openedClient closedCalls closedClient ∧
    (fetchBytes openedClient.pager 2).map (fun data => data.byteAt 0) = some 0 ∧
    (fetchBytes closedClient.pager 2).map (fun data => data.byteAt 0) = some 1 := by
  refine ⟨freedStart_ready, run_foldl freedStart openedCalls openedCalls_contained,
    run_foldl openedClient closedCalls closedCalls_contained, ?_, ?_⟩
  · decide +kernel
  · decide +kernel

end RustSql.Storage.Pager
