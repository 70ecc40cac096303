import RustSql.Storage.Checkpoint
import RustSql.Storage.Residency
import RustSql.Storage.WalChronicle

/-! When a checkpoint leaves the committed pages as they are. -/

namespace RustSql.Storage

open RustSql.Foundation

/-- What a page reads as after the files are opened again: its newest frame in the
recovered log, else the main file. -/
def committedView (crc : Crc) (fresh : Salts) (file : WalFile size)
    (store : List (Bytes size)) (id : Nat) : Option (Bytes size) :=
  let wal := Wal.recover crc fresh file true
  match wal.committedPageMap.lookup id with
  | some index => (wal.readFrameAt index).toOption
  | none => store[id]?

theorem committedView_page (crc : Crc) (fresh : Salts) (file : WalFile size)
    (store : List (Bytes size)) {committed : List (Frame size)}
    (visible : Visible crc (Wal.recover crc fresh file true) committed) (id : Nat) :
    committedView crc fresh file store id = (newest committed id).or store[id]? := by
  rw [← visible.committedPage id]
  unfold committedView Wal.committedPage
  simp only
  cases found : (Wal.recover crc fresh file true).committedPageMap.lookup id with
  | none => rfl
  | some index =>
    obtain ⟨data, read, _⟩ := visible.read found
    simp [read, Except.toOption]

/-- After a crash a page has its newest committed frame, or the main file's bytes. -/
theorem Chronicle.committedView_eq {crc : Crc} {wal : Wal size}
    {committed opened stale : List (Frame size)} (chronicle : Chronicle crc 0 wal committed opened stale)
    (fresh : Salts) (store : List (Bytes size)) (id : Nat) :
    committedView crc fresh wal.file store id = (newest committed id).or store[id]? :=
  committedView_page crc fresh wal.file store (chronicle.recovered fresh true).1 id

namespace Disk

/-- What a page reads as when the files are opened after a crash. -/
def recovered (crc : Crc) (fresh : Salts) (disk : Disk size) (id : Nat) :
    Option (Bytes size) :=
  committedView crc fresh disk.log disk.store id

theorem applyAll_append (disk : Disk size) (front back : List (FileWrite size)) :
    disk.applyAll (front ++ back) = (disk.applyAll front).applyAll back :=
  List.foldl_append

end Disk

namespace FoldRun

/-- Coalescing does not show: the fold issues one page write for each page, in order. -/
theorem foldPages_ok {serve : Nat → Except Error (Bytes size)} {bytes : Nat → Bytes size}
    (ids : List Nat) (served : ∀ id ∈ ids, id ≠ 0 → serve id = .ok (bytes id))
    (run : FoldRun size) (begun : run.runStart = none → run.runBuf = []) :
    ∃ final, foldPages serve ids run = (final, none) ∧
      final.issued ++ final.flushRun = run.issued ++ run.flushRun ++
        (ids.filter (fun id => id != 0)).map (fun id => FileWrite.page id (bytes id)) := by
  induction ids generalizing run with
  | nil => exact ⟨run, rfl, by simp⟩
  | cons id rest ih =>
    have others := fun other member => served other (List.mem_cons_of_mem id member)
    by_cases header : id = 0
    · obtain ⟨final, folded, issued⟩ := ih others run begun
      exact ⟨final, by simpa [foldPages, header] using folded, by simpa [header] using issued⟩
    · have pushed : ((run.advance id).push (bytes id)).issued ++
          ((run.advance id).push (bytes id)).flushRun =
          run.issued ++ run.flushRun ++ [FileWrite.page id (bytes id)] := by
        unfold advance
        split
        · next continued =>
            obtain ⟨first, started, next⟩ : ∃ first, run.runStart = some first ∧
                first + run.runBuf.length = id := by
              simpa [Option.any_eq_true] using (Bool.and_eq_true_iff.mp continued).1
            simp [push, flushRun, started, List.zipIdx_append, next]
        · simp [push, flushRun]
      obtain ⟨final, folded, issued⟩ := ih others ((run.advance id).push (bytes id)) (by
        intro none
        unfold advance at none
        split at none
        · next continued =>
            have started := (Bool.and_eq_true_iff.mp continued).1
            simp only [push] at none
            simp [none] at started
        · cases none)
      refine ⟨final, ?_, ?_⟩
      · simpa [foldPages, header, served id List.mem_cons_self header] using folded
      · rw [issued, pushed]
        simp [header]

end FoldRun

/-- Write pages in order. -/
def writePages (store : List (Bytes size)) (entries : List (Nat × Bytes size)) :
    List (Bytes size) :=
  entries.foldl (fun store entry => writeStore store entry.1 entry.2) store

theorem Disk.applyAll_pages (disk : Disk size) (entries : List (Nat × Bytes size)) :
    disk.applyAll (entries.map (fun entry => FileWrite.page entry.1 entry.2)) =
      { disk with store := writePages disk.store entries } := by
  induction entries generalizing disk with
  | nil => rfl
  | cons entry rest ih => exact ih (disk.apply (.page entry.1 entry.2))

variable {entries : List (Nat × Bytes size)}

/-- A page of the file that is not written stays. -/
theorem getElem?_writePages_absent {id : Nat} {data : Bytes size}
    (absent : ∀ other, (id, other) ∉ entries) (store : List (Bytes size))
    (there : store[id]? = some data) : (writePages store entries)[id]? = some data := by
  induction entries generalizing store with
  | nil => exact there
  | cons entry rest ih =>
    have differ : id ≠ entry.1 := by
      rintro rfl
      exact absent entry.2 List.mem_cons_self
    exact ih (fun other member => absent other (List.mem_cons_of_mem _ member)) _
      ((Pager.getElem?_writeStore store entry.1 id entry.2).2 data differ there)

/-- A page of the main file; past its end there are zeros. -/
def stored (store : List (Bytes size)) (id : Nat) : Bytes size :=
  store[id]?.getD (Bytes.zero size)

theorem stored_writeStore (store : List (Bytes size)) (target id : Nat) (data : Bytes size) :
    stored (writeStore store target data) id = if id = target then data else stored store id := by
  unfold stored
  by_cases same : id = target
  · subst same
    rw [(Pager.getElem?_writeStore store id id data).1, if_pos rfl]
    rfl
  · rw [if_neg same]
    cases there : store[id]? with
    | some old => rw [(Pager.getElem?_writeStore store target id data).2 old same there]
    | none =>
      have beyond := List.getElem?_eq_none_iff.mp there
      unfold writeStore
      split
      · rw [List.getElem?_set_ne (Ne.symm same), there]
      · rw [List.append_assoc, List.getElem?_append_right beyond]
        rcases Nat.lt_or_ge id target with before | after
        · rw [List.getElem?_append_left (by simp; omega), List.getElem?_replicate,
            if_pos (by omega)]
          rfl
        · rw [List.getElem?_append_right (by simp; omega), List.getElem?_singleton,
            if_neg (by simp; omega)]

theorem stored_writePages_absent {id : Nat} (absent : ∀ other, (id, other) ∉ entries)
    (store : List (Bytes size)) : stored (writePages store entries) id = stored store id := by
  induction entries generalizing store with
  | nil => rfl
  | cons entry rest ih =>
    have differ : id ≠ entry.1 := by
      rintro rfl
      exact absent entry.2 List.mem_cons_self
    have others := ih (fun other member => absent other (List.mem_cons_of_mem _ member))
      (writeStore store entry.1 entry.2)
    rwa [stored_writeStore, if_neg differ] at others

/-- A page that all its writes agree on has their bytes. -/
theorem stored_writePages_present {id : Nat} {data : Bytes size} (member : (id, data) ∈ entries)
    (agree : ∀ other, (id, other) ∈ entries → other = data) (store : List (Bytes size)) :
    stored (writePages store entries) id = data := by
  induction entries generalizing store with
  | nil => cases member
  | cons entry rest ih =>
    by_cases later : (id, data) ∈ rest
    · exact ih later (fun other there => agree other (List.mem_cons_of_mem _ there)) _
    · have same : (id, data) = entry := by
        rcases List.mem_cons.mp member with same | there
        · exact same
        · exact absurd there later
      subst same
      have absent : ∀ other, (id, other) ∉ rest := by
        intro other there
        exact later (agree other (List.mem_cons_of_mem _ there) ▸ there)
      have written := stored_writePages_absent absent (writeStore store id data)
      rwa [stored_writeStore, if_pos rfl] at written

theorem length_setLen (store : List (Bytes size)) (pages : Nat) :
    (Pager.setLen store pages).length = pages := by
  unfold Pager.setLen
  split
  · next shorter => simp [shorter]
  · next longer =>
      simp
      omega

theorem stored_setLen (store : List (Bytes size)) {pages id : Nat} (inside : id < pages) :
    stored (Pager.setLen store pages) id = stored store id := by
  unfold stored Pager.setLen
  split
  · rw [List.getElem?_take_of_lt inside]
  · rw [List.getElem?_append]
    split
    · rfl
    · next beyond =>
        rw [List.getElem?_eq_none (Nat.le_of_not_lt beyond), List.getElem?_replicate]
        split <;> rfl

namespace Pager

/-- A pager with a log: the files have every committed page, and the committed map names
newest frames. A page may be missing from the map, as after `truncate_tail`. -/
structure WalMode (pager : Pager size) (state : WalState size)
    (committed opened stale : List (Frame size)) : Prop where
  attached : pager.wal = some state
  chronicle : Chronicle pager.crc 0 state.wal committed opened stale
  sees : Sees committed state.map
  covered : ∀ id, id < pager.committedNPages →
    ((newest committed id).or pager.store[id]?).isSome

/-- A checkpoint copies the page. -/
def Folds (pager : Pager size) (state : WalState size) (id : Nat) : Prop :=
  (state.map.lookup id).isSome ∧ (pager.pendingTruncate = 0 ∨ id < pager.pendingTruncate)

/-- The cached copy that a checkpoint prefers to the frame. -/
def preferred (pager : Pager size) (id : Nat) : Option (Page size) :=
  if id = 0 ∧ pager.pendingTruncate = 0 then none else pager.cache id

/-- The page count that a copied header asks for. -/
def foldedPages (pager : Pager size) (state : WalState size) : Nat :=
  match pager.foldedHeader state with
  | .ok (_, folded) => folded
  | .error _ => 0

variable {pager : Pager size} {state : WalState size}
  {committed opened stale : List (Frame size)}

theorem WalMode.log (mode : pager.WalMode state committed opened stale) :
    pager.disk.log = state.wal.file := by
  simp [disk, mode.attached]

theorem WalMode.recovered (mode : pager.WalMode state committed opened stale) (fresh : Salts)
    (id : Nat) : pager.disk.recovered pager.crc fresh id =
      (newest committed id).or pager.store[id]? := by
  unfold Disk.recovered
  rw [mode.log]
  exact mode.chronicle.committedView_eq fresh pager.store id

theorem WalMode.readFrame (mode : pager.WalMode state committed opened stale) {id index : Nat}
    (found : state.map.lookup id = some index) :
    ∃ data, state.wal.readFrameAt index = .ok data ∧ newest committed id = some data := by
  obtain ⟨frame, there, _, latest⟩ := mode.sees id index found
  have inside := (List.getElem?_eq_some_iff.mp there).1
  refine ⟨frame.data, ?_, latest⟩
  have held : state.wal.file.frames[index]? = some frame := by
    rw [mode.chronicle.frames, List.append_assoc, List.getElem?_append_left inside, there]
  simp [Wal.readFrameAt, held, mode.chronicle.salted frame
    (List.mem_append_left _ (List.mem_of_getElem? there))]

/-- The bytes a checkpoint copies. -/
def copied (pager : Pager size) (committed : List (Frame size)) (id : Nat) : Bytes size :=
  match pager.preferred id with
  | some page => page.data
  | none => (newest committed id).getD (Bytes.zero size)

theorem mem_foldedIds (pager : Pager size) (state : WalState size) (id : Nat) :
    id ∈ pager.foldedIds state ↔ pager.Folds state id := by
  simp [foldedIds, Folds, AList.lookup_isSome, AList.mem_keys]

theorem serve_ok (mode : pager.WalMode state committed opened stale) {id : Nat}
    (folds : pager.Folds state id) (nonzero : id ≠ 0) :
    pager.serve state id = .ok (pager.copied committed id) := by
  unfold serve copied preferred
  rw [if_neg (fun both => nonzero both.1)]
  cases pager.cache id with
  | some page => rfl
  | none =>
    obtain ⟨index, found⟩ := Option.isSome_iff_exists.mp folds.1
    obtain ⟨data, read, latest⟩ := mode.readFrame found
    simp [found, read, latest]

theorem foldedHeader_ok (mode : pager.WalMode state committed opened stale) :
    pager.foldedHeader state = .ok
      (if (state.map.lookup 0).isSome then some (pager.copied committed 0) else none,
        pager.foldedPages state) := by
  unfold foldedPages
  unfold foldedHeader copied preferred
  cases found : state.map.lookup 0 with
  | none => rfl
  | some index =>
    obtain ⟨data, read, latest⟩ := mode.readFrame found
    by_cases armed : pager.pendingTruncate = 0
    · simp [armed, read, latest, Except.map]
    · cases pager.cache 0 with
      | some page => simp [armed]
      | none => simp [armed, read, latest, Except.map]

/-- The pages a checkpoint writes, the header last. -/
def copiedPages (pager : Pager size) (state : WalState size)
    (committed : List (Frame size)) : List (Nat × Bytes size) :=
  ((pager.foldedIds state).filter (fun id => id != 0)).map
      (fun id => (id, pager.copied committed id)) ++
    (if (state.map.lookup 0).isSome then [(0, pager.copied committed 0)] else [])

theorem mem_copiedPages (pager : Pager size) (state : WalState size)
    (committed : List (Frame size)) (id : Nat) (data : Bytes size) :
    (id, data) ∈ pager.copiedPages state committed ↔
      pager.Folds state id ∧ data = pager.copied committed id := by
  have zero : pager.Folds state 0 ↔ (state.map.lookup 0).isSome := by
    unfold Folds
    exact and_iff_left (Nat.eq_zero_or_pos pager.pendingTruncate)
  unfold copiedPages
  rw [List.mem_append]
  constructor
  · rintro (body | header)
    · obtain ⟨other, member, same⟩ := List.mem_map.mp body
      cases same
      exact ⟨(mem_foldedIds pager state id).mp (List.mem_filter.mp member).1, rfl⟩
    · split at header
      · next present =>
          cases List.mem_singleton.mp header
          exact ⟨zero.mpr present, rfl⟩
      · cases header
  · rintro ⟨folds, rfl⟩
    by_cases same : id = 0
    · subst same
      right
      rw [if_pos (zero.mp folds)]
      exact List.mem_singleton_self _
    · left
      refine List.mem_map.mpr ⟨id, List.mem_filter.mpr ⟨?_, by simpa using same⟩, rfl⟩
      exact (mem_foldedIds pager state id).mpr folds

/-- The file operations of a checkpoint. -/
theorem checkpointWrites_eq (mode : pager.WalMode state committed opened stale)
    (truncate : Bool) (salts : Salts) :
    pager.checkpointWrites truncate salts state =
      ((pager.copiedPages state committed).map (fun entry => FileWrite.page entry.1 entry.2) ++
        finishWrites truncate (WalHeader.new pager.crc salts)
          (max pager.nPages (pager.foldedPages state))
          (writePages pager.store (pager.copiedPages state committed)).length, none) := by
  obtain ⟨run, folded, issued⟩ := FoldRun.foldPages_ok (pager.foldedIds state)
    (fun id member nonzero => serve_ok mode ((mem_foldedIds pager state id).mp member) nonzero)
    FoldRun.start (fun _ => rfl)
  have pages : run.issued ++ run.flushRun ++ ((if (state.map.lookup 0).isSome then
      some (pager.copied committed 0) else none).toList.map (FileWrite.page 0)) =
      (pager.copiedPages state committed).map (fun entry => FileWrite.page entry.1 entry.2) := by
    rw [issued, copiedPages, List.map_append, List.map_map]
    split <;> rfl
  unfold checkpointWrites
  rw [folded, foldedHeader_ok mode]
  simp only [pages, Disk.applyAll_pages]
  rfl

/-- The main file after the truncation. -/
def finalStore (pager : Pager size) (state : WalState size) (committed : List (Frame size)) :
    List (Bytes size) :=
  let store := writePages pager.store (pager.copiedPages state committed)
  let wanted := max pager.nPages (pager.foldedPages state)
  if wanted = store.length then store else Pager.setLen store wanted

theorem length_finalStore : (pager.finalStore state committed).length =
    max pager.nPages (pager.foldedPages state) := by
  unfold finalStore
  simp only
  split
  · next same => exact same.symm
  · exact length_setLen _ _

theorem stored_finalStore {id : Nat} (inside : id < max pager.nPages (pager.foldedPages state)) :
    stored (pager.finalStore state committed) id =
      stored (writePages pager.store (pager.copiedPages state committed)) id := by
  unfold finalStore
  simp only
  split
  · rfl
  · exact stored_setLen _ inside

theorem getElem?_eq_stored (store : List (Bytes size)) {id : Nat} (inside : id < store.length) :
    store[id]? = some (stored store id) := by
  simp [stored, inside]

/-- The main file takes over every page it has room for. -/
theorem getElem?_finalStore (committed : List (Frame size)) {id : Nat}
    (inside : id < max pager.nPages (pager.foldedPages state)) :
    (pager.Folds state id →
      (pager.finalStore state committed)[id]? = some (pager.copied committed id)) ∧
    (¬ pager.Folds state id →
      (pager.finalStore state committed)[id]? = some (stored pager.store id)) := by
  rw [getElem?_eq_stored _ (by rwa [length_finalStore]), stored_finalStore inside]
  constructor
  · intro folds
    rw [stored_writePages_present ((mem_copiedPages pager state committed id _).mpr
      ⟨folds, rfl⟩) (fun other member =>
        ((mem_copiedPages pager state committed id other).mp member).2)]
  · intro spared
    rw [stored_writePages_absent (fun other member =>
      spared ((mem_copiedPages pager state committed id other).mp member).1)]

/-- The log file of the next generation. -/
def resetLog (truncate : Bool) (salts : Salts) (pager : Pager size) (state : WalState size) :
    Wal size :=
  if truncate then Wal.reset pager.crc salts else state.wal.resetKeepSize pager.crc salts

theorem resetLog_chronicle (crc : Crc) {salts : Salts} (truncate : Bool)
    (fresh : ∀ frame ∈ state.wal.file.frames, frame.salts ≠ salts) (same : pager.crc = crc) :
    ∃ stale, Chronicle crc 0 (pager.resetLog truncate salts state) [] [] stale := by
  subst same
  cases truncate with
  | true => exact ⟨[], reset_chronicle pager.crc salts⟩
  | false => exact ⟨state.wal.file.frames, resetKeepSize_chronicle pager.crc fresh⟩

/-- The files after some of the operations that follow the copying. -/
theorem applyAll_finishWrites (pager : Pager size) (state : WalState size)
    (committed : List (Frame size)) (truncate : Bool) (salts : Salts)
    {copiedDisk : Disk size} {finish : List (FileWrite size)}
    (disk : copiedDisk = { store := writePages pager.store (pager.copiedPages state committed)
                           log := state.wal.file })
    (writes : finish = finishWrites truncate (WalHeader.new pager.crc salts)
      (max pager.nPages (pager.foldedPages state)) copiedDisk.store.length) :
    (∀ count, copiedDisk.applyAll (finish.take count) = copiedDisk ∨
      ∃ log, copiedDisk.applyAll (finish.take count) =
          { store := pager.finalStore state committed, log := log } ∧
        (log = state.wal.file ∨ log = { header := none, frames := [] } ∨
          log = (pager.resetLog truncate salts state).file)) ∧
    copiedDisk.applyAll finish =
      { store := pager.finalStore state committed
        log := (pager.resetLog truncate salts state).file } := by
  have final : pager.finalStore state committed =
      if max pager.nPages (pager.foldedPages state) = copiedDisk.store.length
      then copiedDisk.store
      else Pager.setLen copiedDisk.store (max pager.nPages (pager.foldedPages state)) := by
    rw [disk]
    rfl
  have log : copiedDisk.log = state.wal.file := by rw [disk]
  have reset : ({ copiedDisk.log with header := some (WalHeader.new pager.crc salts) } :
      WalFile size) = (pager.resetLog false salts state).file := by
    rw [log]
    rfl
  rw [final, writes, ← log]
  unfold finishWrites
  by_cases sized : max pager.nPages (pager.foldedPages state) = copiedDisk.store.length
  · rw [if_pos sized, if_pos sized]
    cases truncate with
    | true =>
      refine ⟨?_, rfl⟩
      rintro (_ | _ | _ | count)
      · exact Or.inl rfl
      · exact Or.inr ⟨_, rfl, Or.inr (Or.inl rfl)⟩
      · exact Or.inr ⟨_, rfl, Or.inr (Or.inr rfl)⟩
      · exact Or.inr ⟨_, rfl, Or.inr (Or.inr rfl)⟩
    | false =>
      refine ⟨?_, congrArg (Disk.mk copiedDisk.store) reset⟩
      rintro (_ | _ | count)
      · exact Or.inl rfl
      · exact Or.inr ⟨_, rfl, Or.inr (Or.inr reset)⟩
      · exact Or.inr ⟨_, rfl, Or.inr (Or.inr reset)⟩
  · rw [if_neg sized, if_neg sized]
    cases truncate with
    | true =>
      refine ⟨?_, rfl⟩
      rintro (_ | _ | _ | count)
      · exact Or.inl rfl
      · exact Or.inr ⟨_, rfl, Or.inl rfl⟩
      · exact Or.inr ⟨_, rfl, Or.inr (Or.inl rfl)⟩
      · cases count <;> exact Or.inr ⟨_, rfl, Or.inr (Or.inr rfl)⟩
    | false =>
      refine ⟨?_, congrArg (Disk.mk (Pager.setLen copiedDisk.store _)) reset⟩
      rintro (_ | _ | count)
      · exact Or.inl rfl
      · exact Or.inr ⟨_, rfl, Or.inl rfl⟩
      · cases count <;> exact Or.inr ⟨_, rfl, Or.inr (Or.inr reset)⟩

end Pager

namespace Pager

variable {pager : Pager size} {state : WalState size}
  {committed opened stale : List (Frame size)}

/-- The pager after a checkpoint. -/
def checkpointed (truncate : Bool) (salts : Salts) (pager : Pager size) (state : WalState size)
    (committed : List (Frame size)) : Pager size :=
  { pager with
    store := pager.finalStore state committed
    pendingTruncate := 0
    wal := some { wal := pager.resetLog truncate salts state, map := ∅, spilled := ∅ } }

theorem checkpointTrace_eq (mode : pager.WalMode state committed opened stale)
    (idle : state.spilled.keys.isEmpty = true) (truncate : Bool) (salts : Salts) :
    pager.checkpointTrace truncate salts =
      (pager.copiedPages state committed).map (fun entry => FileWrite.page entry.1 entry.2) ++
        finishWrites truncate (WalHeader.new pager.crc salts)
          (max pager.nPages (pager.foldedPages state))
          (writePages pager.store (pager.copiedPages state committed)).length := by
  unfold checkpointTrace
  simp only [mode.attached, idle, if_true, checkpointWrites_eq mode]

theorem disk_eq (mode : pager.WalMode state committed opened stale) :
    pager.disk = { store := pager.store, log := state.wal.file } := by
  unfold disk
  rw [mode.attached]
  rfl

/-- A checkpoint in WAL mode returns, with everything in the main file and an empty log. -/
theorem checkpointWalLocked_ok (mode : pager.WalMode state committed opened stale)
    (idle : state.spilled.keys.isEmpty = true) (truncate : Bool) (salts : Salts) :
    checkpointWalLocked truncate salts pager =
      .ok () (pager.checkpointed truncate salts state committed) := by
  have finished := (applyAll_finishWrites pager state committed truncate salts rfl rfl).2
  unfold checkpointWalLocked
  simp only [mode.attached, idle, if_true, checkpointWrites_eq mode, Disk.applyAll_append,
    disk_eq mode, Disk.applyAll_pages, finished]
  rfl

/-- Every crash point: some pages are copied, or all are and the log is on its way out. -/
theorem crash_cases (mode : pager.WalMode state committed opened stale)
    (idle : state.spilled.keys.isEmpty = true) (truncate : Bool) (salts : Salts) (count : Nat) :
    (∃ done, pager.disk.applyAll ((pager.checkpointTrace truncate salts).take count) =
        { store := writePages pager.store ((pager.copiedPages state committed).take done)
          log := state.wal.file }) ∨
      ∃ log, pager.disk.applyAll ((pager.checkpointTrace truncate salts).take count) =
          { store := pager.finalStore state committed, log := log } ∧
        (log = state.wal.file ∨ log = { header := none, frames := [] } ∨
          log = (pager.resetLog truncate salts state).file) := by
  rw [checkpointTrace_eq mode idle, List.take_append, Disk.applyAll_append, List.length_map,
    ← List.map_take, Disk.applyAll_pages, disk_eq mode]
  rcases Nat.lt_or_ge count (pager.copiedPages state committed).length with early | late
  · left
    exact ⟨count, by rw [Nat.sub_eq_zero_of_le (Nat.le_of_lt early)]; rfl⟩
  · rw [List.take_of_length_le late]
    rcases (applyAll_finishWrites pager state committed truncate salts rfl rfl).1
      (count - (pager.copiedPages state committed).length) with same | finished
    · left
      exact ⟨(pager.copiedPages state committed).length, by rw [same, List.take_length]⟩
    · exact Or.inr finished

variable {salts : Salts}

theorem recovered_reset {crc : Crc} (same : pager.crc = crc) (truncate : Bool)
    (unused : ∀ frame ∈ state.wal.file.frames, frame.salts ≠ salts) (fresh : Salts)
    (store : List (Bytes size)) (id : Nat) :
    committedView crc fresh (pager.resetLog truncate salts state).file store id =
      store[id]? := by
  obtain ⟨stale, chronicle⟩ := resetLog_chronicle crc truncate unused same
  rw [chronicle.committedView_eq fresh store id]
  rfl

/-- While pages are copied the log still answers for all of them. -/
theorem recovered_copying (mode : pager.WalMode state committed opened stale) (fresh : Salts)
    (done : Nat) {id : Nat} (inside : id < pager.committedNPages) :
    committedView pager.crc fresh state.wal.file
        (writePages pager.store ((pager.copiedPages state committed).take done)) id =
      pager.disk.recovered pager.crc fresh id := by
  rw [mode.chronicle.committedView_eq, mode.recovered fresh]
  cases latest : newest committed id with
  | some data => rfl
  | none =>
    have covered := mode.covered id inside
    rw [latest, Option.none_or] at covered
    obtain ⟨data, there⟩ := Option.isSome_iff_exists.mp covered
    rw [Option.none_or, Option.none_or, there]
    apply getElem?_writePages_absent _ _ there
    intro other member
    obtain ⟨⟨mapped, _⟩, _⟩ := (mem_copiedPages pager state committed id other).mp
      (List.mem_of_mem_take member)
    obtain ⟨index, found⟩ := Option.isSome_iff_exists.mp mapped
    obtain ⟨frame, _, _, newer⟩ := mode.sees id index found
    rw [latest] at newer
    cases newer

/-- The committed pages are the same before the call, after it, and wherever it is cut off,
and only committed bytes are written to the main file. -/
structure KeepsCommitted (fresh : Salts) (truncate : Bool) (salts : Salts)
    (pager : Pager size) : Prop where
  returned : Succeeds (checkpointWalLocked truncate salts) pager (fun _ after =>
    ∀ id, id < pager.committedNPages →
      after.disk.recovered pager.crc fresh id = pager.disk.recovered pager.crc fresh id)
  crashed : ∀ count id, id < pager.committedNPages →
    (pager.disk.applyAll ((pager.checkpointTrace truncate salts).take count)).recovered
        pager.crc fresh id = pager.disk.recovered pager.crc fresh id
  written : ∀ id data, FileWrite.page id data ∈ pager.checkpointTrace truncate salts →
    pager.disk.recovered pager.crc fresh id = some data

/-- The cached copies that a checkpoint prefers are the committed ones, the main file has
the pages that are not copied, and its new length covers the committed page count. -/
structure Settled (fresh : Salts) (pager : Pager size) (state : WalState size) : Prop where
  cached : ∀ id page, pager.Folds state id → pager.preferred id = some page →
    pager.disk.recovered pager.crc fresh id = some page.data
  uncopied : ∀ id, id < pager.committedNPages → ¬ pager.Folds state id →
    pager.disk.recovered pager.crc fresh id = some (stored pager.store id)
  length : pager.committedNPages ≤ max pager.nPages (pager.foldedPages state)

variable {fresh : Salts}

theorem copied_of_settled (mode : pager.WalMode state committed opened stale)
    (cached : ∀ id page, pager.Folds state id → pager.preferred id = some page →
      pager.disk.recovered pager.crc fresh id = some page.data) {id : Nat}
    (folds : pager.Folds state id) :
    pager.disk.recovered pager.crc fresh id = some (pager.copied committed id) := by
  unfold copied
  cases prefers : pager.preferred id with
  | some page => exact cached id page folds prefers
  | none =>
    obtain ⟨index, found⟩ := Option.isSome_iff_exists.mp folds.1
    obtain ⟨frame, _, _, latest⟩ := mode.sees id index found
    rw [mode.recovered fresh, latest]
    rfl

theorem final_of_settled (mode : pager.WalMode state committed opened stale)
    (settled : pager.Settled fresh state) {id : Nat} (inside : id < pager.committedNPages) :
    (pager.finalStore state committed)[id]? = pager.disk.recovered pager.crc fresh id := by
  obtain ⟨copies, spares⟩ := getElem?_finalStore committed
    (Nat.lt_of_lt_of_le inside settled.length)
  by_cases folds : pager.Folds state id
  · rw [copies folds, copied_of_settled mode settled.cached folds]
  · rw [spares folds, settled.uncopied id inside folds]

theorem mem_checkpointTrace (mode : pager.WalMode state committed opened stale)
    (idle : state.spilled.keys.isEmpty = true) (truncate : Bool) (salts : Salts) (id : Nat)
    (data : Bytes size) : FileWrite.page id data ∈ pager.checkpointTrace truncate salts ↔
      pager.Folds state id ∧ data = pager.copied committed id := by
  have finish : ∀ wanted current, FileWrite.page id data ∉
      finishWrites truncate (WalHeader.new pager.crc salts) wanted current := by
    intro wanted current member
    unfold finishWrites at member
    rcases List.mem_append.mp member with sized | reset
    · split at sized <;> simp at sized
    · split at reset <;> simp at reset
  rw [checkpointTrace_eq mode idle, List.mem_append, or_iff_left (finish _ _),
    ← mem_copiedPages pager state committed id data]
  constructor
  · intro member
    obtain ⟨entry, there, same⟩ := List.mem_map.mp member
    cases same
    exact there
  · intro member
    exact List.mem_map.mpr ⟨(id, data), member, rfl⟩

theorem checkpointed_recovered (truncate : Bool)
    (unused : ∀ frame ∈ state.wal.file.frames, frame.salts ≠ salts) (fresh : Salts) (id : Nat) :
    (pager.checkpointed truncate salts state committed).disk.recovered pager.crc fresh id =
      (pager.finalStore state committed)[id]? :=
  recovered_reset rfl truncate unused fresh _ id

theorem keeps_of_settled (mode : pager.WalMode state committed opened stale)
    (idle : state.spilled.keys.isEmpty = true) (truncate : Bool)
    (unused : ∀ frame ∈ state.wal.file.frames, frame.salts ≠ salts)
    (settled : pager.Settled fresh state) : pager.KeepsCommitted fresh truncate salts := by
  refine ⟨⟨_, _, checkpointWalLocked_ok mode idle truncate salts, ?_⟩, ?_, ?_⟩
  · intro id inside
    rw [checkpointed_recovered truncate unused, final_of_settled mode settled inside]
  · intro count id inside
    rcases crash_cases mode idle truncate salts count with ⟨done, cut⟩ | ⟨log, cut, which⟩
    · rw [cut]
      exact recovered_copying mode fresh done inside
    · rw [cut]
      have final := final_of_settled mode settled inside
      rcases which with rfl | rfl | rfl
      · show committedView pager.crc fresh state.wal.file _ id = _
        rw [mode.chronicle.committedView_eq, final, mode.recovered fresh]
        cases newest committed id <;> rfl
      · exact final
      · exact (recovered_reset rfl truncate unused fresh _ id).trans final
  · intro id data member
    obtain ⟨folds, rfl⟩ := (mem_checkpointTrace mode idle truncate salts id data).mp member
    exact copied_of_settled mode settled.cached folds

theorem settled_of_keeps (mode : pager.WalMode state committed opened stale)
    (idle : state.spilled.keys.isEmpty = true) {truncate : Bool}
    (unused : ∀ frame ∈ state.wal.file.frames, frame.salts ≠ salts)
    (keeps : pager.KeepsCommitted fresh truncate salts) : pager.Settled fresh state := by
  have final : ∀ id, id < pager.committedNPages →
      (pager.finalStore state committed)[id]? = pager.disk.recovered pager.crc fresh id := by
    intro id inside
    obtain ⟨_, after, ran, kept⟩ := keeps.returned
    rw [checkpointWalLocked_ok mode idle] at ran
    cases ran
    rw [← kept id inside, checkpointed_recovered truncate unused]
  have length : pager.committedNPages ≤ max pager.nPages (pager.foldedPages state) := by
    by_contra short
    have last : pager.committedNPages - 1 < pager.committedNPages := by omega
    have covered := mode.covered _ last
    rw [← mode.recovered fresh, ← final _ last, List.getElem?_eq_none (by
      rw [length_finalStore]
      omega)] at covered
    cases covered
  refine ⟨?_, ?_, length⟩
  · intro id page folds prefers
    have written := keeps.written id (pager.copied committed id)
      ((mem_checkpointTrace mode idle truncate salts id _).mpr ⟨folds, rfl⟩)
    rwa [copied, prefers] at written
  · intro id inside spared
    rw [← final id inside]
    exact (getElem?_finalStore committed (Nat.lt_of_lt_of_le inside length)).2 spared

/-- With uncommitted frames in the log a checkpoint does nothing. -/
theorem keeps_of_spilled (mode : pager.WalMode state committed opened stale)
    (busy : state.spilled.keys.isEmpty = false) (truncate : Bool) (salts fresh : Salts) :
    pager.KeepsCommitted fresh truncate salts := by
  have trace : pager.checkpointTrace truncate salts = [] := by
    simp [checkpointTrace, mode.attached, busy]
  have ran : checkpointWalLocked truncate salts pager = .ok () pager := by
    simp [checkpointWalLocked, mode.attached, busy]
  refine ⟨⟨_, _, ran, fun _ _ => rfl⟩, ?_, ?_⟩
  · intro count id _
    rw [trace, List.take_nil]
    rfl
  · intro id data member
    rw [trace] at member
    cases member

/-- A checkpoint keeps the committed pages exactly when it defers to spilled pages or the
pager is settled. -/
theorem checkpoint_keeps_iff (mode : pager.WalMode state committed opened stale)
    (truncate : Bool) {salts : Salts}
    (unused : ∀ frame ∈ state.wal.file.frames, frame.salts ≠ salts) (fresh : Salts) :
    pager.KeepsCommitted fresh truncate salts ↔
      state.spilled.keys.isEmpty = false ∨ pager.Settled fresh state := by
  cases idle : state.spilled.keys.isEmpty with
  | false => simp [keeps_of_spilled mode idle truncate salts fresh]
  | true =>
    simp only [Bool.true_eq_false, false_or]
    exact ⟨settled_of_keeps mode idle unused, keeps_of_settled mode idle truncate unused⟩

/-- A committed frame of page 1. -/
def loggedFrame (crc : Crc) : Frame 512 :=
  (Frame.unsummed 1 1 (1, 1) (Vector.replicate 512 1)).chainFrom crc
    (WalHeader.new crc (1, 1)).checksum

def loggedState (crc : Crc) : WalState 512 where
  wal := {
    file := { header := some (WalHeader.new crc (1, 1)), frames := [loggedFrame crc] }
    header := WalHeader.new crc (1, 1)
    checksum := (loggedFrame crc).checksum
    nFrames := 1
    headerDirty := false
    uncommitted := ∅
    recksumFrom := none }
  map := (∅ : AssocMap Nat Nat).insert 1 0
  spilled := ∅

/-- A two-page file with one commit in its log, and what is cached of page 1. -/
def loggedPager (crc : Crc) (cached : Option (Page 512)) : Pager 512 :=
  { initializeNewDb 512 crc [] with
    store := [FileHeader.refresh (Bytes.zero 512) 512 2 0 0 0, Bytes.zero 512]
    isNew := false
    cache := fun id => if id = 1 then cached else none
    nPages := 2
    dirtyPages := if cached.any Page.dirty then [1] else []
    dirtyCountApprox := if cached.any Page.dirty then 1 else 0
    wal := some (loggedState crc)
    committedNPages := 2 }

theorem loggedPager_mode (crc : Crc) (cached : Option (Page 512)) :
    (loggedPager crc cached).WalMode (loggedState crc) [loggedFrame crc] [] [] where
  attached := rfl
  chronicle := {
    frames := rfl
    count := rfl
    header := rfl
    salted := by
      intro frame member
      cases List.mem_singleton.mp member
      rfl
    foreign := by simp
    chained := rfl
    broken := fun _ broken => by cases broken
    running := fun _ => rfl
    ended := by
      intro frame last
      cases last
      exact Nat.one_ne_zero
    plain := by simp
    own := fun _ => rfl }
  sees := by
    intro id index found
    simp only [loggedState, AssocMap.lookup_insert_eq] at found
    split at found
    · next same =>
        cases found
        subst same
        exact ⟨loggedFrame crc, rfl, rfl, rfl⟩
    · cases found
  covered := by
    intro id inside
    have low : id < 2 := inside
    rcases (by omega : id = 0 ∨ id = 1) with rfl | rfl <;> rfl

theorem loggedState_unused (crc : Crc) :
    ∀ frame ∈ (loggedState crc).wal.file.frames, frame.salts ≠ (2, 2) := by
  intro frame member
  cases List.mem_singleton.mp member
  show ((1, 1) : Salts) ≠ (2, 2)
  decide

/-- Page 1 as an open transaction has changed it. -/
def editedPage : Page 512 where
  data := Vector.replicate 512 2
  dirty := true

theorem checkpoint_keeps_cold : (loggedPager crc32 none).KeepsCommitted (0, 0) true (2, 2) := by
  refine (checkpoint_keeps_iff (loggedPager_mode crc32 none) true (loggedState_unused crc32)
    (0, 0)).mpr
    (Or.inr ⟨?_, ?_, Nat.le_refl 2⟩)
  · intro id page _ prefers
    unfold preferred at prefers
    split at prefers
    · cases prefers
    · simp [loggedPager] at prefers
  · intro id inside spared
    have low : id < 2 := inside
    rw [(loggedPager_mode crc32 none).recovered]
    rcases (by omega : id = 0 ∨ id = 1) with rfl | rfl
    · rfl
    · exact absurd ⟨rfl, Or.inl rfl⟩ spared

/-- A checkpoint during a transaction copies the transaction's cached page into the main
file. -/
theorem checkpoint_writes_uncommitted :
    (loggedPager crc32 (some editedPage)).WalMode (loggedState crc32) [loggedFrame crc32] [] [] ∧
    (∀ frame ∈ (loggedState crc32).wal.file.frames, frame.salts ≠ (2, 2)) ∧
    ¬ (loggedPager crc32 (some editedPage)).KeepsCommitted (0, 0) false (2, 2) := by
  have mode := loggedPager_mode crc32 (some editedPage)
  refine ⟨mode, loggedState_unused crc32, ?_⟩
  intro keeps
  have written := keeps.written 1 editedPage.data
    ((mem_checkpointTrace mode rfl false (2, 2) 1 _).mpr ⟨⟨rfl, Or.inl rfl⟩, rfl⟩)
  rw [mode.recovered] at written
  have byte := congrArg (fun data => data.map (fun data => data.byteAt 0)) written
  revert byte
  decide

end Pager

end RustSql.Storage
