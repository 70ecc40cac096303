import Mathlib.Data.List.Induction
import RustSql.Storage.Wal

/-! The frames of a log: the newest bytes of a page, the chain of checksums, the walk of
recovery along it, and the index of pages. -/

namespace RustSql.Storage

open RustSql.Foundation

/-- The newest bytes the frames hold for a page. -/
def newest (frames : List (Frame size)) (id : Nat) : Option (Bytes size) :=
  (RedoLog.latest Frame.pageId frames id).map Frame.data

theorem newest_append (front back : List (Frame size)) (id : Nat) :
    newest (front ++ back) id = (newest back id).or (newest front id) := by
  unfold newest
  rw [RedoLog.latest_append]
  cases RedoLog.latest Frame.pageId back id <;> rfl

theorem newest_singleton (frame : Frame size) (id : Nat) :
    newest [frame] id = if frame.pageId = id then some frame.data else none := by
  by_cases same : frame.pageId = id <;> simp [newest, RedoLog.latest, same]

@[simp]
theorem length_rechainFrames (crc : Crc) (chain : Checksum) (frames : List (Frame size)) :
    (rechainFrames crc chain frames).length = frames.length := by
  induction frames generalizing chain with
  | nil => rfl
  | cons frame rest ih => simp [rechainFrames, ih]

theorem rechainFrames_append (crc : Crc) (chain : Checksum) (front back : List (Frame size)) :
    rechainFrames crc chain (front ++ back) =
      rechainFrames crc chain front ++ rechainFrames crc (chainAfter crc chain front) back := by
  induction front generalizing chain with
  | nil => rfl
  | cons frame rest ih => simp [rechainFrames, chainAfter, ih]

theorem chainAfter_append (crc : Crc) (chain : Checksum) (front back : List (Frame size)) :
    chainAfter crc chain (front ++ back) = chainAfter crc (chainAfter crc chain front) back := by
  induction front generalizing chain with
  | nil => rfl
  | cons frame rest ih => simp [chainAfter, ih]

/-- A frame's checksum does not enter its own sum. -/
theorem sum_chainFrom (crc : Crc) (chain other : Checksum) (frame : Frame size) :
    (frame.chainFrom crc other).sum crc chain = frame.sum crc chain := rfl

theorem rechainFrames_idem (crc : Crc) (chain : Checksum) (frames : List (Frame size)) :
    rechainFrames crc chain (rechainFrames crc chain frames) = rechainFrames crc chain frames := by
  induction frames generalizing chain with
  | nil => rfl
  | cons frame rest ih =>
    simp only [rechainFrames, sum_chainFrom, ih]
    rfl

theorem chainAfter_rechainFrames (crc : Crc) (chain : Checksum) (frames : List (Frame size)) :
    chainAfter crc chain (rechainFrames crc chain frames) = chainAfter crc chain frames := by
  induction frames generalizing chain with
  | nil => rfl
  | cons frame rest ih => simp only [rechainFrames, chainAfter, sum_chainFrom, ih]

/-- Only checksums change. -/
theorem getElem?_rechainFrames (crc : Crc) (chain : Checksum) (frames : List (Frame size))
    (index : Nat) :
    (rechainFrames crc chain frames)[index]?.map
        (fun frame => (frame.pageId, frame.commit, frame.salts, frame.data)) =
      frames[index]?.map (fun frame => (frame.pageId, frame.commit, frame.salts, frame.data)) := by
  induction frames generalizing chain index with
  | nil => rfl
  | cons frame rest ih =>
    cases index with
    | zero => rfl
    | succ index => simpa [rechainFrames] using ih (frame.sum crc chain) index

theorem rechainFrames_entries (crc : Crc) (chain : Checksum) (frames : List (Frame size)) :
    (rechainFrames crc chain frames).map (fun frame => (frame.pageId, frame.data)) =
      frames.map (fun frame => (frame.pageId, frame.data)) := by
  induction frames generalizing chain with
  | nil => rfl
  | cons frame rest ih =>
    rw [rechainFrames, List.map_cons, List.map_cons, ih]
    rfl

theorem mem_rechainFrames {crc : Crc} {chain : Checksum} {frames : List (Frame size)}
    {frame : Frame size} (member : frame ∈ rechainFrames crc chain frames) :
    ∃ before ∈ frames, frame.pageId = before.pageId ∧ frame.commit = before.commit ∧
      frame.salts = before.salts ∧ frame.data = before.data := by
  obtain ⟨index, inside, rfl⟩ := List.getElem_of_mem member
  have same := getElem?_rechainFrames crc chain frames index
  rw [List.getElem?_eq_getElem inside, List.getElem?_eq_getElem (by simpa using inside)] at same
  simp only [Option.map_some, Option.some.injEq, Prod.mk.injEq] at same
  exact ⟨_, List.getElem_mem _, same⟩

/-- The checksums continue `chain`. -/
def Chained (crc : Crc) (chain : Checksum) (frames : List (Frame size)) : Prop :=
  rechainFrames crc chain frames = frames

theorem chained_append {crc : Crc} {chain : Checksum} {front back : List (Frame size)} :
    Chained crc chain (front ++ back) ↔
      Chained crc chain front ∧ Chained crc (chainAfter crc chain front) back := by
  unfold Chained
  rw [rechainFrames_append]
  constructor
  · intro same
    exact List.append_inj same (by simp)
  · rintro ⟨left, right⟩
    rw [left, right]

theorem Chained.take {crc : Crc} {chain : Checksum} {frames : List (Frame size)}
    (chained : Chained crc chain frames) (count : Nat) :
    Chained crc chain (frames.take count) := by
  rw [← List.take_append_drop count frames] at chained
  exact (chained_append.mp chained).1

/-- The walk passes over a chained run of its own generation. -/
theorem recoverWalk_chained {crc : Crc} {salts : Salts} (frames rest : List (Frame size))
    {chain : Checksum} (chained : Chained crc chain frames)
    (salted : ∀ frame ∈ frames, frame.salts = salts) (index : Nat) (found : Recovery) :
    ∃ later, recoverWalk crc salts (frames ++ rest) index chain found =
        recoverWalk crc salts rest (index + frames.length) (chainAfter crc chain frames) later ∧
      (∀ last, frames.getLast? = some last → last.commit ≠ 0 →
        later.lastCommit = index + frames.length ∧
          later.lastCommitChain = chainAfter crc chain frames) ∧
      (frames = [] → later = found) := by
  induction frames generalizing chain index found with
  | nil => exact ⟨found, rfl, by simp, fun _ => rfl⟩
  | cons frame more ih =>
    unfold Chained at chained
    rw [rechainFrames, List.cons.injEq] at chained
    have sum : frame.checksum = frame.sum crc chain :=
      (congrArg Frame.checksum chained.1).symm
    obtain ⟨later, walked, ended, none⟩ := ih chained.2
      (fun other member => salted other (List.mem_cons_of_mem _ member)) (index + 1)
      (if frame.commit ≠ 0 then
        { lastValid := index + 1, lastCommit := index + 1,
          lastCommitChain := frame.sum crc chain }
      else { found with lastValid := index + 1 })
    refine ⟨later, ?_, ?_, by simp⟩
    · rw [List.cons_append, recoverWalk, if_neg (by simp [salted frame List.mem_cons_self]),
        if_neg (by simp [sum])]
      rw [show index + (frame :: more).length = index + 1 + more.length by
        simp only [List.length_cons]; omega, chainAfter, ← walked]
    · intro last isLast commits
      cases more with
      | nil =>
        have same : frame = last := by simpa using isLast
        rw [none rfl, if_pos (same ▸ commits)]
        exact ⟨rfl, rfl⟩
      | cons second others =>
        obtain ⟨count, chainSame⟩ := ended last (by simpa using isLast) commits
        refine ⟨?_, chainSame⟩
        rw [count]
        simp only [List.length_cons]
        omega

/-- Frames without a commit mark, or of another generation, commit nothing. -/
theorem recoverWalk_quiet (crc : Crc) {salts : Salts} (opened stale : List (Frame size))
    (plain : ∀ frame ∈ opened, frame.commit = 0)
    (foreign : ∀ frame ∈ stale, frame.salts ≠ salts) (index : Nat) (chain : Checksum)
    (found : Recovery) :
    (recoverWalk crc salts (opened ++ stale) index chain found).lastCommit =
      found.lastCommit ∧
    (recoverWalk crc salts (opened ++ stale) index chain found).lastCommitChain =
      found.lastCommitChain := by
  induction opened generalizing index chain found with
  | nil =>
    cases stale with
    | nil => exact ⟨rfl, rfl⟩
    | cons frame rest =>
      rw [List.nil_append, recoverWalk, if_pos (foreign frame List.mem_cons_self)]
      exact ⟨rfl, rfl⟩
  | cons frame rest ih =>
    rw [List.cons_append, recoverWalk]
    split
    · exact ⟨rfl, rfl⟩
    · split
      · exact ⟨rfl, rfl⟩
      · simp only [plain frame List.mem_cons_self, ne_eq, not_true_eq_false, if_false]
        exact ih (fun other member => plain other (List.mem_cons_of_mem _ member)) (index + 1)
          (frame.sum crc chain) { found with lastValid := index + 1 }

/-- The entries of a page index name the newest frame of their page. -/
def Sees (frames : List (Frame size)) (map : AssocMap Nat Nat) : Prop :=
  ∀ id index, map.lookup id = some index → ∃ frame, frames[index]? = some frame ∧
    frame.pageId = id ∧ newest frames id = some frame.data

/-- Every page below `bound` that has a frame has an entry. -/
def Covers (frames : List (Frame size)) (map : AssocMap Nat Nat) (bound : Nat) : Prop :=
  ∀ id, id < bound → map.lookup id = none → newest frames id = none

/-- Enter frames that start at position `start`. -/
def indexFrames (map : AssocMap Nat Nat) (start : Nat) (frames : List (Frame size)) :
    AssocMap Nat Nat :=
  (frames.zipIdx start).foldl (fun map entry => map.insert entry.1.pageId entry.2) map

/-- Pages with a new frame are found there, the others where they were. -/
theorem lookup_indexFrames (map : AssocMap Nat Nat) (front frames : List (Frame size))
    (id : Nat) :
    (newest frames id = none →
      (indexFrames map front.length frames).lookup id = map.lookup id) ∧
    (∀ data, newest frames id = some data → ∃ index frame,
      (indexFrames map front.length frames).lookup id = some index ∧
        (front ++ frames)[index]? = some frame ∧ frame.pageId = id ∧ frame.data = data) := by
  induction frames using List.reverseRecOn with
  | nil => exact ⟨fun _ => rfl, fun _ found => by cases found⟩
  | append_singleton frames last ih =>
    have entered : indexFrames map front.length (frames ++ [last]) =
        (indexFrames map front.length frames).insert last.pageId
          (front.length + frames.length) := by
      simp [indexFrames, List.zipIdx_append]
    rw [entered, AssocMap.lookup_insert_eq, newest_append, newest_singleton]
    by_cases same : last.pageId = id
    · rw [if_pos same, if_pos same.symm]
      refine ⟨fun absent => by simp at absent, ?_⟩
      intro data found
      refine ⟨_, last, rfl, ?_, same, Option.some.inj found⟩
      rw [List.getElem?_append_right (Nat.le_add_right _ _), Nat.add_sub_cancel_left]
      simp
    · rw [if_neg same, if_neg (Ne.symm same), Option.none_or]
      refine ⟨ih.1, ?_⟩
      intro data found
      obtain ⟨index, frame, entry, there, rest⟩ := ih.2 data found
      refine ⟨index, frame, entry, ?_, rest⟩
      rw [← List.append_assoc, List.getElem?_append_left (List.getElem?_eq_some_iff.mp there).1,
        there]

theorem pageMap_exact (frames : List (Frame size)) :
    Sees frames (indexFrames ∅ 0 frames) ∧
      ∀ bound, Covers frames (indexFrames ∅ 0 frames) bound := by
  refine ⟨?_, ?_⟩
  · intro id index found
    obtain ⟨absent, present⟩ := lookup_indexFrames ∅ [] frames id
    cases latest : newest frames id with
    | none =>
      cases found.symm.trans (absent latest)
    | some data =>
      obtain ⟨index', frame, entry, there, named, rfl⟩ := present data latest
      cases found.symm.trans entry
      exact ⟨frame, there, named, rfl⟩
  · intro bound id _ missing
    cases latest : newest frames id with
    | none => rfl
    | some data =>
      obtain ⟨index, _, entry, _⟩ := (lookup_indexFrames ∅ [] frames id).2 data latest
      cases missing.symm.trans entry

end RustSql.Storage
