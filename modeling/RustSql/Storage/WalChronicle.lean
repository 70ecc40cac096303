import RustSql.Storage.WalChain

/-! A log under any sequence of its calls, also those that append a page twice in one
transaction, and after a write of one frame that broke off. -/

namespace RustSql.Storage

open RustSql.Foundation

@[simp]
theorem Wal.writeHeader_headerDirty (wal : Wal size) : wal.writeHeader.headerDirty = false := by
  unfold Wal.writeHeader
  split
  · rfl
  · next clean => simpa using clean

@[simp]
theorem Wal.writeHeader_recksumFrom (wal : Wal size) :
    wal.writeHeader.recksumFrom = wal.recksumFrom := by
  unfold Wal.writeHeader
  split <;> rfl

theorem writeFrames_append (front back written : List (Frame size)) :
    writeFrames (front ++ back) front.length written =
      front ++ written ++ back.drop written.length := by
  simp [writeFrames, List.drop_append, List.append_assoc]

theorem writeFrames_set (front back : List (Frame size)) (frame : Frame size) (index : Nat)
    (inside : index < front.length) :
    writeFrames (front ++ back) index [frame] = front.set index frame ++ back := by
  rw [writeFrames, List.length_singleton, List.take_append_of_le_length (Nat.le_of_lt inside),
    List.drop_append_of_le_length inside, List.set_eq_take_append_cons_drop, if_pos inside]
  simp [List.append_assoc]

theorem mem_writeFrames {frames written : List (Frame size)} {start : Nat} {frame : Frame size}
    (member : frame ∈ writeFrames frames start written) : frame ∈ frames ∨ frame ∈ written := by
  unfold writeFrames at member
  rcases List.mem_append.mp member with front | back
  · rcases List.mem_append.mp front with kept | new
    · exact Or.inl (List.mem_of_mem_take kept)
    · exact Or.inr new
  · exact Or.inl (List.mem_of_mem_drop back)

/-- The position of a page's last frame. -/
def lastSlot : List (Frame size) → Nat → Option Nat
  | [], _ => none
  | frame :: rest, id =>
    match lastSlot rest id with
    | some slot => some (slot + 1)
    | none => if frame.pageId = id then some 0 else none

theorem lastSlot_concat (frames : List (Frame size)) (frame : Frame size) (id : Nat) :
    lastSlot (frames ++ [frame]) id =
      if frame.pageId = id then some frames.length else lastSlot frames id := by
  induction frames with
  | nil => rfl
  | cons first rest ih =>
    rw [List.cons_append, lastSlot, ih]
    by_cases same : frame.pageId = id
    · simp [same]
    · simp [same, lastSlot]

theorem lastSlot_some {frames : List (Frame size)} {id slot : Nat}
    (found : lastSlot frames id = some slot) :
    ∃ frame, frames[slot]? = some frame ∧ frame.pageId = id := by
  induction frames generalizing slot with
  | nil => cases found
  | cons first rest ih =>
    rw [lastSlot] at found
    cases later : lastSlot rest id with
    | some position =>
      rw [later] at found
      cases found
      exact ih later
    | none =>
      rw [later] at found
      simp only at found
      split at found
      · next named =>
          cases found
          exact ⟨first, rfl, named⟩
      · cases found

theorem lastSlot_none {frames : List (Frame size)} {id : Nat} :
    lastSlot frames id = none ↔ ∀ frame ∈ frames, frame.pageId ≠ id := by
  induction frames with
  | nil => simp [lastSlot]
  | cons first rest ih =>
    rw [lastSlot, List.forall_mem_cons, ← ih]
    cases lastSlot rest id with
    | some slot => simp
    | none => by_cases same : first.pageId = id <;> simp [same]

/-- Only the page numbers count. -/
theorem lastSlot_congr {frames others : List (Frame size)}
    (same : frames.map Frame.pageId = others.map Frame.pageId) (id : Nat) :
    lastSlot frames id = lastSlot others id := by
  induction frames generalizing others with
  | nil =>
    rw [List.map_eq_nil_iff.mp same.symm]
  | cons first rest ih =>
    cases others with
    | nil => simp at same
    | cons other more =>
      rw [List.map_cons, List.map_cons, List.cons.injEq] at same
      rw [lastSlot, lastSlot, ih same.2, same.1]

/-- The page numbers and bytes of frames. -/
def frameEntries (frames : List (Frame size)) : List (Nat × Bytes size) :=
  frames.map (fun frame => (frame.pageId, frame.data))

/-- The entries with the last one of a page replaced, if there is one. -/
def overwriteLast (id : Nat) (data : Bytes size) :
    List (Nat × Bytes size) → Option (List (Nat × Bytes size))
  | [] => none
  | entry :: rest =>
    match overwriteLast id data rest with
    | some changed => some (entry :: changed)
    | none => if entry.1 = id then some ((id, data) :: rest) else none

theorem overwriteLast_entries (frames : List (Frame size)) {frame : Frame size} {id : Nat}
    (named : frame.pageId = id) :
    overwriteLast id frame.data (frameEntries frames) =
      (lastSlot frames id).map (fun slot => frameEntries (frames.set slot frame)) := by
  induction frames with
  | nil => rfl
  | cons first rest ih =>
    rw [frameEntries, List.map_cons, overwriteLast, lastSlot]
    rw [frameEntries] at ih
    rw [ih]
    cases lastSlot rest id with
    | some slot => rfl
    | none =>
      simp only [Option.map_none]
      split
      · simp [frameEntries, named]
      · rfl

/-- The parts of a log file. A write that broke off may have left anything in the first
`torn` places behind the live frames. -/
structure Chronicle (crc : Crc) (torn : Nat) (wal : Wal size)
    (committed opened stale : List (Frame size)) : Prop where
  frames : wal.file.frames = committed ++ opened ++ stale
  count : wal.nFrames = committed.length + opened.length
  header : if wal.headerDirty then wal.file.header = none ∧ wal.file.frames = []
    else wal.file.header = some wal.header
  salted : ∀ frame ∈ committed ++ opened, frame.salts = wal.header.salts
  foreign : ∀ frame ∈ stale.drop torn, frame.salts ≠ wal.header.salts
  chained : Chained crc wal.header.checksum
    ((committed ++ opened).take (wal.recksumFrom.getD wal.nFrames))
  broken : ∀ start, wal.recksumFrom = some start → committed.length ≤ start ∧ start < wal.nFrames
  running : wal.recksumFrom = none →
    wal.checksum = chainAfter crc wal.header.checksum (committed ++ opened)
  ended : ∀ frame, committed.getLast? = some frame → frame.commit ≠ 0
  plain : ∀ frame ∈ opened, frame.commit = 0
  own : ∀ id, wal.uncommitted.lookup id =
    (lastSlot opened id).map (fun slot => committed.length + slot)

namespace Chronicle

variable {crc : Crc} {torn : Nat} {wal : Wal size} {committed opened stale : List (Frame size)}

theorem committed_chained (chronicle : Chronicle crc torn wal committed opened stale) :
    Chained crc wal.header.checksum committed := by
  have chained := chronicle.chained
  have enough : committed.length ≤ wal.recksumFrom.getD wal.nFrames := by
    cases broken : wal.recksumFrom with
    | none =>
      have count := chronicle.count
      simp only [Option.getD_none]
      omega
    | some start => exact (chronicle.broken start broken).1
  rw [List.take_append, List.take_of_length_le enough] at chained
  exact (chained_append.mp chained).1

theorem header_written (chronicle : Chronicle crc torn wal committed opened stale)
    (live : 0 < wal.nFrames) : wal.headerDirty = false ∧ wal.file.header = some wal.header := by
  have kept := chronicle.header
  split at kept
  · have count := chronicle.count
    have empty := congrArg List.length (kept.2.symm.trans chronicle.frames)
    simp only [List.length_nil, List.length_append] at empty
    omega
  · next clean => exact ⟨by simpa using clean, kept⟩

theorem headerless (chronicle : Chronicle crc torn wal committed opened stale)
    (absent : wal.file.header = none) : wal.file.frames = [] := by
  have header := chronicle.header
  split at header
  · exact header.2
  · rw [absent] at header
    cases header

theorem writeHeader (chronicle : Chronicle crc torn wal committed opened stale) :
    Chronicle crc torn wal.writeHeader committed opened stale := by
  unfold Wal.writeHeader
  split
  · exact ⟨chronicle.frames, chronicle.count, rfl, chronicle.salted, chronicle.foreign,
      chronicle.chained, chronicle.broken, chronicle.running, chronicle.ended, chronicle.plain,
      chronicle.own⟩
  · exact chronicle

/-- A frame without a commit mark goes behind those of the open transaction. -/
theorem append (chronicle : Chronicle crc torn wal committed opened stale) (id : Nat)
    (data : Bytes size) :
    ∃ frame : Frame size, frame.pageId = id ∧ frame.data = data ∧
      Chronicle crc (torn - 1) (wal.append crc id data false).1 committed (opened ++ [frame])
        (stale.drop 1) := by
  have ready := chronicle.writeHeader
  have written := Wal.writeHeader_headerDirty wal
  refine ⟨(Frame.unsummed id 0 wal.writeHeader.header.salts data).chainFrom crc
    wal.writeHeader.checksum, rfl, rfl, ?_⟩
  simp only [Wal.append, Bool.false_eq_true, if_false]
  generalize wal.writeHeader = wal' at ready written
  have front : (committed ++ opened).length = wal'.nFrames := by simp [ready.count]
  generalize made : (Frame.unsummed id 0 wal'.header.salts data).chainFrom crc wal'.checksum =
    frame
  have salts : frame.salts = wal'.header.salts := by rw [← made]; rfl
  have named : frame.pageId = id := by rw [← made]; rfl
  have sum : frame.chainFrom crc wal'.checksum = frame := by rw [← made]; rfl
  refine ⟨?_, ?_, ?_, ?_, ?_, ?_, ?_, ?_, ready.ended, ?_, ?_⟩
  · show writeFrames wal'.file.frames wal'.nFrames [frame] = _
    rw [ready.frames, ← front, writeFrames_append]
    simp [List.append_assoc]
  · show wal'.nFrames + 1 = _
    simp [ready.count, Nat.add_assoc]
  · have kept := ready.header
    simpa [written] using kept
  · intro other member
    rw [← List.append_assoc] at member
    rcases List.mem_append.mp member with old | new
    · exact ready.salted other old
    · rw [List.mem_singleton.mp new]
      exact salts
  · intro other member
    rw [List.drop_drop] at member
    refine ready.foreign other (List.mem_of_mem_drop (?_ : other ∈ (stale.drop torn).drop
      (1 - torn)))
    rw [List.drop_drop]
    convert member using 2
    omega
  · rw [← List.append_assoc]
    have chained := ready.chained
    cases broken : wal'.recksumFrom with
    | none =>
      rw [broken, Option.getD_none, List.take_of_length_le (by omega)] at chained
      rw [Option.getD_none, List.take_of_length_le (by simp [ready.count]; omega)]
      refine chained_append.mpr ⟨chained, ?_⟩
      rw [← ready.running broken]
      exact congrArg (fun frame => [frame]) sum
    | some start =>
      have bounds := ready.broken start broken
      rw [broken, Option.getD_some] at chained
      rwa [Option.getD_some, List.take_append_of_le_length (by omega)]
  · intro start broken
    have bounds := ready.broken start broken
    exact ⟨bounds.1, Nat.lt_succ_of_lt bounds.2⟩
  · intro whole
    rw [← List.append_assoc, chainAfter_append, ← ready.running whole]
    exact congrArg Frame.checksum sum.symm
  · intro other member
    rcases List.mem_append.mp member with old | new
    · exact ready.plain other old
    · rw [List.mem_singleton.mp new, ← made]
      rfl
  · intro other
    rw [AssocMap.lookup_insert_eq, lastSlot_concat, named]
    by_cases same : other = id
    · rw [if_pos same, if_pos same.symm, ready.count]
      rfl
    · rw [if_neg same, if_neg (Ne.symm same), ready.own other]

/-- A frame of the open transaction changes in place, and the chain is broken from `start`
on. -/
theorem replace (chronicle : Chronicle crc torn wal committed opened stale) {slot start : Nat}
    {old frame : Frame size} (there : opened[slot]? = some old)
    (named : frame.pageId = old.pageId) (salts : frame.salts = wal.header.salts)
    (plain : frame.commit = 0) (behind : committed.length ≤ start)
    (before : start ≤ committed.length + slot)
    (sooner : start ≤ wal.recksumFrom.getD wal.nFrames) :
    Chronicle crc torn { wal with
      file := { wal.file with
        frames := writeFrames wal.file.frames (committed.length + slot) [frame] }
      recksumFrom := some start } committed (opened.set slot frame) stale := by
  have inside := (List.getElem?_eq_some_iff.mp there).1
  have front : (committed ++ opened).set (committed.length + slot) frame =
      committed ++ opened.set slot frame := by
    rw [List.set_append_right _ _ (Nat.le_add_right _ _), Nat.add_sub_cancel_left]
  refine ⟨?_, ?_, ?_, ?_, chronicle.foreign, ?_, ?_, ?_, chronicle.ended, ?_, ?_⟩
  · show writeFrames wal.file.frames (committed.length + slot) [frame] = _
    rw [chronicle.frames, writeFrames_set _ _ _ _ (by simp; omega), front]
  · simp [chronicle.count]
  · have kept := chronicle.header_written (by rw [chronicle.count]; omega)
    simpa [kept.1] using kept.2
  · intro other member
    rcases List.mem_append.mp member with old | new
    · exact chronicle.salted other (List.mem_append_left _ old)
    · rcases List.mem_or_eq_of_mem_set new with old | rfl
      · exact chronicle.salted other (List.mem_append_right _ old)
      · exact salts
  · rw [Option.getD_some, ← front, List.take_set_of_le before]
    have shorter := chronicle.chained.take start
    rwa [List.take_take, Nat.min_eq_left sooner] at shorter
  · intro first same
    cases same
    exact ⟨behind, Nat.lt_of_le_of_lt before (by rw [chronicle.count]; omega)⟩
  · intro whole
    cases whole
  · intro other member
    rcases List.mem_or_eq_of_mem_set member with old | rfl
    · exact chronicle.plain other old
    · exact plain
  · intro id
    rw [chronicle.own id]
    congr 1
    apply lastSlot_congr
    rw [List.map_set, named]
    have room : slot < (opened.map Frame.pageId).length := by simpa using inside
    have same : (opened.map Frame.pageId)[slot] = old.pageId := by
      rw [List.getElem_map, (List.getElem?_eq_some_iff.mp there).2]
    rw [← same, List.set_getElem_self]

/-- A page that has a frame in the open transaction is written over its last one. -/
theorem overwrite (chronicle : Chronicle crc torn wal committed opened stale) {id slot : Nat}
    (data : Bytes size) (found : lastSlot opened id = some slot) :
    Chronicle crc torn (wal.spill crc id data).1 committed
      (opened.set slot (Frame.unsummed id 0 wal.header.salts data)) stale := by
  obtain ⟨old, there, named⟩ := lastSlot_some found
  have known : wal.uncommitted.lookup id = some (committed.length + slot) := by
    rw [chronicle.own id, found]
    rfl
  have inside := (List.getElem?_eq_some_iff.mp there).1
  simp only [Wal.spill, known]
  refine chronicle.replace there named.symm rfl rfl ?_ ?_ ?_
  · cases broken : wal.recksumFrom with
    | none => exact Nat.le_add_right _ _
    | some first =>
      exact Nat.le_min.mpr ⟨(chronicle.broken first broken).1, Nat.le_add_right _ _⟩
  · cases wal.recksumFrom with
    | none => exact Nat.le_refl _
    | some first => exact Nat.min_le_right _ _
  · cases wal.recksumFrom with
    | none =>
      simp only [Option.elim_none, Option.getD_none, chronicle.count]
      omega
    | some first => exact Nat.min_le_left _ _

theorem spill_append (chronicle : Chronicle crc torn wal committed opened stale) {id : Nat}
    (data : Bytes size) (absent : lastSlot opened id = none) :
    wal.spill crc id data = wal.append crc id data false := by
  have missing : wal.uncommitted.lookup id = none := by
    rw [chronicle.own id, absent]
    rfl
  simp only [Wal.spill, missing]

/-- The checksum stored in front of the broken chain continues it. -/
theorem seed (chronicle : Chronicle crc torn wal committed opened stale) {start : Nat}
    (broken : wal.recksumFrom = some start) :
    (if start = 0 then wal.header.checksum
      else (wal.file.frames[start - 1]?.map Frame.checksum).getD wal.header.checksum) =
      chainAfter crc wal.header.checksum ((committed ++ opened).take start) := by
  have chained := chronicle.chained
  have bounds := (chronicle.broken start broken).2
  rw [chronicle.count, ← List.length_append] at bounds
  rw [broken, Option.getD_some] at chained
  cases start with
  | zero => simp [chainAfter]
  | succ last =>
    have inside : last < (committed ++ opened).length := by omega
    have there : wal.file.frames[last]? = some (committed ++ opened)[last] := by
      rw [chronicle.frames, List.getElem?_append_left inside, List.getElem?_eq_getElem inside]
    rw [List.take_succ_eq_append_getElem inside] at chained ⊢
    have sum := (chained_append.mp chained).2
    rw [if_neg (Nat.succ_ne_zero _), Nat.add_sub_cancel, there, chainAfter_append]
    exact congrArg Frame.checksum (List.head_eq_of_cons_eq sum).symm

/-- Repairing the checksums changes nothing else. -/
theorem rechain (chronicle : Chronicle crc torn wal committed opened stale) :
    Chronicle crc torn (wal.rechain crc) committed
        (rechainFrames crc (chainAfter crc wal.header.checksum committed) opened) stale ∧
      (wal.rechain crc).recksumFrom = none := by
  cases broken : wal.recksumFrom with
  | none =>
    have chained := chronicle.chained
    rw [broken, Option.getD_none, List.take_of_length_le (by simp [chronicle.count])] at chained
    rw [(chained_append.mp chained).2]
    simpa only [Wal.rechain, broken] using ⟨chronicle, trivial⟩
  | some start =>
    have bounds := chronicle.broken start broken
    have front : (committed ++ opened).length = wal.nFrames := by simp [chronicle.count]
    have chained := chronicle.chained
    rw [broken, Option.getD_some] at chained
    -- The live frames are rewritten as a whole; those in front of `start` keep their sums.
    have body : (wal.file.frames.drop start).take (wal.nFrames - start) =
        (committed ++ opened).drop start := by
      rw [chronicle.frames, List.drop_append_of_le_length (by omega),
        List.take_append_of_le_length (by rw [List.length_drop, front]),
        List.take_of_length_le (by rw [List.length_drop, front])]
    have whole : (committed ++ opened).take start ++ rechainFrames crc
        (chainAfter crc wal.header.checksum ((committed ++ opened).take start))
        ((committed ++ opened).drop start) =
        committed ++
          rechainFrames crc (chainAfter crc wal.header.checksum committed) opened := by
      have split := rechainFrames_append crc wal.header.checksum
        ((committed ++ opened).take start) ((committed ++ opened).drop start)
      rw [List.take_append_drop, rechainFrames_append, chained,
        chronicle.committed_chained] at split
      exact split.symm
    have running : chainAfter crc (chainAfter crc wal.header.checksum
        ((committed ++ opened).take start)) ((committed ++ opened).drop start) =
        chainAfter crc wal.header.checksum (committed ++ opened) := by
      rw [← chainAfter_append, List.take_append_drop]
    simp only [Wal.rechain, broken, chronicle.seed broken, body, running]
    refine ⟨⟨?_, ?_, ?_, ?_, chronicle.foreign, ?_, ?_, ?_, chronicle.ended, ?_, ?_⟩, trivial⟩
    · show writeFrames wal.file.frames start _ = _
      have tail : (committed ++ opened ++ stale).drop wal.nFrames = stale := by
        rw [← front]
        exact List.drop_left
      rw [← whole, writeFrames, length_rechainFrames, chronicle.frames,
        List.take_append_of_le_length (by omega), List.length_drop, front,
        Nat.add_sub_cancel' (by omega), tail]
    · simp [chronicle.count]
    · have kept := chronicle.header_written (by omega)
      simpa [kept.1] using kept.2
    · intro frame member
      rcases List.mem_append.mp member with old | new
      · exact chronicle.salted frame (List.mem_append_left _ old)
      · obtain ⟨before, there, _, _, salts, _⟩ := mem_rechainFrames new
        rw [salts]
        exact chronicle.salted before (List.mem_append_right _ there)
    · show Chained crc wal.header.checksum ((committed ++ _).take wal.nFrames)
      rw [List.take_of_length_le (by simp [chronicle.count])]
      exact chained_append.mpr ⟨chronicle.committed_chained, rechainFrames_idem _ _ _⟩
    · intro first same
      cases same
    · intro _
      rw [chainAfter_append, chainAfter_append, chainAfter_rechainFrames]
    · intro frame member
      obtain ⟨before, there, _, commit, _⟩ := mem_rechainFrames member
      rw [commit]
      exact chronicle.plain before there
    · intro id
      rw [chronicle.own id]
      congr 1
      apply lastSlot_congr
      have entries := congrArg (List.map Prod.fst) (rechainFrames_entries crc
        (chainAfter crc wal.header.checksum committed) opened)
      simpa [List.map_map, Function.comp_def] using entries.symm

end Chronicle

@[simp]
theorem Wal.rechain_kept (crc : Crc) (wal : Wal size) :
    (wal.rechain crc).header = wal.header ∧ (wal.rechain crc).nFrames = wal.nFrames ∧
      (wal.rechain crc).uncommitted = wal.uncommitted ∧
      (wal.rechain crc).headerDirty = wal.headerDirty := by
  unfold Wal.rechain
  split <;> exact ⟨rfl, rfl, rfl, rfl⟩

namespace Wal

theorem commitFrames_cons (salts : Salts) (entry second : Nat × Bytes size)
    (rest : List (Nat × Bytes size)) : commitFrames salts (entry :: second :: rest) =
      Frame.unsummed entry.1 0 salts entry.2 :: commitFrames salts (second :: rest) := rfl

theorem commitFrames_entries (salts : Salts) (written : List (Nat × Bytes size)) :
    (commitFrames salts written).map (fun frame => (frame.pageId, frame.data)) = written := by
  induction written with
  | nil => rfl
  | cons entry rest ih =>
    cases rest with
    | nil => rfl
    | cons second others =>
      rw [commitFrames_cons, List.map_cons, ih]
      rfl

theorem commitFrames_salts (salts : Salts) (written : List (Nat × Bytes size)) :
    ∀ frame ∈ commitFrames salts written, frame.salts = salts := by
  induction written with
  | nil => simp [commitFrames]
  | cons entry rest ih =>
    cases rest with
    | nil => simp [commitFrames, Frame.unsummed]
    | cons second others =>
      rw [commitFrames_cons]
      simpa [Frame.unsummed] using ih

/-- The last frame of a commit carries the mark. -/
theorem commitFrames_last (salts : Salts) (written : List (Nat × Bytes size))
    {frame : Frame size} (last : (commitFrames salts written).getLast? = some frame) :
    frame.commit = 1 := by
  induction written with
  | nil => simp [commitFrames] at last
  | cons entry rest ih =>
    cases rest with
    | nil =>
      simp only [commitFrames, List.getLast?_singleton, Option.some.injEq] at last
      rw [← last]
      rfl
    | cons second others =>
      have nonempty : commitFrames salts (second :: others) ≠ [] := by
        intro empty
        have entries := commitFrames_entries salts (second :: others)
        simp [empty] at entries
      rw [commitFrames_cons, List.getLast?_cons_of_ne_nil nonempty] at last
      exact ih last

theorem commitFrames_plain {salts : Salts} {written : List (Nat × Bytes size)} :
    ∀ frame ∈ (commitFrames salts written).dropLast, frame.commit = 0 := by
  induction written with
  | nil => simp [commitFrames]
  | cons entry rest ih =>
    cases rest with
    | nil => simp [commitFrames]
    | cons second others =>
      have nonempty : commitFrames salts (second :: others) ≠ [] := by
        intro empty
        have entries := commitFrames_entries salts (second :: others)
        simp [empty] at entries
      rw [commitFrames_cons, List.dropLast_cons_of_ne_nil nonempty]
      intro frame member
      rcases List.mem_cons.mp member with rfl | later
      · rfl
      · exact ih frame later

/-- Write the frames of a commit behind the live ones of a repaired log. -/
def sealCommit (crc : Crc) (wal : Wal size) (written : List (Nat × Bytes size)) : Wal size :=
  let frames := commitFrames wal.header.salts written
  { wal with
    file := { wal.file with
      frames := writeFrames wal.file.frames wal.nFrames
        (rechainFrames crc wal.checksum frames) }
    checksum := chainAfter crc wal.checksum frames
    nFrames := wal.nFrames + written.length
    uncommitted := ∅ }

theorem append_commit (crc : Crc) (wal : Wal size) (id : Nat) (data : Bytes size) :
    (wal.append crc id data true).1 = (wal.writeHeader.rechain crc).sealCommit crc [(id, data)] :=
  rfl

end Wal

/-- The pages of a batch that are written. -/
def dirtyEntries (pages : List (Nat × Page size)) : List (Nat × Bytes size) :=
  (pages.filter (fun entry => entry.2.dirty)).map (fun entry => (entry.1, entry.2.data))

theorem Wal.appendBatch_eq (crc : Crc) (wal : Wal size) (pages : List (Nat × Page size)) :
    wal.appendBatch crc pages =
      if pages.isEmpty then (wal, [])
      else if (dirtyEntries pages).isEmpty then (wal.writeHeader.rechain crc, [])
      else
        ((wal.writeHeader.rechain crc).sealCommit crc (dirtyEntries pages),
          ((dirtyEntries pages).map Prod.fst).zipIdx (wal.writeHeader.rechain crc).nFrames) :=
  rfl

/-- A commit seals the frames of the open transaction together with its own. -/
theorem Chronicle.sealCommit {crc : Crc} {torn : Nat} {wal : Wal size}
    {committed opened stale : List (Frame size)}
    (chronicle : Chronicle crc torn wal committed opened stale)
    (repaired : wal.recksumFrom = none) (clean : wal.headerDirty = false)
    {written : List (Nat × Bytes size)} (nonempty : written ≠ []) :
    ∃ batch, frameEntries batch = written ∧ (∀ frame ∈ batch.dropLast, frame.commit = 0) ∧
      Chronicle crc (torn - written.length) (wal.sealCommit crc written)
        (committed ++ opened ++ batch) [] (stale.drop written.length) := by
  have front : (committed ++ opened).length = wal.nFrames := by simp [chronicle.count]
  have running := chronicle.running repaired
  have named := Wal.commitFrames_entries wal.header.salts written
  have salts := Wal.commitFrames_salts wal.header.salts written
  have last := @Wal.commitFrames_last _ wal.header.salts written
  have plain := @Wal.commitFrames_plain _ wal.header.salts written
  unfold Wal.sealCommit
  generalize Wal.commitFrames wal.header.salts written = frames at *
  have length : frames.length = written.length := by rw [← named, List.length_map]
  have entered : frameEntries (rechainFrames crc wal.checksum frames) = written := by
    rw [frameEntries, rechainFrames_entries, named]
  have stored : writeFrames wal.file.frames wal.nFrames (rechainFrames crc wal.checksum frames) =
      committed ++ opened ++ rechainFrames crc wal.checksum frames ++
        stale.drop written.length := by
    rw [chronicle.frames, ← front, writeFrames_append, length_rechainFrames, length]
  have chained : Chained crc wal.header.checksum (committed ++ opened) := by
    have chained := chronicle.chained
    rwa [repaired, Option.getD_none, List.take_of_length_le (by omega)] at chained
  refine ⟨rechainFrames crc wal.checksum frames, entered, ?_, ⟨?_, ?_, ?_, ?_, ?_, ?_, ?_, ?_, ?_,
    ?_, ?_⟩⟩
  · intro frame member
    have same : (rechainFrames crc wal.checksum frames).dropLast =
        rechainFrames crc wal.checksum frames.dropLast := by
      have taken := rechainFrames_append crc wal.checksum (frames.take (frames.length - 1))
        (frames.drop (frames.length - 1))
      rw [List.take_append_drop] at taken
      rw [List.dropLast_eq_take, List.dropLast_eq_take, length_rechainFrames, taken]
      exact List.take_left' (by simp)
    rw [same] at member
    obtain ⟨before, there, _, commit, _⟩ := mem_rechainFrames member
    rw [commit]
    exact plain before there
  · rw [List.append_nil]
    exact stored
  · simp [chronicle.count, length]
    omega
  · have kept := chronicle.header
    simpa [clean] using kept
  · intro frame member
    rw [List.append_nil] at member
    rcases List.mem_append.mp member with old | new
    · exact chronicle.salted frame old
    · obtain ⟨before, there, _, _, same, _⟩ := mem_rechainFrames new
      exact same.trans (salts before there)
  · intro frame member
    rw [List.drop_drop] at member
    refine chronicle.foreign frame (List.mem_of_mem_drop (?_ : frame ∈ (stale.drop torn).drop
      (written.length - torn)))
    rw [List.drop_drop]
    convert member using 2
    omega
  · rw [List.append_nil]
    apply Chained.take
    refine chained_append.mpr ⟨chained, ?_⟩
    rw [← running]
    exact rechainFrames_idem _ _ _
  · intro start broken
    cases repaired.symm.trans broken
  · intro _
    show chainAfter crc wal.checksum frames = _
    rw [List.append_nil, chainAfter_append, ← running, chainAfter_rechainFrames]
  · intro frame ended
    have some : rechainFrames crc wal.checksum frames ≠ [] := by
      intro empty
      rw [empty] at entered
      exact nonempty entered.symm
    rw [List.getLast?_append_of_ne_nil _ some, List.getLast?_eq_getElem?,
      length_rechainFrames] at ended
    have same := getElem?_rechainFrames crc wal.checksum frames (frames.length - 1)
    rw [ended, ← List.getLast?_eq_getElem?] at same
    obtain ⟨before, there, equal⟩ := Option.map_eq_some_iff.mp same.symm
    simp only [Prod.mk.injEq] at equal
    rw [← equal.2.1, last there]
    exact Nat.one_ne_zero
  · simp
  · intro id
    simp [lastSlot]

theorem reset_chronicle (crc : Crc) (salts : Salts) :
    Chronicle crc 0 (Wal.reset crc salts : Wal size) [] [] [] where
  frames := rfl
  count := rfl
  header := rfl
  salted := by simp
  foreign := by simp
  chained := rfl
  broken := fun _ broken => by cases broken
  running := fun _ => rfl
  ended := by simp
  plain := by simp
  own := by simp [Wal.reset, lastSlot]

/-- Under fresh salts the old frames are leftovers. -/
theorem resetKeepSize_chronicle (crc : Crc) {salts : Salts} {wal : Wal size}
    (fresh : ∀ frame ∈ wal.file.frames, frame.salts ≠ salts) :
    Chronicle crc 0 (wal.resetKeepSize crc salts) [] [] wal.file.frames where
  frames := rfl
  count := rfl
  header := rfl
  salted := by simp
  foreign := fresh
  chained := rfl
  broken := fun _ broken => by cases broken
  running := fun _ => rfl
  ended := by simp
  plain := by simp
  own := by simp [Wal.resetKeepSize, lastSlot]

/-- A log whose visible frames are `committed`. -/
structure Visible (crc : Crc) (wal : Wal size) (committed : List (Frame size)) : Prop where
  count : wal.nFrames = committed.length
  checksum : wal.checksum = chainAfter crc wal.header.checksum committed
  front : wal.file.frames.take committed.length = committed
  salted : ∀ frame ∈ committed, frame.salts = wal.header.salts

/-- Recovery finds the commits and stops behind the last one. -/
theorem recover_visible {crc : Crc} {header : WalHeader} {committed opened stale : List (Frame size)}
    (chained : Chained crc header.checksum committed)
    (salted : ∀ frame ∈ committed, frame.salts = header.salts)
    (ended : ∀ frame, committed.getLast? = some frame → frame.commit ≠ 0)
    (plain : ∀ frame ∈ opened, frame.commit = 0)
    (foreign : ∀ frame ∈ stale, frame.salts ≠ header.salts) (fresh : Salts)
    (truncateTorn : Bool) :
    Visible crc (Wal.recover crc fresh
      { header := some header, frames := committed ++ opened ++ stale } truncateTorn) committed ∧
    (Wal.recover crc fresh { header := some header, frames := committed ++ opened ++ stale }
      truncateTorn).header = header := by
  obtain ⟨later, walked, closes, none⟩ := recoverWalk_chained committed (opened ++ stale)
    chained salted 0 { lastValid := 0, lastCommit := 0, lastCommitChain := header.checksum }
  have quiet := recoverWalk_quiet crc opened stale plain foreign (0 + committed.length)
    (chainAfter crc header.checksum committed) later
  rw [← walked, ← List.append_assoc] at quiet
  have found : later.lastCommit = committed.length ∧
      later.lastCommitChain = chainAfter crc header.checksum committed := by
    cases last : committed.getLast? with
    | none =>
      have empty := List.getLast?_eq_none_iff.mp last
      simp [none empty, empty, chainAfter]
    | some frame => simpa using closes frame last (ended frame last)
  refine ⟨⟨quiet.1.trans found.1, quiet.2.trans found.2, ?_, salted⟩, rfl⟩
  unfold Wal.recover
  simp only
  split
  · rw [quiet.1, found.1]
    simp [List.append_assoc]
  · simp [List.append_assoc]

theorem Chronicle.recovered {crc : Crc} {wal : Wal size}
    {committed opened stale : List (Frame size)}
    (chronicle : Chronicle crc 0 wal committed opened stale) (fresh : Salts)
    (truncateTorn : Bool) :
    Visible crc (Wal.recover crc fresh wal.file truncateTorn) committed ∧
      (wal.headerDirty = false →
        (Wal.recover crc fresh wal.file truncateTorn).header = wal.header) := by
  have kept := chronicle.header
  have frames := chronicle.frames
  generalize wal.file = file at kept frames
  obtain ⟨header, held⟩ := file
  by_cases deferred : wal.headerDirty = true
  · rw [if_pos deferred] at kept
    simp only at kept frames
    have empty : committed = [] := by
      rw [kept.2, List.append_assoc] at frames
      exact (List.append_eq_nil_iff.mp frames.symm).1
    rw [kept.1, empty]
    refine ⟨⟨rfl, rfl, rfl, by simp⟩, fun clean => ?_⟩
    rw [clean] at deferred
    cases deferred
  · rw [if_neg deferred] at kept
    simp only at kept frames
    rw [kept, frames]
    obtain ⟨visible, header⟩ := recover_visible chronicle.committed_chained
      (fun frame member => chronicle.salted frame (List.mem_append_left _ member))
      chronicle.ended chronicle.plain chronicle.foreign fresh truncateTorn
    exact ⟨visible, fun _ => header⟩

/-- What a reader of the log finds of a page: `committed_page_map`, then `read_frame_at`. -/
def Wal.committedPage (wal : Wal size) (id : Nat) : Option (Bytes size) :=
  match wal.committedPageMap.lookup id with
  | some index => (wal.readFrameAt index).toOption
  | none => none

namespace Visible

variable {crc : Crc} {wal : Wal size} {committed : List (Frame size)}

theorem map_eq (visible : Visible crc wal committed) :
    wal.committedPageMap = indexFrames ∅ 0 committed := by
  unfold Wal.committedPageMap
  rw [visible.count, visible.front]
  rfl

/-- Every entry of the map leads to the newest frame of its page. -/
theorem read (visible : Visible crc wal committed) {id index : Nat}
    (found : wal.committedPageMap.lookup id = some index) :
    ∃ data, wal.readFrameAt index = .ok data ∧ newest committed id = some data := by
  rw [visible.map_eq] at found
  obtain ⟨frame, there, _, latest⟩ := (pageMap_exact committed).1 id index found
  have inside := (List.getElem?_eq_some_iff.mp there).1
  have stored : wal.file.frames[index]? = some frame := by
    have kept := there
    rw [← visible.front] at kept
    rwa [List.getElem?_take_of_lt inside] at kept
  refine ⟨frame.data, ?_, latest⟩
  simp only [Wal.readFrameAt, stored]
  rw [if_pos (visible.salted frame (List.mem_of_getElem? there))]

theorem committedPage (visible : Visible crc wal committed) (id : Nat) :
    wal.committedPage id = newest committed id := by
  unfold Wal.committedPage
  cases found : wal.committedPageMap.lookup id with
  | none =>
    rw [visible.map_eq] at found
    rw [(pageMap_exact committed).2 (id + 1) id (Nat.lt_succ_self id) found]
  | some index =>
    obtain ⟨data, read, latest⟩ := visible.read found
    simp [read, latest, Except.toOption]

end Visible

end RustSql.Storage
