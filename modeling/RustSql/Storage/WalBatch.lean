import RustSql.Storage.WalChronicle

/-! `append_batch` as the file sees it: frames leave the buffer in chunks, and the commit
mark is patched onto the last one when all pages are done. -/

namespace RustSql.Storage

open RustSql.Foundation

/-- `CHUNK_FRAMES`. -/
def chunkFrames : Nat := 16

/-- Where the loop of `append_batch` stands: the file, the frames still buffered, how many
have been written, the running checksum, the one before the last frame, and the offsets
handed out. -/
structure BatchLoop (size : Nat) where
  frames : List (Frame size)
  out : List (Frame size)
  flushed : Nat
  chain : Checksum
  chainBeforeLast : Option Checksum
  outOffsets : List (Nat × Nat)

namespace BatchLoop

/-- Write every buffered frame but the last once the buffer is full. -/
def flushChunk (start : Nat) (loop : BatchLoop size) : BatchLoop size :=
  if chunkFrames + 1 ≤ loop.out.length then
    { loop with
      frames := writeFrames loop.frames (start + loop.flushed) loop.out.dropLast
      flushed := loop.flushed + loop.out.dropLast.length
      out := loop.out.getLast?.toList }
  else loop

/-- One page of the batch. -/
def page (crc : Crc) (salts : Salts) (start : Nat) (loop : BatchLoop size)
    (entry : Nat × Page size) : BatchLoop size :=
  let loop := loop.flushChunk start
  if entry.2.dirty then
    let frame := (Frame.unsummed entry.1 0 salts entry.2.data).chainFrom crc loop.chain
    { loop with
      out := loop.out ++ [frame]
      chain := frame.checksum
      chainBeforeLast := some loop.chain
      outOffsets := loop.outOffsets ++ [(entry.1, start + loop.outOffsets.length)] }
  else loop

/-- The commit mark on the last buffered frame. -/
def markLast (crc : Crc) (loop : BatchLoop size) : BatchLoop size :=
  match loop.out.getLast?, loop.chainBeforeLast with
  | some last, some chain =>
    let marked := ({ last with commit := 1 } : Frame size).chainFrom crc chain
    { loop with out := loop.out.dropLast ++ [marked], chain := marked.checksum }
  | _, _ => loop

end BatchLoop

/-- `Wal::append_batch`, chunk by chunk. -/
def Wal.appendChunks (crc : Crc) (wal : Wal size) (pages : List (Nat × Page size)) :
    Wal size × List (Nat × Nat) :=
  if pages.isEmpty then (wal, [])
  else
    let wal := wal.writeHeader.rechain crc
    let loop := pages.foldl (BatchLoop.page crc wal.header.salts wal.nFrames)
      { frames := wal.file.frames, out := [], flushed := 0, chain := wal.checksum,
        chainBeforeLast := none, outOffsets := [] }
    if loop.out.isEmpty && loop.flushed == 0 then
      ({ wal with file := { wal.file with frames := loop.frames } }, loop.outOffsets)
    else
      let loop := loop.markLast crc
      ({ wal with
          file := { wal.file with
            frames := writeFrames loop.frames (wal.nFrames + loop.flushed) loop.out }
          checksum := loop.chain
          nFrames := wal.nFrames + (loop.flushed + loop.out.length)
          uncommitted := ∅ }, loop.outOffsets)

theorem writeFrames_nil (frames : List (Frame size)) (start : Nat) :
    writeFrames frames start [] = frames := by
  simp [writeFrames]

theorem writeFrames_writeFrames {frames : List (Frame size)} {start : Nat}
    (room : start ≤ frames.length) (first second : List (Frame size)) :
    writeFrames (writeFrames frames start first) (start + first.length) second =
      writeFrames frames start (first ++ second) := by
  have front : (frames.take start ++ first).length = start + first.length := by
    simp [room]
  have split : writeFrames frames start first =
      (frames.take start ++ first) ++ frames.drop (start + first.length) := rfl
  rw [split, ← front, writeFrames_append, writeFrames, front, List.drop_drop, List.length_append]
  simp [List.append_assoc, Nat.add_assoc]

/-- Frames without a commit mark. -/
def plainFrames (salts : Salts) (written : List (Nat × Bytes size)) : List (Frame size) :=
  written.map (fun entry => Frame.unsummed entry.1 0 salts entry.2)

theorem commitFrames_concat (salts : Salts) (written : List (Nat × Bytes size))
    (last : Nat × Bytes size) :
    Wal.commitFrames salts (written ++ [last]) =
      plainFrames salts written ++ [Frame.unsummed last.1 1 salts last.2] := by
  induction written with
  | nil => rfl
  | cons entry rest ih =>
    cases rest with
    | nil => rfl
    | cons second others =>
      rw [List.cons_append, List.cons_append, Wal.commitFrames_cons, ← List.cons_append, ih]
      rfl

namespace BatchLoop

variable {crc : Crc} {salts : Salts} {chain : Checksum} {start : Nat}
  {frames : List (Frame size)}

/-- What the loop has done with the entries so far. -/
structure Assembled (crc : Crc) (salts : Salts) (chain : Checksum) (start : Nat)
    (frames : List (Frame size)) (written : List (Nat × Bytes size)) (loop : BatchLoop size) :
    Prop where
  stored : ∃ done, done ++ loop.out = rechainFrames crc chain (plainFrames salts written) ∧
    loop.flushed = done.length ∧ loop.frames = writeFrames frames start done
  running : loop.chain = chainAfter crc chain (plainFrames salts written)
  offsets : loop.outOffsets = (written.map Prod.fst).zipIdx start
  buffered : loop.out = [] → written = []
  before : ∀ front last, written = front ++ [last] →
    loop.chainBeforeLast = some (chainAfter crc chain (plainFrames salts front))

variable {written : List (Nat × Bytes size)}

theorem flushChunk_assembled {loop : BatchLoop size} (room : start ≤ frames.length)
    (assembled : Assembled crc salts chain start frames written loop) :
    Assembled crc salts chain start frames written (loop.flushChunk start) := by
  unfold flushChunk
  split
  · next full =>
      obtain ⟨done, whole, count, file⟩ := assembled.stored
      have nonempty : loop.out ≠ [] := by
        intro empty
        rw [empty] at full
        simp at full
      have last := List.getLast?_eq_some_getLast nonempty
      refine ⟨⟨done ++ loop.out.dropLast, ?_, ?_, ?_⟩, assembled.running, assembled.offsets, ?_,
        assembled.before⟩
      · rw [← whole, last, List.append_assoc]
        simp [List.dropLast_concat_getLast nonempty]
      · simp [count]
      · simp only [file, count]
        exact writeFrames_writeFrames room done _
      · intro empty
        simp [last] at empty
  · exact assembled

theorem page_assembled {loop : BatchLoop size} (room : start ≤ frames.length)
    (assembled : Assembled crc salts chain start frames written loop) (entry : Nat × Page size) :
    Assembled crc salts chain start frames (written ++ dirtyEntries [entry])
      (loop.page crc salts start entry) := by
  have ready := flushChunk_assembled room assembled
  unfold page
  generalize loop.flushChunk start = loop at ready
  by_cases dirty : entry.2.dirty = true
  · have single : dirtyEntries [entry] = [(entry.1, entry.2.data)] := by
      simp [dirtyEntries, dirty]
    obtain ⟨done, whole, count, file⟩ := ready.stored
    have plain : plainFrames salts (written ++ [(entry.1, entry.2.data)]) =
        plainFrames salts written ++ [Frame.unsummed entry.1 0 salts entry.2.data] := by
      simp [plainFrames]
    rw [single]
    simp only [dirty, if_true]
    refine ⟨⟨done, ?_, count, file⟩, ?_, ?_, ?_, ?_⟩
    · rw [plain, rechainFrames_append, ← whole, ready.running, List.append_assoc]
      rfl
    · rw [plain, chainAfter_append, ← ready.running]
      rfl
    · rw [ready.offsets, List.map_append, List.zipIdx_append]
      simp
    · intro empty
      simp at empty
    · intro front last same
      obtain ⟨rfl, _⟩ := List.append_inj' same rfl
      simp only [ready.running]
  · have none : dirtyEntries [entry] = [] := by
      simp [dirtyEntries, dirty]
    rw [none, List.append_nil]
    simp only [dirty, Bool.false_eq_true, if_false]
    exact ready

theorem foldl_assembled {loop : BatchLoop size} (room : start ≤ frames.length)
    (assembled : Assembled crc salts chain start frames written loop)
    (pages : List (Nat × Page size)) :
    Assembled crc salts chain start frames (written ++ dirtyEntries pages)
      (pages.foldl (page crc salts start) loop) := by
  induction pages generalizing loop written with
  | nil => simpa [dirtyEntries] using assembled
  | cons entry rest ih =>
    have next := ih (page_assembled room assembled entry)
    have split : dirtyEntries (entry :: rest) = dirtyEntries [entry] ++ dirtyEntries rest := by
      simp [dirtyEntries, List.filter_cons]
      split <;> simp
    rw [List.foldl_cons, split, ← List.append_assoc]
    exact next

end BatchLoop

theorem le_length_writeFrames (frames : List (Frame size)) (start : Nat)
    (written : List (Frame size)) :
    frames.length ≤ (writeFrames frames start written).length := by
  simp only [writeFrames, List.length_append, List.length_take, List.length_drop]
  omega

theorem Wal.rechain_onDisk (crc : Crc) {wal : Wal size}
    (onDisk : wal.nFrames ≤ wal.file.frames.length) :
    (wal.rechain crc).nFrames ≤ (wal.rechain crc).file.frames.length := by
  unfold Wal.rechain
  split
  · exact onDisk
  · exact Nat.le_trans onDisk (le_length_writeFrames _ _ _)

/-- With something written, the marked loop leaves the frames of the commit. -/
theorem BatchLoop.markLast_stored {crc : Crc} {salts : Salts} {chain : Checksum} {start : Nat}
    {frames : List (Frame size)} {written : List (Nat × Bytes size)} {loop : BatchLoop size}
    (room : start ≤ frames.length)
    (assembled : Assembled crc salts chain start frames written loop) (nonempty : written ≠ []) :
    writeFrames (loop.markLast crc).frames (start + (loop.markLast crc).flushed)
        (loop.markLast crc).out =
      writeFrames frames start (rechainFrames crc chain (Wal.commitFrames salts written)) ∧
    (loop.markLast crc).chain = chainAfter crc chain (Wal.commitFrames salts written) ∧
    (loop.markLast crc).flushed + (loop.markLast crc).out.length = written.length ∧
    (loop.markLast crc).outOffsets = (written.map Prod.fst).zipIdx start := by
  obtain ⟨front, last, rfl⟩ : ∃ front last, written = front ++ [last] :=
    ⟨written.dropLast, written.getLast nonempty, (List.dropLast_concat_getLast nonempty).symm⟩
  obtain ⟨done, whole, count, file⟩ := assembled.stored
  have length := congrArg List.length whole
  simp only [List.length_append, length_rechainFrames, plainFrames, List.length_map,
    List.length_singleton] at length
  have kept : loop.out ≠ [] := fun empty => nonempty (assembled.buffered empty)
  have plain : plainFrames salts (front ++ [last]) =
      plainFrames salts front ++ [Frame.unsummed last.1 0 salts last.2] := by
    simp [plainFrames]
  -- The last buffered frame is the last entry's, the others are as they stay.
  rw [plain, rechainFrames_append, ← List.dropLast_concat_getLast kept, ← List.append_assoc] at whole
  obtain ⟨sealed, same⟩ := List.append_inj' whole rfl
  have final : loop.out.getLast kept = (Frame.unsummed last.1 0 salts last.2).chainFrom crc
      (chainAfter crc chain (plainFrames salts front)) := List.head_eq_of_cons_eq same
  have marked : loop.markLast crc = { loop with
      out := loop.out.dropLast ++ [(Frame.unsummed last.1 1 salts last.2).chainFrom crc
        (chainAfter crc chain (plainFrames salts front))]
      chain := (Frame.unsummed last.1 1 salts last.2).sum crc
        (chainAfter crc chain (plainFrames salts front)) } := by
    unfold markLast
    rw [List.getLast?_eq_some_getLast kept, assembled.before front last rfl, final]
    rfl
  rw [marked, commitFrames_concat, rechainFrames_append, chainAfter_append]
  refine ⟨?_, rfl, ?_, assembled.offsets⟩
  · simp only [file, count]
    rw [writeFrames_writeFrames room, ← List.append_assoc, sealed]
    rfl
  · simp only [count, List.length_append, List.length_dropLast, List.length_singleton]
    have positive := List.length_pos_iff.mpr kept
    omega

/-- The chunks and the patched mark come to one write of the batch. -/
theorem Wal.appendChunks_eq (crc : Crc) {wal : Wal size}
    (onDisk : wal.nFrames ≤ wal.file.frames.length) (pages : List (Nat × Page size)) :
    wal.appendChunks crc pages = wal.appendBatch crc pages := by
  rw [Wal.appendBatch_eq]
  unfold Wal.appendChunks
  by_cases none : pages.isEmpty = true
  · rw [if_pos none, if_pos none]
  rw [if_neg none, if_neg none]
  have room : (wal.writeHeader.rechain crc).nFrames ≤
      (wal.writeHeader.rechain crc).file.frames.length :=
    Wal.rechain_onDisk crc (by simpa using onDisk)
  generalize wal.writeHeader.rechain crc = wal' at room
  have begun : BatchLoop.Assembled crc wal'.header.salts wal'.checksum wal'.nFrames
      wal'.file.frames []
      { frames := wal'.file.frames, out := [], flushed := 0, chain := wal'.checksum,
        chainBeforeLast := Option.none, outOffsets := [] } :=
    ⟨⟨[], rfl, rfl, (writeFrames_nil _ _).symm⟩, rfl, rfl, fun _ => rfl, by simp⟩
  have assembled := BatchLoop.foldl_assembled room begun pages
  rw [List.nil_append] at assembled
  simp only
  generalize List.foldl _ _ pages = loop at assembled
  obtain ⟨done, whole, count, file⟩ := assembled.stored
  by_cases clean : dirtyEntries pages = []
  · rw [clean] at whole
    obtain ⟨rfl, empty⟩ := List.append_eq_nil_iff.mp whole
    have flushed : loop.flushed = 0 := count
    rw [writeFrames_nil] at file
    simp [clean, empty, flushed, file, assembled.offsets]
  · have kept : loop.out ≠ [] := fun empty => clean (assembled.buffered empty)
    obtain ⟨frames, chain, length, offsets⟩ := BatchLoop.markLast_stored room assembled clean
    have present : (dirtyEntries pages).isEmpty = false := by simpa using clean
    have busy : (loop.out.isEmpty && loop.flushed == 0) = false := by simp [kept]
    rw [busy, present]
    simp only [Bool.false_eq_true, if_false, frames, chain, length, offsets]
    rfl

end RustSql.Storage
