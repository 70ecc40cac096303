import RustSql.Foundation.FileImage
import RustSql.Types.RowCodec

/-! The spill file of a savepoint: images behind each other, read back in chunks. -/

namespace RustSql.Storage.Preimage

open RustSql.Foundation RustSql.Types

/-- A page and its bytes before the first change. -/
abbrev Image := UInt32 × List UInt8

/-- `MAX_RECORD`. -/
def maxRecord : Nat := 16 * 2 ^ 20

/-- `READ_CHUNK`. -/
def readChunk : Nat := 256 * 1024

/-- An image that can be a record. -/
def Sized (image : Image) : Prop := 0 < image.2.length ∧ image.2.length ≤ maxRecord

/-- The bytes of a record; its words are `u32`s. -/
def recordBytes (image : Image) : List UInt8 :=
  littleEndian 4 image.1.toNat ++ littleEndian 4 image.2.length ++ image.2

def recordsBytes (images : List Image) : List UInt8 := images.flatMap recordBytes

/-- `pread_full`: all of the bytes, or none. -/
def preadFull (file : List UInt8) (len start : Nat) : Option (List UInt8) :=
  let read := (file.drop start).take len
  if read.length = len then some read else none

theorem recordBytes_length (image : Image) : (recordBytes image).length = 8 + image.2.length := by
  simp only [recordBytes, List.length_append, littleEndian_length]

theorem preadFull_eq {file front bytes rest : List UInt8} (same : file = front ++ (bytes ++ rest)) :
    preadFull file bytes.length front.length = some bytes := by
  rw [preadFull, same, List.drop_left, List.take_left, if_pos rfl]

/-- What lies in front of a write is kept, and the bytes lie behind it. -/
theorem take_writeAt {file buf : List UInt8} {start : Nat} (inside : start ≤ file.length) :
    (FileImage.writeAt 0 file start buf).take (start + buf.length) = file.take start ++ buf := by
  have front : (file.take start).length = start := List.length_take_of_le inside
  rw [FileImage.writeAt, Nat.sub_eq_zero_of_le inside, List.replicate_zero, List.nil_append,
    ← List.append_assoc]
  exact List.take_left' (by rw [List.length_append, front])

theorem take_writeAt_front {file buf : List UInt8} {start : Nat} (inside : start ≤ file.length) :
    (FileImage.writeAt 0 file start buf).take start = file.take start := by
  have taken := congrArg (List.take start) (@take_writeAt file buf start inside)
  rw [List.take_take, Nat.min_eq_left (Nat.le_add_right _ _)] at taken
  rw [taken, List.take_append_of_le_length (by rw [List.length_take_of_le inside]),
    List.take_take, Nat.min_self]

/-- `SpillFileIter`; the buffer is its valid part. -/
structure SpillFileIter where
  file : List UInt8
  buf : List UInt8
  bufPos : Nat
  filePos : Nat
  stop : Nat

namespace SpillFileIter

/-- `fill`: the next chunk when the buffer is used up; nothing at the end of the stream. A chunk
is never empty, so the loop runs once. -/
def fill (it : SpillFileIter) : Option SpillFileIter :=
  if it.buf.length ≤ it.bufPos then
    if it.stop ≤ it.filePos then none
    else
      let want := min (it.stop - it.filePos) readChunk
      (preadFull it.file want it.filePos).map fun chunk =>
        { it with buf := chunk, bufPos := 0, filePos := it.filePos + want }
  else some it

/-- What is still to be read. -/
def ahead (it : SpillFileIter) : List UInt8 :=
  it.buf.drop it.bufPos ++ (it.file.drop it.filePos).take (it.stop - it.filePos)

variable {it it' : SpillFileIter}

/-- A refill keeps the stream, and leaves a byte in the buffer. -/
theorem fill_some (filled : it.fill = some it') :
    it'.ahead = it.ahead ∧ it'.bufPos < it'.buf.length ∧ it'.file = it.file ∧ it'.stop = it.stop := by
  unfold fill at filled
  split at filled
  next used =>
    split at filled
    · cases filled
    next more =>
      simp only at filled
      obtain ⟨chunk, read, rfl⟩ := Option.map_eq_some_iff.mp filled
      rw [preadFull] at read
      split at read
      next whole =>
        cases read
        have positive : 0 < min (it.stop - it.filePos) readChunk := by
          rw [readChunk]
          omega
        refine ⟨?_, by rw [whole]; exact positive, rfl, rfl⟩
        have split : it.stop - it.filePos = min (it.stop - it.filePos) readChunk +
            (it.stop - (it.filePos + min (it.stop - it.filePos) readChunk)) := by omega
        have joined : (it.file.drop it.filePos).take (min (it.stop - it.filePos) readChunk) ++
            (it.file.drop (it.filePos + min (it.stop - it.filePos) readChunk)).take
              (it.stop - (it.filePos + min (it.stop - it.filePos) readChunk)) =
              (it.file.drop it.filePos).take (it.stop - it.filePos) := by
          rw [← List.drop_drop, ← List.take_add, ← split]
        rw [ahead, ahead, List.drop_zero, List.drop_eq_nil_iff.mpr used, List.nil_append]
        exact joined
      · cases read
  next unread =>
    cases filled
    exact ⟨rfl, Nat.lt_of_not_le unread, rfl, rfl⟩

/-- The stream has bytes as long as the file reaches to its end. -/
theorem fill_of_ahead (inside : it.stop ≤ it.file.length) (some : it.ahead ≠ []) :
    ∃ it', it.fill = Option.some it' := by
  unfold fill
  split
  next used =>
    split
    next ended =>
      refine absurd ?_ some
      rw [ahead, List.drop_eq_nil_iff.mpr used, Nat.sub_eq_zero_of_le ended]
      rfl
    next more =>
      have whole : ((it.file.drop it.filePos).take (min (it.stop - it.filePos) readChunk)).length =
          min (it.stop - it.filePos) readChunk := by
        rw [List.length_take, List.length_drop]
        omega
      have read : preadFull it.file (min (it.stop - it.filePos) readChunk) it.filePos =
          Option.some _ := if_pos whole
      exact ⟨_, congrArg (Option.map fun chunk => ({ it with
        buf := chunk
        bufPos := 0
        filePos := it.filePos + min (it.stop - it.filePos) readChunk } : SpillFileIter)) read⟩
  · exact ⟨it, rfl⟩

theorem fill_end (ended : it.ahead = []) : it.fill = none := by
  match filled : it.fill with
  | none => rfl
  | some it' =>
    obtain ⟨same, inside, _⟩ := fill_some filled
    rw [ended, ahead, List.append_eq_nil_iff, List.drop_eq_nil_iff] at same
    omega

/-- `take`. -/
def take (n : Nat) (it : SpillFileIter) : Option (List UInt8 × SpillFileIter) :=
  if n = 0 then some ([], it)
  else
    match _filled : it.fill with
    | none => none
    | some it' =>
      let k := min (it'.buf.length - it'.bufPos) n
      (take (n - k) { it' with bufPos := it'.bufPos + k }).map fun out =>
        ((it'.buf.drop it'.bufPos).take k ++ out.1, out.2)
termination_by n
decreasing_by
  have inside := (fill_some _filled).2.1
  omega

/-- What is taken is the front of the stream. -/
theorem take_some {n : Nat} {out : List UInt8} (taken : it.take n = some (out, it')) :
    it.ahead = out ++ it'.ahead ∧ out.length = n ∧ it'.file = it.file ∧ it'.stop = it.stop := by
  fun_induction take n it generalizing out with
  | case1 it =>
    cases taken
    exact ⟨rfl, rfl, rfl, rfl⟩
  | case2 => cases taken
  | case3 n it positive it₁ filled k =>
    rename_i ih
    obtain ⟨⟨rest, it₂⟩, later, same⟩ := Option.map_eq_some_iff.mp taken
    cases same
    obtain ⟨stream, inside, file, stop⟩ := fill_some filled
    obtain ⟨behind, length, file', stop'⟩ := ih later
    refine ⟨?_, ?_, file'.trans file, stop'.trans stop⟩
    · rw [← stream, List.append_assoc, ← behind, ahead, ahead, ← List.append_assoc,
        ← List.drop_drop, List.take_append_drop]
    · rw [List.length_append, List.length_take, List.length_drop, length]
      omega

theorem take_of_ahead {n : Nat} (inside : it.stop ≤ it.file.length) (enough : n ≤ it.ahead.length) :
    ∃ out it', it.take n = some (out, it') := by
  fun_induction take n it with
  | case1 it => exact ⟨[], it, rfl⟩
  | case2 n it positive nothing =>
    obtain ⟨it', filled⟩ := fill_of_ahead inside (List.ne_nil_of_length_pos (by omega))
    rw [nothing] at filled
    cases filled
  | case3 n it positive it₁ filled k ih =>
    obtain ⟨stream, inside₁, file, stop⟩ := fill_some filled
    have shorter : ({ it₁ with bufPos := it₁.bufPos + k } : SpillFileIter).ahead = it.ahead.drop k := by
      rw [← stream, ahead, ahead, List.drop_append_of_le_length (by rw [List.length_drop]; omega),
        List.drop_drop]
    obtain ⟨out, it', taken⟩ := ih (by rw [stop, file]; exact inside) (by
      rw [shorter, List.length_drop]
      omega)
    exact ⟨_, it', by rw [taken]; rfl⟩

/-- `next`. -/
def next (it : SpillFileIter) : Option (Image × SpillFileIter) := do
  let (header, it) ← it.take 8
  let id := UInt32.ofNat (fromLittleEndian (header.take 4))
  let len := fromLittleEndian (header.drop 4)
  if len = 0 ∨ maxRecord < len then none
  else do
    let (bytes, it) ← it.take len
    some ((id, bytes), it)

theorem next_shorter {image : Image} (read : it.next = some (image, it')) :
    it'.ahead.length < it.ahead.length := by
  obtain ⟨⟨header, it₁⟩, first, rest⟩ := Option.bind_eq_some_iff.mp read
  simp only at rest
  split at rest
  · cases rest
  · obtain ⟨⟨bytes, it₂⟩, second, done⟩ := Option.bind_eq_some_iff.mp rest
    cases done
    obtain ⟨stream, length, _⟩ := take_some first
    have stream' : it₁.ahead = bytes ++ it₂.ahead := (take_some second).1
    change it₂.ahead.length < _
    rw [stream, stream', List.length_append, List.length_append, length]
    omega

/-- The records to the end. -/
def all (it : SpillFileIter) : List Image :=
  match _read : it.next with
  | none => []
  | some (image, it') => image :: it'.all
termination_by it.ahead.length
decreasing_by exact next_shorter _read

/-- A record ahead is the next one. -/
theorem next_record {image : Image} {rest : List UInt8} (inside : it.stop ≤ it.file.length)
    (sized : Sized image) (there : it.ahead = recordBytes image ++ rest) :
    ∃ it', it.next = some (image, it') ∧ it'.ahead = rest ∧ it'.stop ≤ it'.file.length := by
  obtain ⟨id, bytes⟩ := image
  obtain ⟨positive, most⟩ := sized
  have length := congrArg List.length there
  rw [List.length_append, recordBytes_length] at length
  dsimp only at positive most length
  obtain ⟨header, it₁, first⟩ := take_of_ahead inside (by omega : 8 ≤ it.ahead.length)
  obtain ⟨stream, eight, file, stop⟩ := take_some first
  rw [there, recordBytes, List.append_assoc (_ ++ _)] at stream
  dsimp only at stream
  obtain ⟨rfl, behind⟩ := List.append_inj stream (by simp [eight])
  have inside₁ : it₁.stop ≤ it₁.file.length := by rw [stop, file]; exact inside
  obtain ⟨body, it₂, second⟩ := take_of_ahead inside₁
    (by rw [← behind, List.length_append]; omega : bytes.length ≤ it₁.ahead.length)
  obtain ⟨stream₂, wide, file₂, stop₂⟩ := take_some second
  rw [← behind] at stream₂
  obtain ⟨rfl, rest₂⟩ := List.append_inj stream₂ wide.symm
  refine ⟨it₂, ?_, rest₂.symm, by rw [stop₂, file₂]; exact inside₁⟩
  have four : (littleEndian 4 id.toNat).length = 4 := littleEndian_length 4 _
  have number : fromLittleEndian (littleEndian 4 bytes.length) = bytes.length := by
    rw [fromLittleEndian_littleEndian, Nat.mod_eq_of_lt]
    rw [maxRecord] at most
    omega
  have page : UInt32.ofNat (fromLittleEndian (littleEndian 4 id.toNat)) = id := by
    rw [fromLittleEndian_littleEndian, Nat.mod_eq_of_lt (by have := id.toNat_lt; omega),
      UInt32.ofNat_toNat]
  rw [next, first]
  simp only [Option.bind_eq_bind, Option.bind_some]
  rw [List.take_left' four, List.drop_left' four, number, page, if_neg (by omega), second]
  rfl

theorem next_end (ended : it.ahead = []) : it.next = none := by
  have taken : it.take 8 = none := by
    rw [take, if_neg (by decide)]
    split
    · rfl
    next filled =>
      rw [fill_end ended] at filled
      cases filled
  rw [next, taken]
  rfl

/-- What was written is read back. -/
theorem all_records {images : List Image} (inside : it.stop ≤ it.file.length)
    (sized : ∀ image ∈ images, Sized image) (there : it.ahead = recordsBytes images) :
    it.all = images := by
  induction images generalizing it with
  | nil =>
    rw [all]
    split
    · rfl
    next read =>
      rw [next_end there] at read
      cases read
  | cons image images ih =>
    obtain ⟨it', read, ahead', inside'⟩ := next_record inside (sized image List.mem_cons_self) there
    rw [all]
    split
    next nothing =>
      rw [read] at nothing
      cases nothing
    next other =>
      rw [read] at other
      cases other
      rw [ih inside' (fun image member => sized image (List.mem_cons_of_mem _ member)) ahead']

/-- `new`: a reader from the front, its first chunk filled. -/
def new (file : List UInt8) (stop : Nat) : Option SpillFileIter :=
  let it : SpillFileIter := ⟨file, [], 0, 0, stop⟩
  if stop = 0 then some it else it.fill

end SpillFileIter

/-- A file is drained to the records in front of its end. -/
theorem drained_records {file : List UInt8} {stop : Nat} {images : List Image}
    (inside : stop ≤ file.length) (sized : ∀ image ∈ images, Sized image)
    (there : file.take stop = recordsBytes images) :
    ((SpillFileIter.new file stop).elim [] SpillFileIter.all) = images := by
  have start : (⟨file, [], 0, 0, stop⟩ : SpillFileIter).ahead = recordsBytes images := by
    rw [← there]
    rfl
  rw [SpillFileIter.new]
  split
  · exact SpillFileIter.all_records inside sized start
  next positive =>
    have some : (⟨file, [], 0, 0, stop⟩ : SpillFileIter).ahead ≠ [] := by
      rw [start, ← there]
      refine List.ne_nil_of_length_pos ?_
      rw [List.length_take_of_le inside]
      omega
    obtain ⟨it, filled⟩ := SpillFileIter.fill_of_ahead inside some
    obtain ⟨stream, _, file', stop'⟩ := SpillFileIter.fill_some filled
    rw [filled]
    exact SpillFileIter.all_records (by rw [stop', file']; exact inside) sized (stream.trans start)

end RustSql.Storage.Preimage
