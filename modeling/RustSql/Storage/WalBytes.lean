import RustSql.Storage.WalChronicle

/-! The bytes of the log file: a header of 32 bytes, then frames of 24 bytes and a page
each. -/

namespace RustSql.Storage

open RustSql.Foundation

/-- `WAL_HEADER_SIZE`. -/
def walHeaderSize : Nat := 32

/-- `FRAME_HEADER_SIZE`. -/
def frameHeaderSize : Nat := 24

/-- `WAL_MAGIC`, "RSQL". -/
def walMagic : Nat := 0x5253514C

def frameSize (size : Nat) : Nat := frameHeaderSize + size

/-- `u32::from_be_bytes`. -/
def fromBeBytes (bytes : List UInt8) : Nat :=
  bytes.foldl (fun value byte => value * 256 + byte.toNat) 0

/-- The word at an offset. -/
def wordAt (bytes : List UInt8) (offset : Nat) : Nat :=
  fromBeBytes ((bytes.drop offset).take 4)

theorem fromBeBytes_toBeBytes {value : Nat} (small : value < 2 ^ 32) :
    fromBeBytes (toBeBytes value) = value := by
  simp only [fromBeBytes, toBeBytes, List.foldl_cons, List.foldl_nil, UInt8.toNat_ofNat']
  omega

@[simp]
theorem length_toBeBytes (value : Nat) : (toBeBytes value).length = 4 := rfl

/-- The words of a header are read one by one. -/
theorem wordAt_head {value : Nat} (small : value < 2 ^ 32) (rest : List UInt8) :
    wordAt (toBeBytes value ++ rest) 0 = value := by
  rw [wordAt, List.drop_zero, List.take_left' (length_toBeBytes value),
    fromBeBytes_toBeBytes small]

theorem wordAt_tail (value offset : Nat) (rest : List UInt8) :
    wordAt (toBeBytes value ++ rest) (offset + 4) = wordAt rest offset := by
  unfold wordAt
  rw [Nat.add_comm, ← length_toBeBytes value, List.drop_length_add_append]

namespace Frame

/-- The bytes of a frame: `FrameHeader::encode`, then the page. -/
def encode (frame : Frame size) : List UInt8 :=
  toBeBytes frame.pageId ++ (toBeBytes frame.commit ++ (toBeBytes frame.salts.1.toNat ++
    (toBeBytes frame.salts.2.toNat ++ (toBeBytes frame.checksum.1.toNat ++
      (toBeBytes frame.checksum.2.toNat ++ frame.data.toList)))))

/-- `FrameHeader::decode`, with the page behind it. -/
def decode (size : Nat) (bytes : List UInt8) : Frame size where
  pageId := wordAt bytes 0
  commit := wordAt bytes 4
  salts := (UInt32.ofNat (wordAt bytes 8), UInt32.ofNat (wordAt bytes 12))
  checksum := (UInt32.ofNat (wordAt bytes 16), UInt32.ofNat (wordAt bytes 20))
  data := Vector.ofFn (fun index => (bytes.drop frameHeaderSize)[index.val]?.getD 0)

/-- The frame's numbers are `u32`. -/
structure Fits (frame : Frame size) : Prop where
  pageId : frame.pageId < 2 ^ 32
  commit : frame.commit < 2 ^ 32

theorem length_encode (frame : Frame size) : frame.encode.length = frameSize size := by
  simp [encode, frameSize, frameHeaderSize]
  omega

theorem decode_encode (frame : Frame size) (fits : frame.Fits) :
    decode size frame.encode = frame := by
  have word : ∀ value : UInt32, value.toNat < 2 ^ 32 := UInt32.toNat_lt
  obtain ⟨pageId, commit, ⟨salt1, salt2⟩, ⟨sum1, sum2⟩, data⟩ := frame
  obtain ⟨smallId, smallCommit⟩ := fits
  unfold decode encode
  congr 1
  · exact wordAt_head smallId _
  · rw [wordAt_tail _ 0]
    exact wordAt_head smallCommit _
  · rw [wordAt_tail _ 4, wordAt_tail _ 0, wordAt_head (word _), wordAt_tail _ 8, wordAt_tail _ 4,
      wordAt_tail _ 0, wordAt_head (word _)]
    simp
  · rw [wordAt_tail _ 12, wordAt_tail _ 8, wordAt_tail _ 4, wordAt_tail _ 0, wordAt_head (word _),
      wordAt_tail _ 16, wordAt_tail _ 12, wordAt_tail _ 8, wordAt_tail _ 4, wordAt_tail _ 0,
      wordAt_head (word _)]
    simp
  · ext index inside
    simp [frameHeaderSize, toBeBytes]

end Frame

/-- The whole frames of a file, as `Wal::recover` counts them. -/
def parseFrames (size : Nat) (bytes : List UInt8) : List (Frame size) :=
  (List.range (bytes.length / frameSize size)).map (fun index =>
    Frame.decode size ((bytes.drop (index * frameSize size)).take (frameSize size)))

def encodeFrames (frames : List (Frame size)) : List UInt8 :=
  frames.flatMap Frame.encode

@[simp]
theorem length_encodeFrames (frames : List (Frame size)) :
    (encodeFrames frames).length = frames.length * frameSize size := by
  unfold encodeFrames
  induction frames with
  | nil => simp
  | cons frame rest ih =>
    rw [List.flatMap_cons, List.length_append, ih, Frame.length_encode, List.length_cons]
    ring

theorem drop_encodeFrames (frames : List (Frame size)) (count : Nat) :
    (encodeFrames frames).drop (count * frameSize size) = encodeFrames (frames.drop count) := by
  induction frames generalizing count with
  | nil => simp [encodeFrames]
  | cons frame rest ih =>
    cases count with
    | zero => simp
    | succ count =>
      rw [List.drop_succ_cons, ← ih]
      show (frame.encode ++ encodeFrames rest).drop ((count + 1) * frameSize size) = _
      rw [Nat.add_mul, Nat.one_mul, Nat.add_comm, ← frame.length_encode,
        List.drop_length_add_append]

/-- What is left of a file after a crash holds the frames that are whole. -/
theorem parseFrames_take {frames : List (Frame size)} (fits : ∀ frame ∈ frames, frame.Fits)
    {count : Nat} (inside : count ≤ (encodeFrames frames).length) :
    parseFrames size ((encodeFrames frames).take count) =
      frames.take (count / frameSize size) := by
  have positive : 0 < frameSize size := by
    unfold frameSize frameHeaderSize
    omega
  rw [length_encodeFrames] at inside
  have whole : count / frameSize size ≤ frames.length :=
    Nat.div_le_of_le_mul (by rwa [Nat.mul_comm] at inside)
  unfold parseFrames
  rw [List.length_take, length_encodeFrames, Nat.min_eq_left inside]
  apply List.ext_getElem
  · simp [whole]
  · intro index below _
    simp only [List.length_map, List.length_range] at below
    have room : (index + 1) * frameSize size ≤ count := by
      have bound := Nat.mul_le_mul_right (frameSize size) (Nat.succ_le_of_lt below)
      exact Nat.le_trans bound (Nat.div_mul_le_self _ _)
    have short : index < frames.length := Nat.lt_of_lt_of_le below whole
    have slot : ((encodeFrames frames).take count).drop (index * frameSize size) =
        (encodeFrames (frames.drop index)).take (count - index * frameSize size) := by
      rw [List.drop_take, drop_encodeFrames]
    have front : encodeFrames (frames.drop index) =
        frames[index].encode ++ encodeFrames (frames.drop (index + 1)) := by
      rw [List.drop_eq_getElem_cons short]
      rfl
    rw [List.getElem_map, List.getElem_range, slot, List.take_take, Nat.min_eq_left, front,
      List.take_left' (Frame.length_encode _), List.getElem_take]
    · exact Frame.decode_encode _ (fits _ (List.getElem_mem short))
    · rw [Nat.add_mul] at room
      omega

namespace WalHeader

/-- `WalHeader::encode`, for format version 1 and the first checkpoint sequence. -/
def encode (size : Nat) (header : WalHeader) : List UInt8 :=
  toBeBytes walMagic ++ (toBeBytes 1 ++ (toBeBytes size ++ (toBeBytes 0 ++
    (toBeBytes header.salts.1.toNat ++ (toBeBytes header.salts.2.toNat ++
      (toBeBytes header.checksum.1.toNat ++ toBeBytes header.checksum.2.toNat))))))

/-- Rust's `{:#x}`. -/
def hex (value : Nat) : String :=
  "0x" ++ String.ofList (Nat.toDigits 16 value)

/-- `WalHeader::decode`: the page size with what else a log needs. -/
def decode (bytes : List UInt8) : Except Error (Nat × WalHeader) :=
  if bytes.length < walHeaderSize then .error (.corruption "WAL header too small")
  else if wordAt bytes 0 ≠ walMagic then
    .error (.corruption ("not a WAL header (magic " ++ hex (wordAt bytes 0) ++ ", want " ++
      hex walMagic ++ ")"))
  else
    .ok (wordAt bytes 8, {
      salts := (UInt32.ofNat (wordAt bytes 16), UInt32.ofNat (wordAt bytes 20))
      checksum := (UInt32.ofNat (wordAt bytes 24), UInt32.ofNat (wordAt bytes 28)) })

@[simp]
theorem length_encode (size : Nat) (header : WalHeader) :
    (header.encode size).length = walHeaderSize := rfl

theorem decode_encode {size : Nat} (small : size < 2 ^ 32) (header : WalHeader) :
    decode (header.encode size) = .ok (size, header) := by
  have word : ∀ value : UInt32, value.toNat < 2 ^ 32 := UInt32.toNat_lt
  obtain ⟨⟨salt1, salt2⟩, ⟨sum1, sum2⟩⟩ := header
  have magic : wordAt (encode size ⟨(salt1, salt2), (sum1, sum2)⟩) 0 = walMagic :=
    wordAt_head (by decide) _
  have page : wordAt (encode size ⟨(salt1, salt2), (sum1, sum2)⟩) 8 = size := by
    unfold encode
    rw [wordAt_tail _ 4, wordAt_tail _ 0, wordAt_head small]
  have first : wordAt (encode size ⟨(salt1, salt2), (sum1, sum2)⟩) 16 = salt1.toNat := by
    unfold encode
    rw [wordAt_tail _ 12, wordAt_tail _ 8, wordAt_tail _ 4, wordAt_tail _ 0, wordAt_head (word _)]
  have second : wordAt (encode size ⟨(salt1, salt2), (sum1, sum2)⟩) 20 = salt2.toNat := by
    unfold encode
    rw [wordAt_tail _ 16, wordAt_tail _ 12, wordAt_tail _ 8, wordAt_tail _ 4, wordAt_tail _ 0,
      wordAt_head (word _)]
  have third : wordAt (encode size ⟨(salt1, salt2), (sum1, sum2)⟩) 24 = sum1.toNat := by
    unfold encode
    rw [wordAt_tail _ 20, wordAt_tail _ 16, wordAt_tail _ 12, wordAt_tail _ 8, wordAt_tail _ 4,
      wordAt_tail _ 0, wordAt_head (word _)]
  have fourth : wordAt (encode size ⟨(salt1, salt2), (sum1, sum2)⟩) 28 = sum2.toNat := by
    unfold encode
    rw [wordAt_tail _ 24, wordAt_tail _ 20, wordAt_tail _ 16, wordAt_tail _ 12, wordAt_tail _ 8,
      wordAt_tail _ 4, wordAt_tail _ 0]
    rw [← List.append_nil (toBeBytes sum2.toNat), wordAt_head (word _)]
  unfold decode
  rw [length_encode, if_neg (Nat.lt_irrefl _), magic, if_neg (not_not.mpr rfl), page, first,
    second, third, fourth]
  simp

end WalHeader

/-- The bytes of the sidecar. -/
def WalFile.encode (file : WalFile size) : List UInt8 :=
  match file.header with
  | none => []
  | some header => header.encode size ++ encodeFrames file.frames

/-- `Wal::open_impl`: the header decides the page size of the frames. -/
def Wal.openImpl (crc : Crc) (fresh : Salts) (pageSize : Nat) (bytes : List UInt8)
    (truncateTorn : Bool) : Except Error ((size : Nat) × Wal size) :=
  if bytes.length = 0 then
    .ok ⟨pageSize, Wal.recover crc fresh { header := none, frames := [] } truncateTorn⟩
  else if bytes.length < walHeaderSize then .error (.io "failed to fill whole buffer")
  else
    match WalHeader.decode (bytes.take walHeaderSize) with
    | .error error => .error error
    | .ok (size, header) =>
      .ok ⟨size, Wal.recover crc fresh
        { header := some header, frames := parseFrames size (bytes.drop walHeaderSize) }
        truncateTorn⟩

section Open

variable {crc : Crc} {fresh : Salts} {header : WalHeader} {frames : List (Frame size)}

/-- Opening what is left of a file whose header is whole. -/
theorem openImpl_take (small : size < 2 ^ 32) (fits : ∀ frame ∈ frames, frame.Fits)
    (truncateTorn : Bool) {count : Nat} (whole : walHeaderSize ≤ count)
    (inside : count ≤ walHeaderSize + (encodeFrames frames).length) :
    Wal.openImpl crc fresh size
        ((WalFile.encode { header := some header, frames := frames }).take count) truncateTorn =
      .ok ⟨size, Wal.recover crc fresh
        { header := some header
          frames := frames.take ((count - walHeaderSize) / frameSize size) } truncateTorn⟩ := by
  have length : ((WalFile.encode { header := some header, frames := frames }).take count).length =
      count := by
    rw [List.length_take]
    apply Nat.min_eq_left
    simpa [WalFile.encode] using inside
  have front : ((WalFile.encode { header := some header, frames := frames }).take count).take
      walHeaderSize = header.encode size := by
    rw [List.take_take, Nat.min_eq_left whole]
    exact List.take_left' (WalHeader.length_encode size header)
  have back : ((WalFile.encode { header := some header, frames := frames }).take count).drop
      walHeaderSize = (encodeFrames frames).take (count - walHeaderSize) := by
    rw [List.drop_take]
    exact congrArg (List.take _) (List.drop_left' (WalHeader.length_encode size header))
  have bound : count - walHeaderSize ≤ (encodeFrames frames).length := by omega
  have positive : 0 < walHeaderSize := by decide
  unfold Wal.openImpl
  rw [length, if_neg (by omega), if_neg (by omega), front, WalHeader.decode_encode small]
  simp only
  rw [back, parseFrames_take fits bound]

theorem openImpl_encode (small : size < 2 ^ 32) (file : WalFile size)
    (fits : ∀ frame ∈ file.frames, frame.Fits) (empty : file.header = none → file.frames = [])
    (truncateTorn : Bool) :
    Wal.openImpl crc fresh size file.encode truncateTorn =
      .ok ⟨size, Wal.recover crc fresh file truncateTorn⟩ := by
  obtain ⟨header, frames⟩ := file
  cases header with
  | none =>
    have none : frames = [] := empty rfl
    subst none
    rfl
  | some header =>
    have positive : 0 < frameSize size := by
      unfold frameSize frameHeaderSize
      omega
    have opened := @openImpl_take size crc fresh header frames small fits truncateTorn
      (walHeaderSize + (encodeFrames frames).length) (Nat.le_add_right _ _) (Nat.le_refl _)
    rw [Nat.add_sub_cancel_left, length_encodeFrames, Nat.mul_div_cancel _ positive,
      List.take_length, List.take_of_length_le (by simp [WalFile.encode])] at opened
    exact opened

end Open

end RustSql.Storage
