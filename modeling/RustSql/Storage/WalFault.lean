import RustSql.Storage.WalHistory

/-! Calls on the log that fail at one of their file accesses: what they leave in the file and
in the handle, and when later commits stay visible. -/

namespace RustSql.Storage

open RustSql.Foundation

/-- The access a call fails at. A failing write may have stored a part of its bytes. -/
inductive IoFault where
  | header
  | seed
  | read (slot : Nat)
  | sums (slot written : Nat)
  | frame (written : Nat)

/-- What a write of `new` over `old` leaves when only its first bytes get through. -/
def Frame.torn (old new : Frame size) (written : Nat) : Frame size :=
  Frame.decode size (new.encode.take written ++ old.encode.drop written)

/-- The same write on the file: behind the last frame it leaves no whole frame. -/
def tearFrame (frames : List (Frame size)) (slot : Nat) (new : Frame size) (written : Nat) :
    List (Frame size) :=
  match frames[slot]? with
  | none => frames
  | some old => writeFrames frames slot [old.torn new written]

namespace Wal

/-- `Wal::rechain` up to a failing access: the mark is taken first, and the frames in front of
the access have their new checksums. -/
def rechainFails (crc : Crc) (wal : Wal size) (fault : IoFault) : Option (Wal size) :=
  match wal.recksumFrom with
  | none => none
  | some start =>
    let seed := if start = 0 then wal.header.checksum
      else (wal.file.frames[start - 1]?.map Frame.checksum).getD wal.header.checksum
    let body := fun slot => (wal.file.frames.drop start).take (slot - start)
    let repaired := fun slot =>
      writeFrames wal.file.frames start (rechainFrames crc seed (body slot))
    match fault with
    | .seed => if start = 0 then none else some { wal with recksumFrom := none }
    | .read slot =>
      if start ≤ slot ∧ slot < wal.nFrames then
        some { wal with
          file := { wal.file with frames := repaired slot }
          recksumFrom := none }
      else none
    | .sums slot written =>
      if start ≤ slot ∧ slot < wal.nFrames ∧ written < 8 then
        (wal.file.frames[slot]?).map (fun old =>
          { wal with
            file := { wal.file with
              frames := tearFrame (repaired slot) slot
                (old.chainFrom crc (chainAfter crc seed (body slot))) (16 + written) }
            recksumFrom := none })
      else none
    | _ => none

/-- `Wal::append` up to a failing access. The running checksum moves on before the frame is
written. A header that is cut stays due, and the next append writes it again. -/
def appendFails (crc : Crc) (wal : Wal size) (id : Nat) (data : Bytes size) (commit : Bool)
    (fault : IoFault) : Option (Wal size) :=
  match fault with
  | .header => if wal.headerDirty then some wal else none
  | .frame written =>
    if written < frameSize size then
      let wal := wal.writeHeader
      let wal := if commit then wal.rechain crc else wal
      let frame := (Frame.unsummed id (if commit then 1 else 0) wal.header.salts data).chainFrom
        crc wal.checksum
      some { wal with
        file := { wal.file with frames := tearFrame wal.file.frames wal.nFrames frame written }
        checksum := frame.checksum }
    else none
  | fault => if commit then wal.writeHeader.rechainFails crc fault else none

/-- `Wal::spill` up to a failing access: the mark moves only after the write. -/
def spillFails (crc : Crc) (wal : Wal size) (id : Nat) (data : Bytes size) (fault : IoFault) :
    Option (Wal size) :=
  match wal.uncommitted.lookup id with
  | none => wal.appendFails crc id data false fault
  | some slot =>
    match fault with
    | .frame written =>
      if written < frameSize size then
        some { wal with
          file := { wal.file with
            frames := tearFrame wal.file.frames slot
              (Frame.unsummed id 0 wal.header.salts data) written } }
      else none
    | _ => none

end Wal

/-- A call that fails. -/
inductive FailingCall (size : Nat) where
  | append (id : Nat) (data : Bytes size) (commit : Bool) (fault : IoFault)
  | spill (id : Nat) (data : Bytes size) (fault : IoFault)

namespace FailingCall

/-- The handle and the file after the error, if the call makes that access at all. -/
def fails (crc : Crc) (wal : Wal size) : FailingCall size → Option (Wal size)
  | .append id data commit fault => wal.appendFails crc id data commit fault
  | .spill id data fault => wal.spillFails crc id data fault

/-- A new frame may be lost while a repair of the chain is due, unless it is a commit. -/
def AppendHarmless (wal : Wal size) (commit : Bool) : IoFault → Prop
  | .header => True
  | .frame _ => commit = false ∧ wal.recksumFrom.isSome
  | _ => False

/-- The calls whose failure leaves a log that later commits can continue. A frame cut in
place must lie in the part that a repair will cover, or keep its bytes. -/
def Harmless (wal : Wal size) : FailingCall size → Prop
  | .append _ _ commit fault => AppendHarmless wal commit fault
  | .spill id data fault =>
    match wal.uncommitted.lookup id with
    | none => AppendHarmless wal false fault
    | some slot =>
      match fault with
      | .frame written =>
        (∃ start, wal.recksumFrom = some start ∧ start ≤ slot) ∨
          tearFrame wal.file.frames slot
            (Frame.unsummed id 0 wal.header.salts data) written = wal.file.frames
      | _ => True

end FailingCall

/-- Appends that succeed, one after the other. -/
def Wal.appendAll (crc : Crc) (wal : Wal size) (entries : List (Nat × Bytes size × Bool)) :
    Wal size :=
  entries.foldl (fun wal entry => (wal.append crc entry.1 entry.2.1 entry.2.2).1) wal

/-- Page numbers and the frame count are `u32`. -/
def Wal.HasRoom (wal : Wal size) (entries : List (Nat × Bytes size × Bool)) : Prop :=
  (∀ entry ∈ entries, entry.1 < 2 ^ 32) ∧ wal.nFrames + entries.length < 2 ^ 32

/-- The words of a header lie in its first bytes. -/
theorem wordAt_take (bytes : List UInt8) {offset count : Nat} (inside : offset + 4 ≤ count) :
    wordAt (bytes.take count) offset = wordAt bytes offset := by
  unfold wordAt
  rw [List.drop_take, List.take_take, Nat.min_eq_left (by omega)]

theorem fromBeBytes_lt (bytes : List UInt8) : fromBeBytes bytes < 256 ^ bytes.length := by
  induction bytes using List.reverseRecOn with
  | nil => decide
  | append_singleton front byte ih =>
    have last := byte.toNat_lt
    rw [fromBeBytes, List.foldl_append, List.length_append, List.length_singleton, Nat.pow_succ]
    rw [fromBeBytes] at ih
    simp only [List.foldl_cons, List.foldl_nil]
    omega

theorem wordAt_lt (bytes : List UInt8) (offset : Nat) : wordAt bytes offset < 2 ^ 32 := by
  have bound := fromBeBytes_lt ((bytes.drop offset).take 4)
  have short : ((bytes.drop offset).take 4).length ≤ 4 := List.length_take_le _ _
  exact Nat.lt_of_lt_of_le bound (Nat.pow_le_pow_right (by decide) short)

namespace Frame

theorem torn_fits (old new : Frame size) (written : Nat) : (old.torn new written).Fits :=
  ⟨wordAt_lt _ _, wordAt_lt _ _⟩

/-- A cut changes nothing in the bytes that both frames share at their start. -/
theorem take_torn {old new : List UInt8} {count : Nat} (length : new.length = old.length)
    (shared : new.take count = old.take count) (written : Nat) :
    (new.take written ++ old.drop written).take count = old.take count := by
  apply List.ext_getElem?
  intro index
  have same := congrArg (fun bytes : List UInt8 => bytes[index]?) shared
  simp only [List.getElem?_take] at same ⊢
  by_cases inside : index < count
  · rw [if_pos inside, if_pos inside] at same ⊢
    by_cases front : index < written
    · by_cases short : index < new.length
      · rw [List.getElem?_append_left (by simp; omega), List.getElem?_take_of_lt front, same]
      · rw [List.getElem?_eq_none (by simp; omega), List.getElem?_eq_none (by omega)]
    · by_cases short : written ≤ new.length
      · rw [List.getElem?_append_right (by simp; omega), List.getElem?_drop, List.length_take,
          Nat.min_eq_left short, Nat.add_sub_cancel' (by omega)]
      · rw [List.getElem?_eq_none (by simp; omega), List.getElem?_eq_none (by omega)]
  · rw [if_neg inside, if_neg inside]

theorem encode_take (frame : Frame size) :
    frame.encode.take 16 = toBeBytes frame.pageId ++ (toBeBytes frame.commit ++
      (toBeBytes frame.salts.1.toNat ++ toBeBytes frame.salts.2.toNat)) := rfl

/-- A frame cut by a version of its own page keeps its page, its mark and its salts. -/
theorem torn_kept {old new : Frame size} (fits : old.Fits) (pageId : new.pageId = old.pageId)
    (commit : new.commit = old.commit) (salts : new.salts = old.salts) (written : Nat) :
    (old.torn new written).pageId = old.pageId ∧ (old.torn new written).commit = old.commit ∧
      (old.torn new written).salts = old.salts := by
  have shared : new.encode.take 16 = old.encode.take 16 := by
    rw [encode_take, encode_take, pageId, commit, salts]
  have kept := take_torn ((length_encode new).trans (length_encode old).symm) shared written
  have words : ∀ offset, offset + 4 ≤ 16 →
      wordAt (new.encode.take written ++ old.encode.drop written) offset =
        wordAt old.encode offset := by
    intro offset inside
    rw [← wordAt_take _ inside, kept, wordAt_take _ inside]
  have whole := decode_encode old fits
  refine ⟨?_, ?_, ?_⟩
  · rw [← congrArg Frame.pageId whole]
    exact words 0 (by decide)
  · rw [← congrArg Frame.commit whole]
    exact words 4 (by decide)
  · rw [← congrArg Frame.salts whole]
    unfold torn decode
    rw [words 8 (by decide), words 12 (by decide)]

end Frame

section Faults

variable {crc : Crc} {wal after : Wal size} {committed opened stale : List (Frame size)}

theorem Chronicle.weaken (chronicle : Chronicle crc 0 wal committed opened stale) (torn : Nat) :
    Chronicle crc torn wal committed opened stale :=
  ⟨chronicle.frames, chronicle.count, chronicle.header, chronicle.salted,
    fun frame member => chronicle.foreign frame (List.mem_of_mem_drop member),
    chronicle.chained, chronicle.broken, chronicle.running, chronicle.ended, chronicle.plain,
    chronicle.own⟩

theorem tearFrame_behind (live stale : List (Frame size)) (new : Frame size) (written : Nat) :
    ∃ stale', tearFrame (live ++ stale) live.length new written = live ++ stale' ∧
      stale'.drop 1 = stale.drop 1 := by
  unfold tearFrame
  cases stale with
  | nil => exact ⟨[], by simp, rfl⟩
  | cons old rest =>
    refine ⟨old.torn new written :: rest, ?_, rfl⟩
    simp [writeFrames_append]

theorem tearFrame_fits {frames : List (Frame size)} (fits : ∀ frame ∈ frames, frame.Fits)
    (slot : Nat) (new : Frame size) (written : Nat) :
    ∀ frame ∈ tearFrame frames slot new written, frame.Fits := by
  intro frame member
  unfold tearFrame at member
  split at member
  · exact fits frame member
  · rcases mem_writeFrames member with kept | added
    · exact fits frame kept
    · rw [List.mem_singleton.mp added]
      exact Frame.torn_fits _ _ _

/-- A lost frame leaves the log as it was while a repair of its chain is due. -/
theorem Chronicle.lose (chronicle : Chronicle crc 0 wal committed opened stale)
    (due : wal.recksumFrom.isSome) (new : Frame size) (written : Nat) (checksum : Checksum) :
    ∃ stale', Chronicle crc 1 { wal with
      file := { wal.file with frames := tearFrame wal.file.frames wal.nFrames new written }
      checksum := checksum } committed opened stale' := by
  obtain ⟨start, broken⟩ := Option.isSome_iff_exists.mp due
  have bounds := chronicle.broken start broken
  have front : (committed ++ opened).length = wal.nFrames := by simp [chronicle.count]
  obtain ⟨stale', torn, behind⟩ := tearFrame_behind (committed ++ opened) stale new written
  refine ⟨stale', ?_, chronicle.count, ?_, chronicle.salted, ?_, chronicle.chained,
    chronicle.broken, ?_, chronicle.ended, chronicle.plain, chronicle.own⟩
  · rw [← torn, ← front, ← chronicle.frames]
  · have kept := chronicle.header_written (Nat.zero_lt_of_lt bounds.2)
    simpa [kept.1] using kept.2
  · intro frame member
    rw [behind] at member
    exact chronicle.foreign frame (List.mem_of_mem_drop member)
  · intro whole
    cases broken.symm.trans whole

/-- A frame cut in place lies in the part of the chain that a repair will cover. -/
theorem Chronicle.tear (chronicle : Chronicle crc 0 wal committed opened stale)
    (fits : ∀ frame ∈ wal.file.frames, frame.Fits) {id slot start : Nat} (data : Bytes size)
    (own : wal.uncommitted.lookup id = some slot) (broken : wal.recksumFrom = some start)
    (before : start ≤ slot) (written : Nat) :
    ∃ opened', Chronicle crc 0 { wal with
      file := { wal.file with
        frames := tearFrame wal.file.frames slot (Frame.unsummed id 0 wal.header.salts data)
          written } } committed opened' stale := by
  rw [chronicle.own id] at own
  obtain ⟨place, found, rfl⟩ := Option.map_eq_some_iff.mp own
  obtain ⟨old, there, named⟩ := lastSlot_some found
  have inside := (List.getElem?_eq_some_iff.mp there).1
  have stored : wal.file.frames[committed.length + place]? = some old := by
    rw [chronicle.frames, List.getElem?_append_left (by simp; omega),
      List.getElem?_append_right (Nat.le_add_right _ _), Nat.add_sub_cancel_left, there]
  have member := List.mem_of_getElem? there
  obtain ⟨pageId, commit, salts⟩ := @Frame.torn_kept _ old
    (Frame.unsummed id 0 wal.header.salts data) (fits old (List.mem_of_getElem? stored)) named.symm (chronicle.plain old member).symm
    (chronicle.salted old (List.mem_append_right _ member)).symm written
  have torn := chronicle.replace there pageId
    (salts.trans (chronicle.salted old (List.mem_append_right _ member)))
    (commit.trans (chronicle.plain old member)) (chronicle.broken start broken).1 before
    (by rw [broken]; exact Nat.le_refl _)
  rw [← broken] at torn
  unfold tearFrame
  rw [stored]
  exact ⟨_, torn⟩

theorem Wal.writeHeader_eq (clean : wal.headerDirty = false) : wal.writeHeader = wal := by
  rw [Wal.writeHeader, clean]
  rfl

theorem appendFails_chronicle (chronicle : Chronicle crc 0 wal committed opened stale)
    (fits : ∀ frame ∈ wal.file.frames, frame.Fits) {id : Nat} {data : Bytes size}
    {commit : Bool} {fault : IoFault}
    (harmless : FailingCall.AppendHarmless wal commit fault)
    (failed : wal.appendFails crc id data commit fault = some after) :
    (∃ stale', Chronicle crc 1 after committed opened stale') ∧
      ∀ frame ∈ after.file.frames, frame.Fits := by
  cases fault with
  | header =>
    simp only [Wal.appendFails] at failed
    split at failed
    · cases failed
      exact ⟨⟨stale, chronicle.weaken 1⟩, fits⟩
    · cases failed
  | frame written =>
    obtain ⟨rfl, due⟩ := harmless
    obtain ⟨start, broken⟩ := Option.isSome_iff_exists.mp due
    have clean := (chronicle.header_written
      (Nat.zero_lt_of_lt (chronicle.broken start broken).2)).1
    simp only [Wal.appendFails, Bool.false_eq_true, if_false, Wal.writeHeader_eq clean] at failed
    split at failed
    · cases failed
      exact ⟨chronicle.lose due _ written _, tearFrame_fits fits _ _ _⟩
    · cases failed
  | seed => exact harmless.elim
  | read slot => exact harmless.elim
  | sums slot written => exact harmless.elim

theorem FailingCall.chronicle (chronicle : Chronicle crc 0 wal committed opened stale)
    (fits : ∀ frame ∈ wal.file.frames, frame.Fits) {call : FailingCall size}
    (harmless : call.Harmless wal) (failed : call.fails crc wal = some after) :
    (∃ opened' stale', Chronicle crc 1 after committed opened' stale') ∧
      ∀ frame ∈ after.file.frames, frame.Fits := by
  have appended : ∀ {id : Nat} {data : Bytes size} {commit : Bool} {fault : IoFault},
      FailingCall.AppendHarmless wal commit fault →
      wal.appendFails crc id data commit fault = some after →
      (∃ opened' stale', Chronicle crc 1 after committed opened' stale') ∧
        ∀ frame ∈ after.file.frames, frame.Fits := by
    intro id data commit fault harmless failed
    obtain ⟨⟨stale', left⟩, kept⟩ := appendFails_chronicle chronicle fits harmless failed
    exact ⟨⟨opened, stale', left⟩, kept⟩
  cases call with
  | append id data commit fault => exact appended harmless failed
  | spill id data fault =>
    simp only [FailingCall.Harmless] at harmless
    simp only [FailingCall.fails, Wal.spillFails] at failed
    cases own : wal.uncommitted.lookup id with
    | none =>
      rw [own] at harmless failed
      exact appended harmless failed
    | some slot =>
      rw [own] at harmless failed
      cases fault with
      | frame written =>
        simp only at harmless failed
        split at failed
        · cases failed
          refine ⟨?_, tearFrame_fits fits _ _ _⟩
          rcases harmless with ⟨start, broken, before⟩ | same
          · obtain ⟨opened', torn⟩ :=
              chronicle.tear fits data own broken before written
            exact ⟨opened', stale, torn.weaken 1⟩
          · rw [same]
            exact ⟨opened, stale, chronicle.weaken 1⟩
        · cases failed
      | header => cases failed
      | seed => cases failed
      | read slot => cases failed
      | sums slot written => cases failed

end Faults

section Later

variable {crc : Crc} {wal : Wal size}

theorem Wal.append_header (crc : Crc) (wal : Wal size) (id : Nat) (data : Bytes size)
    (commit : Bool) : (wal.append crc id data commit).1.header = wal.header := by
  cases commit with
  | false => simp [Wal.append]
  | true => simp [Wal.append]

/-- Successful appends continue a log behind which at most one frame was cut. -/
theorem appendAll_chronicle {torn : Nat} {committed opened stale : List (Frame size)}
    (chronicle : Chronicle crc torn wal committed opened stale) (few : torn ≤ 1)
    (entries : List (Nat × Bytes size × Bool)) :
    ∃ torn' committed' opened' stale', torn' ≤ 1 ∧
      Chronicle crc torn' (wal.appendAll crc entries) committed' opened' stale' := by
  induction entries generalizing wal torn committed opened stale with
  | nil => exact ⟨torn, committed, opened, stale, few, chronicle⟩
  | cons entry rest ih =>
    obtain ⟨id, data, commit⟩ := entry
    cases commit with
    | false =>
      obtain ⟨frame, _, _, appended⟩ := chronicle.append id data
      exact ih appended (by omega)
    | true =>
      obtain ⟨front, batch, _, _, _, _, sealed⟩ :=
        chronicle.commit (List.cons_ne_nil (id, data) [])
      rw [← Wal.append_commit] at sealed
      exact ih sealed (by omega)

theorem appendAll_written {used : List Salts} (old : Written used wal.file.frames)
    (known : wal.header.salts ∈ used) {entries : List (Nat × Bytes size × Bool)}
    (fits : ∀ entry ∈ entries, entry.1 < 2 ^ 32) :
    Written used (wal.appendAll crc entries).file.frames := by
  induction entries generalizing wal with
  | nil => exact old
  | cons entry rest ih =>
    refine ih (old.append crc known (fits entry List.mem_cons_self) entry.2.1 entry.2.2) ?_
      (fun other member => fits other (List.mem_cons_of_mem _ member))
    rw [Wal.append_header]
    exact known

/-- After a harmless failure the next commit on the handle, and everything before it, is
what opening the file finds. -/
theorem commit_after_failure (crc : Crc) (small : size < 2 ^ 32) {salts : Salts}
    {calls : List (WalCall size)} {client : WalClient size}
    (run : Run (WalClient.Step crc) (fun client call => call.Allowed client)
      (WalClient.fresh crc salts) calls client)
    {call : FailingCall size} {after : Wal size} (harmless : call.Harmless client.wal)
    (failed : call.fails crc client.wal = some after)
    {entries : List (Nat × Bytes size × Bool)} {id : Nat} (data : Bytes size)
    (room : client.wal.HasRoom (entries ++ [(id, data, true)])) (fresh : Salts)
    (truncateTorn : Bool) :
    ∃ wal : Wal size,
      Wal.openImpl crc fresh size
          (after.appendAll crc (entries ++ [(id, data, true)])).file.encode truncateTorn =
        .ok ⟨size, wal⟩ ∧
      wal.nFrames = (after.appendAll crc (entries ++ [(id, data, true)])).nFrames ∧
      wal.checksum = (after.appendAll crc (entries ++ [(id, data, true)])).checksum ∧
      wal.committedPage id = some data := by
  have recorded : Recorded crc 0 client := run_recorded run
  obtain ⟨committed, opened, stale, chronicle, _⟩ := recorded.whole
  obtain ⟨⟨opened', stale', left⟩, kept⟩ := FailingCall.chronicle chronicle
    (fun frame member => (recorded.written frame member).1) harmless failed
  have written : Written (after.header.salts :: after.file.frames.map Frame.salts)
      after.file.frames := fun frame member =>
    ⟨kept frame member, List.mem_cons_of_mem _ (List.mem_map_of_mem member)⟩
  have held := @appendAll_written _ crc after _ written List.mem_cons_self _ room.1
  have split : after.appendAll crc (entries ++ [(id, data, true)]) =
      ((after.appendAll crc entries).append crc id data true).1 := by
    unfold Wal.appendAll
    rw [List.foldl_append]
    rfl
  rw [split] at held ⊢
  obtain ⟨torn, committed', opened'', stale'', few, later⟩ :=
    appendAll_chronicle left (Nat.le_refl 1) entries
  obtain ⟨front, batch, _, named, _, _, sealed⟩ :=
    later.commit (List.cons_ne_nil (id, data) [])
  have repaired : ((after.appendAll crc entries).append crc id data true).1.recksumFrom = none :=
    (later.writeHeader.rechain).2
  rw [← Wal.append_commit, List.length_singleton, Nat.sub_eq_zero_of_le few] at sealed
  generalize ((after.appendAll crc entries).append crc id data true).1 = final
    at held sealed repaired
  obtain ⟨visible, header⟩ := sealed.recovered fresh truncateTorn
  have some : batch ≠ [] := by
    intro empty
    rw [empty] at named
    cases named
  have live : 0 < final.nFrames := by
    have length := List.length_pos_of_ne_nil some
    simp only [sealed.count, List.length_append, List.length_nil]
    omega
  refine ⟨_, openImpl_encode small final.file (fun frame member => (held frame member).1)
    sealed.headerless truncateTorn, ?_, ?_, ?_⟩
  · rw [visible.count, sealed.count]
    rfl
  · rw [visible.checksum, header (sealed.header_written live).1, sealed.running repaired,
      List.append_nil]
  · rw [visible.committedPage, ← List.append_assoc, ← lastEntry_entries, frameEntries_append,
      named, lastEntry, RedoLog.latest_concat, if_pos rfl]
    rfl

end Later

/-- A page is spilled twice in one transaction, so a repair of the chain is due. -/
def spilledTwice : List (WalCall 512) :=
  [.spill 1 (Bytes.zero 512), .spill 1 (Vector.replicate 512 1)]

def spilledTwiceClient : WalClient 512 :=
  spilledTwice.foldl (WalClient.next crc32) (WalClient.fresh crc32 (1, 1))

/-- What a spill of page 2 leaves that fails after 100 bytes. -/
def lostSpill : Wal 512 :=
  ((FailingCall.spill 2 (Bytes.zero 512) (.frame 100)).fails crc32
    spilledTwiceClient.wal).getD spilledTwiceClient.wal

theorem commit_after_failure_lost :
    ∃ wal : Wal 512,
      Wal.openImpl crc32 (9, 9) 512
          (lostSpill.appendAll crc32 [(3, Bytes.zero 512, true)]).file.encode true =
        .ok ⟨512, wal⟩ ∧
      wal.nFrames = (lostSpill.appendAll crc32 [(3, Bytes.zero 512, true)]).nFrames ∧
      wal.checksum = (lostSpill.appendAll crc32 [(3, Bytes.zero 512, true)]).checksum ∧
      wal.committedPage 3 = some (Bytes.zero 512) := by
  have steps : ∀ (client : WalClient 512) (call : WalCall 512),
      ∃ result, WalClient.Step crc32 client call result (client.next crc32 call) :=
    fun _ _ => ⟨(), rfl⟩
  have along : Run.Along (fun client call => WalCall.Allowed client call) (WalClient.next crc32)
      (WalClient.fresh crc32 (1, 1)) spilledTwice := by
    refine ⟨⟨show 1 < 2 ^ 32 by decide, ?_⟩, ⟨show 1 < 2 ^ 32 by decide, ?_⟩, trivial⟩
    all_goals decide
  exact @commit_after_failure 512 crc32 (by decide) (1, 1) spilledTwice spilledTwiceClient
    (Run.of_along steps along) (.spill 2 (Bytes.zero 512) (.frame 100)) lostSpill ⟨rfl, rfl⟩ rfl
    [] 3 (Bytes.zero 512) ⟨by
      intro entry member
      rw [List.mem_singleton.mp member]
      decide, by decide⟩ (9, 9) true

/-- What a first append leaves that fails before any byte of its frame is written. -/
def lostAppend : Option (Wal 512) :=
  (FailingCall.append 1 (Bytes.zero 512) false (.frame 0)).fails crc32
    (WalClient.fresh crc32 (1, 1) : WalClient 512).wal

/-- How many frames recovery finds after a successful commit of page 1. -/
def framesAfter (wal : Wal 512) : Nat :=
  (Wal.recover crc32 (9, 9) (wal.appendAll crc32 [(1, Bytes.zero 512, true)]).file true).nFrames

set_option maxRecDepth 20000 in
/-- The running checksum has moved past a frame that was never written: the next commit is
not found. -/
theorem failed_append_hides : lostAppend.map framesAfter = some 0 ∧
    lostAppend.map (fun wal => (wal.appendAll crc32 [(1, Bytes.zero 512, true)]).nFrames) =
      some 1 := by
  refine ⟨?_, ?_⟩
  · decide +kernel
  · decide

end RustSql.Storage
