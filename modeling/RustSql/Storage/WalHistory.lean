import RustSql.Foundation.GuardedRun
import RustSql.Storage.WalBatch
import RustSql.Storage.WalBytes

/-! Runs of the log's calls against a history of what was written: reopening the file finds
the committed part of it. -/

namespace RustSql.Storage

open RustSql.Foundation

/-- A call on the log. -/
inductive WalCall (size : Nat) where
  | append (id : Nat) (data : Bytes size) (commit : Bool)
  | spill (id : Nat) (data : Bytes size)
  | appendBatch (pages : List (Nat × Page size))
  | reset (salts : Salts)
  | resetKeepSize (salts : Salts)

/-- What was written in this generation: up to its last commit, and since. -/
structure History (size : Nat) where
  committed : List (Nat × Bytes size)
  opened : List (Nat × Bytes size)

namespace History

def commit (history : History size) (written : List (Nat × Bytes size)) : History size where
  committed := history.committed ++ history.opened ++ written
  opened := []

/-- The history after a call. A spill replaces the page's last version of the open
transaction, if there is one. -/
def next (history : History size) : WalCall size → History size
  | .append id data true => history.commit [(id, data)]
  | .append id data false => { history with opened := history.opened ++ [(id, data)] }
  | .spill id data =>
    { history with
      opened := (overwriteLast id data history.opened).getD (history.opened ++ [(id, data)]) }
  | .appendBatch pages =>
    if dirtyEntries pages = [] then history else history.commit (dirtyEntries pages)
  | .reset _ => { committed := [], opened := [] }
  | .resetKeepSize _ => { committed := [], opened := [] }

end History

/-- The bytes of a page's last entry. -/
def lastEntry (entries : List (Nat × Bytes size)) (id : Nat) : Option (Bytes size) :=
  (RedoLog.latest Prod.fst entries id).map Prod.snd

theorem lastEntry_entries (frames : List (Frame size)) (id : Nat) :
    lastEntry (frameEntries frames) id = newest frames id := by
  unfold lastEntry newest frameEntries
  induction frames with
  | nil => rfl
  | cons frame rest ih =>
    simp only [List.map_cons, RedoLog.latest, Option.map_or, ih]
    by_cases same : frame.pageId = id <;> simp [same]

/-- A handle with its history and the salts of every generation so far. -/
structure WalClient (size : Nat) where
  wal : Wal size
  history : History size
  used : List Salts

namespace WalCall

def run (crc : Crc) (wal : Wal size) : WalCall size → Wal size
  | .append id data commit => (wal.append crc id data commit).1
  | .spill id data => (wal.spill crc id data).1
  | .appendBatch pages => (wal.appendChunks crc pages).1
  | .reset salts => Wal.reset crc salts
  | .resetKeepSize salts => wal.resetKeepSize crc salts

/-- The salts a call brings into use. -/
def salts : WalCall size → List Salts
  | .reset salts => [salts]
  | .resetKeepSize salts => [salts]
  | _ => []

/-- Page numbers are `u32`, and a new generation's salts are fresh. -/
def Named (client : WalClient size) : WalCall size → Prop
  | .append id _ _ => id < 2 ^ 32
  | .spill id _ => id < 2 ^ 32
  | .appendBatch pages => ∀ entry ∈ pages, entry.1 < 2 ^ 32
  | .reset salts => salts ∉ client.used
  | .resetKeepSize salts => salts ∉ client.used

/-- The frames a call appends. A page that is spilled again keeps its frame. -/
def frames (client : WalClient size) : WalCall size → Nat
  | .append _ _ _ => 1
  | .spill id _ => if (client.wal.uncommitted.lookup id).isSome then 0 else 1
  | .appendBatch pages => (dirtyEntries pages).length
  | .reset _ => 0
  | .resetKeepSize _ => 0

/-- `n_frames` is a `u32`, which must not wrap. -/
def Allowed (client : WalClient size) (call : WalCall size) : Prop :=
  call.Named client ∧ client.wal.nFrames + call.frames client < 2 ^ 32

end WalCall

namespace WalClient

/-- `Wal::open` on an empty file. -/
def fresh (crc : Crc) (salts : Salts) : WalClient size where
  wal := Wal.recover crc salts { header := none, frames := [] } true
  history := { committed := [], opened := [] }
  used := [salts]

def next (crc : Crc) (client : WalClient size) (call : WalCall size) : WalClient size where
  wal := call.run crc client.wal
  history := client.history.next call
  used := call.salts ++ client.used

def Step (crc : Crc) (before : WalClient size) (call : WalCall size) (_ : Unit)
    (after : WalClient size) : Prop :=
  after = before.next crc call

end WalClient

/-- Every frame of the file is one that a call of this client wrote. -/
def Written (used : List Salts) (frames : List (Frame size)) : Prop :=
  ∀ frame ∈ frames, frame.Fits ∧ frame.salts ∈ used

section Written

variable {used : List Salts} {frames written : List (Frame size)}

theorem Written.writeFrames (old : Written used frames) (new : Written used written)
    (start : Nat) : Written used (writeFrames frames start written) := by
  intro frame member
  rcases mem_writeFrames member with kept | added
  · exact old frame kept
  · exact new frame added

theorem Written.rechainFrames (old : Written used frames) (crc : Crc) (chain : Checksum) :
    Written used (rechainFrames crc chain frames) := by
  intro frame member
  obtain ⟨before, there, pageId, commit, salts, _⟩ := mem_rechainFrames member
  obtain ⟨⟨smallId, smallCommit⟩, known⟩ := old before there
  exact ⟨⟨pageId ▸ smallId, commit ▸ smallCommit⟩, salts ▸ known⟩

theorem Written.rechain {wal : Wal size} (old : Written used wal.file.frames) (crc : Crc) :
    Written used (wal.rechain crc).file.frames := by
  unfold Wal.rechain
  split
  · exact old
  · next start _ =>
      have body : Written used ((wal.file.frames.drop start).take (wal.nFrames - start)) :=
        fun frame member => old frame (List.mem_of_mem_drop (List.mem_of_mem_take member))
      exact old.writeFrames (body.rechainFrames crc _) start

theorem Written.single {frame : Frame size} (fits : frame.Fits) (known : frame.salts ∈ used) :
    Written used [frame] := by
  intro other member
  rw [List.mem_singleton.mp member]
  exact ⟨fits, known⟩

theorem Written.commitFrames {salts : Salts} (known : salts ∈ used)
    {entries : List (Nat × Bytes size)} (small : ∀ entry ∈ entries, entry.1 < 2 ^ 32) :
    Written used (Wal.commitFrames salts entries) := by
  induction entries with
  | nil =>
    intro frame member
    cases member
  | cons entry rest ih =>
    have first : entry.1 < 2 ^ 32 := small entry List.mem_cons_self
    have others := ih (fun other member => small other (List.mem_cons_of_mem _ member))
    cases rest with
    | nil => exact .single ⟨first, show 1 < 2 ^ 32 by decide⟩ known
    | cons second more =>
      rw [Wal.commitFrames_cons]
      intro frame member
      rcases List.mem_cons.mp member with rfl | later
      · exact ⟨⟨first, show 0 < 2 ^ 32 by decide⟩, known⟩
      · exact others frame later

theorem Written.sealCommit {wal : Wal size} (old : Written used wal.file.frames) (crc : Crc)
    (known : wal.header.salts ∈ used) {entries : List (Nat × Bytes size)}
    (small : ∀ entry ∈ entries, entry.1 < 2 ^ 32) :
    Written used (wal.sealCommit crc entries).file.frames :=
  old.writeFrames ((Written.commitFrames known small).rechainFrames crc _) _

theorem Written.append {wal : Wal size} (old : Written used wal.file.frames) (crc : Crc)
    (known : wal.header.salts ∈ used) {id : Nat} (small : id < 2 ^ 32) (data : Bytes size)
    (commit : Bool) : Written used (wal.append crc id data commit).1.file.frames := by
  have held : Written used wal.writeHeader.file.frames := by simpa using old
  cases commit with
  | false =>
    refine held.writeFrames (.single ⟨small, ?_⟩ ?_) _
    · show (if false = true then 1 else 0) < 2 ^ 32
      simp
    · simpa [Frame.chainFrom, Frame.unsummed] using known
  | true =>
    have header := (Wal.rechain_kept crc wal.writeHeader).1
    rw [Wal.writeHeader_header] at header
    rw [Wal.append_commit]
    refine (held.rechain crc).sealCommit crc (header ▸ known) ?_
    intro entry member
    rw [List.mem_singleton.mp member]
    exact small

end Written

/-- The file is a log whose frames are the history's. Behind them at most `most` frames remain
that earlier transactions left open; they end no commit. -/
structure Recorded (crc : Crc) (most : Nat) (client : WalClient size) : Prop where
  log : ∃ torn committed opened stale, Chronicle crc torn client.wal committed opened stale ∧
    torn ≤ most ∧ (∀ frame ∈ stale.take torn, frame.commit = 0) ∧
    frameEntries committed = client.history.committed ∧ frameEntries opened = client.history.opened
  written : Written client.used client.wal.file.frames
  known : client.wal.header.salts ∈ client.used

section Calls

variable {crc : Crc} {most : Nat} {client : WalClient size}

theorem Recorded.whole (recorded : Recorded crc 0 client) :
    ∃ committed opened stale, Chronicle crc 0 client.wal committed opened stale ∧
      frameEntries committed = client.history.committed ∧
      frameEntries opened = client.history.opened := by
  obtain ⟨torn, committed, opened, stale, chronicle, few, _, same⟩ := recorded.log
  obtain rfl := Nat.le_zero.mp few
  exact ⟨committed, opened, stale, chronicle, same⟩

theorem plain_drop {stale : List (Frame size)} {torn : Nat}
    (plain : ∀ frame ∈ stale.take torn, frame.commit = 0) (count : Nat) :
    ∀ frame ∈ (stale.drop count).take (torn - count), frame.commit = 0 := by
  intro frame member
  rw [← List.drop_take] at member
  exact plain frame (List.mem_of_mem_drop member)

theorem frameEntries_append (front back : List (Frame size)) :
    frameEntries (front ++ back) = frameEntries front ++ frameEntries back :=
  List.map_append

theorem frameEntries_rechain (crc : Crc) (chain : Checksum) (frames : List (Frame size)) :
    frameEntries (rechainFrames crc chain frames) = frameEntries frames :=
  rechainFrames_entries crc chain frames

/-- A commit repairs the chain and seals the frames of the open transaction with its own. -/
theorem Chronicle.commit {torn : Nat} {wal : Wal size} {committed opened stale : List (Frame size)}
    (chronicle : Chronicle crc torn wal committed opened stale)
    {entries : List (Nat × Bytes size)} (nonempty : entries ≠ []) :
    ∃ front batch, frameEntries front = frameEntries opened ∧ frameEntries batch = entries ∧
      (∀ frame ∈ front, frame.commit = 0) ∧ (∀ frame ∈ batch.dropLast, frame.commit = 0) ∧
      Chronicle crc (torn - entries.length) ((wal.writeHeader.rechain crc).sealCommit crc entries)
        (committed ++ (front ++ batch)) [] (stale.drop entries.length) := by
  obtain ⟨ready, repaired⟩ := chronicle.writeHeader.rechain
  have clean := (Wal.rechain_kept crc wal.writeHeader).2.2.2
  rw [Wal.writeHeader_headerDirty] at clean
  obtain ⟨batch, entered, plain, sealed⟩ := ready.sealCommit repaired clean nonempty
  refine ⟨_, batch, frameEntries_rechain _ _ _, entered, ready.plain, plain, ?_⟩
  rw [← List.append_assoc]
  exact sealed

/-- A commit makes the open transaction and its own entries part of the committed history. -/
theorem Recorded.commit (recorded : Recorded crc most client) {entries : List (Nat × Bytes size)}
    (nonempty : entries ≠ []) (small : ∀ entry ∈ entries, entry.1 < 2 ^ 32) :
    Recorded crc most { client with
      wal := (client.wal.writeHeader.rechain crc).sealCommit crc entries
      history := client.history.commit entries } := by
  obtain ⟨⟨torn, committed, opened, stale, chronicle, few, plain, committedSame, openedSame⟩,
    written, known⟩ := recorded
  obtain ⟨front, batch, frontSame, batchSame, _, _, sealed⟩ := chronicle.commit nonempty
  have header := (Wal.rechain_kept crc client.wal.writeHeader).1
  rw [Wal.writeHeader_header] at header
  have held : Written client.used (client.wal.writeHeader.rechain crc).file.frames :=
    Written.rechain (by simpa using written) crc
  refine ⟨⟨_, _, [], _, sealed, (Nat.sub_le _ _).trans few, plain_drop plain _, ?_, rfl⟩,
    held.sealCommit crc (header ▸ known) small, header ▸ known⟩
  rw [frameEntries_append, frameEntries_append, frontSame, committedSame, openedSame, batchSame]
  simp [History.commit]

theorem Recorded.append (recorded : Recorded crc most client) {id : Nat} (small : id < 2 ^ 32)
    (data : Bytes size) :
    Recorded crc most { client with
      wal := (client.wal.append crc id data false).1
      history := { client.history with opened := client.history.opened ++ [(id, data)] } } := by
  obtain ⟨⟨torn, committed, opened, stale, chronicle, few, plain, committedSame, openedSame⟩,
    written, known⟩ := recorded
  obtain ⟨frame, named, bytes, appended⟩ := chronicle.append id data
  refine ⟨⟨_, _, _, _, appended, (Nat.sub_le _ _).trans few, plain_drop plain 1, committedSame, ?_⟩,
    written.append crc known small data false,
    by simpa [Wal.append] using known⟩
  rw [frameEntries_append, openedSame, ← named, ← bytes]
  rfl

theorem Recorded.spill (recorded : Recorded crc most client) {id : Nat} (small : id < 2 ^ 32)
    (data : Bytes size) :
    Recorded crc most { client with
      wal := (client.wal.spill crc id data).1
      history := { client.history with
        opened := (overwriteLast id data client.history.opened).getD
          (client.history.opened ++ [(id, data)]) } } := by
  obtain ⟨⟨torn, committed, opened, stale, chronicle, few, plain, committedSame, openedSame⟩,
    written, known⟩ := recorded
  have changed := overwriteLast_entries opened
    (show (Frame.unsummed id 0 client.wal.header.salts data).pageId = id from rfl)
  rw [openedSame] at changed
  have bytes : (Frame.unsummed id 0 client.wal.header.salts data).data = data := rfl
  rw [bytes] at changed
  cases found : lastSlot opened id with
  | none =>
    rw [chronicle.spill_append data found, changed, found]
    exact Recorded.append ⟨⟨torn, committed, opened, stale, chronicle, few, plain, committedSame,
      openedSame⟩, written, known⟩ small data
  | some slot =>
    have position : client.wal.uncommitted.lookup id = some (committed.length + slot) := by
      rw [chronicle.own id, found]
      rfl
    refine ⟨⟨_, _, _, _, chronicle.overwrite data found, few, plain, committedSame, ?_⟩, ?_, ?_⟩
    · rw [changed, found]
      rfl
    · simp only [Wal.spill, position]
      exact Written.writeFrames written (.single ⟨small, show 0 < 2 ^ 32 by decide⟩ known) _
    · simp only [Wal.spill, position]
      exact known

/-- A batch without a dirty page repairs the chain and writes nothing. -/
theorem Recorded.rechain (recorded : Recorded crc most client) :
    Recorded crc most { client with wal := client.wal.writeHeader.rechain crc } := by
  obtain ⟨⟨torn, committed, opened, stale, chronicle, few, plain, committedSame, openedSame⟩,
    written, known⟩ := recorded
  refine ⟨⟨_, _, _, _, chronicle.writeHeader.rechain.1, few, plain, committedSame, ?_⟩,
    Written.rechain (by simpa using written) crc, ?_⟩
  · rw [frameEntries_rechain, openedSame]
  · rw [(Wal.rechain_kept crc client.wal.writeHeader).1, Wal.writeHeader_header]
    exact known

theorem Recorded.use (recorded : Recorded crc most client) (salts : List Salts) :
    Recorded crc most { client with used := salts ++ client.used } :=
  ⟨recorded.log, fun frame member =>
    ⟨(recorded.written frame member).1, List.mem_append_right _ (recorded.written frame member).2⟩,
    List.mem_append_right _ recorded.known⟩

theorem call_recorded (recorded : Recorded crc most client) (call : WalCall size)
    (named : call.Named client) : Recorded crc most (client.next crc call) := by
  cases call with
  | append id data commit =>
    cases commit with
    | false => exact recorded.append named data
    | true =>
      have small : ∀ entry ∈ [(id, data)], entry.1 < 2 ^ 32 := by
        intro entry member
        rw [List.mem_singleton.mp member]
        exact named
      exact recorded.commit (List.cons_ne_nil (id, data) []) small
  | spill id data => exact recorded.spill named data
  | appendBatch pages =>
    obtain ⟨torn, committed, opened, stale, chronicle, _⟩ := recorded.log
    have onDisk : client.wal.nFrames ≤ client.wal.file.frames.length := by
      rw [chronicle.frames, chronicle.count]
      simp
    unfold WalClient.next WalCall.run History.next
    simp only [Wal.appendChunks_eq crc onDisk, Wal.appendBatch_eq]
    by_cases none : pages.isEmpty = true
    · have clean : dirtyEntries pages = [] := by
        rw [List.isEmpty_iff.mp none]
        rfl
      rw [if_pos none, if_pos clean]
      exact recorded
    · rw [if_neg none]
      by_cases clean : dirtyEntries pages = []
      · rw [if_pos clean, if_pos (by simp [clean])]
        exact recorded.rechain
      · rw [if_neg clean, if_neg (by simp [clean])]
        refine recorded.commit clean ?_
        intro entry member
        obtain ⟨page, there, rfl⟩ := List.mem_map.mp member
        exact named page (List.mem_filter.mp there).1
  | reset salts =>
    refine ⟨⟨0, [], [], [], reset_chronicle crc salts, Nat.zero_le most, ?_, rfl, rfl⟩, ?_,
      List.mem_cons_self⟩
    · simp
    · intro frame member
      cases member
  | resetKeepSize salts =>
    have fresh : ∀ frame ∈ client.wal.file.frames, frame.salts ≠ salts := by
      rintro frame member rfl
      exact named (recorded.written frame member).2
    exact ⟨⟨0, [], [], _, resetKeepSize_chronicle crc fresh, Nat.zero_le most, by simp, rfl, rfl⟩,
      (recorded.use [salts]).written, List.mem_cons_self⟩

end Calls

theorem fresh_recorded (crc : Crc) (most : Nat) (salts : Salts) :
    Recorded crc most (WalClient.fresh crc salts : WalClient size) := by
  refine ⟨⟨0, [], [], [], ⟨rfl, rfl, ⟨rfl, rfl⟩, ?_, ?_, rfl, ?_, fun _ => rfl, ?_, ?_, fun _ => rfl⟩,
    Nat.zero_le most, ?_, rfl, rfl⟩, ?_, List.mem_singleton_self salts⟩
  · simp
  · simp
  · intro start broken
    cases broken
  · simp
  · simp
  · simp
  · intro frame member
    cases member

theorem run_recorded {crc : Crc} {salts : Salts} {calls : List (WalCall size)}
    {client : WalClient size}
    (run : Run (WalClient.Step crc) (fun client call => call.Allowed client)
      (WalClient.fresh crc salts) calls client) : Recorded crc 0 client := by
  refine run.invariant (Recorded crc 0) ?_ (fresh_recorded crc 0 salts)
  rintro before call _ _ recorded allowed rfl
  exact call_recorded recorded call allowed.1

/-- Reopening the file of any run finds the frames up to the last commit of its generation,
the checksum after them, and for each page its last committed bytes. -/
theorem reopen_committed (crc : Crc) (small : size < 2 ^ 32) {salts : Salts}
    {calls : List (WalCall size)} {client : WalClient size}
    (run : Run (WalClient.Step crc) (fun client call => call.Allowed client)
      (WalClient.fresh crc salts) calls client) (fresh : Salts) (truncateTorn : Bool) :
    ∃ wal : Wal size,
      Wal.openImpl crc fresh size client.wal.file.encode truncateTorn = .ok ⟨size, wal⟩ ∧
      wal.nFrames = client.history.committed.length ∧
      wal.checksum = chainAfter crc wal.header.checksum (wal.file.frames.take wal.nFrames) ∧
      frameEntries (wal.file.frames.take wal.nFrames) = client.history.committed ∧
      ∀ id, wal.committedPage id = lastEntry client.history.committed id := by
  have recorded : Recorded crc 0 client := run_recorded run
  obtain ⟨committed, opened, stale, chronicle, same, _⟩ := recorded.whole
  have visible := (chronicle.recovered fresh truncateTorn).1
  refine ⟨_, openImpl_encode small client.wal.file (fun frame member =>
    (recorded.written frame member).1) chronicle.headerless truncateTorn, ?_, ?_, ?_, ?_⟩
  · rw [visible.count, ← same, frameEntries, List.length_map]
  · rw [visible.count, visible.front]
    exact visible.checksum
  · rw [visible.count, visible.front, same]
  · intro id
    rw [visible.committedPage id, ← lastEntry_entries, same]

/-- Two generations: a page spilled over its own frame and committed, then a commit and a
frame of an open transaction over the old frames. -/
def twoGenerations : List (WalCall 512) :=
  [.append 1 (Bytes.zero 512) false, .spill 1 (Vector.replicate 512 1),
    .append 2 (Bytes.zero 512) true, .resetKeepSize (2, 2), .append 3 (Bytes.zero 512) true,
    .append 4 (Bytes.zero 512) false]

def twoGenerationsClient : WalClient 512 :=
  twoGenerations.foldl (WalClient.next crc32) (WalClient.fresh crc32 (1, 1))

theorem reopen_committed_two : ∃ wal : Wal 512,
    Wal.openImpl crc32 (9, 9) 512 twoGenerationsClient.wal.file.encode true = .ok ⟨512, wal⟩ ∧
    wal.nFrames = twoGenerationsClient.history.committed.length ∧
    wal.checksum = chainAfter crc32 wal.header.checksum (wal.file.frames.take wal.nFrames) ∧
    frameEntries (wal.file.frames.take wal.nFrames) = twoGenerationsClient.history.committed ∧
    ∀ id, wal.committedPage id = lastEntry twoGenerationsClient.history.committed id := by
  have steps : ∀ (client : WalClient 512) (call : WalCall 512),
      ∃ result, WalClient.Step crc32 client call result (client.next crc32 call) :=
    fun _ _ => ⟨(), rfl⟩
  have along : Run.Along (fun client call => WalCall.Allowed client call) (WalClient.next crc32)
      (WalClient.fresh crc32 (1, 1)) twoGenerations := by
    refine ⟨⟨show 1 < 2 ^ 32 by decide, ?_⟩, ⟨show 1 < 2 ^ 32 by decide, ?_⟩,
      ⟨show 2 < 2 ^ 32 by decide, ?_⟩, ⟨show (2, 2) ∉ [((1, 1) : Salts)] by decide, ?_⟩,
      ⟨show 3 < 2 ^ 32 by decide, ?_⟩, ⟨show 4 < 2 ^ 32 by decide, ?_⟩, trivial⟩
    all_goals decide
  exact reopen_committed crc32 (by decide) (Run.of_along steps along) (9, 9) true

end RustSql.Storage
