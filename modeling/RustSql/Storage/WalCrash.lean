import RustSql.Storage.WalHistory

/-! A crash that leaves a prefix of the log's bytes: opening what is left finds the
transactions whose commit frame is whole. -/

namespace RustSql.Storage

open RustSql.Foundation

/-- A transaction as its writer hands it to the log: page by page with the mark on the last
one, or as one batch. -/
inductive Transaction (size : Nat) where
  | byAppend (front : List (Nat × Bytes size)) (last : Nat × Bytes size)
  | byBatch (pages : List (Nat × Page size))

namespace Transaction

def calls : Transaction size → List (WalCall size)
  | .byAppend front last =>
    front.map (fun entry => .append entry.1 entry.2 false) ++ [.append last.1 last.2 true]
  | .byBatch pages => [.appendBatch pages]

/-- The pages the transaction writes. -/
def entries : Transaction size → List (Nat × Bytes size)
  | .byAppend front last => front ++ [last]
  | .byBatch pages => dirtyEntries pages

/-- Page numbers are `u32`. -/
def Fits : Transaction size → Prop
  | .byAppend front last => ∀ entry ∈ front ++ [last], entry.1 < 2 ^ 32
  | .byBatch pages => ∀ entry ∈ pages, entry.1 < 2 ^ 32

theorem Fits.named {transaction : Transaction size} (fits : transaction.Fits)
    {call : WalCall size} (member : call ∈ transaction.calls) (client : WalClient size) :
    call.Named client := by
  cases transaction with
  | byAppend front last =>
    rcases List.mem_append.mp member with plain | final
    · obtain ⟨entry, there, rfl⟩ := List.mem_map.mp plain
      exact fits entry (List.mem_append_left _ there)
    · rw [List.mem_singleton.mp final]
      exact fits last (List.mem_append_right _ (List.mem_singleton_self last))
  | byBatch pages =>
    rw [List.mem_singleton.mp member]
    exact fits

end Transaction

/-- Frame numbers are `u32` too, over all the transactions of a log. -/
def AllFit (transactions : List (Transaction size)) : Prop :=
  (∀ transaction ∈ transactions, transaction.Fits) ∧
    (transactions.flatMap Transaction.entries).length < 2 ^ 32

/-- The transactions whose frames lie inside the first `count` bytes, where the frames of
the first one start at `offset`. -/
def surviving (count : Nat) : Nat → List (Transaction size) → List (Transaction size)
  | _, [] => []
  | offset, transaction :: rest =>
    let stop := offset + transaction.entries.length * frameSize size
    if stop ≤ count then transaction :: surviving count stop rest else []

/-- The log after the transactions on an empty file. -/
def writeTransactions (crc : Crc) (salts : Salts) (transactions : List (Transaction size)) :
    Wal size :=
  (transactions.flatMap Transaction.calls).foldl (WalCall.run crc)
    (WalClient.fresh crc salts : WalClient size).wal

section Blocks

universe u

variable {α : Type u}

/-- The blocks that fit, up to the first that does not. -/
def wholeBlocks : Nat → List (List α) → List (List α)
  | _, [] => []
  | room, block :: rest =>
    if block.length ≤ room then block :: wholeBlocks (room - block.length) rest else []

/-- A prefix is its whole blocks and a part of the next one that lacks its last item. -/
theorem take_flatten (blocks : List (List α)) (room : Nat) :
    ∃ part, blocks.flatten.take room = (wholeBlocks room blocks).flatten ++ part ∧
      ∀ item ∈ part, ∃ block ∈ blocks, item ∈ block.dropLast := by
  induction blocks generalizing room with
  | nil => exact ⟨[], by simp [wholeBlocks], by simp⟩
  | cons block rest ih =>
    rw [List.flatten_cons, wholeBlocks]
    by_cases fits : block.length ≤ room
    · obtain ⟨part, taken, cut⟩ := ih (room - block.length)
      refine ⟨part, ?_, ?_⟩
      · rw [if_pos fits, List.take_append, List.take_of_length_le fits, taken]
        simp
      · intro item member
        obtain ⟨other, there, inside⟩ := cut item member
        exact ⟨other, List.mem_cons_of_mem _ there, inside⟩
    · refine ⟨block.take room, ?_, ?_⟩
      · rw [if_neg fits, List.take_append_of_le_length (by omega)]
        rfl
      · intro item member
        refine ⟨block, List.mem_cons_self, ?_⟩
        rw [List.dropLast_eq_take]
        exact (List.take_prefix_take_left (by omega)).subset member

theorem wholeBlocks_front (blocks : List (List α)) (room : Nat) :
    wholeBlocks room blocks <+: blocks := by
  induction blocks generalizing room with
  | nil => exact List.nil_prefix
  | cons block rest ih =>
    rw [wholeBlocks]
    split
    · exact (List.prefix_cons_inj block).mpr (ih _)
    · exact List.nil_prefix

theorem getLast?_flatten {blocks : List (List α)} {item : α}
    (last : blocks.flatten.getLast? = some item) : ∃ block ∈ blocks, block.getLast? = some item := by
  induction blocks using List.reverseRecOn with
  | nil => cases last
  | append_singleton front block ih =>
    rw [List.flatten_append, List.flatten_singleton] at last
    by_cases empty : block = []
    · rw [empty, List.append_nil] at last
      obtain ⟨other, there, same⟩ := ih last
      exact ⟨other, List.mem_append_left _ there, same⟩
    · rw [List.getLast?_append_of_ne_nil _ empty] at last
      exact ⟨block, List.mem_append_right _ (List.mem_singleton_self block), last⟩

end Blocks

/-- The log holds one block of frames for each transaction, marked at its end. -/
structure InBlocks (crc : Crc) (transactions : List (Transaction size))
    (blocks : List (List (Frame size))) (wal : Wal size) : Prop where
  chronicle : Chronicle crc 0 wal blocks.flatten [] []
  repaired : wal.recksumFrom = none
  entries : blocks.map frameEntries = transactions.map Transaction.entries
  marked : ∀ block ∈ blocks, ∀ frame, block.getLast? = some frame → frame.commit ≠ 0
  plain : ∀ block ∈ blocks, ∀ frame ∈ block.dropLast, frame.commit = 0

section Blocks

variable {crc : Crc} {transactions : List (Transaction size)} {blocks : List (List (Frame size))}
  {wal : Wal size}

theorem append_front {opened : List (Frame size)}
    (chronicle : Chronicle crc 0 wal blocks.flatten opened []) (repaired : wal.recksumFrom = none)
    (front : List (Nat × Bytes size)) :
    ∃ opened', Chronicle crc 0 ((front.map (fun entry =>
        WalCall.append entry.1 entry.2 false)).foldl (WalCall.run crc) wal)
          blocks.flatten opened' [] ∧
      ((front.map (fun entry => WalCall.append entry.1 entry.2 false)).foldl
        (WalCall.run crc) wal).recksumFrom = none ∧
      frameEntries opened' = frameEntries opened ++ front := by
  induction front generalizing wal opened with
  | nil => exact ⟨opened, chronicle, repaired, (List.append_nil _).symm⟩
  | cons entry rest ih =>
    obtain ⟨frame, named, bytes, appended⟩ := chronicle.append entry.1 entry.2
    have still : (wal.append crc entry.1 entry.2 false).1.recksumFrom = none := by
      simp [Wal.append, repaired]
    obtain ⟨opened', later, unbroken, entries⟩ := ih (by simpa using appended) still
    refine ⟨opened', later, unbroken, ?_⟩
    rw [entries, frameEntries_append, List.append_assoc]
    simp [frameEntries, named, bytes]

/-- A commit closes the block of its transaction. -/
theorem InBlocks.close {before : Wal size} (inBlocks : InBlocks crc transactions blocks before)
    {opened : List (Frame size)} (chronicle : Chronicle crc 0 wal blocks.flatten opened [])
    {entries : List (Nat × Bytes size)} (nonempty : entries ≠ []) {transaction : Transaction size}
    (same : transaction.entries = frameEntries opened ++ entries) :
    ∃ block, InBlocks crc (transactions ++ [transaction]) (blocks ++ [block])
      ((wal.writeHeader.rechain crc).sealCommit crc entries) := by
  obtain ⟨front, batch, frontSame, batchSame, frontPlain, batchPlain, sealed⟩ :=
    chronicle.commit nonempty
  have some : batch ≠ [] := by
    intro empty
    rw [empty] at batchSame
    exact nonempty batchSame.symm
  refine ⟨front ++ batch, ⟨?_, ?_, ?_, ?_, ?_⟩⟩
  · simpa using sealed
  · exact (chronicle.writeHeader.rechain).2
  · simp [inBlocks.entries, same, frameEntries_append, frontSame, batchSame]
  · intro block member frame last
    rcases List.mem_append.mp member with old | new
    · exact inBlocks.marked block old frame last
    · rw [List.mem_singleton.mp new] at last
      apply sealed.ended frame
      rw [List.getLast?_append_of_ne_nil _ (List.append_ne_nil_of_right_ne_nil front some), last]
  · intro block member frame inside
    rcases List.mem_append.mp member with old | new
    · exact inBlocks.plain block old frame inside
    · rw [List.mem_singleton.mp new, List.dropLast_append_of_ne_nil some] at inside
      rcases List.mem_append.mp inside with one | two
      · exact frontPlain frame one
      · exact batchPlain frame two

theorem InBlocks.onDisk (inBlocks : InBlocks crc transactions blocks wal) :
    wal.nFrames ≤ wal.file.frames.length := by
  rw [inBlocks.chronicle.frames, inBlocks.chronicle.count]
  simp

/-- A transaction adds its block. -/
theorem InBlocks.write (inBlocks : InBlocks crc transactions blocks wal)
    (transaction : Transaction size) :
    ∃ block, InBlocks crc (transactions ++ [transaction]) (blocks ++ [block])
      (transaction.calls.foldl (WalCall.run crc) wal) := by
  cases transaction with
  | byAppend front last =>
    obtain ⟨opened, chronicle, _, entries⟩ :=
      append_front inBlocks.chronicle inBlocks.repaired front
    have same : (Transaction.byAppend front last).entries = frameEntries opened ++ [last] := by
      rw [entries]
      rfl
    unfold Transaction.calls
    rw [List.foldl_append]
    exact inBlocks.close chronicle (List.cons_ne_nil last []) same
  | byBatch pages =>
    show ∃ block, InBlocks crc _ (blocks ++ [block]) (wal.appendChunks crc pages).1
    rw [Wal.appendChunks_eq crc inBlocks.onDisk, Wal.appendBatch_eq]
    -- A batch without a dirty page is an empty block.
    have skipped : ∀ after, dirtyEntries pages = [] →
        Chronicle crc 0 after blocks.flatten [] [] → after.recksumFrom = none →
        ∃ block, InBlocks crc (transactions ++ [.byBatch pages]) (blocks ++ [block]) after := by
      intro after clean chronicle repaired
      refine ⟨[], ⟨by simpa using chronicle, repaired, ?_, ?_, ?_⟩⟩
      · simp [inBlocks.entries, Transaction.entries, clean, frameEntries]
      · intro block member frame last
        rcases List.mem_append.mp member with old | new
        · exact inBlocks.marked block old frame last
        · rw [List.mem_singleton.mp new] at last
          cases last
      · intro block member frame inside
        rcases List.mem_append.mp member with old | new
        · exact inBlocks.plain block old frame inside
        · rw [List.mem_singleton.mp new] at inside
          cases inside
    by_cases none : pages.isEmpty = true
    · rw [if_pos none]
      refine skipped wal ?_ inBlocks.chronicle inBlocks.repaired
      rw [List.isEmpty_iff.mp none]
      rfl
    · rw [if_neg none]
      by_cases clean : dirtyEntries pages = []
      · rw [if_pos (by simp [clean])]
        obtain ⟨ready, repaired⟩ := inBlocks.chronicle.writeHeader.rechain
        exact skipped _ clean ready repaired
      · rw [if_neg (by simp [clean])]
        exact inBlocks.close inBlocks.chronicle clean rfl

theorem writeTransactions_inBlocks (crc : Crc) (salts : Salts)
    (transactions : List (Transaction size)) :
    ∃ blocks, InBlocks crc transactions blocks (writeTransactions crc salts transactions) := by
  induction transactions using List.reverseRecOn with
  | nil =>
    obtain ⟨committed, opened, stale, chronicle, entries, later⟩ :=
      (fresh_recorded crc 0 salts : Recorded crc 0 (WalClient.fresh crc salts : WalClient size)).whole
    have frames := chronicle.frames
    have empty : committed = [] ∧ opened = [] ∧ stale = [] := by
      simpa [WalClient.fresh, Wal.recover] using frames
    obtain ⟨rfl, rfl, rfl⟩ := empty
    exact ⟨[], chronicle, rfl, rfl, by simp, by simp⟩
  | append_singleton front last ih =>
    obtain ⟨blocks, inBlocks⟩ := ih
    obtain ⟨block, written⟩ := inBlocks.write last
    refine ⟨blocks ++ [block], ?_⟩
    have single : [last].flatMap Transaction.calls = last.calls := by simp
    unfold writeTransactions
    rw [List.flatMap_append, List.foldl_append, single]
    exact written

/-- The transactions that survive are those whose blocks are whole. -/
theorem surviving_entries {count offset : Nat} (begun : offset ≤ count)
    (same : blocks.map frameEntries = transactions.map Transaction.entries) :
    (surviving count offset transactions).flatMap Transaction.entries =
      frameEntries (wholeBlocks ((count - offset) / frameSize size) blocks).flatten := by
  have positive : 0 < frameSize size := by
    unfold frameSize frameHeaderSize
    omega
  induction transactions generalizing blocks offset with
  | nil =>
    rw [List.map_eq_nil_iff.mp same]
    rfl
  | cons transaction rest ih =>
    cases blocks with
    | nil => cases same
    | cons block others =>
      rw [List.map_cons, List.map_cons, List.cons.injEq] at same
      have length : transaction.entries.length = block.length := by
        rw [← same.1, frameEntries, List.length_map]
      rw [surviving, wholeBlocks, length]
      have fits : block.length ≤ (count - offset) / frameSize size ↔
          offset + block.length * frameSize size ≤ count := by
        rw [Nat.le_div_iff_mul_le positive]
        omega
      by_cases whole : offset + block.length * frameSize size ≤ count
      · have room : (count - (offset + block.length * frameSize size)) / frameSize size =
            (count - offset) / frameSize size - block.length := by
          rw [Nat.sub_add_eq, Nat.mul_comm, Nat.sub_mul_div]
        rw [if_pos whole, if_pos (fits.mpr whole), List.flatMap_cons, ih whole same.2, room,
          List.flatten_cons, frameEntries_append, same.1]
      · rw [if_neg whole, if_neg (fun bound => whole (fits.mp bound))]
        rfl

end Blocks

section Crash

variable {crc : Crc} {salts : Salts} {transactions : List (Transaction size)}

/-- Every frame the transactions wrote has `u32` numbers. -/
theorem writeTransactions_fits (fits : ∀ transaction ∈ transactions, transaction.Fits) :
    ∀ frame ∈ (writeTransactions crc salts transactions).file.frames, frame.Fits := by
  have run : ∀ (calls : List (WalCall size)) (client : WalClient size), Recorded crc 0 client →
      (∀ call ∈ calls, ∀ client : WalClient size, call.Named client) →
      ∃ later : WalClient size, Recorded crc 0 later ∧
        later.wal = calls.foldl (WalCall.run crc) client.wal := by
    intro calls
    induction calls with
    | nil => exact fun client recorded _ => ⟨client, recorded, rfl⟩
    | cons call rest ih =>
      intro client recorded named
      exact ih (client.next crc call)
        (call_recorded recorded call (named call List.mem_cons_self client))
        (fun other member => named other (List.mem_cons_of_mem _ member))
  obtain ⟨later, recorded, same⟩ := run (transactions.flatMap Transaction.calls)
    (WalClient.fresh crc salts) (fresh_recorded crc 0 salts) (by
      intro call member client
      obtain ⟨transaction, there, inside⟩ := List.mem_flatMap.mp member
      exact (fits transaction there).named inside client)
  intro frame member
  unfold writeTransactions at member
  rw [← same] at member
  exact (recorded.written frame member).1

/-- What opening a file of `frames` cut behind whole frames finds. -/
theorem recover_blocks {blocks : List (List (Frame size))} {wal : Wal size}
    (inBlocks : InBlocks crc transactions blocks wal) (room : Nat) (fresh : Salts)
    (truncateTorn : Bool) :
    Visible crc (Wal.recover crc fresh
      { header := some wal.header, frames := blocks.flatten.take room } truncateTorn)
      (wholeBlocks room blocks).flatten := by
  obtain ⟨part, taken, cut⟩ := take_flatten blocks room
  have chronicle := inBlocks.chronicle
  obtain ⟨rest, whole⟩ := wholeBlocks_front blocks room
  have front : blocks.flatten = (wholeBlocks room blocks).flatten ++ rest.flatten := by
    rw [← List.flatten_append, whole]
  have chained := chronicle.committed_chained
  rw [front] at chained
  have salted : ∀ frame ∈ (wholeBlocks room blocks).flatten, frame.salts = wal.header.salts := by
    intro frame member
    apply chronicle.salted
    rw [List.append_nil, front]
    exact List.mem_append_left _ member
  have ended : ∀ frame, (wholeBlocks room blocks).flatten.getLast? = some frame →
      frame.commit ≠ 0 := by
    intro frame last
    obtain ⟨block, there, same⟩ := getLast?_flatten last
    exact inBlocks.marked block ((wholeBlocks_front blocks room).subset there) frame same
  rw [taken, ← List.append_nil ((wholeBlocks room blocks).flatten ++ part)]
  exact (recover_visible (chained_append.mp chained).1 salted ended (fun frame member => by
    obtain ⟨block, there, inside⟩ := cut frame member
    exact inBlocks.plain block there frame inside) (by simp) fresh truncateTorn).1

theorem surviving_short {cut : Nat} (below : cut < walHeaderSize) :
    surviving cut walHeaderSize transactions = [] := by
  cases transactions with
  | nil => rfl
  | cons transaction rest => rw [surviving, if_neg (by omega)]

/-- What opening a file finds when no transaction is whole in it. -/
theorem open_nothing (fresh : Salts) (truncateTorn : Bool) {count : Nat}
    (empty : (surviving count walHeaderSize transactions).flatMap Transaction.entries = []) :
    ∃ wal : Wal size, Wal.openImpl crc fresh size [] truncateTorn = .ok ⟨size, wal⟩ ∧
      ∀ id, wal.committedPage id = lastEntry
        ((surviving count walHeaderSize transactions).flatMap Transaction.entries) id :=
  ⟨_, rfl, fun id => by rw [empty]; rfl⟩

/-- The header is written with the first frame. -/
theorem InBlocks.file {blocks : List (List (Frame size))} {wal : Wal size}
    (inBlocks : InBlocks crc transactions blocks wal) :
    (blocks.flatten = [] ∧ wal.file.encode = []) ∨
      wal.file = { header := some wal.header, frames := blocks.flatten } := by
  have frames := inBlocks.chronicle.frames
  have header := inBlocks.chronicle.header
  rw [List.append_nil, List.append_nil] at frames
  cases held : wal.file.header with
  | none =>
    refine Or.inl ⟨?_, by simp [WalFile.encode, held]⟩
    rw [held] at header
    split at header
    · rw [← frames]
      exact header.2
    · cases header
  | some found =>
    refine Or.inr ?_
    rw [held] at header
    split at header
    · cases header.1
    · rw [← header, ← held, ← frames]

/-- A cut behind the header keeps the frames in front of it. -/
theorem open_begun {blocks : List (List (Frame size))} {wal : Wal size}
    (inBlocks : InBlocks crc transactions blocks wal) (small : size < 2 ^ 32)
    (fits : ∀ frame ∈ blocks.flatten, frame.Fits) {count : Nat} (begun : walHeaderSize ≤ count)
    (fresh : Salts) (truncateTorn : Bool) :
    ∃ opened : Wal size,
      Wal.openImpl crc fresh size ((WalFile.encode
          { header := some wal.header, frames := blocks.flatten }).take count) truncateTorn =
        .ok ⟨size, opened⟩ ∧
      ∀ id, opened.committedPage id = lastEntry
        ((surviving count walHeaderSize transactions).flatMap Transaction.entries) id := by
  have total : (WalFile.encode { header := some wal.header, frames := blocks.flatten }).length =
      walHeaderSize + (encodeFrames blocks.flatten).length := by
    simp [WalFile.encode]
  have cut : (WalFile.encode { header := some wal.header, frames := blocks.flatten }).take
      count = (WalFile.encode { header := some wal.header, frames := blocks.flatten }).take
        (min count (walHeaderSize + (encodeFrames blocks.flatten).length)) := by
    rw [← total, ← List.take_eq_take_min]
  have same : blocks.flatten.take
      ((min count (walHeaderSize + (encodeFrames blocks.flatten).length) - walHeaderSize) /
        frameSize size) =
      blocks.flatten.take ((count - walHeaderSize) / frameSize size) := by
    by_cases inside : count ≤ walHeaderSize + (encodeFrames blocks.flatten).length
    · rw [Nat.min_eq_left inside]
    · -- A cut behind the last frame keeps them all.
      have sized : 0 < frameSize size := by
        unfold frameSize frameHeaderSize
        omega
      have bytes := length_encodeFrames blocks.flatten
      have enough : blocks.flatten.length ≤ (count - walHeaderSize) / frameSize size := by
        rw [Nat.le_div_iff_mul_le sized]
        omega
      rw [Nat.min_eq_right (by omega), Nat.add_sub_cancel_left, bytes,
        Nat.mul_div_cancel _ sized, List.take_of_length_le enough, List.take_length]
  have opened := @openImpl_take size crc fresh wal.header blocks.flatten small fits
    truncateTorn (min count (walHeaderSize + (encodeFrames blocks.flatten).length))
    (by omega) (Nat.min_le_right _ _)
  rw [← cut, same] at opened
  refine ⟨_, opened, fun id => ?_⟩
  rw [(recover_blocks inBlocks _ fresh truncateTorn).committedPage, ← lastEntry_entries,
    surviving_entries begun inBlocks.entries]

/-- A cut header is read as a header and fails. -/
theorem open_torn_header {bytes : List UInt8} (some : bytes.length ≠ 0)
    (torn : bytes.length < walHeaderSize) (fresh : Salts) (truncateTorn : Bool) :
    Wal.openImpl crc fresh size bytes truncateTorn = .error (.io "failed to fill whole buffer") := by
  unfold Wal.openImpl
  rw [if_neg some, if_pos torn]

/-- Opening what a crash left of the file finds the transactions that are whole in it, if
and only if the file is empty or its header is whole. -/
theorem open_prefix_iff (crc : Crc) (salts : Salts) (small : size < 2 ^ 32)
    {transactions : List (Transaction size)} (fits : AllFit transactions) (count : Nat)
    (fresh : Salts) (truncateTorn : Bool) :
    (∃ wal : Wal size,
      Wal.openImpl crc fresh size
          ((writeTransactions crc salts transactions).file.encode.take count) truncateTorn =
        .ok ⟨size, wal⟩ ∧
      ∀ id, wal.committedPage id = lastEntry
        ((surviving count walHeaderSize transactions).flatMap Transaction.entries) id) ↔
    ((writeTransactions crc salts transactions).file.encode.take count).length = 0 ∨
      walHeaderSize ≤
        ((writeTransactions crc salts transactions).file.encode.take count).length := by
  obtain ⟨blocks, inBlocks⟩ := writeTransactions_inBlocks crc salts transactions
  have framesFit := @writeTransactions_fits size crc salts transactions fits.1
  generalize writeTransactions crc salts transactions = wal at inBlocks framesFit
  rcases inBlocks.file with ⟨empty, encoded⟩ | file
  · rw [encoded, List.take_nil]
    refine iff_of_true (open_nothing fresh truncateTorn ?_) (Or.inl rfl)
    by_cases begun : walHeaderSize ≤ count
    · obtain ⟨rest, whole⟩ := wholeBlocks_front blocks ((count - walHeaderSize) / frameSize size)
      rw [← whole, List.flatten_append, List.append_eq_nil_iff] at empty
      rw [surviving_entries begun inBlocks.entries, empty.1]
      rfl
    · rw [surviving_short (Nat.lt_of_not_le begun)]
      rfl
  · have total : (WalFile.encode { header := some wal.header, frames := blocks.flatten }).length =
        walHeaderSize + (encodeFrames blocks.flatten).length := by
      simp [WalFile.encode]
    rw [file] at framesFit ⊢
    by_cases zero : count = 0
    · subst zero
      rw [List.take_zero]
      refine iff_of_true (open_nothing fresh truncateTorn ?_) (Or.inl rfl)
      rw [surviving_short (by decide)]
      rfl
    by_cases begun : walHeaderSize ≤ count
    · refine iff_of_true (open_begun inBlocks small framesFit begun fresh truncateTorn) (Or.inr ?_)
      rw [List.length_take, total]
      omega
    · have length : ((WalFile.encode { header := some wal.header, frames := blocks.flatten }).take
          count).length = count := by
        rw [List.length_take, total]
        omega
      rw [length]
      refine iff_of_false ?_ (by omega)
      rintro ⟨opened, same, _⟩
      rw [open_torn_header (by rwa [length]) (by rw [length]; omega)] at same
      cases same

end Crash

/-- One commit by itself and one batch, each of one page. -/
def twoTransactions : List (Transaction 512) :=
  [.byAppend [] (1, Vector.replicate 512 7),
    .byBatch [(2, { data := Bytes.zero 512, dirty := true })]]

/-- A crash inside the second frame leaves the first transaction. -/
theorem open_prefix_torn :
    (∃ wal : Wal 512,
      Wal.openImpl crc32 (9, 9) 512
          ((writeTransactions crc32 (1, 1) twoTransactions).file.encode.take 700) true =
        .ok ⟨512, wal⟩ ∧
      ∀ id, wal.committedPage id = lastEntry
        ((surviving 700 walHeaderSize twoTransactions).flatMap Transaction.entries) id) ↔
    ((writeTransactions crc32 (1, 1) twoTransactions).file.encode.take 700).length = 0 ∨
      walHeaderSize ≤
        ((writeTransactions crc32 (1, 1) twoTransactions).file.encode.take 700).length :=
  open_prefix_iff crc32 (1, 1) (by decide) ⟨by
    intro transaction member
    rcases List.mem_cons.mp member with rfl | later
    · intro entry inside
      rw [List.mem_singleton.mp inside]
      decide
    · rw [List.mem_singleton.mp later]
      intro entry inside
      rw [List.mem_singleton.mp inside]
      decide, by decide⟩ 700 (9, 9) true

/-- A crash inside the header: the file does not open, although no transaction was whole. -/
theorem open_cut_header :
    Wal.openImpl crc32 (9, 9) 512
        ((writeTransactions crc32 (1, 1) twoTransactions).file.encode.take 10) true =
      .error (.io "failed to fill whole buffer") ∧
    ¬ ∃ wal : Wal 512,
      Wal.openImpl crc32 (9, 9) 512
          ((writeTransactions crc32 (1, 1) twoTransactions).file.encode.take 10) true =
        .ok ⟨512, wal⟩ ∧
      ∀ id, wal.committedPage id = lastEntry
        ((surviving 10 walHeaderSize twoTransactions).flatMap Transaction.entries) id := by
  have failed : Wal.openImpl crc32 (9, 9) 512
      ((writeTransactions crc32 (1, 1) twoTransactions).file.encode.take 10) true =
      .error (.io "failed to fill whole buffer") := by
    have length : ((writeTransactions crc32 (1, 1) twoTransactions).file.encode.take 10).length =
        10 := by decide
    unfold Wal.openImpl
    rw [length]
    rfl
  refine ⟨failed, ?_⟩
  rintro ⟨wal, opened, _⟩
  rw [failed] at opened
  cases opened

end RustSql.Storage
