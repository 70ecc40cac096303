import RustSql.Foundation.AssocMap
import RustSql.Storage.SpillFile

/-! The pre-images of a savepoint: a hot map, and a file the map is spilled to when it is full. -/

namespace RustSql.Storage.Preimage

open RustSql.Foundation RustSql.Types

/-- What the file system and the hash map decide at one capture: whether a file can be created,
after how many bytes a write fails, and the order the hot map is walked in. -/
structure Io where
  creates : Bool
  failsAfter : Option Nat
  order : List Image → List Image
  permutes : ∀ images, (order images).Perm images

structure PreimageLog where
  hot : AssocMap UInt32 (List UInt8)
  /-- The offset of each spilled record. -/
  index : AssocMap UInt32 Nat
  file : Option (List UInt8)
  nextOffset : Nat
  spillArmed : Bool
  threshold : Nat

def images (hot : AssocMap UInt32 (List UInt8)) : List Image :=
  hot.entries.map fun entry => (entry.1, entry.2)

/-- The offsets of records behind each other. -/
def offsetsFrom : Nat → List Image → List (UInt32 × Nat)
  | _, [] => []
  | cursor, image :: rest => (image.1, cursor) :: offsetsFrom (cursor + (8 + image.2.length)) rest

namespace PreimageLog

/-- A log without images. -/
def withThreshold (threshold : Nat) : PreimageLog := ⟨∅, ∅, none, 0, true, threshold⟩

/-- `drain_hot`: a failure disarms the spill and leaves the hot map as it is. -/
def drainHot (io : Io) (log : PreimageLog) : PreimageLog :=
  if log.hot = ∅ then log
  else
    match if log.file.isNone ∧ io.creates then some [] else log.file with
    | none => { log with spillArmed := false }
    | some file =>
      let ordered := io.order (images log.hot)
      let buf := recordsBytes ordered
      match io.failsAfter with
      | none =>
        { log with
          file := some (FileImage.writeAt 0 file log.nextOffset buf)
          nextOffset := log.nextOffset + buf.length
          hot := ∅
          index := (offsetsFrom log.nextOffset ordered).foldl
            (fun index entry => index.insert entry.1 entry.2) log.index }
      | some count =>
        { log with
          file := some (FileImage.writeAt 0 file log.nextOffset (buf.take count))
          spillArmed := false }

def insert (io : Io) (image : Image) (log : PreimageLog) : PreimageLog :=
  if (log.hot.lookup image.1).isSome ∨ (log.index.lookup image.1).isSome then log
  else
    let log := { log with hot := log.hot.insert image.1 image.2 }
    if log.spillArmed ∧ log.threshold ≤ log.hot.keys.length then log.drainHot io else log

/-- The record at an offset. -/
def readRecord (file : List UInt8) (off : Nat) : Option (List UInt8) := do
  let header ← preadFull file 8 off
  let len := fromLittleEndian (header.drop 4)
  if len = 0 ∨ maxRecord < len then none else preadFull file len (off + 8)

def get (log : PreimageLog) (id : UInt32) : Option (List UInt8) :=
  match log.hot.lookup id with
  | some bytes => some bytes
  | none => do
    let off ← log.index.lookup id
    let file ← log.file
    readRecord file off

/-- `drain`: the hot map, then the records of the file. -/
def drain (order : List Image → List Image) (log : PreimageLog) : List Image :=
  order (images log.hot) ++ (log.file.bind fun file =>
    SpillFileIter.new file log.nextOffset).elim [] SpillFileIter.all

end PreimageLog

/-- Where the record of a page begins, with so many bytes in front of all. -/
def placeOf (id : UInt32) : Nat → List Image → Option Nat
  | _, [] => none
  | cursor, image :: rest =>
    if image.1 = id then some cursor else placeOf id (cursor + (8 + image.2.length)) rest

theorem recordsBytes_append (front back : List Image) :
    recordsBytes (front ++ back) = recordsBytes front ++ recordsBytes back := List.flatMap_append

theorem recordsBytes_cons (image : Image) (rest : List Image) :
    recordsBytes (image :: rest) = recordBytes image ++ recordsBytes rest := List.flatMap_cons

theorem placeOf_append (id : UInt32) (cursor : Nat) (front back : List Image) :
    placeOf id cursor (front ++ back) =
      (placeOf id cursor front).or (placeOf id (cursor + (recordsBytes front).length) back) := by
  induction front generalizing cursor with
  | nil => rfl
  | cons image front ih =>
    rw [List.cons_append, placeOf, placeOf]
    split
    · rfl
    · rw [ih, recordsBytes_cons, List.length_append, recordBytes_length, Nat.add_assoc cursor]

theorem placeOf_isSome {id : UInt32} {cursor : Nat} {stored : List Image} :
    (placeOf id cursor stored).isSome ↔ id ∈ stored.map Prod.fst := by
  induction stored generalizing cursor with
  | nil => simp [placeOf]
  | cons image stored ih =>
    rw [placeOf, List.map_cons, List.mem_cons]
    split
    next same => simp [same]
    next other => rw [ih]; simp [Ne.symm other]

/-- The offsets go into the index as places. -/
theorem lookup_offsets (id : UInt32) (stored : List Image) (cursor : Nat)
    (index : AssocMap UInt32 Nat) (nodup : (stored.map Prod.fst).Nodup) :
    ((offsetsFrom cursor stored).foldl (fun index entry => index.insert entry.1 entry.2)
      index).lookup id = (placeOf id cursor stored).or (index.lookup id) := by
  induction stored generalizing cursor index with
  | nil => rfl
  | cons image stored ih =>
    rw [List.map_cons, List.nodup_cons] at nodup
    rw [offsetsFrom, List.foldl_cons, ih _ _ nodup.2, placeOf, AssocMap.lookup_insert_eq]
    by_cases same : image.1 = id
    · have missing : placeOf id (cursor + (8 + image.2.length)) stored = none := by
        rw [← Option.not_isSome_iff_eq_none, placeOf_isSome, ← same]
        exact nodup.1
      rw [if_pos same, if_pos same.symm, missing]
      rfl
    · rw [if_neg same, if_neg (Ne.symm same)]

/-- At the place of a page lies its record. -/
theorem placeOf_record {id : UInt32} {cursor off : Nat} {stored : List Image}
    (found : placeOf id cursor stored = some off) :
    ∃ front bytes back, stored = front ++ (id, bytes) :: back ∧
      off = cursor + (recordsBytes front).length ∧ stored.lookup id = some bytes := by
  induction stored generalizing cursor with
  | nil => cases found
  | cons image stored ih =>
    obtain ⟨page, bytes⟩ := image
    rw [placeOf] at found
    split at found
    next same =>
      cases found
      simp only at same
      subst same
      exact ⟨[], bytes, stored, rfl, rfl, List.lookup_cons_self⟩
    next other =>
      obtain ⟨front, bytes', back, rfl, rfl, looked⟩ := ih found
      refine ⟨(page, bytes) :: front, bytes', back, rfl, ?_, ?_⟩
      · rw [recordsBytes_cons, List.length_append, recordBytes_length, Nat.add_assoc]
      · rw [List.lookup_cons, beq_false_of_ne (Ne.symm other)]
        exact looked

theorem lookup_isSome {id : UInt32} {stored : List Image} :
    (stored.lookup id).isSome ↔ id ∈ stored.map Prod.fst := by
  induction stored with
  | nil => simp
  | cons image stored ih =>
    rw [List.lookup_cons, List.map_cons, List.mem_cons]
    by_cases same : id = image.1
    · simp [same]
    · rw [beq_false_of_ne same, ih]
      simp [same]

theorem readRecord_at {front : List UInt8} {image : Image} {rest : List UInt8}
    (sized : Sized image) :
    PreimageLog.readRecord (front ++ (recordBytes image ++ rest)) front.length = some image.2 := by
  obtain ⟨id, bytes⟩ := image
  obtain ⟨positive, most⟩ := sized
  dsimp only at positive most
  have number : fromLittleEndian (littleEndian 4 bytes.length) = bytes.length := by
    rw [fromLittleEndian_littleEndian, Nat.mod_eq_of_lt]
    rw [maxRecord] at most
    omega
  have eight : (littleEndian 4 id.toNat ++ littleEndian 4 bytes.length).length = 8 := by
    rw [List.length_append, littleEndian_length, littleEndian_length]
  have header : preadFull (front ++ (recordBytes (id, bytes) ++ rest)) 8 front.length =
      some (littleEndian 4 id.toNat ++ littleEndian 4 bytes.length) := by
    rw [← eight]
    exact @preadFull_eq _ _ _ (bytes ++ rest) (by rw [recordBytes, List.append_assoc])
  have body : preadFull (front ++ (recordBytes (id, bytes) ++ rest)) bytes.length
      (front.length + 8) = some bytes := by
    rw [← eight, ← List.length_append]
    exact @preadFull_eq _ _ _ rest (by rw [recordBytes]; simp only [List.append_assoc])
  rw [PreimageLog.readRecord, header]
  simp only [Option.bind_eq_bind, Option.bind_some]
  rw [List.drop_left' (littleEndian_length 4 _), number, if_neg (by omega), body]

theorem lookup_eq_some_iff {stored : List Image} (nodup : (stored.map Prod.fst).Nodup)
    {id : UInt32} {bytes : List UInt8} :
    stored.lookup id = some bytes ↔ (id, bytes) ∈ stored := by
  induction stored with
  | nil => simp
  | cons image stored ih =>
    obtain ⟨page, first⟩ := image
    rw [List.map_cons, List.nodup_cons] at nodup
    rw [List.lookup_cons, List.mem_cons, Prod.mk.injEq]
    by_cases same : id = page
    · subst same
      have missing : (id, bytes) ∉ stored := fun member =>
        nodup.1 (List.mem_map.mpr ⟨_, member, rfl⟩)
      simp [missing, eq_comm]
    · rw [beq_false_of_ne same]
      simp [same, ih nodup.2]

theorem images_fst (hot : AssocMap UInt32 (List UInt8)) :
    (images hot).map Prod.fst = hot.keys := by
  rw [images, List.map_map]
  rfl

theorem mem_images {hot : AssocMap UInt32 (List UInt8)} {id : UInt32} {bytes : List UInt8} :
    (id, bytes) ∈ images hot ↔ hot.lookup id = some bytes := by
  rw [← Option.mem_def, AList.mem_lookup_iff, images, List.mem_map]
  constructor
  · rintro ⟨entry, member, same⟩
    cases same
    exact member
  · intro member
    exact ⟨⟨id, bytes⟩, member, rfl⟩

/-- The hot map in any order. -/
theorem ordered_images {hot : AssocMap UInt32 (List UInt8)} {ordered : List Image}
    (permuted : ordered.Perm (images hot)) :
    (ordered.map Prod.fst).Nodup ∧ ∀ id, ordered.lookup id = hot.lookup id := by
  have nodup : (ordered.map Prod.fst).Nodup := by
    rw [(permuted.map Prod.fst).nodup_iff, images_fst]
    exact hot.nodupKeys
  refine ⟨nodup, fun id => Option.ext fun bytes => ?_⟩
  rw [lookup_eq_some_iff nodup, permuted.mem_iff, mem_images]

/-- The records in front of an offset of a file. -/
def Backed (file : Option (List UInt8)) (offset : Nat) (spilled : List Image) : Prop :=
  match file with
  | none => spilled = []
  | some bytes => offset ≤ bytes.length ∧ bytes.take offset = recordsBytes spilled

/-- A log holds the images of a map: those of the hot map, and those that are spilled. -/
structure Holds (log : PreimageLog) (held : UInt32 → Option (List UInt8)) (spilled : List Image) :
    Prop where
  contents : ∀ id, (log.hot.lookup id).or (spilled.lookup id) = held id
  apart : ∀ id ∈ spilled.map Prod.fst, log.hot.lookup id = none
  nodup : (spilled.map Prod.fst).Nodup
  sized : ∀ id bytes, held id = some bytes → Sized (id, bytes)
  index : ∀ id, log.index.lookup id = placeOf id 0 spilled
  offset : log.nextOffset = (recordsBytes spilled).length
  backed : Backed log.file log.nextOffset spilled

namespace Holds

variable {log : PreimageLog} {held : UInt32 → Option (List UInt8)} {spilled : List Image}

theorem spilled_sized (holds : Holds log held spilled) : ∀ image ∈ spilled, Sized image := by
  intro image member
  have found : spilled.lookup image.1 = some image.2 := (lookup_eq_some_iff holds.nodup).mpr member
  have cold := holds.apart image.1 (List.mem_map_of_mem member)
  refine holds.sized image.1 image.2 ?_
  rw [← holds.contents, cold, found]
  rfl

theorem contains_iff (holds : Holds log held spilled) (id : UInt32) :
    (log.hot.lookup id).isSome ∨ (log.index.lookup id).isSome ↔ (held id).isSome := by
  rw [holds.index, placeOf_isSome, ← lookup_isSome, ← holds.contents, Option.isSome_or, Bool.or_eq_true]

/-- A log keeps its images whatever becomes of the spill. -/
theorem drainHot (holds : Holds log held spilled) (io : Io) :
    ∃ spilled', Holds (log.drainHot io) held spilled' := by
  unfold PreimageLog.drainHot
  split
  · exact ⟨spilled, holds⟩
  · split
    · exact ⟨spilled, { holds with }⟩
    next file opened =>
      have backed : log.nextOffset ≤ file.length ∧
          file.take log.nextOffset = recordsBytes spilled := by
        have kept := holds.backed
        split at opened
        next fresh =>
          cases opened
          rw [Option.isNone_iff_eq_none.mp fresh.1] at kept
          have empty : spilled = [] := kept
          rw [holds.offset, empty]
          exact ⟨Nat.le_refl _, rfl⟩
        next =>
          rw [opened] at kept
          exact kept
      obtain ⟨nodup, looked⟩ := ordered_images (io.permutes (images log.hot))
      split
      · refine ⟨spilled ++ io.order (images log.hot), ?_⟩
        have disjoint : ∀ id ∈ spilled.map Prod.fst,
            id ∉ (io.order (images log.hot)).map Prod.fst := by
          intro id member hot
          rw [← lookup_isSome, looked, holds.apart id member] at hot
          cases hot
        constructor
        · intro id
          simp only
          rw [AList.lookup_empty, Option.none_or, List.lookup_append, looked, ← holds.contents]
          by_cases cold : id ∈ spilled.map Prod.fst
          · rw [holds.apart id cold, Option.or_none, Option.none_or]
          · have missing : spilled.lookup id = none := by
              rw [← Option.not_isSome_iff_eq_none, lookup_isSome]
              exact cold
            rw [missing, Option.or_none, Option.none_or]
        · intro id _
          exact AList.lookup_empty id
        · rw [List.map_append, List.nodup_append']
          exact ⟨holds.nodup, nodup, fun id member => disjoint id member⟩
        · exact holds.sized
        · intro id
          simp only
          rw [lookup_offsets id _ _ _ nodup, holds.index, placeOf_append, holds.offset, Nat.zero_add]
          by_cases cold : id ∈ spilled.map Prod.fst
          · have missing : placeOf id (recordsBytes spilled).length
                (io.order (images log.hot)) = none := by
              rw [← Option.not_isSome_iff_eq_none, placeOf_isSome]
              exact disjoint id cold
            rw [missing, Option.or_none, Option.none_or]
          · have missing : placeOf id 0 spilled = none := by
              rw [← Option.not_isSome_iff_eq_none, placeOf_isSome]
              exact cold
            rw [missing, Option.or_none, Option.none_or]
        · simp only
          rw [recordsBytes_append, List.length_append, holds.offset]
        · refine ⟨(Nat.le_max_right _ _).trans FileImage.length_writeAt.ge, ?_⟩
          rw [take_writeAt backed.1, backed.2, recordsBytes_append]
      · refine ⟨spilled, { holds with backed := ⟨?_, ?_⟩ }⟩
        · exact (backed.1.trans (Nat.le_max_left _ _)).trans FileImage.length_writeAt.ge
        · rw [take_writeAt_front backed.1, backed.2]

/-- An image goes in when its page is new. -/
theorem insert (holds : Holds log held spilled) (io : Io) {image : Image} (sized : Sized image) :
    ∃ spilled', Holds (log.insert io image) (fun id => (held id).or ([image].lookup id)) spilled' := by
  unfold PreimageLog.insert
  have contains := holds.contains_iff image.1
  have one (id : UInt32) : [image].lookup id = if id = image.1 then some image.2 else none := by
    rw [List.lookup_cons]
    by_cases same : id = image.1
    · simp [same]
    · rw [beq_false_of_ne same, if_neg same]
      rfl
  split
  next known =>
    have same : (fun id => (held id).or ([image].lookup id)) = held := by
      funext id
      rw [one]
      split
      next page =>
        obtain ⟨bytes, there⟩ := Option.isSome_iff_exists.mp (contains.mp known)
        rw [page, there]
        rfl
      · exact Option.or_none
    rw [same]
    exact ⟨spilled, holds⟩
  next fresh =>
    have missing : held image.1 = none :=
      Option.not_isSome_iff_eq_none.mp (fun there => fresh (contains.mpr there))
    have cold : image.1 ∉ spilled.map Prod.fst := by
      rw [← lookup_isSome]
      intro there
      have both := holds.contents image.1
      rw [missing, Option.or_eq_none_iff] at both
      rw [both.2] at there
      cases there
    have entered : Holds { log with hot := log.hot.insert image.1 image.2 }
        (fun id => (held id).or ([image].lookup id)) spilled := by
      refine { holds with contents := ?_, apart := ?_, sized := ?_ }
      · intro id
        simp only
        rw [AssocMap.lookup_insert_eq, one]
        by_cases same : id = image.1
        · rw [if_pos same, if_pos same, same, missing]
          rfl
        · rw [if_neg same, if_neg same, Option.or_none]
          exact holds.contents id
      · intro id member
        simp only
        rw [AssocMap.lookup_insert_eq, if_neg (fun same : id = image.1 => cold (same ▸ member))]
        exact holds.apart id member
      · intro id bytes there
        rw [one] at there
        by_cases same : id = image.1
        · rw [same, missing, Option.none_or, if_pos rfl, Option.some.injEq] at there
          rw [same, ← there]
          exact sized
        · rw [if_neg same, Option.or_none] at there
          exact holds.sized id bytes there
    simp only
    split
    · exact entered.drainHot io
    · exact ⟨spilled, entered⟩

theorem get (holds : Holds log held spilled) (id : UInt32) : log.get id = held id := by
  rw [PreimageLog.get, ← holds.contents]
  match hot : log.hot.lookup id with
  | some bytes => rfl
  | none =>
    simp only [Option.none_or]
    rw [holds.index]
    match place : placeOf id 0 spilled with
    | none =>
      have missing : spilled.lookup id = none := by
        rw [← Option.not_isSome_iff_eq_none, lookup_isSome, ← @placeOf_isSome id 0, place]
        exact nofun
      rw [missing]
      rfl
    | some off =>
      obtain ⟨front, bytes, back, split, rfl, looked⟩ := placeOf_record place
      have backed := holds.backed
      have sized := holds.spilled_sized (id, bytes) (by rw [split]; simp)
      match file : log.file with
      | none =>
        rw [file] at backed
        have empty : spilled = [] := backed
        rw [empty] at split
        simp at split
      | some f =>
        rw [file] at backed
        obtain ⟨_, records⟩ := backed
        have whole : f = recordsBytes front ++ (recordBytes (id, bytes) ++
            (recordsBytes back ++ f.drop log.nextOffset)) := by
          calc f = f.take log.nextOffset ++ f.drop log.nextOffset :=
                (List.take_append_drop _ _).symm
            _ = _ := by
              rw [records, split, recordsBytes_append, recordsBytes_cons]
              simp only [List.append_assoc]
        rw [looked, Nat.zero_add]
        simp only [Option.bind_eq_bind, Option.bind_some]
        rw [whole]
        exact readRecord_at sized

/-- What is drained are the images of the hot map and those of the file. -/
theorem drain (holds : Holds log held spilled) (order : List Image → List Image) :
    log.drain order = order (images log.hot) ++ spilled := by
  have backed := holds.backed
  rw [PreimageLog.drain]
  congr 1
  match file : log.file with
  | none =>
    rw [file] at backed
    exact backed.symm
  | some bytes =>
    rw [file] at backed
    exact drained_records backed.1 holds.spilled_sized backed.2

end Holds

/-- A log after a sequence of captures. -/
def run (threshold : Nat) (captures : List (Io × Image)) : PreimageLog :=
  captures.foldl (fun log capture => log.insert capture.1 capture.2)
    (PreimageLog.withThreshold threshold)

/-- The bytes first captured for a page. -/
def firstCapture (captures : List (Io × Image)) (id : UInt32) : Option (List UInt8) :=
  (captures.map Prod.snd).lookup id

theorem holds_start (threshold : Nat) :
    Holds (PreimageLog.withThreshold threshold) (fun _ => none) [] :=
  ⟨fun id => by rw [PreimageLog.withThreshold, AList.lookup_empty]; rfl, nofun, List.nodup_nil, nofun,
    fun id => AList.lookup_empty id, rfl, rfl⟩

theorem holds_run {captures : List (Io × Image)} (sized : ∀ capture ∈ captures, Sized capture.2)
    {log : PreimageLog} {held : UInt32 → Option (List UInt8)} {spilled : List Image}
    (holds : Holds log held spilled) :
    ∃ spilled', Holds (captures.foldl (fun log capture => log.insert capture.1 capture.2) log)
      (fun id => (held id).or (firstCapture captures id)) spilled' := by
  induction captures generalizing log held spilled with
  | nil =>
    refine ⟨spilled, ?_⟩
    simp only [firstCapture, List.map_nil, List.lookup_nil, Option.or_none]
    exact holds
  | cons capture captures ih =>
    obtain ⟨spilled', entered⟩ := holds.insert capture.1 (sized capture List.mem_cons_self)
    obtain ⟨spilled'', later⟩ := ih (fun c member => sized c (List.mem_cons_of_mem _ member)) entered
    refine ⟨spilled'', ?_⟩
    have same : (fun id => ((held id).or ([capture.2].lookup id)).or (firstCapture captures id)) =
        fun id => (held id).or (firstCapture (capture :: captures) id) := by
      funext id
      rw [Option.or_assoc, firstCapture, ← List.lookup_append]
      rfl
    rw [← same]
    exact later

/-- A log is a map in which the first write of a page wins, whatever becomes of its file. -/
theorem preimage_first_wins (threshold : Nat) (captures : List (Io × Image))
    (sized : ∀ capture ∈ captures, Sized capture.2) (order : List Image → List Image)
    (permutes : ∀ images, (order images).Perm images) :
    (∀ id, (run threshold captures).get id = firstCapture captures id) ∧
      (((run threshold captures).drain order).map Prod.fst).Nodup ∧
      ∀ id bytes, (id, bytes) ∈ (run threshold captures).drain order ↔
        firstCapture captures id = some bytes := by
  obtain ⟨spilled, holds⟩ := holds_run sized (holds_start threshold)
  change Holds (run threshold captures) _ spilled at holds
  simp only [Option.none_or] at holds
  obtain ⟨nodup, looked⟩ := ordered_images (permutes (images (run threshold captures).hot))
  have apart : ∀ id ∈ (order (images (run threshold captures).hot)).map Prod.fst,
      id ∉ spilled.map Prod.fst := by
    intro id hot cold
    rw [← lookup_isSome, looked, holds.apart id cold] at hot
    cases hot
  have whole : ((order (images (run threshold captures).hot) ++ spilled).map Prod.fst).Nodup := by
    rw [List.map_append, List.nodup_append']
    exact ⟨nodup, holds.nodup, fun id member => apart id member⟩
  refine ⟨holds.get, ?_, fun id bytes => ?_⟩
  · rw [holds.drain]
    exact whole
  · rw [holds.drain, ← lookup_eq_some_iff whole, List.lookup_append, looked, holds.contents]

/-- Everything works. -/
def plainIo : Io := ⟨true, none, id, fun _ => .refl _⟩

/-- The write fails after so many bytes. -/
def failingIo (count : Nat) : Io := ⟨true, some count, id, fun _ => .refl _⟩

theorem preimage_first_wins_failed :
    let captures := [(plainIo, (7, [1, 2])), (failingIo 5, (9, [3])), (plainIo, (7, [4]))]
    (∀ id, (run 1 captures).get id = firstCapture captures id) ∧
      (((run 1 captures).drain id).map Prod.fst).Nodup ∧
      ∀ id' bytes, (id', bytes) ∈ (run 1 captures).drain id ↔
        firstCapture captures id' = some bytes :=
  preimage_first_wins 1 [(plainIo, (7, [1, 2])), (failingIo 5, (9, [3])), (plainIo, (7, [4]))]
    (List.forall_mem_cons.mpr ⟨⟨by decide, by decide⟩, List.forall_mem_cons.mpr
      ⟨⟨by decide, by decide⟩, List.forall_mem_cons.mpr ⟨⟨by decide, by decide⟩, nofun⟩⟩⟩)
    id (fun _ => .refl _)

end RustSql.Storage.Preimage
