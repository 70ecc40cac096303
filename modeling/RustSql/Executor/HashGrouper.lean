import RustSql.Foundation.FirstSeen
import RustSql.Foundation.LinearProbe
import RustSql.Types.SqlEquality
import Mathlib.Data.Nat.Digits.Defs
import Mathlib.Data.Nat.Log

/-! The hash table behind GROUP BY, while it stays in memory and no key has a collation: keys
and states in chunks, and slots with a shortened hash and the number of a group. -/

namespace RustSql.Executor.Grouping

open RustSql.Foundation RustSql.Types

structure ChunkVec (α : Type) where
  chunks : List (List α)
  len : Nat
  chunkShift : Nat

namespace ChunkVec

variable {α : Type}

def new (chunkShift : Nat) : ChunkVec α := ⟨[], 0, chunkShift⟩

/-- Chunk and place in it. -/
def position (chunkShift i : Nat) : Nat × Nat := (i >>> chunkShift, i &&& ((1 <<< chunkShift) - 1))

def get (vec : ChunkVec α) (i : Nat) : Option α :=
  (vec.chunks[(position vec.chunkShift i).1]?).bind fun chunk => chunk[(position vec.chunkShift i).2]?

def push (vec : ChunkVec α) (v init : α) : ChunkVec α :=
  let chunk := 1 <<< vec.chunkShift
  let chunks := if vec.len = vec.chunks.length * chunk then vec.chunks ++ [List.replicate chunk init]
    else vec.chunks
  { vec with
    chunks := chunks.modify (position vec.chunkShift vec.len).1 fun entries =>
      entries.set (position vec.chunkShift vec.len).2 v
    len := vec.len + 1 }

end ChunkVec

def fxSeed : UInt64 := 0x517cc1b727220a95

def fxRound (hash word : UInt64) : UInt64 := (((hash <<< 5) ||| (hash >>> 59)) ^^^ word) * fxSeed

def writeU8 (hash : UInt64) (byte : UInt8) : UInt64 := fxRound hash byte.toUInt64

/-- `write` of the hasher: a round for every eight bytes. -/
def write (hash : UInt64) (bytes : List UInt8) : UInt64 :=
  (bytes.toChunks 8).foldl
    (fun hash chunk => fxRound hash (UInt64.ofNat (Nat.ofDigits 256 (chunk.map UInt8.toNat)))) hash

def hashSqlValue (hash : UInt64) : Value → UInt64
  | .null => writeU8 hash 0
  | .integer i => write (writeU8 hash 1) (signedBytes 8 i.toInt)
  | .real f =>
    if Value.hashesAsInteger f then write (writeU8 hash 1) (signedBytes 8 (asI64 f))
    else write (writeU8 hash 2) (littleEndian 8 f.bits.toNat)
  | .text s => writeU8 (write (writeU8 hash 3) (asStr s)) 0xFF
  | .blob b => write (write (writeU8 hash 4) (littleEndian 8 b.length)) b

def hashKey (key : List Value) : UInt64 := key.foldl hashSqlValue 0

structure HashGrouper (State : Type) where
  nAggs : Nat
  slots : List (UInt32 × UInt32)
  mask : Nat
  keysFlat : Option (ChunkVec Value)
  keysMulti : List (List Value)
  states : ChunkVec State

namespace HashGrouper

variable {State : Type}

/-- `with_aggs`. -/
def withAggs (nAggs : Nat) : HashGrouper State where
  nAggs := nAggs
  slots := []
  mask := 0
  keysFlat := none
  keysMulti := []
  states := ChunkVec.new 7

def groupCount (grouper : HashGrouper State) : Nat :=
  match grouper.keysFlat with
  | some keys => keys.len
  | none => grouper.keysMulti.length

/-- Where `state` finds an aggregate of a group. -/
def stateIndex (grouper : HashGrouper State) (gi agg : Nat) : Nat := gi * grouper.nAggs + agg

def flatKey (grouper : HashGrouper State) (gi : Nat) : Option Value :=
  grouper.keysFlat.bind fun keys => keys.get gi

/-- The hash `rehash` computes anew. -/
def hashAt (grouper : HashGrouper State) (gi : Nat) : UInt64 :=
  match grouper.keysFlat with
  | some keys => hashKey (keys.get gi).toList
  | none => hashKey ((grouper.keysMulti[gi]?).getD [])

def vacant (slots : List (UInt32 × UInt32)) (n : Nat) : Bool := slots[n]?.any fun slot => slot.2 == 0

/-- The walk of `probe` ends at a vacant slot, or where hash and key are right. -/
def stops (slots : List (UInt32 × UInt32)) (h : UInt64) (eq : Nat → Bool) (n : Nat) : Bool :=
  slots[n]?.any fun slot => slot.2 == 0 || (slot.1 == h.toUInt32 && eq (slot.2.toNat - 1))

def probe (grouper : HashGrouper State) (h : UInt64) (eq : Nat → Bool) : Option Nat :=
  if grouper.slots.isEmpty then none
  else
    ((seek (stops grouper.slots h eq) grouper.mask grouper.slots.length (h.toNat &&& grouper.mask)).bind
      fun n => grouper.slots[n]?).bind fun slot => if slot.2 = 0 then none else some (slot.2.toNat - 1)

/-- The first vacant slot from the home slot on takes the group, whose number is cut to 32 bits. -/
def place (slots : List (UInt32 × UInt32)) (mask : Nat) (h : UInt64) (gi : Nat) : List (UInt32 × UInt32) :=
  match seek (vacant slots) mask slots.length (h.toNat &&& mask) with
  | some n => slots.set n (h.toUInt32, UInt32.ofNat (gi + 1))
  | none => slots

def nextPowerOfTwo (n : Nat) : Nat := 2 ^ Nat.clog 2 n

def rehash (grouper : HashGrouper State) : HashGrouper State :=
  let newCap := nextPowerOfTwo (max (grouper.slots.length * 2) 16)
  { grouper with
    slots := (List.range grouper.groupCount).foldl
      (fun slots gi => place slots (newCap - 1) (grouper.hashAt gi) gi) (List.replicate newCap (0, 0))
    mask := newCap - 1 }

/-- The group is in the lists already when its slot is filled. -/
def insertSlot (grouper : HashGrouper State) (h : UInt64) (gi : Nat) : HashGrouper State :=
  let grown := if grouper.mask * 3 / 4 < grouper.groupCount then grouper.rehash else grouper
  { grown with slots := place grown.slots grown.mask h gi }

variable [Inhabited State]

def pushStates (count : Nat) (states : ChunkVec State) : ChunkVec State :=
  (List.range count).foldl (fun states _ => states.push default default) states

def keysEqual (existing key : List Value) : Bool :=
  existing.length == key.length && (existing.zip key).all fun pair => pair.1.sqlEqual pair.2

/-- `intern`. -/
def intern (grouper : HashGrouper State) (key : List Value) : Nat × HashGrouper State :=
  let grouper := if grouper.nAggs = 0 then { grouper with nAggs := 1 } else grouper
  let h := hashKey key
  match grouper.probe h fun gi => (grouper.keysMulti[gi]?).any fun existing => keysEqual existing key with
  | some gi => (gi, grouper)
  | none =>
    let gi := grouper.keysMulti.length
    let grown := { grouper with
      keysMulti := grouper.keysMulti ++ [key]
      states := pushStates grouper.nAggs grouper.states }
    (gi, grown.insertSlot h gi)

/-- `intern_one`. -/
def internOne (grouper : HashGrouper State) (key : Value) : Nat × HashGrouper State :=
  let grouper := if grouper.nAggs = 0 then { grouper with nAggs := 1 } else grouper
  let h := hashSqlValue 0 key
  match grouper.probe h fun gi => (grouper.flatKey gi).any fun existing => existing.sqlEqual key with
  | some gi => (gi, grouper)
  | none =>
    let keys := grouper.keysFlat.getD (ChunkVec.new 9)
    let grown := { grouper with
      keysFlat := some (keys.push key .null)
      states := pushStates grouper.nAggs grouper.states }
    (keys.len, grown.insertSlot h keys.len)

/-- The group numbers of a sequence of keys, and the grouper after it. -/
def runOf {Key : Type} (step : HashGrouper State → Key → Nat × HashGrouper State)
    (grouper : HashGrouper State) (keys : List Key) : List Nat × HashGrouper State :=
  keys.foldl (fun run key => (run.1 ++ [(step run.2 key).1], (step run.2 key).2)) ([], grouper)

end HashGrouper

end RustSql.Executor.Grouping
