import RustSql.Foundation.GuardedRun
import RustSql.Storage.TailTruncation
import Mathlib.Data.Set.Basic

/-! Clients of the freelist: every run of allocations, frees and tail truncations. -/

namespace RustSql.Storage.Pager

open RustSql.Foundation

/-- The calls a client makes; it writes the pages it owns in between. -/
inductive FreelistCall (size : Nat) where
  | allocatePage
  | allocatePages (wanted : Nat)
  | freePage (id : Nat)
  | truncateTail (freed : List Nat)
  | writePage (id : Nat) (change : Bytes size → Bytes size)

/-- A pager together with the pages its clients own, and those they freed that are still
there. -/
structure FreelistClient (size : Nat) where
  pager : Pager size
  allocated : Set Nat
  freed : Set Nat

namespace FreelistCall

/-- The call itself, with the pages it hands out. -/
def run : FreelistCall size → PagerM size (List Nat)
  | .allocatePage => do return [← Pager.allocatePage]
  | .allocatePages wanted => Pager.allocatePages wanted
  | .freePage id => do
      Pager.freePage id
      return []
  | .truncateTail freed => do
      let _ ← Pager.truncateTail freed
      return []
  | .writePage id change => do
      Pager.writePage [] id change
      return []

/-- The page a call gives back. -/
def Releases : FreelistCall size → Nat → Prop
  | .freePage id, page => page = id
  | _, _ => False

/-- What a client may ask for: it frees and writes pages it owns, and passes pages it
freed to `truncate_tail`. -/
def Allowed (client : FreelistClient size) : FreelistCall size → Prop
  | .allocatePage => True
  | .allocatePages _ => True
  | .freePage id => id ∈ client.allocated
  | .truncateTail freed => ∀ id ∈ freed, id ∈ client.freed
  | .writePage id _ => id ∈ client.allocated

/-- Where the code keeps its invariant: page counts stay within `u32`, and a truncation
does not cut off the last trunk of the chain while it keeps another one. -/
def Safe (client : FreelistClient size) : FreelistCall size → Prop
  | .allocatePage => client.pager.nPages + 1 < 2 ^ 32
  | .allocatePages wanted => client.pager.nPages + wanted < 2 ^ 32
  | .freePage _ => True
  | .truncateTail freed =>
    client.pager.freelistCount + client.pager.nPages < 2 ^ 32 ∧
      (tailBound freed client.pager.nPages = client.pager.nPages ∨
        ∀ trunks, client.pager.Freelist trunks →
          TailLinked (tailBound freed client.pager.nPages) trunks)
  | .writePage _ _ => True

/-- One call: the client owns what it is handed, and no longer what it frees. -/
structure Step (before : FreelistClient size) (call : FreelistCall size) (handed : List Nat)
    (after : FreelistClient size) : Prop where
  returned : call.run before.pager = .ok handed after.pager
  allocated : ∀ id, id ∈ after.allocated ↔
    (id ∈ before.allocated ∧ ¬ call.Releases id) ∨ id ∈ handed
  freed : ∀ id, id ∈ after.freed ↔
    (id ∈ before.freed ∨ call.Releases id) ∧ id ∉ handed ∧ id < after.pager.nPages

end FreelistCall

namespace FreelistClient

/-- The freelist is a finite chain of distinct pages of the file with the right count, and
no free page is allocated. -/
def Consistent (client : FreelistClient size) : Prop :=
  ∃ trunks, client.pager.Freelist trunks ∧
    ∀ id ∈ Trunk.items trunks, id ∉ client.allocated

/-- The invariant behind `Consistent`. -/
structure Tracks (client : FreelistClient size) (trunks : List (Trunk Nat)) : Prop where
  inv : client.pager.FreelistInv trunks
  header : 1 ≤ client.pager.nPages
  inRange : ∀ id ∈ client.allocated, 1 ≤ id ∧ id < client.pager.nPages
  apart : ∀ id ∈ client.allocated, id ∉ Trunk.items trunks
  freed : ∀ id ∈ client.freed, id ∈ Trunk.items trunks

def Valid (client : FreelistClient size) : Prop :=
  ∃ trunks, client.Tracks trunks

/-- The state after a call, with the ownership that follows from it. -/
def advance (client : FreelistClient size) (call : FreelistCall size) (handed : List Nat)
    (pager : Pager size) : FreelistClient size where
  pager := pager
  allocated := { id | (id ∈ client.allocated ∧ ¬ call.Releases id) ∨ id ∈ handed }
  freed := { id | (id ∈ client.freed ∨ call.Releases id) ∧ id ∉ handed ∧ id < pager.nPages }

end FreelistClient

open FreelistClient FreelistCall

/-- What one call does: it returns, hands out pages nobody owned, and keeps the
invariant. -/
def Keeps (client : FreelistClient size) (call : FreelistCall size) : Prop :=
  Succeeds call.run client.pager (fun handed after =>
    handed.Nodup ∧ (∀ id ∈ handed, id ∉ client.allocated) ∧
      (client.advance call handed after).Valid)

variable {client : FreelistClient size}

/-- Pages that come off the freelist or from file growth had no owner. -/
theorem FreelistClient.Tracks.handOut {call : FreelistCall size} {trunks later : List (Trunk Nat)}
    {after : Pager size} (tracks : client.Tracks trunks) (popped fresh : List Nat)
    (keeps : ∀ id, ¬ call.Releases id)
    (perm : (Trunk.items trunks).Perm (popped ++ Trunk.items later)) (inv : after.FreelistInv later)
    (grown : client.pager.nPages ≤ after.nPages) (distinct : fresh.Nodup)
    (above : ∀ id ∈ fresh, client.pager.nPages ≤ id ∧ id < after.nPages) :
    (popped ++ fresh).Nodup ∧ (∀ id ∈ popped ++ fresh, id ∉ client.allocated) ∧
      (client.advance call (popped ++ fresh) after).Tracks later := by
  obtain ⟨unique, _, disjoint⟩ :=
    List.nodup_append.mp (perm.nodup_iff.mp tracks.inv.freelist.distinct)
  have listed : ∀ id ∈ popped, id ∈ Trunk.items trunks := fun id member =>
    perm.mem_iff.mpr (List.mem_append_left _ member)
  have old : ∀ id ∈ Trunk.items trunks, id ∉ fresh := fun id member new => by
    have := (tracks.inv.freelist.inRange id member).2
    have := (above id new).1
    omega
  have header := tracks.header
  refine ⟨List.nodup_append.mpr ⟨unique, distinct, ?_⟩, ?_, inv,
    Nat.le_trans header grown, ?_, ?_, ?_⟩
  · intro left member right new same
    exact old left (listed left member) (same ▸ new)
  · intro id member owned
    rcases List.mem_append.mp member with member | new
    · exact tracks.apart id owned (listed id member)
    · have := (tracks.inRange id owned).2
      have := (above id new).1
      omega
  · rintro id (⟨owned, _⟩ | handed)
    · have range := tracks.inRange id owned
      exact ⟨range.1, Nat.lt_of_lt_of_le range.2 grown⟩
    · rcases List.mem_append.mp handed with member | new
      · have range := tracks.inv.freelist.inRange id (listed id member)
        exact ⟨range.1, Nat.lt_of_lt_of_le range.2 grown⟩
      · have range := above id new
        exact ⟨Nat.le_trans header range.1, range.2⟩
  · rintro id (⟨owned, _⟩ | handed) free
    · exact tracks.apart id owned (perm.mem_iff.mpr (List.mem_append_right _ free))
    · rcases List.mem_append.mp handed with member | new
      · exact disjoint id member id free rfl
      · exact old id (perm.mem_iff.mpr (List.mem_append_right _ free)) new
  · rintro id ⟨free | released, outside, _⟩
    · rcases List.mem_append.mp (perm.mem_iff.mp (tracks.freed id free)) with member | member
      · exact absurd (List.mem_append_left _ member) outside
      · exact member
    · exact absurd released (keeps id)

theorem allocatePage_keeps (legal : LegalPageSize size) (valid : client.Valid)
    (safe : Safe client .allocatePage) : Keeps client .allocatePage := by
  obtain ⟨trunks, tracks⟩ := valid
  show Succeeds (Pager.allocatePage >>= fun id => pure [id]) client.pager _
  rw [Succeeds.bind_iff]
  apply (allocatePage_inv legal tracks.inv safe).mono
  intro id after cases
  rw [Succeeds.pure_iff]
  have keeps : ∀ id, ¬ Releases (.allocatePage : FreelistCall size) id := fun _ released =>
    released
  rcases cases with ⟨later, popped, inv, nPages⟩ | ⟨rfl, rfl, inv, nPages⟩
  · obtain ⟨distinct, fresh, tracked⟩ := tracks.handOut [id] [] keeps (Trunk.items_pop popped)
      inv (by omega) List.nodup_nil (by simp)
    exact ⟨distinct, fresh, later, tracked⟩
  · obtain ⟨distinct, fresh, tracked⟩ := tracks.handOut [] [client.pager.nPages] keeps
      (List.Perm.refl _) inv (by omega) (List.nodup_singleton _) (by simp; omega)
    exact ⟨distinct, fresh, [], tracked⟩

/-- `allocate_pages` hands out free pages and then new ones. -/
theorem allocatePages_tracks (legal : LegalPageSize size) {trunks : List (Trunk Nat)}
    (tracks : client.Tracks trunks) {wanted : Nat} (safe : Safe client (.allocatePages wanted)) :
    Succeeds (FreelistCall.allocatePages wanted).run client.pager (fun handed after =>
      ∃ popped later growth,
        handed = popped ++ (List.range growth).map (fun index => client.pager.nPages + index) ∧
        (Trunk.items trunks).Perm (popped ++ Trunk.items later) ∧
        after.nPages = client.pager.nPages + growth ∧ popped.length + growth = wanted ∧
        handed.Nodup ∧ (∀ id ∈ handed, id ∉ client.allocated) ∧
        (client.advance (.allocatePages wanted) handed after).Tracks later) := by
  apply (allocatePagesOpts_inv legal wanted (Bytes.zero size) tracks.inv safe).mono
  rintro handed after ⟨popped, later, growth, rfl, perm, inv, nPages, total⟩
  refine ⟨popped, later, growth, rfl, perm, nPages, total,
    tracks.handOut popped _ (fun _ released => released) perm inv (by omega) ?_ ?_⟩
  · exact List.nodup_range.map (fun left right same => by simpa using same)
  · intro id member
    obtain ⟨index, inside, rfl⟩ := List.mem_map.mp member
    have := List.mem_range.mp inside
    omega

theorem allocatePages_keeps (legal : LegalPageSize size) (valid : client.Valid) (wanted : Nat)
    (safe : Safe client (.allocatePages wanted)) : Keeps client (.allocatePages wanted) := by
  obtain ⟨trunks, tracks⟩ := valid
  apply (allocatePages_tracks legal tracks safe).mono
  rintro handed after ⟨_, later, _, _, _, _, _, distinct, fresh, tracked⟩
  exact ⟨distinct, fresh, later, tracked⟩

/-- A freed page goes from its owner to the freelist. -/
theorem freePage_tracks (legal : LegalPageSize size) {trunks : List (Trunk Nat)}
    (tracks : client.Tracks trunks) {id : Nat} (allowed : Allowed client (.freePage id)) :
    Succeeds (FreelistCall.freePage id).run client.pager (fun handed after =>
      handed = [] ∧ after.nPages = client.pager.nPages ∧
        (client.advance (.freePage id) [] after).Tracks
          (Trunk.push (trunkCap size) id trunks)) := by
  have range := tracks.inRange id allowed
  show Succeeds (Pager.freePage id >>= fun _ => pure []) client.pager _
  rw [Succeeds.bind_iff]
  apply (freePage_inv legal tracks.inv range.1 range.2 (tracks.apart id allowed)).mono
  rintro _ after ⟨inv, nPages⟩
  rw [Succeeds.pure_iff]
  have perm := Trunk.items_push (trunkCap size) id trunks
  refine ⟨rfl, nPages, inv, nPages ▸ tracks.header, ?_, ?_, ?_⟩
  · rintro page (⟨owned, _⟩ | handed)
    · exact nPages ▸ tracks.inRange page owned
    · cases handed
  · rintro page (⟨owned, kept⟩ | handed) free
    · rcases List.mem_cons.mp (perm.mem_iff.mp free) with same | free
      · exact kept same
      · exact tracks.apart page owned free
    · cases handed
  · rintro page ⟨free | released, _⟩
    · exact perm.mem_iff.mpr (List.mem_cons_of_mem _ (tracks.freed page free))
    · have same : page = id := released
      exact perm.mem_iff.mpr (List.mem_cons.mpr (Or.inl same))

theorem freePage_keeps (legal : LegalPageSize size) (valid : client.Valid) (id : Nat)
    (allowed : Allowed client (.freePage id)) : Keeps client (.freePage id) := by
  obtain ⟨trunks, tracks⟩ := valid
  apply (freePage_tracks legal tracks allowed).mono
  rintro handed after ⟨rfl, _, later⟩
  exact ⟨List.nodup_nil, by simp, _, later⟩

theorem truncateTail_keeps (legal : LegalPageSize size) (valid : client.Valid) (freed : List Nat)
    (allowed : Allowed client (.truncateTail freed)) (safe : Safe client (.truncateTail freed)) :
    Keeps client (.truncateTail freed) := by
  obtain ⟨trunks, tracks⟩ := valid
  show Succeeds (Pager.truncateTail freed >>= fun _ => pure []) client.pager _
  rw [Succeeds.bind_iff]
  apply (truncateTail_inv legal freed tracks.inv
    (fun id member => tracks.freed id (allowed id member))
    (safe.2.imp_right (fun linked => linked trunks tracks.inv.freelist)) safe.1).mono
  rintro _ after ⟨later, inv, shorter, header, cut, perm⟩
  rw [Succeeds.pure_iff]
  refine ⟨List.nodup_nil, by simp, later, inv, header tracks.header, ?_, ?_, ?_⟩
  · rintro page (⟨owned, _⟩ | handed)
    · have range := tracks.inRange page owned
      refine ⟨range.1, ?_⟩
      by_contra high
      exact tracks.apart page owned (cut page (Nat.not_lt.mp high) range.2)
    · cases handed
  · rintro page (⟨owned, _⟩ | handed) free
    · exact tracks.apart page owned (List.mem_filter.mp (perm.mem_iff.mp free)).1
    · cases handed
  · rintro page ⟨free | released, _, low⟩
    · exact perm.mem_iff.mpr (List.mem_filter.mpr ⟨tracks.freed page free, decide_eq_true low⟩)
    · exact False.elim released

theorem writePage_keeps (valid : client.Valid) (id : Nat) (change : Bytes size → Bytes size)
    (allowed : Allowed client (.writePage id change)) : Keeps client (.writePage id change) := by
  obtain ⟨trunks, tracks⟩ := valid
  have range := tracks.inRange id allowed
  obtain ⟨data, seen⟩ := (tracks.inv.backed id range.1 range.2).seen
  show Succeeds (Pager.writePage [] id change >>= fun _ => pure []) client.pager _
  rw [Succeeds.bind_iff]
  apply (writePage_written tracks.inv.sound [] change (Nat.pos_iff_ne_zero.mp range.1) range.2
    seen).mono
  intro _ after written
  rw [Succeeds.pure_iff]
  have same := written.undisturbed
  obtain ⟨chain, solid⟩ := tracks.inv.freelist.chain.keep tracks.inv.solid
    (fun trunk member bytes => written.holds trunk.item bytes (fun equal =>
      tracks.apart id allowed (equal ▸ Trunk.item_mem_items member)))
  have inv : after.FreelistInv trunks := tracks.inv.of_carried written.carried same.nPages
    same.minBase ⟨same.freelistHead ▸ chain, tracks.inv.freelist.distinct, fun page member =>
      same.nPages ▸ tracks.inv.freelist.inRange page member,
      same.freelistCount.trans tracks.inv.freelist.count⟩ solid tracks.inv.fits
  refine ⟨List.nodup_nil, by simp, trunks, inv, same.nPages ▸ tracks.header, ?_, ?_, ?_⟩
  · rintro page (⟨owned, _⟩ | handed)
    · exact same.nPages ▸ tracks.inRange page owned
    · cases handed
  · rintro page (⟨owned, _⟩ | handed) free
    · exact tracks.apart page owned free
    · cases handed
  · rintro page ⟨free | released, _⟩
    · exact tracks.freed page free
    · exact False.elim released

/-- Every call a client may make keeps the invariant where the code is safe. -/
theorem call_keeps (legal : LegalPageSize size) (valid : client.Valid) (call : FreelistCall size)
    (allowed : Allowed client call) (safe : Safe client call) : Keeps client call := by
  cases call with
  | allocatePage => exact allocatePage_keeps legal valid safe
  | allocatePages wanted => exact allocatePages_keeps legal valid wanted safe
  | freePage id => exact freePage_keeps legal valid id allowed
  | truncateTail freed => exact truncateTail_keeps legal valid freed allowed safe
  | writePage id change => exact writePage_keeps valid id change allowed

/-- A call has one outcome. -/
theorem Keeps.outcome {client after : FreelistClient size} {call : FreelistCall size}
    {handed : List Nat} (keeps : Keeps client call) (step : Step client call handed after) :
    handed.Nodup ∧ (∀ id ∈ handed, id ∉ client.allocated) ∧ after.Valid := by
  obtain ⟨result, final, returned, distinct, fresh, valid⟩ := keeps
  rw [step.returned] at returned
  cases returned
  have same : after = client.advance call handed after.pager := by
    cases after with
    | mk pager allocated freed =>
      congr 1
      · exact Set.ext step.allocated
      · exact Set.ext step.freed
  exact ⟨distinct, fresh, same ▸ valid⟩

theorem FreelistClient.Valid.consistent {client : FreelistClient size} (valid : client.Valid) :
    client.Consistent := by
  obtain ⟨trunks, tracks⟩ := valid
  exact ⟨trunks, tracks.inv.freelist, fun id free owned => tracks.apart id owned free⟩

/-- A call a client may make, where the code is safe. -/
def Guarded (client : FreelistClient size) (call : FreelistCall size) : Prop :=
  Allowed client call ∧ Safe client call

/-- In every run of allowed calls within the safe bounds the freelist is consistent, every
further such call succeeds, and what it hands out was not allocated. -/
theorem freelist_consistent {start client : FreelistClient size} (legal : LegalPageSize size)
    (valid : start.Valid) {calls : List (FreelistCall size)}
    (run : Run Step Guarded start calls client) :
    client.Consistent ∧ ∀ call, Guarded client call →
      (∃ handed after, Step client call handed after) ∧
      ∀ handed after, Step client call handed after →
        handed.Nodup ∧ ∀ id ∈ handed, id ∉ client.allocated := by
  have reached : client.Valid := run.invariant FreelistClient.Valid
    (fun before call handed after inv guard step =>
      ((call_keeps legal inv call guard.1 guard.2).outcome step).2.2) valid
  refine ⟨reached.consistent, fun call guard => ?_⟩
  have keeps := call_keeps legal reached call guard.1 guard.2
  refine ⟨?_, fun handed after step => ?_⟩
  · obtain ⟨handed, after, returned, _⟩ := keeps
    exact ⟨handed, client.advance call handed after, returned, fun _ => Iff.rfl,
      fun _ => Iff.rfl⟩
  · obtain ⟨distinct, fresh, _⟩ := keeps.outcome step
    exact ⟨distinct, fresh⟩

/-- The client of a database that was just created. -/
def FreelistClient.create (size : Nat) (crc : Crc) (pressure : List (List Nat)) :
    FreelistClient size where
  pager := initializeNewDb size crc pressure
  allocated := ∅
  freed := ∅

theorem create_tracks (size : Nat) (crc : Crc) (pressure : List (List Nat)) :
    (FreelistClient.create size crc pressure).Tracks [] := by
  refine ⟨⟨⟨rfl, List.nodup_nil, by simp, rfl⟩, ⟨?_, ?_, ?_, ?_⟩, rfl, rfl, ?_, ?_, by simp, ?_⟩,
    Nat.le_refl 1, ?_, ?_, ?_⟩
  · intro state attached
    cases attached
  · intro state attached
    cases attached
  · intro state attached
    cases attached
  · intro lazy
    cases lazy
  · show 1 < 2 ^ 32
    omega
  · intro id low high
    have : id < 1 := high
    omega
  · intro trunk member
    cases member
  · intro id member
    exact False.elim member
  · intro id member
    exact False.elim member
  · intro id member
    exact False.elim member

/-- Growing a new file hands out the pages behind the header. -/
theorem create_grow (legal : LegalPageSize size) (crc : Crc) (pressure : List (List Nat))
    {wanted : Nat} (small : 1 + wanted < 2 ^ 32) :
    ∃ client, Run Step Guarded (FreelistClient.create size crc pressure)
        [.allocatePages wanted] client ∧
      client.Tracks [] ∧ client.pager.nPages = 1 + wanted ∧
      ∀ id, 1 ≤ id → id ≤ wanted → id ∈ client.allocated := by
  obtain ⟨handed, after, returned, popped, later, growth, same, perm, nPages, total, _, _,
    tracked⟩ := allocatePages_tracks legal (create_tracks size crc pressure) small
  have empty := List.append_eq_nil_iff.mp (List.nil_perm.mp perm)
  have none : later = [] := by
    cases later with
    | nil => rfl
    | cons trunk rest => cases empty.2
  rw [empty.1, List.length_nil, Nat.zero_add] at total
  subst none total
  refine ⟨_, Run.single ⟨trivial, small⟩ ⟨returned, fun _ => Iff.rfl, fun _ => Iff.rfl⟩, tracked,
    nPages, ?_⟩
  intro id low high
  refine Or.inr ?_
  rw [same]
  refine List.mem_append_right _ (List.mem_map.mpr ⟨id - 1, List.mem_range.mpr (by omega), ?_⟩)
  show 1 + (id - 1) = id
  omega

/-- Freeing pages in sequence fills the trunks in that order. -/
theorem frees_run (legal : LegalPageSize size) (ids : List Nat) {trunks : List (Trunk Nat)}
    (tracks : client.Tracks trunks) (distinct : ids.Nodup)
    (owned : ∀ id ∈ ids, id ∈ client.allocated) :
    ∃ after, Run Step Guarded client (ids.map .freePage) after ∧
      after.Tracks (Trunk.pushAll (trunkCap size) ids trunks) ∧
      after.pager.nPages = client.pager.nPages ∧
      (∀ id ∈ client.freed, id ∈ after.freed) ∧ ∀ id ∈ ids, id ∈ after.freed := by
  induction ids generalizing client trunks with
  | nil => exact ⟨client, .refl, tracks, rfl, fun _ free => free, by simp⟩
  | cons id rest ih =>
    have allowed := owned id List.mem_cons_self
    obtain ⟨fresh, unique⟩ := List.nodup_cons.mp distinct
    obtain ⟨handed, middle, returned, rfl, nPages, tracked⟩ :=
      freePage_tracks legal tracks allowed
    obtain ⟨after, run, final, same, kept, freed⟩ := ih tracked unique (by
      intro other member
      refine Or.inl ⟨owned other (List.mem_cons_of_mem _ member), fun equal => fresh ?_⟩
      exact (show other = id from equal) ▸ member)
    have here : Run Step Guarded client [.freePage id] (client.advance (.freePage id) [] middle) :=
      Run.single ⟨allowed, trivial⟩ ⟨returned, fun _ => Iff.rfl, fun _ => Iff.rfl⟩
    refine ⟨after, here.trans run, final, same.trans nPages, ?_, ?_⟩
    · intro other free
      have range := tracks.inv.freelist.inRange other (tracks.freed other free)
      exact kept other ⟨Or.inl free, by simp, Nat.lt_of_lt_of_eq range.2 nPages.symm⟩
    · intro other member
      rcases List.mem_cons.mp member with rfl | member
      · exact kept other ⟨Or.inr rfl, by simp,
          Nat.lt_of_lt_of_eq (tracks.inRange other allowed).2 nPages.symm⟩
      · exact freed other member

/-- Pages of a 256-page file in an order that leaves the full trunk 255 behind trunk 1. -/
def staleOrder : List Nat :=
  255 :: ((List.range 126).map (fun index => 129 + index) ++ [1])

theorem staleOrder_range : ∀ id ∈ staleOrder, 1 ≤ id ∧ id ≤ 255 := by
  intro id member
  rcases List.mem_cons.mp member with rfl | member
  · omega
  rcases List.mem_append.mp member with member | member
  · obtain ⟨index, inside, rfl⟩ := List.mem_map.mp member
    have := List.mem_range.mp inside
    omega
  · rw [List.mem_singleton.mp member]
    omega

theorem staleOrder_nodup : staleOrder.Nodup := by
  have middle (id : Nat) (member : id ∈ (List.range 126).map (fun index => 129 + index)) :
      129 ≤ id ∧ id < 255 := by
    obtain ⟨index, inside, rfl⟩ := List.mem_map.mp member
    have := List.mem_range.mp inside
    omega
  have distinct : ((List.range 126).map (fun index => 129 + index)).Nodup :=
    List.nodup_range.map fun _ _ same => Nat.add_left_cancel same
  have apart : List.Disjoint ((List.range 126).map (fun index => 129 + index)) [1] :=
    fun id member one => absurd (middle id member).1 (by rw [List.mem_singleton.mp one]; omega)
  refine List.nodup_cons.mpr ⟨fun member => ?_, distinct.append (List.nodup_singleton 1) apart⟩
  rcases List.mem_append.mp member with member | one
  · exact absurd (middle 255 member).2 (by omega)
  · exact absurd (List.mem_singleton.mp one) (by omega)

theorem legalPageSize_512 : LegalPageSize 512 :=
  ⟨⟨9, rfl⟩, Nat.le_refl 512, by omega⟩

/-- Grow the file to 256 pages, then free some of them. -/
def staleCalls : List (FreelistCall 512) :=
  .allocatePages 255 :: staleOrder.map .freePage

def staleStart : FreelistClient 512 :=
  FreelistClient.create 512 (fun chain _ => chain) []

theorem pushAll_staleOrder : Trunk.pushAll (trunkCap 512) staleOrder [] =
    [{ item := 1, entries := [] },
      { item := 255, entries := (List.range 126).map (fun index => 129 + index) }] := by
  have full : Trunk.pushAll (trunkCap 512) ((List.range 126).map (fun index => 129 + index))
      [{ item := 255, entries := [] }] =
        [{ item := 255, entries := (List.range 126).map (fun index => 129 + index) }] :=
    Trunk.pushAll_entries _ (by simp [trunkCap]) []
  have split : Trunk.pushAll (trunkCap 512) staleOrder [] = Trunk.push (trunkCap 512) 1
      (Trunk.pushAll (trunkCap 512) ((List.range 126).map (fun index => 129 + index))
        [{ item := 255, entries := [] }]) := by
    have first : Trunk.push (trunkCap 512) 255 [] = [{ item := 255, entries := [] }] := by
      simp only [Trunk.push]
    rw [staleOrder, Trunk.pushAll, List.foldl_cons, List.foldl_append, List.foldl_cons,
      List.foldl_nil, first, Trunk.pushAll]
  rw [split, full]
  simp [Trunk.push, trunkCap]

theorem stale_run : ∃ client, Run Step Guarded staleStart staleCalls client ∧
    client.Tracks [{ item := 1, entries := [] },
      { item := 255, entries := (List.range 126).map (fun index => 129 + index) }] ∧
    client.pager.nPages = 256 ∧ ∀ id ∈ staleOrder, id ∈ client.freed := by
  obtain ⟨grown, grow, tracks, nPages, owned⟩ := create_grow legalPageSize_512
    (fun chain _ => chain) [] (show 1 + 255 < 2 ^ 32 by omega)
  obtain ⟨client, run, final, same, _, freed⟩ := frees_run legalPageSize_512 staleOrder tracks
    staleOrder_nodup (fun id member => owned id (staleOrder_range id member).1
      (staleOrder_range id member).2)
  rw [pushAll_staleOrder] at final
  exact ⟨client, grow.trans run, final, same.trans nPages, freed⟩

/-- Clients that free those pages find the freelist as it should be. -/
theorem freelist_consistent_stale : ∃ client, Run Step Guarded staleStart staleCalls client ∧
    client.Consistent ∧ ∃ handed after, Step client .allocatePage handed after ∧
      ∀ id ∈ handed, id ∉ client.allocated := by
  obtain ⟨client, run, _, nPages, _⟩ := stale_run
  obtain ⟨consistent, further⟩ := freelist_consistent legalPageSize_512
    ⟨[], create_tracks 512 (fun chain _ => chain) []⟩ run
  have safe : Guarded client .allocatePage :=
    ⟨trivial, show client.pager.nPages + 1 < 2 ^ 32 by omega⟩
  obtain ⟨⟨handed, after, step⟩, fresh⟩ := further .allocatePage safe
  exact ⟨client, run, consistent, handed, after, step, (fresh handed after step).2⟩

/-- Truncating the tail that was freed then leaves trunk 1 linked to the page 255 that is
no longer there. -/
theorem freelist_stale_link : ∃ client, Run Step (fun client call => Allowed client call)
    staleStart (staleCalls ++ [.truncateTail staleOrder]) client ∧ ¬ client.Consistent := by
  obtain ⟨client, run, tracks, nPages, freed⟩ := stale_run
  have bound : tailBound staleOrder 256 = 129 := by decide
  have count : client.pager.freelistCount = 128 := by
    simpa using tracks.inv.freelist.count
  obtain ⟨result, after, returned, broken⟩ := truncateTail_breaks legalPageSize_512 staleOrder
    tracks.inv (by simp [staleOrder]) tracks.header (by rw [nPages, bound]; omega) (by
      rw [nPages, bound]
      rintro (all | last)
      · have low : 129 ≤ 1 := all { item := 1, entries := [] } List.mem_cons_self
        omega
      · simp [below] at last) (by
      rw [nPages, bound]
      decide) (by omega)
  have step : Step client (.truncateTail staleOrder) []
      (client.advance (.truncateTail staleOrder) [] after) :=
    ⟨by simp [FreelistCall.run, bind, EStateM.bind, pure, EStateM.pure, returned, advance],
      fun _ => Iff.rfl, fun _ => Iff.rfl⟩
  refine ⟨_, (run.mono (fun _ _ guard => guard.1)).next freed step, ?_⟩
  rintro ⟨later, freelist, _⟩
  exact broken later freelist

end RustSql.Storage.Pager
