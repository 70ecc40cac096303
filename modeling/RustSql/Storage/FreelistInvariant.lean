import RustSql.Storage.TrunkPage
import Mathlib.Data.List.Perm.Subperm

/-! The freelist invariant, kept by allocation, freeing and tail truncation. -/

namespace RustSql.Storage.Pager

open RustSql.Foundation

/-- Outside `changed` every page keeps its bytes, and every readable page stays readable. -/
structure Carried (changed : List Nat) (before after : Pager size) : Prop where
  sound : after.Sound
  holds : ∀ id data, id ∉ changed → before.Holds id data → after.Holds id data
  backed : ∀ id, before.Backed id → after.Backed id
  quiet : before.savepoints = [] → after.savepoints = []

namespace Carried

theorem trans {first second third : Pager size} {left right : List Nat}
    (one : Carried left first second) (two : Carried right second third) :
    Carried (left ++ right) first third where
  sound := two.sound
  holds := fun id data outside held => by
    rw [List.mem_append, not_or] at outside
    exact two.holds id data outside.2 (one.holds id data outside.1 held)
  backed := fun id held => two.backed id (one.backed id held)
  quiet := fun none => two.quiet (one.quiet none)

theorem mono {before after : Pager size} {small large : List Nat}
    (carried : Carried small before after) (subset : ∀ id ∈ small, id ∈ large) :
    Carried large before after :=
  ⟨carried.sound, fun id data outside held =>
    carried.holds id data (fun member => outside (subset id member)) held, carried.backed,
    carried.quiet⟩

end Carried

variable {page : Page size} {before after : Pager size}

variable {id : Nat}

theorem Fetched.carried {pins : List Nat} (fetched : Fetched pins id page before after) :
    Carried [] before after :=
  ⟨fetched.sound, fun other data _ held => fetched.holds other data held, fetched.backed,
    fetched.quiet⟩

theorem Written.carried {data : Bytes size} (written : Written id data before after) :
    Carried [id] before after :=
  ⟨written.sound, fun other bytes outside held =>
    written.holds other bytes (by simpa using outside) held, written.backed, written.quiet⟩

/-- Only counters differ. -/
structure SameContent (before after : Pager size) : Prop where
  cache : after.cache = before.cache
  store : after.store = before.store
  wal : after.wal = before.wal
  deleteSpill : after.deleteSpill = before.deleteSpill
  isNew : after.isNew = before.isNew
  lazyWriteback : after.lazyWriteback = before.lazyWriteback
  savepoints : after.savepoints = before.savepoints

theorem SameContent.medium {before after : Pager size} (same : SameContent before after)
    (id : Nat) : after.medium id = before.medium id := by
  simp only [Pager.medium, spilledFrame, committedFrame, readFrame, same.isNew, same.wal,
    same.deleteSpill, same.store]

theorem SameContent.carried (same : SameContent before after) (sound : before.Sound) :
    Carried [] before after where
  sound := by
    refine ⟨?_, ?_, ?_, ?_⟩
    · simpa [same.wal] using sound.grounded
    · simpa [same.wal] using sound.committed
    · simpa [same.wal] using sound.spilled
    · simpa [same.wal, same.lazyWriteback, same.deleteSpill] using sound.plain
  holds := fun id data _ held => by
    simpa [Holds, Solid, view, same.cache, same.medium, same.isNew, same.lazyWriteback]
      using held
  backed := fun id held => by
    simpa [Backed, same.cache, same.medium] using held
  quiet := fun none => same.savepoints.trans none

theorem setFreelistHead_same (head : Nat) (pager : Pager size) :
    SameContent pager (pager.setFreelistHead head) :=
  ⟨rfl, rfl, rfl, rfl, rfl, rfl, rfl⟩

theorem setFreelistCount_same (count : Nat) (pager : Pager size) :
    SameContent pager (pager.setFreelistCount count) :=
  ⟨rfl, rfl, rfl, rfl, rfl, rfl, rfl⟩

theorem bumpFreelistCount_same (pager : Pager size) :
    SameContent pager pager.bumpFreelistCount :=
  ⟨rfl, rfl, rfl, rfl, rfl, rfl, rfl⟩

theorem noteDirty_same (id : Nat) (pager : Pager size) :
    SameContent pager (pager.noteDirty id) :=
  ⟨rfl, rfl, rfl, rfl, rfl, rfl, rfl⟩

theorem noteWrite_same (pager : Pager size) : SameContent pager pager.noteWrite :=
  ⟨rfl, rfl, rfl, rfl, rfl, rfl, rfl⟩

/-- The chain from `freelist_head` is the given one: it ends, its trunks and entries are
distinct pages of the file, and the count is right. -/
structure Freelist (pager : Pager size) (trunks : List (Trunk Nat)) : Prop where
  chain : pager.Chain pager.freelistHead trunks 0
  distinct : (Trunk.items trunks).Nodup
  inRange : ∀ id ∈ Trunk.items trunks, 1 ≤ id ∧ id < pager.nPages
  count : pager.freelistCount = (Trunk.items trunks).length

/-- The freelist invariant, with what keeps it true between calls: no savepoint is open,
every page can be read, and the trunks are safe from eviction. -/
structure FreelistInv (pager : Pager size) (trunks : List (Trunk Nat)) : Prop where
  freelist : pager.Freelist trunks
  sound : pager.Sound
  quiet : pager.savepoints = []
  floor : pager.savepointMinBase = none
  small : pager.nPages < 2 ^ 32
  backed : ∀ id, 1 ≤ id → id < pager.nPages → pager.Backed id
  solid : ∀ trunk ∈ trunks, pager.Solid trunk.item
  fits : Trunk.Fits (trunkCap size) trunks

/-- The parts of the invariant that no operation on the freelist has to argue about. -/
theorem FreelistInv.of_carried {trunks later : List (Trunk Nat)} {changed : List Nat}
    (inv : before.FreelistInv trunks) (carried : Carried changed before after)
    (nPages : after.nPages = before.nPages)
    (floor : after.savepointMinBase = before.savepointMinBase) (freelist : after.Freelist later)
    (solid : ∀ trunk ∈ later, after.Solid trunk.item) (fits : Trunk.Fits (trunkCap size) later) :
    after.FreelistInv later where
  freelist := freelist
  sound := carried.sound
  quiet := carried.quiet inv.quiet
  floor := floor.trans inv.floor
  small := nPages ▸ inv.small
  backed := fun id positive bound => carried.backed id (inv.backed id positive (nPages ▸ bound))
  solid := solid
  fits := fits

variable {trunks : List (Trunk Nat)}

/-- Dirty tracking does not touch the freelist. -/
theorem FreelistInv.of_same (inv : before.FreelistInv trunks) (content : SameContent before after)
    (same : Undisturbed before after) : after.FreelistInv trunks := by
  have carried := content.carried inv.sound
  have kept := inv.freelist.chain.keep inv.solid
    (fun trunk _ data => carried.holds trunk.item data (by simp))
  exact inv.of_carried carried same.nPages same.minBase
    ⟨same.freelistHead ▸ kept.1, inv.freelist.distinct, fun id member =>
      same.nPages ▸ inv.freelist.inRange id member, same.freelistCount.trans inv.freelist.count⟩
    kept.2 inv.fits

theorem trunkCap_lt (legal : LegalPageSize size) : trunkCap size < 2 ^ 32 := by
  have := legal.atMost
  unfold trunkCap
  omega

theorem Freelist.of_perm {trunks later : List (Trunk Nat)} {item : Nat}
    (freelist : before.Freelist trunks)
    (popped : (Trunk.items trunks).Perm (item :: Trunk.items later))
    (chain : after.Chain after.freelistHead later 0) (nPages : after.nPages = before.nPages)
    (count : after.freelistCount = before.freelistCount - 1) : after.Freelist later where
  chain := chain
  distinct := (List.nodup_cons.mp (popped.nodup_iff.mp freelist.distinct)).2
  inRange := fun id member => nPages ▸ freelist.inRange id
    (popped.mem_iff.mpr (List.mem_cons_of_mem _ member))
  count := by
    rw [count, freelist.count, popped.length_eq, List.length_cons, Nat.add_sub_cancel]

variable {pager : Pager size}

variable {rest : List (Trunk Nat)}

/-- Popping an entry off the head trunk. -/
theorem popFreelist_entry (legal : LegalPageSize size) (pins : List Nat) {head last : Nat}
    {front : List Nat}
    (inv : pager.FreelistInv ({ item := head, entries := front ++ [last] } :: rest)) :
    Succeeds (popFreelist pins) pager (fun freed after =>
      freed = last ∧ after.FreelistInv ({ item := head, entries := front } :: rest) ∧
        after.nPages = pager.nPages) := by
  have large : 8 ≤ size := Nat.le_trans (by omega) legal.atLeast
  obtain ⟨same, nonzero, data, next, seen, page, chain⟩ := inv.freelist.chain
  have room := inv.fits _ List.mem_cons_self
  have popped := Trunk.items_pop
    (show Trunk.pop ({ item := head, entries := front ++ [last] } :: rest) =
      some (last, { item := head, entries := front } :: rest) by simp [Trunk.pop])
  have unique := List.nodup_cons.mp (popped.nodup_iff.mp inv.freelist.distinct)
  have headRange := inv.freelist.inRange head (by simp)
  have lastRange := inv.freelist.inRange last (by simp)
  have headLast : head ≠ last := fun equal => unique.1 (by simp [equal])
  have fits : Trunk.Fits (trunkCap size) ({ item := head, entries := front } :: rest) :=
    Trunk.fits_pop inv.fits (show Trunk.pop _ = some (last, _) by simp [Trunk.pop])
  simp only [List.length_append, List.length_singleton] at room
  have inside := trunkCap_bound room large
  have some : trunkCount data = front.length + 1 := by simpa using page.count
  obtain ⟨shorter, entry⟩ := pop_trunkPage page large
    (Nat.lt_of_lt_of_le room (Nat.le_of_lt (trunkCap_lt legal)))
  simp only at same
  rw [same] at nonzero seen
  unfold popFreelist
  simp only [Succeeds.bind_iff, Succeeds.get_iff, Succeeds.ite_iff, Succeeds.throw_iff,
    Succeeds.modify_iff, Succeeds.pure_iff]
  rw [same]
  refine ⟨nonzero, fun _ => ?_⟩
  apply (getPage_fetched inv.sound pins (Or.inr (Or.inl headRange.2)) seen).mono
  rintro first one ⟨rfl, fetchedOne⟩
  rw [some, Nat.add_sub_cancel]
  have counted : one.freelistCount = (Trunk.items
      ({ item := head, entries := front ++ [last] } :: rest)).length :=
    fetchedOne.undisturbed.freelistCount.trans inv.freelist.count
  refine ⟨by omega, fun _ => ⟨by simp [counted], fun _ => ⟨fun _ => ?_, by omega⟩⟩⟩
  have carriedOne := fetchedOne.carried.trans
    ((setFreelistCount_same (one.freelistCount - 1) one).carried fetchedOne.sound)
  apply (getPage_fetched carriedOne.sound (head :: pins)
    (Or.inl (show (one.cache head).isSome by simp [fetchedOne.cached]))
    (show one.view head = Option.some first.data by simp [view, fetchedOne.cached])).mono
  rintro again two ⟨reread, fetchedTwo⟩
  rw [reread, entry]
  refine ⟨by omega, fun _ => ?_⟩
  have writtenHead := (updatePage_written fetchedTwo.sound (fun page =>
    { data := page.data.writeU32 4 front.length, dirty := true }) fetchedTwo.cached nonzero
    rfl).noteDirty head
  simp only [reread] at writtenHead
  have carriedThree := (carriedOne.trans fetchedTwo.carried).trans writtenHead.carried
  obtain ⟨old, seenLast⟩ :=
    (carriedThree.backed last (inv.backed last lastRange.1 lastRange.2)).seen
  have nPages : (noteDirty head (updatePage head (fun page =>
      { data := page.data.writeU32 4 front.length, dirty := true }) two)).nPages =
        pager.nPages :=
    fetchedTwo.undisturbed.nPages.trans fetchedOne.undisturbed.nPages
  apply (getPage_fetched carriedThree.sound (head :: pins)
    (Or.inr (Or.inl (by rw [nPages]; exact lastRange.2))) seenLast).mono
  rintro freed four ⟨_, fetchedFour⟩
  have writtenLast := updatePage_written fetchedFour.sound
    (fun _ => { data := Bytes.zero size, dirty := true }) fetchedFour.cached
    (Nat.pos_iff_ne_zero.mp lastRange.1) rfl
  have carried := (carriedThree.trans fetchedFour.carried).trans writtenLast.carried
  refine ⟨rfl, ?_, fetchedFour.undisturbed.nPages.trans nPages⟩
  have held := writtenLast.holds head _ headLast (fetchedFour.holds head _ writtenHead.here)
  have kept := chain.keep
    (fun trunk member => inv.solid trunk (List.mem_cons_of_mem _ member))
    (fun trunk member bytes => carried.holds trunk.item bytes (by
      have listed := Trunk.item_mem_items member
      have other := (List.nodup_cons.mp unique.2).1
      simp only [List.append_nil, List.nil_append, List.mem_append, List.mem_singleton]
      rintro (equal | equal)
      · exact other (by simp [← equal, listed])
      · exact unique.1 (by simp [← equal, listed])))
  have atHead : four.freelistHead = head :=
    (fetchedFour.undisturbed.freelistHead.trans
      (fetchedTwo.undisturbed.freelistHead.trans fetchedOne.undisturbed.freelistHead)).trans same
  refine inv.of_carried carried (fetchedFour.undisturbed.nPages.trans nPages)
    (fetchedFour.undisturbed.minBase.trans
      (fetchedTwo.undisturbed.minBase.trans fetchedOne.undisturbed.minBase)) ?_ ?_ fits
  · refine inv.freelist.of_perm popped ?_ (fetchedFour.undisturbed.nPages.trans nPages) ?_
    · rw [show (updatePage last _ four).freelistHead = head from atHead]
      exact ⟨rfl, nonzero, _, next, held.2, shorter, kept.1⟩
    · exact (fetchedFour.undisturbed.freelistCount.trans
        fetchedTwo.undisturbed.freelistCount).trans
          (congrArg (· - 1) fetchedOne.undisturbed.freelistCount)
  · intro trunk member
    rcases List.mem_cons.mp member with rfl | member
    · exact held.1
    · exact kept.2 trunk member

/-- Handing out the empty head trunk itself. -/
theorem popFreelist_trunk (legal : LegalPageSize size) (pins : List Nat) {head : Nat}
    (inv : pager.FreelistInv ({ item := head, entries := [] } :: rest)) :
    Succeeds (popFreelist pins) pager (fun freed after =>
      freed = head ∧ after.FreelistInv rest ∧ after.nPages = pager.nPages) := by
  have large : 8 ≤ size := Nat.le_trans (by omega) legal.atLeast
  obtain ⟨same, nonzero, data, next, seen, page, chain⟩ := inv.freelist.chain
  have popped := Trunk.items_pop
    (show Trunk.pop ({ item := head, entries := [] } :: rest) = some (head, rest) by
      simp [Trunk.pop])
  have unique := List.nodup_cons.mp (popped.nodup_iff.mp inv.freelist.distinct)
  have headRange := inv.freelist.inRange head (by simp)
  have none : trunkCount data = 0 := by simpa using page.count
  have nextLink := page.next
  simp only at same
  rw [same] at nonzero seen
  unfold popFreelist
  simp only [Succeeds.bind_iff, Succeeds.get_iff, Succeeds.ite_iff, Succeeds.throw_iff,
    Succeeds.modify_iff, Succeeds.pure_iff]
  rw [same]
  refine ⟨nonzero, fun _ => ?_⟩
  apply (getPage_fetched inv.sound pins (Or.inr (Or.inl headRange.2)) seen).mono
  rintro first one ⟨rfl, fetchedOne⟩
  rw [none, nextLink]
  have counted : one.freelistCount = (Trunk.items
      ({ item := head, entries := [] } :: rest)).length :=
    fetchedOne.undisturbed.freelistCount.trans inv.freelist.count
  refine ⟨by omega, fun _ => ⟨by simp [counted], fun _ => ⟨by omega, fun _ => ?_⟩⟩⟩
  have carriedOne := (fetchedOne.carried.trans
    ((setFreelistCount_same (one.freelistCount - 1) one).carried fetchedOne.sound))
  have carriedTwo := carriedOne.trans
    ((setFreelistHead_same next (one.setFreelistCount (one.freelistCount - 1))).carried
      carriedOne.sound)
  have seenTwo : ((one.setFreelistCount (one.freelistCount - 1)).setFreelistHead next).view
      head = some first.data := by
    show one.view head = _
    simp [view, fetchedOne.cached]
  apply (writePage_written carriedTwo.sound (head :: pins) (fun _ => Bytes.zero size) nonzero
    (show head < one.nPages from fetchedOne.undisturbed.nPages ▸ headRange.2) seenTwo).mono
  rintro _ three written
  have nPages : three.nPages = pager.nPages :=
    written.undisturbed.nPages.trans fetchedOne.undisturbed.nPages
  apply (getPage_fetched written.sound (head :: pins)
    (Or.inr (Or.inl (nPages ▸ headRange.2))) written.here.2).mono
  rintro freed four ⟨_, fetchedFour⟩
  have cleared := updatePage_written fetchedFour.sound
    (fun _ => { data := Bytes.zero size, dirty := true }) fetchedFour.cached nonzero rfl
  have carried := ((carriedTwo.trans written.carried).trans fetchedFour.carried).trans
    cleared.carried
  refine ⟨rfl, ?_, fetchedFour.undisturbed.nPages.trans nPages⟩
  have kept := chain.keep
    (fun trunk member => inv.solid trunk (List.mem_cons_of_mem _ member))
    (fun trunk member bytes => carried.holds trunk.item bytes (by
      have listed := Trunk.item_mem_items member
      simp only [List.append_nil, List.nil_append, List.mem_append, List.mem_singleton, or_self]
      intro equal
      exact unique.1 (equal ▸ listed)))
  have atHead : four.freelistHead = next :=
    fetchedFour.undisturbed.freelistHead.trans written.undisturbed.freelistHead
  refine inv.of_carried carried (fetchedFour.undisturbed.nPages.trans nPages)
    (fetchedFour.undisturbed.minBase.trans
      (written.undisturbed.minBase.trans fetchedOne.undisturbed.minBase)) ?_ kept.2
    (Trunk.fits_pop inv.fits (show Trunk.pop _ = some (head, _) by simp [Trunk.pop]))
  refine inv.freelist.of_perm popped ?_ (fetchedFour.undisturbed.nPages.trans nPages) ?_
  · rw [show (updatePage head _ four).freelistHead = next from atHead]
    exact kept.1
  · exact (fetchedFour.undisturbed.freelistCount.trans
      written.undisturbed.freelistCount).trans
        (congrArg (· - 1) fetchedOne.undisturbed.freelistCount)

/-- The freelist pop of the allocators refines `Trunk.pop`. -/
theorem popFreelist_inv (legal : LegalPageSize size) (pins : List Nat)
    (inv : pager.FreelistInv trunks) (nonempty : trunks ≠ []) :
    Succeeds (popFreelist pins) pager (fun freed after => ∃ later,
      Trunk.pop trunks = some (freed, later) ∧ after.FreelistInv later ∧
        after.nPages = pager.nPages) := by
  cases trunks with
  | nil => exact absurd rfl nonempty
  | cons trunk rest =>
    obtain ⟨head, entries⟩ := trunk
    rcases List.eq_nil_or_concat entries with rfl | ⟨front, last, rfl⟩
    · apply (popFreelist_trunk legal pins inv).mono
      rintro freed after ⟨rfl, later, same⟩
      exact ⟨rest, by simp [Trunk.pop], later, same⟩
    · rw [List.concat_eq_append] at inv
      apply (popFreelist_entry legal pins inv).mono
      rintro freed after ⟨rfl, later, same⟩
      exact ⟨_, by simp [Trunk.pop], later, same⟩

/-- A page that the file or the log has can be read once it leaves the cache. -/
theorem medium_isSome (sound : pager.Sound)
    (durable : id < pager.store.length ∨ (pager.committedFrame id).isSome) :
    (pager.medium id).isSome := by
  have read : ∀ state index, pager.wal = some state → state.wal.Owned id index →
      (pager.readFrame index).toOption.isSome := by
    intro state index attached owned
    obtain ⟨data, stored⟩ := Wal.readFrameAt_owned owned
    simp [readFrame, attached, stored, Except.toOption]
  unfold medium
  split
  · rfl
  · cases spill : pager.spilledFrame id with
    | some index =>
      obtain ⟨state, attached, found⟩ := Option.bind_eq_some_iff.mp spill
      exact read state index attached (sound.spilled state attached id index found)
    | none =>
      cases side : pager.deleteSpill id with
      | some data => rfl
      | none =>
        cases frame : pager.committedFrame id with
        | some index =>
          obtain ⟨state, attached, found⟩ := Option.bind_eq_some_iff.mp frame
          exact read state index attached (sound.committed state attached id index found)
        | none =>
          have inside : id < pager.store.length := by simpa [frame] using durable
          simp [inside]

theorem updatePage_carried (sound : pager.Sound) (change : Page size → Page size)
    (cached : pager.cache id = some page)
    (backed : (change page).dirty = true ∨ (pager.medium id).isSome) :
    Carried [id] pager (pager.updatePage id change) := by
  have elsewhere := updatePage_elsewhere pager id change
  refine ⟨updatePage_sound sound id change, ?_, ?_, fun none => none⟩
  · intro other data outside held
    exact elsewhere.holds (by simpa using outside) held
  · intro other held
    by_cases same : other = id
    · subst same
      rcases backed with dirty | stored
      · exact Or.inl ⟨change page, by simp [updatePage, cached], dirty⟩
      · exact Or.inr stored
    · exact elsewhere.backed same held

theorem Freelist.length_lt (freelist : pager.Freelist trunks) (positive : 1 ≤ id)
    (bound : id < pager.nPages) (fresh : id ∉ Trunk.items trunks) :
    (Trunk.items trunks).length + 1 < pager.nPages := by
  have distinct : (0 :: id :: Trunk.items trunks).Nodup := by
    refine List.nodup_cons.mpr ⟨?_, List.nodup_cons.mpr ⟨fresh, freelist.distinct⟩⟩
    intro zero
    rcases List.mem_cons.mp zero with equal | member
    · omega
    · have := (freelist.inRange 0 member).1
      omega
  have inside : (0 :: id :: Trunk.items trunks) ⊆ List.range pager.nPages := by
    intro page member
    rw [List.mem_range]
    rcases List.mem_cons.mp member with rfl | member
    · omega
    · rcases List.mem_cons.mp member with rfl | member
      · exact bound
      · exact (freelist.inRange page member).2
  have length := (List.subperm_of_subset distinct inside).length_le
  simp only [List.length_cons, List.length_range] at length
  omega

theorem Freelist.push {before after : Pager size} {trunks : List (Trunk Nat)}
    (freelist : before.Freelist trunks) {id : Nat} (positive : 1 ≤ id)
    (bound : id < before.nPages) (fresh : id ∉ Trunk.items trunks)
    (small : before.nPages < 2 ^ 32)
    (chain : after.Chain after.freelistHead (Trunk.push (trunkCap size) id trunks) 0)
    (nPages : after.nPages = before.nPages)
    (count : after.freelistCount = (before.freelistCount + 1) % 2 ^ 32) :
    after.Freelist (Trunk.push (trunkCap size) id trunks) where
  chain := chain
  distinct := (Trunk.items_push _ _ _).nodup_iff.mpr
    (List.nodup_cons.mpr ⟨fresh, freelist.distinct⟩)
  inRange := by
    intro page member
    rw [nPages]
    rcases List.mem_cons.mp ((Trunk.items_push _ _ _).mem_iff.mp member) with rfl | member
    · exact ⟨positive, bound⟩
    · exact freelist.inRange page member
  count := by
    have := freelist.length_lt positive bound fresh
    rw [count, freelist.count, Nat.mod_eq_of_lt (by omega),
      (Trunk.items_push _ _ _).length_eq, List.length_cons]

/-- `became_trunk`: the freed page goes in front of the chain. -/
theorem becomeTrunk_inv {before pager : Pager size} (legal : LegalPageSize size)
    (inv : before.FreelistInv trunks) (positive : 1 ≤ id) (bound : id < before.nPages)
    (fresh : id ∉ Trunk.items trunks) (carried : Carried [] before pager)
    (same : Undisturbed before pager) (cached : pager.cache id = some page)
    (full : Trunk.push (trunkCap size) id trunks = { item := id, entries := [] } :: trunks) :
    FreelistInv (noteWrite (bumpFreelistCount
      (setFreelistHead id (noteDirty id (pager.updatePage id (fun _ =>
        { data := newTrunk size pager.freelistHead, dirty := true }))))))
      (Trunk.push (trunkCap size) id trunks) := by
  have nonzero : id ≠ 0 := Nat.pos_iff_ne_zero.mp positive
  have written := (updatePage_written carried.sound (fun _ =>
    { data := newTrunk size pager.freelistHead, dirty := true }) cached nonzero rfl).noteDirty id
  have total := carried.trans (written.carried.trans
    ((setFreelistHead_same id _).carried written.sound))
  have total := total.trans ((bumpFreelistCount_same _).carried total.sound)
  have total := total.trans ((noteWrite_same _).carried total.sound)
  have kept := inv.freelist.chain.keep inv.solid (fun trunk member data => total.holds trunk.item
    data (by
      simp only [List.append_nil, List.nil_append, List.mem_singleton]
      intro equal
      exact fresh (equal ▸ Trunk.item_mem_items member)))
  have small : pager.freelistHead < 2 ^ 32 := by
    rw [same.freelistHead]
    cases trunks with
    | nil =>
      have zero : before.freelistHead = 0 := inv.freelist.chain
      omega
    | cons trunk rest =>
      have atHead : before.freelistHead = trunk.item := inv.freelist.chain.1
      have := (inv.freelist.inRange trunk.item (by simp)).2
      have := inv.small
      omega
  have trunkPage := newTrunk_trunkPage (Nat.le_trans (by omega) legal.atLeast) small
  refine inv.of_carried total same.nPages same.minBase ?_ ?_ (Trunk.fits_push inv.fits id)
  · refine inv.freelist.push positive bound fresh inv.small ?_ same.nPages
      (congrArg (fun count => (count + 1) % 2 ^ 32) same.freelistCount)
    have linked := kept.1
    rw [← same.freelistHead] at linked
    rw [full]
    exact ⟨rfl, nonzero, _, pager.freelistHead, written.here.2, trunkPage, linked⟩
  · rw [full]
    intro trunk member
    rcases List.mem_cons.mp member with rfl | member
    · exact written.here.1
    · exact kept.2 trunk member

/-- The freed page becomes an entry of the head trunk and is zeroed in the cache. -/
theorem becomeEntry_inv {before pager : Pager size} (legal : LegalPageSize size)
    {head next id : Nat} {entries : List Nat} {page trunk : Page size} {unwritten : Bool}
    (inv : before.FreelistInv ({ item := head, entries := entries } :: rest)) (positive : 1 ≤ id)
    (bound : id < before.nPages)
    (fresh : id ∉ Trunk.items ({ item := head, entries := entries } :: rest))
    (carried : Carried [] before pager) (same : Undisturbed before pager)
    (cached : pager.cache id = some page) (headCached : pager.cache head = some trunk)
    (read : TrunkPage trunk.data next entries) (chain : before.Chain next rest 0)
    (room : entries.length < trunkCap size) (durable : unwritten = false → (pager.medium id).isSome) :
    FreelistInv (noteWrite (bumpFreelistCount
      (updatePage id (fun _ => { data := Bytes.zero size, dirty := unwritten })
        (noteDirty head (pager.updatePage head (fun page =>
          { data := appendEntry page.data entries.length id, dirty := true }))))))
      (Trunk.push (trunkCap size) id ({ item := head, entries := entries } :: rest)) := by
  have headRange := inv.freelist.inRange head (by simp)
  have nonzero : head ≠ 0 := Nat.pos_iff_ne_zero.mp headRange.1
  have differ : id ≠ head := fun equal => fresh (by simp [equal])
  have unique := (List.nodup_cons.mp inv.freelist.distinct).1
  have large : 8 ≤ size := Nat.le_trans (by omega) legal.atLeast
  have written := (updatePage_written carried.sound (fun page =>
    { data := appendEntry page.data entries.length id, dirty := true }) headCached nonzero
    rfl).noteDirty head
  have still : (noteDirty head (pager.updatePage head (fun page =>
      { data := appendEntry page.data entries.length id, dirty := true }))).cache id =
        some page := by
    show (pager.updatePage head _).cache id = some page
    rw [(updatePage_elsewhere pager head _).cache id differ, cached]
  have zeroed := updatePage_carried written.sound
    (fun _ => { data := Bytes.zero size, dirty := unwritten }) still (by
      cases unwritten with
      | true => exact Or.inl rfl
      | false => exact Or.inr (durable rfl))
  have counted := (bumpFreelistCount_same _).carried zeroed.sound
  have noted := (noteWrite_same _).carried counted.sound
  have ending := (zeroed.trans counted).trans noted
  have total := (carried.trans written.carried).trans ending
  have held := ending.holds head _ (by simpa using differ.symm) written.here
  have kept := chain.keep
    (fun trunk member => inv.solid trunk (List.mem_cons_of_mem _ member))
    (fun trunk member data => total.holds trunk.item data (by
      have listed := Trunk.item_mem_items member
      simp only [List.append_nil, List.nil_append, List.mem_append, List.mem_singleton]
      rintro (equal | equal)
      · exact unique (List.mem_append_right _ (equal ▸ listed))
      · exact fresh (by simp [← equal, listed])))
  have longer := appendEntry_trunkPage read
    (Nat.lt_trans bound inv.small) room large (trunkCap_lt legal)
  have pushed : Trunk.push (trunkCap size) id ({ item := head, entries := entries } :: rest) =
      { item := head, entries := entries ++ [id] } :: rest := by
    simp [Trunk.push, room]
  refine inv.of_carried total same.nPages same.minBase ?_ ?_ (Trunk.fits_push inv.fits id)
  · refine inv.freelist.push positive bound fresh inv.small ?_ same.nPages
      (congrArg (fun count => (count + 1) % 2 ^ 32) same.freelistCount)
    have atHead : pager.freelistHead = head := same.freelistHead.trans inv.freelist.chain.1
    show Chain _ pager.freelistHead _ 0
    rw [pushed, atHead]
    exact ⟨rfl, nonzero, _, next, held.2, longer, kept.1⟩
  · rw [pushed]
    intro trunk member
    rcases List.mem_cons.mp member with rfl | member
    · exact held.1
    · exact kept.2 trunk member

/-- `free_page` refines `Trunk.push`. -/
theorem freePage_inv (legal : LegalPageSize size) (inv : pager.FreelistInv trunks)
    (positive : 1 ≤ id) (bound : id < pager.nPages) (fresh : id ∉ Trunk.items trunks) :
    Succeeds (freePage id) pager (fun _ after =>
      after.FreelistInv (Trunk.push (trunkCap size) id trunks) ∧
        after.nPages = pager.nPages) := by
  have nonzero : id ≠ 0 := Nat.pos_iff_ne_zero.mp positive
  have large : 8 ≤ size := Nat.le_trans (by omega) legal.atLeast
  obtain ⟨old, seen⟩ := (inv.backed id positive bound).seen
  unfold freePage
  simp only [Succeeds.bind_iff, Succeeds.get_iff, Succeeds.ite_iff, Succeeds.throw_iff,
    Succeeds.modify_iff, Succeeds.pure_iff]
  refine ⟨nonzero, fun _ => ?_⟩
  apply (getPage_fetched inv.sound [] (Or.inr (Or.inl bound)) seen).mono
  rintro page one ⟨_, fetched⟩
  have notHead : id ≠ one.freelistHead := by
    rw [fetched.undisturbed.freelistHead]
    intro equal
    cases trunks with
    | nil =>
      have zero : pager.freelistHead = 0 := inv.freelist.chain
      omega
    | cons trunk rest =>
      have atHead : pager.freelistHead = trunk.item := inv.freelist.chain.1
      exact fresh (by simp [equal, atHead])
  refine ⟨fun equal => absurd equal notHead, fun _ => ?_⟩
  cases trunks with
  | nil =>
    have zero : one.freelistHead = 0 :=
      fetched.undisturbed.freelistHead.trans inv.freelist.chain
    refine ⟨fun _ => ⟨fun _ => ?_, fun no => absurd trivial no⟩, fun no => absurd zero no⟩
    exact ⟨becomeTrunk_inv legal inv positive bound fresh fetched.carried fetched.undisturbed
      fetched.cached rfl, fetched.undisturbed.nPages⟩
  | cons trunk rest =>
    obtain ⟨head, entries⟩ := trunk
    obtain ⟨atHead, headNonzero, data, next, seenHead, read, chain⟩ := inv.freelist.chain
    simp only at atHead read
    have headOne : one.freelistHead = head := fetched.undisturbed.freelistHead.trans atHead
    rw [headOne]
    rw [atHead] at headNonzero seenHead
    refine ⟨fun zero => absurd zero headNonzero, fun _ => ?_⟩
    have held := fetched.holds head data ⟨inv.solid _ List.mem_cons_self, seenHead⟩
    have headRange := inv.freelist.inRange head (by simp)
    apply (getPage_fetched fetched.sound [id]
      (Or.inr (Or.inl (fetched.undisturbed.nPages ▸ headRange.2))) held.2).mono
    rintro trunk two ⟨rfl, fetchedTwo⟩
    have cached := fetchedTwo.pinned id page (by simp) fetched.cached
    have same := fetched.undisturbed.trans fetchedTwo.undisturbed
    have carried := fetched.carried.trans fetchedTwo.carried
    have room := inv.fits _ List.mem_cons_self
    have inside := trunkCap_bound room large
    rw [read.count]
    refine ⟨?_, ?_⟩
    · rintro ⟨space, _⟩
      refine ⟨fun no => absurd no (by simp), fun _ => ?_⟩
      have added : ∀ dirty, (dirty = false → (two.medium id).isSome) → _ := fun dirty =>
        becomeEntry_inv legal inv positive bound fresh carried same cached
          fetchedTwo.cached read chain space
      have durable : two.unwritten id = false → (two.medium id).isSome := by
        intro written
        apply medium_isSome fetchedTwo.sound
        simp only [unwritten, Bool.and_eq_false_iff, decide_eq_false_iff_not, not_le,
          Option.isNone_eq_false_iff] at written
        exact written.imp (fun short => Nat.lt_of_lt_of_le short (Nat.mod_le _ _)) (fun h => h)
      have inv' := added (two.unwritten id) durable
      refine ⟨fun _ => ⟨inv'.of_same ⟨rfl, rfl, rfl, rfl, rfl, rfl, rfl⟩
        ⟨rfl, rfl, rfl, rfl, rfl, rfl, rfl, rfl, rfl⟩, same.nPages⟩, fun _ => ⟨inv', same.nPages⟩⟩
    · intro full
      have noRoom : ¬ entries.length < trunkCap size := by
        intro space
        have := trunkCap_bound (Nat.succ_le_of_lt space) large
        exact full ⟨space, by omega⟩
      refine ⟨fun _ => ?_, fun no => absurd trivial no⟩
      have inv' := becomeTrunk_inv legal inv positive bound fresh carried same cached
        (by simp [Trunk.push, noRoom])
      rw [show two.freelistHead = head from same.freelistHead.trans atHead] at inv'
      exact ⟨inv', same.nPages⟩

theorem FreelistInv.trunks_nil (inv : pager.FreelistInv trunks) (empty : pager.freelistCount = 0) :
    trunks = [] := by
  cases trunks with
  | nil => rfl
  | cons trunk rest =>
    have count := inv.freelist.count
    simp [empty] at count

theorem FreelistInv.heal (inv : pager.FreelistInv trunks) : pager.healFreelist = pager := by
  unfold healFreelist
  split
  · next drifted =>
      cases trunks with
      | nil =>
        have count : pager.freelistCount = 0 := inv.freelist.count
        omega
      | cons trunk rest => exact absurd drifted.2 inv.freelist.chain.2.1
  · rfl

theorem insertPage_carried (sound : pager.Sound) (id : Nat) (dirty : page.dirty = true) :
    Carried [id] pager (pager.insertPage id page) ∧ (pager.insertPage id page).Backed id := by
  have elsewhere := insertPage_elsewhere pager id page
  have here : (pager.insertPage id page).Backed id :=
    Or.inl ⟨page, by simp [insertPage], dirty⟩
  refine ⟨⟨⟨sound.grounded, sound.committed, sound.spilled, sound.plain⟩, ?_, ?_,
    fun none => none⟩, here⟩
  · intro other data outside held
    exact elsewhere.holds (by simpa using outside) held
  · intro other held
    by_cases same : other = id
    · exact same ▸ here
    · exact elsewhere.backed same held

/-- Caching new dirty pages one after the other. -/
theorem insertPages_carried (ids : List Nat) (dirty : page.dirty = true) (sound : pager.Sound) :
    Carried ids pager (ids.foldl (fun pager id => pager.insertPage id page) pager) ∧
      (∀ id ∈ ids, (ids.foldl (fun pager id => pager.insertPage id page) pager).Backed id) ∧
      Undisturbed pager (ids.foldl (fun pager id => pager.insertPage id page) pager) := by
  induction ids generalizing pager with
  | nil => exact ⟨⟨sound, fun _ _ _ held => held, fun _ held => held, fun none => none⟩, by simp,
      .refl pager⟩
  | cons id rest ih =>
    obtain ⟨first, here⟩ := insertPage_carried sound id dirty
    obtain ⟨later, others, same⟩ := ih first.sound
    refine ⟨first.trans later, ?_, (insertPage_elsewhere pager id page).undisturbed.trans same⟩
    intro other member
    rcases List.mem_cons.mp member with rfl | member
    · exact later.backed other here
    · exact others other member

theorem Evicted.carried {pins : List Nat} (evicted : Evicted pins before after) :
    Carried [] before after :=
  ⟨evicted.sound, fun id data _ held => evicted.holds id data held, evicted.backed,
    fun none => evicted.savepoints.trans none⟩

/-- Growing the file by pages that enter the cache dirty. -/
def growFile (pins : List Nat) (growth : Nat) (page : Page size) (pager : Pager size) :
    Pager size :=
  ((List.range growth).map (fun index => pager.nPages + index)).foldl
    (fun pager id => pager.insertPage id page)
    ((pager.setNPages (pager.nPages + growth)).maybeEvict pins)

theorem growFile_carried (sound : pager.Sound) (pins : List Nat) (growth : Nat)
    (dirty : page.dirty = true) :
    Carried ((List.range growth).map (fun index => pager.nPages + index)) pager
        (pager.growFile pins growth page) ∧
      Undisturbed (pager.setNPages (pager.nPages + growth)) (pager.growFile pins growth page) ∧
      ∀ id, pager.nPages ≤ id → id < pager.nPages + growth →
        (pager.growFile pins growth page).Backed id := by
  have start : SameContent pager (pager.setNPages (pager.nPages + growth)) :=
    ⟨rfl, rfl, rfl, rfl, rfl, rfl, rfl⟩
  have carried := start.carried sound
  have evicted := maybeEvict_evicted carried.sound pins
  obtain ⟨inserted, fresh, same⟩ := insertPages_carried
    ((List.range growth).map (fun index => pager.nPages + index)) dirty evicted.sound
  refine ⟨((carried.trans evicted.carried).trans inserted).mono (by simp),
    evicted.undisturbed.trans same, ?_⟩
  intro id low high
  apply fresh
  exact List.mem_map.mpr ⟨id - pager.nPages, List.mem_range.mpr (by omega), by omega⟩

theorem grow_inv (inv : pager.FreelistInv []) (pins : List Nat) (growth : Nat)
    (small : pager.nPages + growth < 2 ^ 32) (page : Page size) (dirty : page.dirty = true) :
    (pager.growFile pins growth page).FreelistInv [] ∧
      (pager.growFile pins growth page).nPages = pager.nPages + growth := by
  obtain ⟨total, undisturbed, fresh⟩ := growFile_carried inv.sound pins growth dirty
  refine ⟨⟨⟨?_, by simp, by simp, ?_⟩, total.sound, total.quiet inv.quiet,
    undisturbed.minBase.trans inv.floor, ?_, ?_, by simp, by intro trunk member; cases member⟩,
    undisturbed.nPages⟩
  · exact undisturbed.freelistHead.trans inv.freelist.chain
  · exact undisturbed.freelistCount.trans inv.freelist.count
  · rw [undisturbed.nPages]
    exact small
  · intro id low high
    rw [undisturbed.nPages] at high
    by_cases old : id < pager.nPages
    · exact total.backed id (inv.backed id low old)
    · exact fresh id (Nat.not_lt.mp old) high

/-- `allocate_page` pops the freelist, or extends the file when it is empty. -/
theorem allocatePage_inv (legal : LegalPageSize size) (inv : pager.FreelistInv trunks)
    (small : pager.nPages + 1 < 2 ^ 32) :
    Succeeds allocatePage pager (fun id after =>
      (∃ later, Trunk.pop trunks = some (id, later) ∧ after.FreelistInv later ∧
        after.nPages = pager.nPages) ∨
      (trunks = [] ∧ id = pager.nPages ∧ after.FreelistInv [] ∧
        after.nPages = pager.nPages + 1)) := by
  unfold allocatePage
  simp only [Succeeds.bind_iff, Succeeds.get_iff, Succeeds.ite_iff, Succeeds.modify_iff,
    Succeeds.pure_iff, inv.heal]
  refine ⟨fun some => ?_, fun none => ?_⟩
  · have nonempty : trunks ≠ [] := by
      rintro rfl
      have count := inv.freelist.count
      simp at count
      omega
    apply (popFreelist_inv legal [] inv nonempty).mono
    rintro freed after ⟨later, popped, kept, nPages⟩
    exact Or.inl ⟨later, popped, kept.of_same ⟨rfl, rfl, rfl, rfl, rfl, rfl, rfl⟩
      ⟨rfl, rfl, rfl, rfl, rfl, rfl, rfl, rfl, rfl⟩, nPages⟩
  · have empty := inv.trunks_nil (by omega)
    subst empty
    obtain ⟨grown, nPages⟩ := grow_inv inv [] 1 small (Page.new size).touch rfl
    rw [Nat.mod_eq_of_lt small]
    exact Or.inr ⟨rfl, trivial, grown.of_same ⟨rfl, rfl, rfl, rfl, rfl, rfl, rfl⟩
      ⟨rfl, rfl, rfl, rfl, rfl, rfl, rfl, rfl, rfl⟩, nPages⟩

/-- The pages popped by the freelist phase; fewer than wanted means the list ran dry. -/
theorem popPages_inv (legal : LegalPageSize size) (wanted : Nat) (taken : List Nat)
    (inv : pager.FreelistInv trunks) :
    Succeeds (popPages wanted taken) pager (fun out after => ∃ popped later,
      out = taken ++ popped ∧ (Trunk.items trunks).Perm (popped ++ Trunk.items later) ∧
        after.FreelistInv later ∧ after.nPages = pager.nPages ∧ popped.length ≤ wanted ∧
        (popped.length < wanted → later = [])) := by
  induction wanted generalizing pager taken trunks with
  | zero =>
    rw [popPages, Succeeds.pure_iff]
    exact ⟨[], trunks, by simp, List.Perm.refl _, inv, rfl, by simp, by simp⟩
  | succ wanted ih =>
    rw [popPages]
    simp only [Succeeds.bind_iff, Succeeds.get_iff, Succeeds.ite_iff, Succeeds.modify_iff,
      Succeeds.pure_iff]
    refine ⟨fun empty => ?_, fun some => ?_⟩
    · exact ⟨[], trunks, by simp, List.Perm.refl _, inv, trivial, by simp, fun _ =>
        inv.trunks_nil empty⟩
    · have nonempty : trunks ≠ [] := by
        rintro rfl
        exact some inv.freelist.count
      apply (popFreelist_inv legal taken inv nonempty).mono
      rintro freed middle ⟨rest, popped, kept, nPages⟩
      have noted := kept.of_same (noteDirty_same freed middle)
        ⟨rfl, rfl, rfl, rfl, rfl, rfl, rfl, rfl, rfl⟩
      apply (ih (taken ++ [freed]) noted).mono
      rintro out after ⟨more, later, rfl, perm, final, same, bound, dry⟩
      refine ⟨freed :: more, later, by simp, ?_, final, same.trans nPages, by simpa using bound,
        ?_⟩
      · exact (Trunk.items_pop popped).trans (perm.cons freed)
      · intro short
        exact dry (by simpa using short)

/-- Noting what was handed out leaves the freelist as it is. -/
theorem noteAllocated_inv (inv : pager.FreelistInv trunks) (out : List Nat) :
    (pager.noteWrite.noteAllocated out).FreelistInv trunks ∧
      (pager.noteWrite.noteAllocated out).nPages = pager.nPages :=
  ⟨inv.of_same ⟨rfl, rfl, rfl, rfl, rfl, rfl, rfl⟩
    ⟨rfl, rfl, rfl, rfl, rfl, rfl, rfl, rfl, rfl⟩, rfl⟩

/-- `allocate_pages_opts` hands out pages of the freelist first, then new ones. -/
theorem allocatePagesOpts_inv (legal : LegalPageSize size) (wanted : Nat) (fresh : Bytes size)
    (inv : pager.FreelistInv trunks) (small : pager.nPages + wanted < 2 ^ 32) :
    Succeeds (allocatePagesOpts wanted fresh) pager (fun out after => ∃ popped later growth,
      out = popped ++ (List.range growth).map (fun index => pager.nPages + index) ∧
        (Trunk.items trunks).Perm (popped ++ Trunk.items later) ∧ after.FreelistInv later ∧
        after.nPages = pager.nPages + growth ∧ popped.length + growth = wanted) := by
  unfold allocatePagesOpts
  simp only [Succeeds.bind_iff, Succeeds.get_iff, Succeeds.ite_iff, Succeeds.modify_iff,
    Succeeds.pure_iff, inv.heal]
  refine ⟨fun none => ⟨[], trunks, 0, by simp, List.Perm.refl _, inv, rfl, none.symm⟩,
    fun _ => ?_⟩
  apply (popPages_inv legal wanted [] inv).mono
  rintro taken middle ⟨popped, later, same, perm, kept, nPages, bound, dry⟩
  rw [List.nil_append] at same
  subst same
  have grown : (List.range (wanted - taken.length)).map
      (fun index => (middle.nPages + index) % 2 ^ 32) =
        (List.range (wanted - taken.length)).map (fun index => middle.nPages + index) := by
    apply List.map_congr_left
    intro index member
    have := List.mem_range.mp member
    rw [Nat.mod_eq_of_lt (by omega)]
  rw [grown]
  refine ⟨fun short => ?_, fun full => ?_⟩
  · have empty := dry (by omega)
    subst empty
    rw [Nat.mod_eq_of_lt (by omega)]
    obtain ⟨final, larger⟩ := grow_inv kept taken (wanted - taken.length) (by omega)
      { data := fresh, dirty := true } rfl
    obtain ⟨noted, noteSame⟩ := noteAllocated_inv final
      (taken ++ (List.range (wanted - taken.length)).map (fun index => middle.nPages + index))
    replace larger := larger.trans (congrArg (· + (wanted - taken.length)) nPages)
    refine ⟨fun _ => ?_, fun _ => ?_⟩
    · exact ⟨taken, [], wanted - taken.length, by rw [nPages], perm, noted,
        noteSame.trans larger, by omega⟩
    · exact ⟨taken, [], wanted - taken.length, by rw [nPages], perm, final, larger, by omega⟩
  · have none : wanted - taken.length = 0 := by omega
    obtain ⟨noted, noteSame⟩ := noteAllocated_inv kept
      (taken ++ (List.range (wanted - taken.length)).map (fun index => middle.nPages + index))
    refine ⟨fun _ => ?_, fun _ => ?_⟩
    · exact ⟨taken, later, 0, by simp [none], perm, noted, noteSame.trans nPages,
        by omega⟩
    · exact ⟨taken, later, 0, by simp [none], perm, kept, nPages, by omega⟩

end RustSql.Storage.Pager
