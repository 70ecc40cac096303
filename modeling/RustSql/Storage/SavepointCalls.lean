import RustSql.Storage.SavepointInvariant

/-! Every call of the pager keeps what the open savepoints need, whether it returns or
fails. -/

namespace RustSql.Storage.Pager

open RustSql.Foundation

section Calls

variable {pager : Pager size} {marks : List (Mark size)}

theorem Journaled.noteDirty (journaled : pager.Journaled marks) (id : Nat) :
    (pager.noteDirty id).Journaled marks :=
  journaled.of_same (noteDirty_same id pager) ⟨rfl, rfl, rfl, rfl⟩ rfl rfl

theorem Journaled.noteWrite (journaled : pager.Journaled marks) :
    pager.noteWrite.Journaled marks :=
  journaled.of_same (noteWrite_same pager) ⟨rfl, rfl, rfl, rfl⟩ rfl rfl

theorem Journaled.setFreelistHead (journaled : pager.Journaled marks) (head : Nat) :
    (pager.setFreelistHead head).Journaled marks :=
  journaled.of_same (setFreelistHead_same head pager) ⟨rfl, rfl, rfl, rfl⟩ rfl rfl

theorem Journaled.setFreelistCount (journaled : pager.Journaled marks) (count : Nat) :
    (pager.setFreelistCount count).Journaled marks :=
  journaled.of_same (setFreelistCount_same count pager) ⟨rfl, rfl, rfl, rfl⟩ rfl rfl

/-- A fetch and a change of the page's bytes. -/
theorem writePage_journaled (journaled : pager.Journaled marks) (pins : List Nat) (id : Nat)
    (change : Bytes size → Bytes size) :
    Meets (writePage pins id change) pager
      (fun _ after => after.Journaled marks ∧ after.nPages = pager.nPages)
      (fun after => after.Journaled marks) := by
  unfold writePage
  simp only [Meets.bind_iff, Meets.modify_iff]
  refine (getPage_journaled journaled pins id).mono ?_ (fun _ kept => kept)
  rintro page after ⟨kept, secured⟩
  exact ⟨(updatePage_journaled kept secured.captured secured.fetched.cached
    (fun page => { data := change page.data, dirty := true }) (Or.inl rfl)).noteDirty id,
    secured.fetched.undisturbed.nPages⟩

theorem popFreelist_journaled (journaled : pager.Journaled marks) (pins : List Nat) :
    Meets (popFreelist pins) pager
      (fun _ after => after.Journaled marks ∧ after.nPages = pager.nPages)
      (fun after => after.Journaled marks) := by
  unfold popFreelist
  simp only [Meets.bind_iff, Meets.get_iff, Meets.ite_iff, Meets.throw_iff, Meets.modify_iff,
    Meets.pure_iff]
  refine ⟨fun _ => journaled, fun _ => ?_⟩
  refine (getPage_journaled journaled pins pager.freelistHead).mono ?_ (fun _ kept => kept)
  rintro first one ⟨keptOne, securedOne⟩
  have pagesOne := securedOne.fetched.undisturbed.nPages
  refine ⟨fun _ => keptOne, fun _ => ⟨fun _ => keptOne, fun _ => ?_⟩⟩
  -- Both ways of taking a page end with fetching and zeroing it.
  have finish : ∀ (freed : Nat) (middle : Pager size), middle.Journaled marks →
      middle.nPages = pager.nPages →
      Meets (getPage (pager.freelistHead :: pins) freed) middle
        (fun _ final => (final.updatePage freed
          (fun _ => { data := Bytes.zero size, dirty := true })).Journaled marks ∧
          (final.updatePage freed
            (fun _ => { data := Bytes.zero size, dirty := true })).nPages = pager.nPages)
        (fun after => after.Journaled marks) := by
    intro freed middle kept nPages
    refine (getPage_journaled kept _ freed).mono ?_ (fun _ kept => kept)
    rintro page final ⟨keptFinal, secured⟩
    exact ⟨updatePage_journaled keptFinal secured.captured secured.fetched.cached _ (Or.inl rfl),
      secured.fetched.undisturbed.nPages.trans nPages⟩
  have counted := keptOne.setFreelistCount (one.freelistCount - 1)
  refine ⟨fun _ => ?_, fun _ => ?_⟩
  · refine (getPage_journaled counted _ pager.freelistHead).mono ?_ (fun _ kept => kept)
    rintro page two ⟨keptTwo, securedTwo⟩
    refine ⟨fun _ => keptTwo, fun _ => finish _ _ ?_ ?_⟩
    · exact (updatePage_journaled keptTwo securedTwo.captured securedTwo.fetched.cached _
        (Or.inl rfl)).noteDirty _
    · exact securedTwo.fetched.undisturbed.nPages.trans pagesOne
  · refine (writePage_journaled (counted.setFreelistHead (trunkNext first.data)) _ _ _).mono ?_
      (fun _ kept => kept)
    rintro _ two ⟨keptTwo, pagesTwo⟩
    exact finish _ _ keptTwo (pagesTwo.trans pagesOne)

theorem insertPages_levels (ids : List Nat) (page : Page size) (pager : Pager size) :
    (ids.foldl (fun pager id => pager.insertPage id page) pager).savepoints =
        pager.savepoints ∧
      (pager.HeaderKept →
        (ids.foldl (fun pager id => pager.insertPage id page) pager).HeaderKept) := by
  induction ids generalizing pager with
  | nil => exact ⟨rfl, fun header => header⟩
  | cons id rest ih =>
    obtain ⟨same, kept⟩ := ih (pager.insertPage id page)
    refine ⟨same, fun header => kept ?_⟩
    intro new
    obtain ⟨direct, resident, spared⟩ := header new
    refine ⟨direct, ?_, spared⟩
    by_cases zero : id = 0
    · simp [insertPage, zero]
    · simpa [insertPage, Ne.symm zero] using resident

/-- New pages are younger than every level. -/
theorem growFile_journaled (journaled : pager.Journaled marks) (pins : List Nat)
    (growth : Nat) {page : Page size} (dirty : page.dirty = true) :
    (pager.growFile pins growth page).Journaled marks ∧
      (pager.growFile pins growth page).nPages = pager.nPages + growth := by
  have undoable := journaled.undoable
  obtain ⟨carried, same, fresh⟩ := growFile_carried undoable.sound pins growth dirty
  have nPages : (pager.growFile pins growth page).nPages = pager.nPages + growth := same.nPages
  have evicted := maybeEvict_evicted (((⟨rfl, rfl, rfl, rfl, rfl, rfl, rfl⟩ : SameContent pager
    (pager.setNPages (pager.nPages + growth))).carried undoable.sound).sound) pins
  obtain ⟨levels, header⟩ := insertPages_levels
    ((List.range growth).map (fun index => pager.nPages + index)) page
    ((pager.setNPages (pager.nPages + growth)).maybeEvict pins)
  have start : (pager.setNPages (pager.nPages + growth)).HeaderKept := undoable.header
  refine ⟨journaled.keep ⟨levels.trans evicted.savepoints, same.minBase, same.gate,
    same.suspended⟩ carried.sound (header (start.maybeEvict pins)) ?_ ?_ ?_ ?_, nPages⟩
  · intro id inside
    by_cases old : id < pager.nPages
    · exact carried.backed id (undoable.backed id old)
    · exact fresh id (Nat.not_lt.mp old) (nPages ▸ inside)
  · rw [nPages]
    exact Nat.le_trans undoable.nonempty (Nat.le_add_right _ _)
  · intro level member
    rw [nPages]
    exact Nat.le_trans (undoable.above level member).2 (Nat.le_add_right _ _)
  · intro level member id data old _ held
    apply carried.holds id data _ held
    intro new
    obtain ⟨index, _, rfl⟩ := List.mem_map.mp new
    have := (undoable.above level member).2
    omega

theorem Journaled.healFreelist (journaled : pager.Journaled marks) :
    pager.healFreelist.Journaled marks :=
  journaled.setFreelistCount _

theorem allocatePage_journaled (journaled : pager.Journaled marks)
    (small : pager.nPages + 1 < 2 ^ 32) :
    Meets allocatePage pager (fun _ after => after.Journaled marks)
      (fun after => after.Journaled marks) := by
  have healed := journaled.healFreelist
  unfold allocatePage
  simp only [Meets.bind_iff, Meets.get_iff, Meets.ite_iff, Meets.modify_iff, Meets.pure_iff]
  refine ⟨fun _ => ?_, fun _ => ?_⟩
  · refine (popFreelist_journaled healed []).mono ?_ (fun _ kept => kept)
    rintro freed after ⟨kept, _⟩
    exact kept.noteWrite.noteDirty freed
  · have pages : pager.healFreelist.nPages = pager.nPages := rfl
    rw [pages, Nat.mod_eq_of_lt small]
    obtain ⟨grown, _⟩ := growFile_journaled healed [] 1
      (show (Page.new size).touch.dirty = true from rfl)
    exact (grown.noteWrite).noteDirty _

theorem popPages_journaled (wanted : Nat) (taken : List Nat)
    (journaled : pager.Journaled marks) :
    Meets (popPages wanted taken) pager
      (fun _ after => after.Journaled marks ∧ after.nPages = pager.nPages)
      (fun after => after.Journaled marks) := by
  induction wanted generalizing pager taken with
  | zero =>
    rw [popPages, Meets.pure_iff]
    exact ⟨journaled, rfl⟩
  | succ wanted ih =>
    rw [popPages]
    simp only [Meets.bind_iff, Meets.get_iff, Meets.ite_iff, Meets.modify_iff, Meets.pure_iff]
    refine ⟨fun _ => ⟨journaled, trivial⟩, fun _ => ?_⟩
    refine (popFreelist_journaled journaled taken).mono ?_ (fun _ kept => kept)
    rintro freed middle ⟨kept, nPages⟩
    refine (ih (taken ++ [freed]) (kept.noteDirty freed)).mono ?_ (fun _ kept => kept)
    rintro out after ⟨final, same⟩
    exact ⟨final, same.trans nPages⟩

theorem Journaled.noteAllocated (journaled : pager.Journaled marks) (out : List Nat) :
    (pager.noteAllocated out).Journaled marks :=
  journaled.of_same ⟨rfl, rfl, rfl, rfl, rfl, rfl, rfl⟩ ⟨rfl, rfl, rfl, rfl⟩ rfl rfl

theorem allocatePagesOpts_journaled (journaled : pager.Journaled marks) (wanted : Nat)
    (fresh : Bytes size) (small : pager.nPages + wanted < 2 ^ 32) :
    Meets (allocatePagesOpts wanted fresh) pager (fun _ after => after.Journaled marks)
      (fun after => after.Journaled marks) := by
  have healed := journaled.healFreelist
  unfold allocatePagesOpts
  simp only [Meets.bind_iff, Meets.get_iff, Meets.ite_iff, Meets.modify_iff, Meets.pure_iff]
  refine ⟨fun _ => journaled, fun _ => ?_⟩
  refine (popPages_journaled wanted [] healed).mono ?_ (fun _ kept => kept)
  rintro taken middle ⟨kept, nPages⟩
  have pages : middle.nPages = pager.nPages := nPages
  have grown : (List.range (wanted - taken.length)).map
      (fun index => (middle.nPages + index) % 2 ^ 32) =
        (List.range (wanted - taken.length)).map (fun index => middle.nPages + index) := by
    apply List.map_congr_left
    intro index member
    have := List.mem_range.mp member
    rw [Nat.mod_eq_of_lt (by omega)]
  rw [grown]
  refine ⟨fun _ => ?_, fun _ => ⟨fun _ => kept.noteWrite.noteAllocated _, fun _ => kept⟩⟩
  rw [Nat.mod_eq_of_lt (by omega)]
  obtain ⟨larger, _⟩ := growFile_journaled kept taken (wanted - taken.length)
    (show ({ data := fresh, dirty := true } : Page size).dirty = true from rfl)
  exact ⟨fun _ => larger.noteWrite.noteAllocated _, fun _ => larger⟩

theorem Journaled.countFreed (journaled : pager.Journaled marks) :
    pager.bumpFreelistCount.noteWrite.Journaled marks :=
  (journaled.setFreelistCount _).noteWrite

theorem becomeTrunk_journaled (journaled : pager.Journaled marks) {id : Nat} {page : Page size}
    (captured : Captured pager.savepoints id) (cached : pager.cache id = some page)
    (head : Nat) :
    (((pager.updatePage id (fun _ => { data := newTrunk size head, dirty := true })).noteDirty
      id).setFreelistHead id).bumpFreelistCount.noteWrite.Journaled marks :=
  (((updatePage_journaled journaled captured cached _ (Or.inl rfl)).noteDirty id).setFreelistHead
    id).countFreed

theorem becomeEntry_journaled (journaled : pager.Journaled marks) {id : Nat} {page : Page size}
    (captured : Captured pager.savepoints id) (cached : pager.cache id = some page) :
    (pager.updatePage id (fun _ =>
      { data := Bytes.zero size, dirty := pager.unwritten id })).Journaled marks := by
  refine updatePage_journaled journaled captured cached _ ?_
  cases durable : pager.unwritten id with
  | true => exact Or.inl rfl
  | false =>
    refine Or.inr (medium_isSome journaled.undoable.sound ?_)
    simp only [unwritten, Bool.and_eq_false_iff, decide_eq_false_iff_not, Nat.not_le] at durable
    rcases durable with inside | framed
    · exact Or.inl (Nat.lt_of_lt_of_le inside (Nat.mod_le _ _))
    · exact Or.inr (by simpa using framed)

theorem freePage_journaled (journaled : pager.Journaled marks) (id : Nat) :
    Meets (freePage id) pager
      (fun _ after => after.Journaled marks ∧ after.nPages = pager.nPages)
      (fun after => after.Journaled marks) := by
  unfold freePage
  simp only [Meets.bind_iff, Meets.get_iff, Meets.ite_iff, Meets.throw_iff, Meets.modify_iff,
    Meets.pure_iff]
  refine ⟨fun _ => journaled, fun _ => ?_⟩
  refine (getPage_journaled journaled [] id).mono ?_ (fun _ kept => kept)
  rintro old one ⟨keptOne, securedOne⟩
  have pagesOne := securedOne.fetched.undisturbed.nPages
  refine ⟨fun _ => ⟨keptOne, pagesOne⟩, fun differ => ⟨fun _ => ⟨fun _ => ?_, by simp⟩,
    fun _ => ?_⟩⟩
  · exact ⟨becomeTrunk_journaled keptOne securedOne.captured securedOne.fetched.cached _,
      pagesOne⟩
  refine (getPage_journaled keptOne [id] one.freelistHead).mono ?_ (fun _ kept => kept)
  rintro trunk two ⟨keptTwo, securedTwo⟩
  have pagesTwo := securedTwo.fetched.undisturbed.nPages.trans pagesOne
  have captured := securedTwo.others id securedOne.captured
  have cached := securedTwo.fetched.pinned id old (by simp) securedOne.fetched.cached
  refine ⟨fun _ => ⟨by simp, fun _ => ?_⟩, fun _ => ⟨fun _ => ?_, by simp⟩⟩
  · have appended := (updatePage_journaled keptTwo securedTwo.captured securedTwo.fetched.cached
      (fun page => { data := appendEntry page.data (trunkCount trunk.data) id, dirty := true })
      (Or.inl rfl)).noteDirty one.freelistHead
    have still : (two.updatePage one.freelistHead (fun page =>
        { data := appendEntry page.data (trunkCount trunk.data) id, dirty := true })).cache id =
          some old := by
      rw [(updatePage_elsewhere two one.freelistHead _).cache id differ, cached]
    have zeroed := becomeEntry_journaled appended captured still
    exact ⟨fun _ => ⟨(zeroed.noteDirty id).countFreed, pagesTwo⟩,
      fun _ => ⟨zeroed.countFreed, pagesTwo⟩⟩
  · exact ⟨becomeTrunk_journaled keptTwo captured cached _, pagesTwo⟩

theorem compactKept_journaled (journaled : pager.Journaled marks) (cur : Nat)
    (entries kept : List Nat) :
    Meets (compactKept cur entries kept) pager
      (fun _ after => after.Journaled marks ∧ after.nPages = pager.nPages)
      (fun after => after.Journaled marks) := by
  unfold compactKept
  simp only [Meets.ite_iff, Meets.pure_iff]
  exact ⟨fun _ => writePage_journaled journaled [] cur _, fun _ => ⟨journaled, trivial⟩⟩

theorem relinkKept_journaled (journaled : pager.Journaled marks) (walk : TruncateWalk)
    (cur : Nat) :
    Meets (relinkKept walk cur) pager
      (fun _ after => after.Journaled marks ∧ after.nPages = pager.nPages)
      (fun after => after.Journaled marks) := by
  unfold relinkKept
  simp only [Meets.ite_iff, Meets.pure_iff]
  exact ⟨fun _ => writePage_journaled journaled [] walk.prevKept _,
    fun _ => ⟨journaled, trivial⟩⟩

theorem truncateWalk_journaled (bound steps cur : Nat) (walk : TruncateWalk)
    (journaled : pager.Journaled marks) :
    Meets (truncateWalk bound steps cur walk) pager
      (fun _ after => after.Journaled marks ∧ after.nPages = pager.nPages)
      (fun after => after.Journaled marks) := by
  induction steps generalizing pager cur walk with
  | zero =>
    rw [truncateWalk, Meets.pure_iff]
    exact ⟨journaled, rfl⟩
  | succ steps ih =>
    rw [truncateWalk]
    simp only [Meets.ite_iff, Meets.pure_iff, Meets.bind_iff]
    refine ⟨fun _ => ⟨journaled, trivial⟩, fun _ => ?_⟩
    refine (getPage_journaled journaled [] cur).mono ?_ (fun _ kept => kept)
    rintro page one ⟨keptOne, secured⟩
    have pagesOne := secured.fetched.undisturbed.nPages
    refine ⟨fun _ => ?_, fun _ => ?_⟩
    · refine (ih _ _ keptOne).mono ?_ (fun _ kept => kept)
      rintro _ after ⟨final, same⟩
      exact ⟨final, same.trans pagesOne⟩
    · refine (compactKept_journaled keptOne cur _ _).mono ?_ (fun _ kept => kept)
      rintro _ two ⟨keptTwo, pagesTwo⟩
      refine (relinkKept_journaled keptTwo walk cur).mono ?_ (fun _ kept => kept)
      rintro _ three ⟨keptThree, pagesThree⟩
      refine (ih _ _ keptThree).mono ?_ (fun _ kept => kept)
      rintro _ after ⟨final, same⟩
      exact ⟨final, same.trans (pagesThree.trans (pagesTwo.trans pagesOne))⟩

theorem freeOrphans_journaled (orphans : List Nat) (journaled : pager.Journaled marks) :
    Meets (orphans.forM freePage) pager
      (fun _ after => after.Journaled marks ∧ after.nPages = pager.nPages)
      (fun after => after.Journaled marks) := by
  induction orphans generalizing pager with
  | nil =>
    rw [List.forM, Meets.pure_iff]
    exact ⟨journaled, rfl⟩
  | cons id rest ih =>
    rw [List.forM, Meets.bind_iff]
    refine (freePage_journaled journaled id).mono ?_ (fun _ kept => kept)
    rintro _ middle ⟨kept, nPages⟩
    refine (ih kept).mono ?_ (fun _ kept => kept)
    rintro _ after ⟨final, same⟩
    exact ⟨final, same.trans nPages⟩

/-- The levels keep the names and bases they were opened with. -/
theorem stack_marks {levels : List (SavepointLevel size)}
    (stack : List.Forall₂ pager.LevelTracks levels marks) :
    levels.map SavepointLevel.name = marks.map Mark.name ∧
      levels.map SavepointLevel.base = marks.map Mark.base := by
  induction stack with
  | nil => exact ⟨rfl, rfl⟩
  | cons tracks _ ih =>
    simp only [List.map_cons, tracks.name, tracks.base, ih.1, ih.2, and_self]

/-- Forgetting pages that no level is old enough for. -/
theorem dropTail_journaled (journaled : pager.Journaled marks) {bound : Nat}
    (positive : 1 ≤ bound) (shorter : bound ≤ pager.nPages)
    (above : ∀ level ∈ pager.savepoints, level.base.nPages ≤ bound) :
    (pager.dropTail bound).Journaled marks := by
  have undoable := journaled.undoable
  refine journaled.keep ⟨rfl, rfl, rfl, rfl⟩ (dropTail_sound undoable.sound bound) ?_ ?_ positive
    above ?_
  · intro new
    rw [cache_dropTail pager positive]
    exact undoable.header new
  · intro id low
    exact backed_dropTail low (undoable.backed id (Nat.lt_of_lt_of_le low shorter))
  · intro level member id data old _ held
    exact holds_dropTail (Nat.lt_of_lt_of_le old (above level member)) held

/-- Tail truncation keeps the undo invariant while it stays above every level. -/
theorem truncateTail_journaled (journaled : pager.Journaled marks) (freed : List Nat)
    (above : ∀ level ∈ pager.savepoints,
      level.base.nPages ≤ max (tailBound freed pager.nPages) (pager.savepointMinBase.getD 0)) :
    Meets (truncateTail freed) pager (fun _ after => after.Journaled marks)
      (fun after => after.Journaled marks) := by
  have undoable := journaled.undoable
  have floored : pager.savepointMinBase.getD 0 ≤ pager.nPages := by
    rw [undoable.floor]
    cases lowest : (pager.savepoints.map (fun level => level.base.nPages)).min? with
    | none => exact Nat.zero_le _
    | some floor =>
      obtain ⟨level, member, rfl⟩ := List.mem_map.mp (List.min?_eq_some_iff.mp lowest).1
      exact (undoable.above level member).2
  have shorter : max (tailBound freed pager.nPages) (pager.savepointMinBase.getD 0) ≤
      pager.nPages := Nat.max_le.mpr ⟨tailBound_le freed pager.nPages, floored⟩
  have positive : 1 ≤ max (tailBound freed pager.nPages) (pager.savepointMinBase.getD 0) :=
    Nat.le_trans (tailBound_pos freed undoable.nonempty) (Nat.le_max_left _ _)
  unfold truncateTail
  simp only [Meets.bind_iff, Meets.get_iff, Meets.ite_iff, Meets.modify_iff, Meets.pure_iff]
  refine ⟨fun _ => journaled, fun _ => ⟨fun _ => journaled, fun _ => ⟨fun _ => journaled,
    fun _ => ?_⟩⟩⟩
  generalize max (tailBound freed pager.nPages) (pager.savepointMinBase.getD 0) = bound at *
  refine (truncateWalk_journaled bound _ _ _ journaled).mono ?_ (fun _ kept => kept)
  rintro walk middle ⟨kept, pagesMiddle⟩
  refine (freeOrphans_journaled walk.orphans ((kept.setFreelistHead walk.newHead).setFreelistCount
    walk.keptPages)).mono ?_ (fun _ kept => kept)
  rintro _ after ⟨final, pages⟩
  have same : after.nPages = pager.nPages := pages.trans pagesMiddle
  refine dropTail_journaled final positive (same ▸ shorter) ?_
  intro level member
  have listed := List.mem_map_of_mem (f := SavepointLevel.base) member
  rw [(stack_marks final.stack).2, ← (stack_marks journaled.stack).2] at listed
  obtain ⟨before, found, equal⟩ := List.mem_map.mp listed
  exact equal ▸ above before found

end Calls

end RustSql.Storage.Pager
