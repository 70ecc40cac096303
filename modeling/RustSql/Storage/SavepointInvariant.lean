import RustSql.Storage.Savepoint
import RustSql.Storage.TailTruncation

/-! What the undo log of a savepoint knows: a page's bytes when the savepoint was opened
are in the log, or the page still holds them. -/

namespace RustSql.Storage.Pager

open RustSql.Foundation

/-- A savepoint as it was opened: the counters, and what the pages held. -/
structure Mark (size : Nat) where
  name : String
  base : PagerSnapshot
  holds : Nat → Bytes size → Prop

/-- A level with its log can bring the mark back. -/
structure LevelTracks (pager : Pager size) (level : SavepointLevel size) (mark : Mark size) :
    Prop where
  name : level.name = mark.name
  base : level.base = mark.base
  logged : ∀ id data bytes, mark.holds id data → level.pages.lookup id = some bytes →
    bytes = data
  untouched : ∀ id data, id < level.base.nPages → mark.holds id data →
    level.pages.lookup id = none → pager.Holds id data

/-- Every level the page is old enough for has its pre-image. -/
def Captured (levels : List (SavepointLevel size)) (id : Nat) : Prop :=
  ∀ level ∈ levels, id < level.base.nPages → (level.pages.lookup id).isSome

/-- A newer level starts from at least as many pages, and its pre-images are also in
every older level that needs them. -/
def Nested (levels : List (SavepointLevel size)) : Prop :=
  levels.Pairwise (fun lower upper => lower.base.nPages ≤ upper.base.nPages ∧
    ∀ id, (upper.pages.lookup id).isSome → id < lower.base.nPages →
      (lower.pages.lookup id).isSome)

/-- While the header of a new file exists only in the cache, it stays there: the file is
not a lazily written one, and evictions spare page 0. -/
def HeaderKept (pager : Pager size) : Prop :=
  pager.isNew = true → pager.lazyWriteback = false ∧ (pager.cache 0).isSome ∧
    ∀ victims ∈ pager.pressure, 0 ∉ victims

/-- What pager and levels have to be like for undo to work. -/
structure Undoable (pager : Pager size) : Prop where
  sound : pager.Sound
  header : pager.HeaderKept
  backed : ∀ id, id < pager.nPages → pager.Backed id
  above : ∀ level ∈ pager.savepoints, 1 ≤ level.base.nPages ∧ level.base.nPages ≤ pager.nPages
  nonempty : 1 ≤ pager.nPages
  floor : pager.savepointMinBase =
    (pager.savepoints.map (fun level => level.base.nPages)).min?
  gate : pager.savepointCaptureGate =
    (pager.savepoints.map (fun level => level.base.nPages)).max?
  nested : Nested pager.savepoints

/-- The undo invariant between calls. -/
structure Journaled (pager : Pager size) (marks : List (Mark size)) : Prop where
  undoable : pager.Undoable
  active : pager.undoCaptureSuspended = false
  stack : List.Forall₂ pager.LevelTracks pager.savepoints marks

theorem evictOne_environment (pager : Pager size) (pins : List Nat) (id : Nat) :
    (pager.evictOne pins id).pressure = pager.pressure ∧
      (pager.evictOne pins id).isNew = pager.isNew ∧
      (pager.evictOne pins id).lazyWriteback = pager.lazyWriteback := by
  unfold evictOne
  split
  · exact ⟨rfl, rfl, rfl⟩
  · split
    · exact ⟨rfl, rfl, rfl⟩
    · split
      · split <;> exact ⟨rfl, rfl, rfl⟩
      · exact ⟨rfl, rfl, rfl⟩

theorem evictOne_cache_ne (pager : Pager size) (pins : List Nat) {id other : Nat}
    (differ : other ≠ id) : (pager.evictOne pins id).cache other = pager.cache other := by
  unfold evictOne
  split
  · simp [dropPage, differ]
  · split
    · rfl
    · split
      · split
        · simp [dropPage, spillPage, differ]
        · rfl
      · simp [dropPage, differ]

theorem HeaderKept.maybeEvict {pager : Pager size} (header : pager.HeaderKept)
    (pins : List Nat) : (pager.maybeEvict pins).HeaderKept := by
  have walk : ∀ (victims : List Nat) (pager : Pager size), pager.HeaderKept →
      (pager.isNew = true → 0 ∉ victims) →
      (victims.foldl (fun pager id => pager.evictOne pins id) pager).HeaderKept := by
    intro victims
    induction victims with
    | nil => exact fun pager header _ => header
    | cons id rest ih =>
      intro pager header spared
      obtain ⟨pressure, isNew, lazy⟩ := evictOne_environment pager pins id
      apply ih
      · intro new
        rw [isNew] at new
        have others := spared new
        simp only [List.mem_cons, not_or] at others
        rw [evictOne_cache_ne pager pins others.1, pressure, lazy]
        exact header new
      · intro new member
        exact spared (isNew ▸ new) (List.mem_cons_of_mem _ member)
  unfold Pager.maybeEvict
  split
  · exact header
  · split
    · exact header
    · next victims later pressed =>
        apply walk
        · intro new
          obtain ⟨direct, cached, spared⟩ := header new
          exact ⟨direct, cached, fun list member => spared list (by simp [pressed, member])⟩
        · intro new
          exact (header new).2.2 victims (by simp [pressed])

/-- A level after a fetch of `id` that returned `data`. -/
def captureLevel (id : Nat) (data : Bytes size) (level : SavepointLevel size) :
    SavepointLevel size :=
  if id < level.base.nPages then level.record id data else level

theorem captureLevel_name (id : Nat) (data : Bytes size) (level : SavepointLevel size) :
    (captureLevel id data level).name = level.name := by
  unfold captureLevel SavepointLevel.record
  split
  · split <;> rfl
  · rfl

theorem captureLevel_base (id : Nat) (data : Bytes size) (level : SavepointLevel size) :
    (captureLevel id data level).base = level.base := by
  unfold captureLevel SavepointLevel.record
  split
  · split <;> rfl
  · rfl

theorem captureLevel_lookup (id : Nat) (data : Bytes size) (level : SavepointLevel size)
    (target : Nat) : (captureLevel id data level).pages.lookup target =
      if target = id ∧ id < level.base.nPages then (level.pages.lookup id).or (some data)
      else level.pages.lookup target := by
  unfold captureLevel SavepointLevel.record
  by_cases old : id < level.base.nPages
  · by_cases absent : level.pages.lookup id = none
    · by_cases same : target = id
      · subst same
        simp [old, absent]
      · simp [old, absent, same]
    · obtain ⟨bytes, found⟩ := Option.isSome_iff_exists.mp (Option.isSome_iff_ne_none.mpr absent)
      by_cases same : target = id
      · subst same
        simp [old, found]
      · simp [old, found, same]
  · simp [old]

theorem captureLevel_of_logged {id : Nat} {data : Bytes size} {level : SavepointLevel size}
    (logged : id < level.base.nPages → (level.pages.lookup id).isSome) :
    captureLevel id data level = level := by
  unfold captureLevel SavepointLevel.record
  split
  · next old => rw [if_neg (Option.isSome_iff_ne_none.mp (logged old))]
  · rfl

variable {pager : Pager size}

/-- The shortcuts of `capture_savepoint_undo` skip nothing: a fetch captures the page in
every level it is old enough for. -/
theorem captureOnFetch_levels (undoable : pager.Undoable)
    (active : pager.undoCaptureSuspended = false) (id : Nat) (data : Bytes size) :
    (pager.captureOnFetch id data).savepoints = pager.savepoints.map (captureLevel id data) := by
  have skipped : (∀ level ∈ pager.savepoints, id < level.base.nPages →
      (level.pages.lookup id).isSome) →
      pager.savepoints = pager.savepoints.map (captureLevel id data) := by
    intro logged
    have same : pager.savepoints.map (captureLevel id data) = pager.savepoints.map (fun level => level) :=
      List.map_congr_left (fun level member => captureLevel_of_logged (logged level member))
    simpa using same.symm
  show (if pager.savepoints.isEmpty || pager.undoCaptureSuspended then pager.savepoints
    else pager.captureSavepointUndo id data) = _
  split
  · next none =>
      have empty : pager.savepoints = [] := by simpa [active] using none
      simp [empty]
  · unfold captureSavepointUndo
    split
    · next gated =>
        apply skipped
        intro level member old
        rw [undoable.gate] at gated
        obtain ⟨gate, highest, reached⟩ := (Option.any_eq_true _ _).mp gated
        have bound := (List.max?_eq_some_iff.mp highest).2 level.base.nPages
          (List.mem_map_of_mem (f := fun level => level.base.nPages) member)
        have := of_decide_eq_true reached
        omega
    · split
      · next newest =>
          apply skipped
          intro level member old
          obtain ⟨last, found, logged⟩ := (Option.any_eq_true _ _).mp newest
          obtain ⟨front, split⟩ := List.getLast?_eq_some_iff.mp found
          have nested := undoable.nested
          unfold Nested at nested
          rw [split] at member nested
          rcases List.mem_append.mp member with member | member
          · exact ((List.pairwise_append.mp nested).2.2 level member last
              (List.mem_singleton_self last)).2 id logged old
          · rw [List.mem_singleton.mp member]
            exact logged
      · split
        · next young =>
            apply skipped
            intro level member old
            have := List.all_eq_true.mp young level member
            simp at this
            omega
        · rfl

theorem readMiss_none (sound : pager.Sound) {id : Nat} (settled : ¬ (id = 0 ∧ pager.isNew = true))
    (absent : pager.medium id = none) : ∃ error, readMiss id pager = .error error pager := by
  have durable : ¬ (id < pager.store.length ∨ (pager.committedFrame id).isSome) := by
    intro durable
    have found := medium_isSome sound durable
    rw [absent] at found
    cases found
  unfold medium at absent
  rw [if_neg settled] at absent
  unfold readMiss
  cases spill : pager.spilledFrame id with
  | some index =>
    obtain ⟨state, attached, found⟩ := Option.bind_eq_some_iff.mp spill
    obtain ⟨data, read⟩ := Wal.readFrameAt_owned (sound.spilled state attached id index found)
    simp [spill, readFrame, attached, read, Except.toOption] at absent
  | none =>
    cases side : pager.deleteSpill id with
    | some data => simp [spill, side] at absent
    | none =>
      cases frame : pager.committedFrame id with
      | some index => exact absurd (Or.inr (by simp [frame])) durable
      | none =>
        cases held : pager.store[id]? with
        | some data => simp [spill, side, frame, held] at absent
        | none => exact ⟨_, rfl⟩

theorem HeaderKept.install (header : pager.HeaderKept) (pins : List Nat) (id : Nat)
    (page : Page size) : ((pager.maybeEvict pins).insertPage id page).HeaderKept := by
  intro new
  obtain ⟨direct, cached, spared⟩ := header.maybeEvict pins new
  refine ⟨direct, ?_, spared⟩
  by_cases zero : id = 0
  · simp [insertPage, zero]
  · simpa [insertPage, Ne.symm zero] using cached

theorem HeaderKept.unspill {pager : Pager size} (header : pager.HeaderKept) (id : Nat) :
    (pager.unspill id).HeaderKept := by
  unfold Pager.unspill
  split <;> exact header

/-- `get_page` either changes nothing, or leaves the page cached and captured. -/
theorem getPage_meets (sound : pager.Sound) (header : pager.HeaderKept) (pins : List Nat) (id : Nat) :
    Meets (getPage pins id) pager (fun page after =>
      Fetched pins id page pager after ∧ after.HeaderKept ∧
        after.savepoints = (pager.captureOnFetch id page.data).savepoints)
      (fun after => after = pager) := by
  unfold Meets
  cases cached : pager.cache id with
  | some page =>
    rw [getPage_hit cached]
    exact ⟨(Installed.refl sound cached).capture, header, rfl⟩
  | none =>
    have old : ¬ (id = 0 ∧ pager.isNew = true) := by
      rintro ⟨rfl, new⟩
      have resident := (header new).2.1
      rw [cached] at resident
      cases resident
    by_cases inRange : id < pager.nPages ∨ id = 0
    · cases stored : pager.medium id with
      | some data =>
        obtain ⟨page, after, returned, _, fetched⟩ := getPage_fetched sound pins
          (Or.inr inRange) (show pager.view id = some data by simp [view, cached, stored])
        have levels : after.savepoints = (pager.captureOnFetch id page.data).savepoints := by
          rcases fetched.savepoints with captured | ⟨zero, new, _⟩
          · exact captured
          · exact absurd ⟨zero, new⟩ old
        have kept : after.HeaderKept := by
          rcases readMiss_medium old stored with ⟨_, read⟩ | ⟨_, read⟩
          · rw [getPage_miss cached inRange old read] at returned
            cases returned
            exact (header.unspill id).install pins id _
          · rw [getPage_miss cached inRange old read] at returned
            cases returned
            exact header.install pins id _
        rw [returned]
        exact ⟨fetched, kept, levels⟩
      | none =>
        obtain ⟨error, failed⟩ := readMiss_none sound old stored
        rw [getPage_failed cached inRange old failed]
    · obtain ⟨error, failed⟩ := getPage_outside pins cached (by omega)
      rw [failed]

/-- The savepoint stack is the same. -/
structure SameLevels (before after : Pager size) : Prop where
  savepoints : after.savepoints = before.savepoints
  floor : after.savepointMinBase = before.savepointMinBase
  gate : after.savepointCaptureGate = before.savepointCaptureGate
  suspended : after.undoCaptureSuspended = before.undoCaptureSuspended

variable {before after : Pager size}

theorem LevelTracks.keep {level : SavepointLevel size} {mark : Mark size}
    (tracks : before.LevelTracks level mark)
    (holds : ∀ id data, id < level.base.nPages → level.pages.lookup id = none →
      before.Holds id data → after.Holds id data) : after.LevelTracks level mark where
  name := tracks.name
  base := tracks.base
  logged := tracks.logged
  untouched := fun id data old marked absent =>
    holds id data old absent (tracks.untouched id data old marked absent)

theorem forall₂_imp_mem {α β : Type} {left right : α → β → Prop} {front : List α}
    {back : List β} (related : List.Forall₂ left front back)
    (implies : ∀ item ∈ front, ∀ other, left item other → right item other) :
    List.Forall₂ right front back := by
  induction related with
  | nil => exact .nil
  | cons here _ ih =>
    exact .cons (implies _ List.mem_cons_self _ here)
      (ih (fun item member => implies item (List.mem_cons_of_mem _ member)))

/-- Whatever leaves the pages without a pre-image alone keeps the undo invariant. -/
theorem Journaled.keep {before after : Pager size} {marks : List (Mark size)}
    (journaled : before.Journaled marks) (same : SameLevels before after)
    (sound : after.Sound) (header : after.HeaderKept)
    (backed : ∀ id, id < after.nPages → after.Backed id) (nonempty : 1 ≤ after.nPages)
    (above : ∀ level ∈ before.savepoints, level.base.nPages ≤ after.nPages)
    (holds : ∀ level ∈ before.savepoints, ∀ id data, id < level.base.nPages →
      level.pages.lookup id = none → before.Holds id data → after.Holds id data) :
    after.Journaled marks := by
  have undoable := journaled.undoable
  refine ⟨⟨sound, header, backed, ?_, nonempty, ?_, ?_, ?_⟩,
    same.suspended.trans journaled.active, ?_⟩
  · intro level member
    rw [same.savepoints] at member
    exact ⟨(undoable.above level member).1, above level member⟩
  · rw [same.savepoints, same.floor]
    exact undoable.floor
  · rw [same.savepoints, same.gate]
    exact undoable.gate
  · rw [same.savepoints]
    exact undoable.nested
  · rw [same.savepoints]
    exact forall₂_imp_mem journaled.stack (fun level member mark tracks =>
      tracks.keep (holds level member))

variable {marks : List (Mark size)}

/-- Changing captured pages keeps the undo invariant. -/
theorem Journaled.carry {changed : List Nat} (journaled : before.Journaled marks)
    (carried : Carried changed before after) (same : SameLevels before after)
    (captured : ∀ id ∈ changed, Captured before.savepoints id)
    (nPages : after.nPages = before.nPages) (header : after.HeaderKept) :
    after.Journaled marks := by
  have undoable := journaled.undoable
  refine journaled.keep same carried.sound header ?_ (nPages ▸ undoable.nonempty) ?_ ?_
  · intro id inside
    exact carried.backed id (undoable.backed id (nPages ▸ inside))
  · intro level member
    exact nPages ▸ (undoable.above level member).2
  · intro level member id data old absent held
    apply carried.holds id data _ held
    intro listed
    have logged := captured id listed level member old
    rw [absent] at logged
    cases logged

/-- Counters and dirty tracking do not matter to it. -/
theorem Journaled.of_same (journaled : before.Journaled marks) (content : SameContent before after)
    (same : SameLevels before after) (nPages : after.nPages = before.nPages)
    (pressure : after.pressure = before.pressure) : after.Journaled marks := by
  refine journaled.carry (content.carried journaled.undoable.sound) same (by simp) nPages ?_
  intro new
  rw [content.cache, pressure, content.lazyWriteback]
  exact journaled.undoable.header (content.isNew ▸ new)

theorem updatePage_journaled (journaled : pager.Journaled marks) {id : Nat}
    (captured : Captured pager.savepoints id) {page : Page size}
    (cached : pager.cache id = some page) (change : Page size → Page size)
    (backed : (change page).dirty = true ∨ (pager.medium id).isSome) :
    (pager.updatePage id change).Journaled marks := by
  refine journaled.carry (updatePage_carried journaled.undoable.sound change cached backed)
    ⟨rfl, rfl, rfl, rfl⟩ (by simpa using captured) rfl ?_
  intro new
  obtain ⟨direct, resident, spared⟩ := journaled.undoable.header new
  refine ⟨direct, ?_, spared⟩
  by_cases zero : id = 0
  · subst zero
    simp [updatePage, cached]
  · simpa [updatePage, Ne.symm zero] using resident

/-- The levels after a fetch, and what they still have. -/
theorem captured_captureLevel (levels : List (SavepointLevel size)) (id : Nat)
    (data : Bytes size) : Captured (levels.map (captureLevel id data)) id ∧
      ∀ other, Captured levels other → Captured (levels.map (captureLevel id data)) other := by
  refine ⟨?_, ?_⟩
  · intro level member old
    obtain ⟨before, _, rfl⟩ := List.mem_map.mp member
    rw [captureLevel_base] at old
    rw [captureLevel_lookup, if_pos ⟨rfl, old⟩]
    cases before.pages.lookup id <;> rfl
  · intro other captured level member old
    obtain ⟨before, found, rfl⟩ := List.mem_map.mp member
    rw [captureLevel_base] at old
    have logged := captured before found old
    rw [captureLevel_lookup]
    split
    · cases before.pages.lookup id <;> rfl
    · exact logged

theorem nested_captureLevel {levels : List (SavepointLevel size)} (nested : Nested levels)
    (id : Nat) (data : Bytes size) : Nested (levels.map (captureLevel id data)) := by
  unfold Nested at nested ⊢
  rw [List.pairwise_map]
  refine nested.imp ?_
  rintro lower upper ⟨grown, ordered⟩
  refine ⟨by simpa only [captureLevel_base] using grown, ?_⟩
  intro other logged old
  rw [captureLevel_base] at old
  rw [captureLevel_lookup] at logged ⊢
  by_cases same : other = id
  · rw [if_pos ⟨same, same ▸ old⟩]
    cases lower.pages.lookup id <;> rfl
  · rw [if_neg (fun both => same both.1)] at logged ⊢
    exact ordered other logged old

theorem captureLevel_tracks {level : SavepointLevel size} {mark : Mark size} {id : Nat}
    {data : Bytes size} (tracks : before.LevelTracks level mark) (seen : before.view id = some data)
    (holds : ∀ other bytes, before.Holds other bytes → after.Holds other bytes) :
    after.LevelTracks (captureLevel id data level) mark where
  name := (captureLevel_name id data level).trans tracks.name
  base := (captureLevel_base id data level).trans tracks.base
  logged := by
    intro other marked bytes held found
    rw [captureLevel_lookup] at found
    split at found
    · next here =>
        obtain ⟨rfl, old⟩ := here
        cases logged : level.pages.lookup other with
        | some image =>
          simp only [logged, Option.some_or, Option.some.injEq] at found
          exact found ▸ tracks.logged other marked image held logged
        | none =>
          simp only [logged, Option.none_or, Option.some.injEq] at found
          have still := tracks.untouched other marked old held logged
          exact found ▸ Option.some.inj (seen.symm.trans still.2)
    · exact tracks.logged other marked bytes held found
  untouched := by
    intro other marked old held absent
    rw [captureLevel_base] at old
    rw [captureLevel_lookup] at absent
    split at absent
    · cases logged : level.pages.lookup id <;> simp [logged] at absent
    · exact holds other marked (tracks.untouched other marked old held absent)

/-- What every call of `get_page` leaves behind for the open savepoints. -/
structure Secured (pins : List Nat) (id : Nat) (page : Page size) (before after : Pager size) :
    Prop where
  fetched : Fetched pins id page before after
  captured : Captured after.savepoints id
  others : ∀ other, Captured before.savepoints other → Captured after.savepoints other

theorem getPage_journaled (journaled : pager.Journaled marks) (pins : List Nat) (id : Nat) :
    Meets (getPage pins id) pager
      (fun page after => after.Journaled marks ∧ Secured pins id page pager after)
      (fun after => after.Journaled marks) := by
  have undoable := journaled.undoable
  refine (getPage_meets undoable.sound undoable.header pins id).mono ?_ ?_
  · rintro page after ⟨fetched, header, levels⟩
    rw [captureOnFetch_levels undoable journaled.active] at levels
    obtain ⟨here, others⟩ := captured_captureLevel pager.savepoints id page.data
    have same := fetched.undisturbed
    have bases : after.savepoints.map (fun level => level.base.nPages) =
        pager.savepoints.map (fun level => level.base.nPages) := by
      rw [levels, List.map_map]
      exact List.map_congr_left (fun level _ => by simp [captureLevel_base])
    refine ⟨⟨⟨fetched.sound, header, ?_, ?_, same.nPages ▸ undoable.nonempty, ?_, ?_, ?_⟩,
      same.suspended.trans journaled.active, ?_⟩, fetched, levels ▸ here, fun other captured =>
        levels ▸ others other captured⟩
    · intro other inside
      exact fetched.backed other (undoable.backed other (same.nPages ▸ inside))
    · intro level member
      rw [levels] at member
      obtain ⟨before, found, rfl⟩ := List.mem_map.mp member
      rw [captureLevel_base, same.nPages]
      exact undoable.above before found
    · rw [bases, same.minBase]
      exact undoable.floor
    · rw [bases, same.gate]
      exact undoable.gate
    · rw [levels]
      exact nested_captureLevel undoable.nested id page.data
    · rw [levels, List.forall₂_map_left_iff]
      exact journaled.stack.imp (fun level mark tracks =>
        captureLevel_tracks tracks fetched.seen fetched.holds)
  · rintro after rfl
    exact journaled

end RustSql.Storage.Pager
