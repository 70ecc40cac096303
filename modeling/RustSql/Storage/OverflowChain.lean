import RustSql.Storage.FreelistInvariant
import RustSql.Storage.OverflowPage

/-! Chains of overflow pages: what does not fit a cell is written to fresh pages, each of which
names the next, and is read back page by page. -/

namespace RustSql.Storage.Pager

open RustSql.Foundation

/-- The bytes of a payload that one overflow page takes. -/
def overflowPageCapacity (size : Nat) : Nat := size - 16

/-- `div_ceil`: the pages that `length` bytes take. -/
def chainPages (size length : Nat) : Nat :=
  (length + (overflowPageCapacity size - 1)) / overflowPageCapacity size

/-- The page before this one gets its next pointer. -/
def linkPrev (prev : Option Nat) (id : Nat) (pager : Pager size) : Pager size :=
  match prev with
  | some prev => pager.updatePage prev fun page =>
    { data := OverflowPage.setNext id page.data, dirty := true }
  | none => pager

/-- The loop of `build_overflow_chain_rest` over the pages handed out; their references are
held. -/
def fillChain (prev : Option Nat) (rest : List UInt8) : List Nat → Pager size → Pager size
  | [], pager => pager
  | id :: more, pager =>
    let take := rest.take (overflowPageCapacity size)
    let pager := (linkPrev prev id pager).updatePage id fun page =>
      { data := OverflowPage.fill take more.isEmpty page.data, dirty := true }
    fillChain (some id) (rest.drop (overflowPageCapacity size)) more pager

/-- `build_overflow_chain_rest`. `fresh` is what a page of file growth holds. -/
def buildOverflowChainRest (fresh : Bytes size) (rest : List UInt8) : PagerM size Nat := do
  let pages ← allocatePagesOpts (chainPages size rest.length) fresh
  modify (fillChain none rest pages)
  return pages.headD 0

def buildOverflowChain (fresh : Bytes size) (payload : List UInt8) (localLen : Nat) :
    PagerM size Nat :=
  let rest := payload.drop localLen
  if rest = [] then return 0 else buildOverflowChainRest fresh rest

/-- A page of a chain, wherever it is: in the cache, in a spill, in the log or in the file. -/
def readChainPage (pager : Pager size) (id : Nat) : Except Error (Bytes size) :=
  match pager.view id with
  | some data => do
    let kind ← OverflowPage.pageType data
    if kind = .overflow then .ok data
    else .error (.corruption s!"overflow chain hit non-overflow page {id}")
  | none => .error (.corruption s!"short read on overflow page {id}: 0 of 16 header bytes")

/-- The loop of `gather_overflow_chain_range`, with the steps that are left. -/
def gatherLoop (pager : Pager size) (first start stop : Nat) :
    Nat → Nat → Nat → List UInt8 → Except Error (List UInt8)
  | 0, _, _, _ => .error (.corruption s!"overflow chain cycle starting at page {first}")
  | steps + 1, cur, pagePos, out =>
    if stop ≤ pagePos then .ok out
    else do
      let data ← pager.readChainPage cur
      let take := min (OverflowPage.body data).length (overflowPageCapacity size)
      let pageEnd := pagePos + take
      let out :=
        if start < pageEnd ∧ pagePos < stop then
          let low := max start pagePos - pagePos
          let high := min stop pageEnd - pagePos
          out ++ ((OverflowPage.body data).take high).drop low
        else out
      if OverflowPage.next data = 0 then .ok out
      else gatherLoop pager first start stop steps (OverflowPage.next data) pageEnd out

/-- `gather_overflow_chain_range`: the bytes it appends. -/
def gatherOverflowChainRange (pager : Pager size) (first localLen start stop : Nat) :
    Except Error (List UInt8) :=
  if stop ≤ start ∨ first = 0 then .ok []
  else gatherLoop pager first start stop (pager.nPages + 4) first localLen []

def assembleOverflowPayload (pager : Pager size) (share : List UInt8) (total first : Nat) :
    Except Error (List UInt8) := do
  if total < share.length then
    .error (.corruption
      s!"overflow cell local prefix {share.length} longer than payload {total}")
  else do
    let got ← pager.gatherOverflowChainRange first share.length share.length total
    if got.length ≠ total - share.length then
      .error (.corruption
        s!"overflow chain shorter than payload ({share.length + got.length} < {total})")
    else .ok (share ++ got)

/-- Pages whose references are held stay in the cache. -/
def Retains (pins : List Nat) (before after : Pager size) : Prop :=
  ∀ id ∈ pins, (before.cache id).isSome → (after.cache id).isSome

theorem Retains.trans {pins more : List Nat} {first second third : Pager size}
    (left : Retains pins first second) (right : Retains more second third)
    (fewer : ∀ id ∈ pins, id ∈ more) : Retains pins first third :=
  fun id member cached => right id (fewer id member) (left id member cached)

theorem Retains.of_cache {pins : List Nat} {before after : Pager size}
    (same : after.cache = before.cache) : Retains pins before after :=
  fun _ _ cached => same ▸ cached

theorem evictOne_retains (pins : List Nat) (victim : Nat) (pager : Pager size) :
    Retains pins pager (pager.evictOne pins victim) := by
  intro id member cached
  have dropped (other : Pager size) (same : other.cache = pager.cache) (differ : id ≠ victim) :
      ((other.dropPage victim).cache id).isSome := by
    rw [cache_dropPage, if_neg differ, same]
    exact cached
  unfold evictOne
  cases found : pager.cache victim with
  | none =>
    refine dropped pager rfl ?_
    rintro rfl
    rw [found] at cached
    cases cached
  | some page =>
    by_cases pinned : victim ∈ pins
    · simpa [pinned] using cached
    · have differ : id ≠ victim := fun same => pinned (same ▸ member)
      simp only [if_neg pinned]
      split
      · split
        · exact dropped _ rfl differ
        · exact cached
      · exact dropped pager rfl differ

theorem maybeEvict_retains (pins : List Nat) (pager : Pager size) :
    Retains pins pager (pager.maybeEvict pins) := by
  unfold maybeEvict
  split
  · exact Retains.of_cache rfl
  · cases pager.pressure with
    | nil => exact Retains.of_cache rfl
    | cons victims later =>
      have walk : ∀ (victims : List Nat) (start : Pager size),
          Retains pins start (victims.foldl (fun pager id => pager.evictOne pins id) start) := by
        intro victims
        induction victims with
        | nil => exact fun _ => Retains.of_cache rfl
        | cons victim rest ih => exact fun start =>
          (evictOne_retains pins victim start).trans (ih _) fun _ member => member
      exact walk victims { pager with pressure := later }

theorem insertPage_retains (pins : List Nat) (id : Nat) (page : Page size) (pager : Pager size) :
    Retains pins pager (pager.insertPage id page) := by
  intro other _ cached
  by_cases same : other = id
  · simp [insertPage, same]
  · simpa [insertPage, same] using cached

theorem updatePage_retains (pins : List Nat) (id : Nat) (change : Page size → Page size)
    (pager : Pager size) : Retains pins pager (pager.updatePage id change) := by
  intro other _ cached
  by_cases same : other = id
  · subst same
    simpa [updatePage] using cached
  · simpa [updatePage, same] using cached

theorem readMiss_cache (id : Nat) (pager : Pager size) :
    Meets (readMiss id) pager (fun _ after => after.cache = pager.cache) (fun _ => True) := by
  have same := (unspill_undisturbed pager id).2.1
  unfold Meets readMiss
  cases pager.spilledFrame id with
  | some index => cases read : pager.readFrame index <;> simp [read, same]
  | none =>
    cases pager.deleteSpill id with
    | some data => exact same
    | none =>
      cases pager.committedFrame id with
      | some index => cases read : pager.readFrame index <;> simp [read]
      | none => cases pager.store[id]? <;> simp

theorem getPage_retains (pins : List Nat) (id : Nat) (pager : Pager size) :
    Meets (getPage pins id) pager
      (fun _ after => (after.cache id).isSome ∧ Retains pins pager after) (fun _ => True) := by
  unfold getPage
  simp only [Meets.bind_iff, Meets.get_iff]
  cases found : pager.cache id with
  | some page =>
    simp only [Meets.bind_iff, Meets.modify_iff, Meets.pure_iff]
    exact ⟨by simp [captureOnFetch, found], Retains.of_cache rfl⟩
  | none =>
    simp only [Meets.bind_iff, Meets.ite_iff, Meets.throw_iff, Meets.modify_iff, Meets.pure_iff]
    refine ⟨fun _ => trivial, fun _ => ⟨fun both => ?_, fun _ => ?_⟩⟩
    · refine ⟨by simp [insertPage, both.1], ?_⟩
      exact (maybeEvict_retains pins pager).trans (insertPage_retains pins 0 _ _)
        fun _ member => member
    · apply (readMiss_cache id pager).mono _ fun _ raised => raised
      intro page middle same
      have kept := ((@Retains.of_cache _ pins _ _ same).trans (maybeEvict_retains pins middle)
        fun _ member => member).trans (insertPage_retains pins id page _) fun _ member => member
      refine ⟨fun _ => ⟨?_, ?_⟩, fun _ => ⟨?_, ?_⟩⟩
      · simp [captureOnFetch, noteDirty, insertPage]
      · exact kept
      · simp [captureOnFetch, insertPage]
      · exact kept

theorem writePage_retains (pins : List Nat) (id : Nat) (change : Bytes size → Bytes size)
    (pager : Pager size) :
    Meets (writePage pins id change) pager (fun _ after => Retains pins pager after)
      (fun _ => True) := by
  simp only [writePage, Meets.bind_iff, Meets.modify_iff]
  apply (getPage_retains pins id pager).mono _ fun _ raised => raised
  rintro page middle ⟨_, kept⟩
  exact kept.trans (updatePage_retains pins id _ middle) fun _ member => member

theorem popFreelist_retains (pins : List Nat) (pager : Pager size) :
    Meets (popFreelist pins) pager
      (fun freed after => (after.cache freed).isSome ∧ Retains pins pager after)
      (fun _ => True) := by
  unfold popFreelist
  simp only [Meets.bind_iff, Meets.get_iff, Meets.ite_iff, Meets.throw_iff, Meets.modify_iff,
    Meets.pure_iff]
  refine ⟨fun _ => trivial, fun _ => ?_⟩
  apply (getPage_retains pins _ pager).mono _ fun _ raised => raised
  rintro trunk one ⟨_, keptOne⟩
  refine ⟨fun _ => trivial, fun _ => ⟨fun _ => trivial, fun _ => ⟨fun _ => ?_, fun _ => ?_⟩⟩⟩
  · apply (getPage_retains _ _ _).mono _ fun _ raised => raised
    rintro again two ⟨_, keptTwo⟩
    refine ⟨fun _ => trivial, fun _ => ?_⟩
    apply (getPage_retains _ _ _).mono _ fun _ raised => raised
    rintro freed three ⟨here, keptThree⟩
    refine ⟨updatePage_retains [_] _ _ three _ (List.mem_singleton_self _) here, ?_⟩
    intro id member cached
    have second := keptTwo id (List.mem_cons_of_mem _ member) (keptOne id member cached)
    have third := keptThree id (List.mem_cons_of_mem _ member)
      (updatePage_retains pins _ _ two id member second)
    exact updatePage_retains pins _ _ three id member third
  · apply (writePage_retains _ _ _ _).mono _ fun _ raised => raised
    intro _ two keptTwo
    apply (getPage_retains _ _ _).mono _ fun _ raised => raised
    rintro freed three ⟨here, keptThree⟩
    refine ⟨updatePage_retains [_] _ _ three _ (List.mem_singleton_self _) here, ?_⟩
    intro id member cached
    have second := keptTwo id (List.mem_cons_of_mem _ member) (keptOne id member cached)
    exact updatePage_retains pins _ _ three id member
      (keptThree id (List.mem_cons_of_mem _ member) second)

/-- The pages popped by an allocation are in the cache, and those popped before stay there. -/
theorem popPages_cached (wanted : Nat) (taken : List Nat) (pager : Pager size)
    (held : ∀ id ∈ taken, (pager.cache id).isSome) :
    Meets (popPages wanted taken) pager (fun out after => ∀ id ∈ out, (after.cache id).isSome)
      (fun _ => True) := by
  induction wanted generalizing taken pager with
  | zero => simpa [popPages] using held
  | succ wanted ih =>
    simp only [popPages, Meets.bind_iff, Meets.get_iff, Meets.ite_iff, Meets.pure_iff,
      Meets.modify_iff]
    refine ⟨fun _ => held, fun _ => ?_⟩
    apply (popFreelist_retains taken pager).mono _ fun _ raised => raised
    rintro freed middle ⟨here, kept⟩
    apply ih
    intro id member
    rcases List.mem_append.mp member with old | new
    · exact kept id old (held id old)
    · rw [List.mem_singleton.mp new]
      exact here

theorem insertPages_cached (ids : List Nat) (page : Page size) (pager : Pager size) (id : Nat) :
    ((ids.foldl (fun pager id => pager.insertPage id page) pager).cache id).isSome =
      (decide (id ∈ ids) || (pager.cache id).isSome) := by
  induction ids generalizing pager with
  | nil => simp
  | cons first rest ih =>
    rw [List.foldl_cons, ih]
    by_cases same : id = first
    · simp [insertPage, same]
    · simp [insertPage, same]

/-- The pages of an allocation are all in the cache. -/
theorem allocatePagesOpts_cached (wanted : Nat) (fresh : Bytes size) (pager : Pager size) :
    Meets (allocatePagesOpts wanted fresh) pager
      (fun out after => ∀ id ∈ out, (after.cache id).isSome) (fun _ => True) := by
  simp only [allocatePagesOpts, Meets.bind_iff, Meets.get_iff, Meets.ite_iff, Meets.pure_iff,
    Meets.modify_iff]
  refine ⟨fun _ => by simp, fun _ => ?_⟩
  apply (popPages_cached wanted [] _ (by simp)).mono _ fun _ raised => raised
  intro taken middle held
  have grown : ∀ id ∈ taken ++ (List.range (wanted - taken.length)).map
      (fun index => (middle.nPages + index) % 2 ^ 32),
      ((((List.range (wanted - taken.length)).map
        (fun index => (middle.nPages + index) % 2 ^ 32)).foldl
        (fun pager id => pager.insertPage id { data := fresh, dirty := true })
        ((middle.setNPages ((middle.nPages + (wanted - taken.length)) % 2 ^ 32)).maybeEvict
          taken)).cache id).isSome := by
    intro id member
    rw [insertPages_cached]
    rcases List.mem_append.mp member with old | new
    · exact Bool.or_eq_true_iff.mpr (Or.inr
        (maybeEvict_retains taken (middle.setNPages _) id old (held id old)))
    · rw [decide_eq_true new, Bool.true_or]
  have none (full : ¬ 0 < wanted - taken.length) : ∀ id ∈ taken ++
      (List.range (wanted - taken.length)).map (fun index => (middle.nPages + index) % 2 ^ 32),
      (middle.cache id).isSome := by
    have zero : wanted - taken.length = 0 := by omega
    simpa [zero] using held
  exact ⟨fun _ => ⟨fun _ => grown, fun _ => grown⟩, fun full => ⟨fun _ => none full,
    fun _ => none full⟩⟩

/-- A cached page of a chain, with the next page and its share of the payload. -/
def Slot (pager : Pager size) (id after : Nat) (bytes : List UInt8) : Prop :=
  ∃ page rest, pager.cache id = some page ∧ page.dirty = true ∧
    page.data.toList = OverflowPage.header after ++ (bytes ++ rest)

/-- The pages `ids` are linked, and hold the bytes in order. -/
def Chained (pager : Pager size) : List Nat → List UInt8 → Prop
  | [], _ => True
  | id :: more, rest =>
    Slot pager id (more.headD 0) (rest.take (overflowPageCapacity size)) ∧
      Chained pager more (rest.drop (overflowPageCapacity size))

/-- The pages `ids` are linked, and hold the bytes in order, wherever they are. -/
def Linked (pager : Pager size) : List Nat → List UInt8 → Prop
  | [], _ => True
  | id :: more, rest =>
    (∃ data behind, pager.Holds id data ∧ data.toList = OverflowPage.header (more.headD 0) ++
        (rest.take (overflowPageCapacity size) ++ behind)) ∧
      Linked pager more (rest.drop (overflowPageCapacity size))

/-- What leaves the bytes of pages alone leaves a chain alone. -/
theorem Linked.of_holds {before after : Pager size} (ids : List Nat) {rest : List UInt8}
    (linked : Linked before ids rest)
    (holds : ∀ id ∈ ids, ∀ data, before.Holds id data → after.Holds id data) :
    Linked after ids rest := by
  induction ids generalizing rest with
  | nil => trivial
  | cons id more ih =>
    obtain ⟨⟨data, behind, held, shape⟩, later⟩ := linked
    exact ⟨⟨data, behind, holds id (List.mem_cons_self ..) data held, shape⟩,
      ih later fun other member => holds other (List.mem_cons_of_mem _ member)⟩

variable {pager : Pager size}

theorem Chained.linked (ids : List Nat) {rest : List UInt8} (chained : Chained pager ids rest)
    (nonzero : ∀ id ∈ ids, id ≠ 0) : Linked pager ids rest := by
  induction ids generalizing rest with
  | nil => trivial
  | cons id more ih =>
    obtain ⟨⟨page, behind, cached, dirty, shape⟩, later⟩ := chained
    refine ⟨⟨page.data, behind, ⟨fun found there => ?_, by simp [view, cached]⟩, shape⟩,
      ih later fun other member => nonzero other (List.mem_cons_of_mem _ member)⟩
    rw [cached] at there
    cases there
    exact ⟨fun clean => by simp [dirty] at clean,
      fun _ fresh => nonzero id (List.mem_cons_self ..) fresh.1⟩

theorem Slot.of_cache {before after : Pager size} {id next : Nat} {bytes : List UInt8}
    (slot : Slot before id next bytes) (same : after.cache id = before.cache id) :
    Slot after id next bytes := by
  obtain ⟨page, rest, cached, dirty, shape⟩ := slot
  exact ⟨page, rest, same.trans cached, dirty, shape⟩

theorem cache_updatePage (id other : Nat) (change : Page size → Page size) (pager : Pager size) :
    (pager.updatePage id change).cache other =
      if other = id then (pager.cache id).map change else pager.cache other := by
  simp [updatePage, Function.update_apply]

section Chain

variable (large : 16 ≤ size)

include large

/-- The page filled last gets its link when the next one is known. -/
theorem Slot.link {pager : Pager size} {id before : Nat} {bytes : List UInt8}
    (slot : Slot pager id before bytes) (next : Nat) :
    Slot (pager.updatePage id fun page =>
      { data := OverflowPage.setNext next page.data, dirty := true }) id next bytes := by
  obtain ⟨page, rest, cached, -, shape⟩ := slot
  refine ⟨_, rest, by rw [cache_updatePage, if_pos rfl, cached]; rfl, rfl, ?_⟩
  exact OverflowPage.toList_setNext large shape next

theorem Slot.fill {pager : Pager size} {id : Nat} (cached : (pager.cache id).isSome)
    {bytes : List UInt8} (fits : bytes.length ≤ overflowPageCapacity size) (last : Bool) :
    Slot (pager.updatePage id fun page =>
      { data := OverflowPage.fill bytes last page.data, dirty := true }) id 0 bytes := by
  obtain ⟨page, found⟩ := Option.isSome_iff_exists.mp cached
  obtain ⟨rest, shape⟩ := OverflowPage.fill_shape large page.data fits last
  exact ⟨_, rest, by rw [cache_updatePage, if_pos rfl, found]; rfl, rfl, shape⟩

theorem linkPrev_spec (prev : Option Nat) (id : Nat) (pager : Pager size) :
    (∀ q bytes, prev = some q → Slot pager q 0 bytes → Slot (linkPrev prev id pager) q id bytes) ∧
      (∀ other, prev ≠ some other → (linkPrev prev id pager).cache other = pager.cache other) ∧
      (linkPrev prev id pager).nPages = pager.nPages := by
  cases prev with
  | none => exact ⟨nofun, fun _ _ => rfl, rfl⟩
  | some prev =>
    refine ⟨fun q bytes same slot => ?_, fun other differ => ?_, rfl⟩
    · cases same
      exact slot.link large id
    · have apart : other ≠ prev := fun same => differ (same ▸ rfl)
      rw [linkPrev, cache_updatePage, if_neg apart]

/-- What the loop of `build_overflow_chain_rest` does to the pages it is given, to the page
before them and to all others. -/
theorem fillChain_spec (ids : List Nat) (prev : Option Nat) (rest : List UInt8)
    (pager : Pager size) (distinct : ids.Nodup) (cached : ∀ id ∈ ids, (pager.cache id).isSome)
    (apart : ∀ id ∈ ids, prev ≠ some id) :
    (∀ q bytes, prev = some q → Slot pager q 0 bytes →
      Slot (fillChain prev rest ids pager) q (ids.headD 0) bytes) ∧
      Chained (fillChain prev rest ids pager) ids rest ∧
      (∀ other, other ∉ ids → prev ≠ some other →
        (fillChain prev rest ids pager).cache other = pager.cache other) ∧
      (fillChain prev rest ids pager).nPages = pager.nPages := by
  induction ids generalizing prev rest pager with
  | nil => exact ⟨fun _ _ _ slot => slot, trivial, fun _ _ _ => rfl, rfl⟩
  | cons id more ih =>
    obtain ⟨fresh, distinct⟩ := List.nodup_cons.mp distinct
    obtain ⟨linked, others, pages⟩ := linkPrev_spec large prev id pager
    have here := others id (apart id (List.mem_cons_self ..))
    have filled := Slot.fill large (here ▸ cached id (List.mem_cons_self ..))
      (List.length_take_le (overflowPageCapacity size) rest) more.isEmpty
    have elsewhere (other : Nat) (differ : other ≠ id) :
        ((linkPrev prev id pager).updatePage id fun page =>
          { data := OverflowPage.fill (rest.take (overflowPageCapacity size)) more.isEmpty
              page.data, dirty := true }).cache other = (linkPrev prev id pager).cache other := by
      rw [cache_updatePage, if_neg differ]
    obtain ⟨ownLink, chained, kept, count⟩ := ih (some id)
      (rest.drop (overflowPageCapacity size)) _ distinct (fun other member => by
        have differ : other ≠ id := fun same => fresh (same ▸ member)
        rw [elsewhere other differ, others other (apart other (List.mem_cons_of_mem _ member))]
        exact cached other (List.mem_cons_of_mem _ member))
      (fun other member same => by
        cases same
        exact fresh member)
    refine ⟨fun q bytes same slot => ?_, ⟨ownLink id _ rfl filled, chained⟩,
      fun other outside differ => ?_, count.trans pages⟩
    · have apartId : q ≠ id := by
        rintro rfl
        exact apart q (List.mem_cons_self ..) same
      have outside : q ∉ more := fun member => apart q (List.mem_cons_of_mem _ member) same
      exact ((linked q bytes same slot).of_cache (elsewhere q apartId)).of_cache
        (kept q outside fun same => apartId (Option.some.inj same).symm)
    · have apartId : other ≠ id := fun same => outside (same ▸ List.mem_cons_self ..)
      refine (kept other (fun member => outside (List.mem_cons_of_mem _ member))
        fun same => apartId (Option.some.inj same).symm).trans ?_
      rw [elsewhere other apartId, others other differ]

end Chain

theorem readChainPage_linked {id : Nat} {more : List Nat} {rest : List UInt8}
    (linked : Linked pager (id :: more) rest) (small : ∀ other ∈ more, other < 2 ^ 32) :
    ∃ data, pager.readChainPage id = .ok data ∧
      OverflowPage.Holds data (more.headD 0) (rest.take (overflowPageCapacity size)) := by
  obtain ⟨⟨data, behind, held, shape⟩, -⟩ := linked
  have next : more.headD 0 < 2 ^ 32 := by
    cases more with
    | nil => decide
    | cons other more => exact small other (List.mem_cons_self ..)
  have holds := OverflowPage.holds_of_shape next shape
  refine ⟨data, ?_, holds⟩
  simp only [readChainPage, held.2, holds.kind, bind, Except.bind, if_true]

section Gather

variable {pager : Pager size} {first start stop : Nat} (large : 16 < size)

include large

/-- One page of a read to the end of the payload. -/
theorem gatherLoop_page {cur after pagePos steps : Nat} {data : Bytes size}
    {rest out : List UInt8} (read : pager.readChainPage cur = .ok data)
    (holds : OverflowPage.Holds data after (rest.take (overflowPageCapacity size)))
    (begins : start ≤ pagePos) (stops : pagePos + rest.length = stop) (some : 0 < rest.length) :
    gatherLoop pager first start stop (steps + 1) cur pagePos out =
      if after = 0 then .ok (out ++ rest.take (overflowPageCapacity size))
      else gatherLoop pager first start stop steps after (pagePos + overflowPageCapacity size)
        (out ++ rest.take (overflowPageCapacity size)) := by
  have room : 0 < overflowPageCapacity size := by
    rw [overflowPageCapacity]
    omega
  have whole : (OverflowPage.body data).length = overflowPageCapacity size :=
    OverflowPage.body_length data
  have going : ¬ stop ≤ pagePos := by omega
  have overlaps : start < pagePos + overflowPageCapacity size ∧ pagePos < stop := by omega
  have low : max start pagePos - pagePos = 0 := by omega
  have high : min stop (pagePos + overflowPageCapacity size) - pagePos =
      (rest.take (overflowPageCapacity size)).length := by
    rw [List.length_take]
    omega
  have taken := List.prefix_iff_eq_take.mp holds.body
  rw [gatherLoop]
  simp only [if_neg going, read, bind, Except.bind, whole, Nat.min_self, if_pos overlaps, low, high,
    List.drop_zero, ← taken, holds.next]

/-- The loop of `gather_overflow_chain_range` collects what a chain still holds. -/
theorem gatherLoop_linked (more : List Nat) {id pagePos steps : Nat} {rest out : List UInt8}
    (linked : Linked pager (id :: more) rest)
    (named : ∀ other ∈ more, other ≠ 0 ∧ other < 2 ^ 32)
    (many : more.length * overflowPageCapacity size < rest.length)
    (few : rest.length ≤ (more.length + 1) * overflowPageCapacity size)
    (begins : start ≤ pagePos) (stops : pagePos + rest.length = stop)
    (enough : more.length < steps) :
    gatherLoop pager first start stop steps id pagePos out = .ok (out ++ rest) := by
  induction more generalizing id pagePos steps rest out with
  | nil =>
    obtain ⟨steps, rfl⟩ : ∃ k, steps = k + 1 := ⟨steps - 1, by simp at enough; omega⟩
    obtain ⟨data, read, holds⟩ := readChainPage_linked linked (by simp)
    rw [gatherLoop_page large read holds begins stops (by omega), List.headD_nil, if_pos rfl,
      List.take_of_length_le (by simpa using few)]
  | cons next more ih =>
    obtain ⟨steps, rfl⟩ : ∃ k, steps = k + 1 := ⟨steps - 1, by omega⟩
    obtain ⟨nonzero, -⟩ := named next (List.mem_cons_self ..)
    obtain ⟨data, read, holds⟩ := readChainPage_linked linked fun other member =>
      (named other member).2
    rw [List.length_cons, Nat.add_mul, Nat.one_mul] at many
    rw [List.length_cons, Nat.add_mul (more.length + 1), Nat.one_mul] at few
    rw [gatherLoop_page large read holds begins stops (by omega), List.headD_cons, if_neg nonzero,
      ih linked.2 (fun other member => named other (List.mem_cons_of_mem _ member))
        (by rw [List.length_drop]; omega) (by rw [List.length_drop]; omega) (by omega)
        (by rw [List.length_drop]; omega) (by simpa using enough),
      List.append_assoc, List.take_append_drop]

end Gather

/-- An allocation of chain pages does what the allocator is for: it hands out distinct pages
of the file. -/
def Allots (pager : Pager size) (fresh : Bytes size) (wanted : Nat) : Prop :=
  Succeeds (allocatePagesOpts wanted fresh) pager (fun ids after =>
    ids.length = wanted ∧ ids.Nodup ∧ ∀ id ∈ ids, id ≠ 0 ∧ id < after.nPages ∧ id < 2 ^ 32)

/-- Where the freelist is consistent and the page count has room, allocations do. -/
theorem FreelistInv.allots {trunks : List (Trunk Nat)} (legal : LegalPageSize size)
    (inv : pager.FreelistInv trunks) (header : 1 ≤ pager.nPages) (fresh : Bytes size) {wanted : Nat}
    (small : pager.nPages + wanted < 2 ^ 32) : pager.Allots fresh wanted := by
  apply (allocatePagesOpts_inv legal wanted fresh inv small).mono
  rintro ids after ⟨popped, later, growth, rfl, perm, kept, grown, total⟩
  have range : ∀ id ∈ popped, 1 ≤ id ∧ id < pager.nPages := fun id member =>
    inv.freelist.inRange id (perm.mem_iff.mpr (List.mem_append_left _ member))
  have new : ∀ id ∈ (List.range growth).map (fun index => pager.nPages + index),
      pager.nPages ≤ id ∧ id < after.nPages := by
    intro id member
    obtain ⟨index, inside, rfl⟩ := List.mem_map.mp member
    have := List.mem_range.mp inside
    omega
  refine ⟨by simpa using total, List.nodup_append.mpr ⟨?_, ?_, ?_⟩, ?_⟩
  · exact (List.nodup_append.mp (perm.nodup_iff.mp inv.freelist.distinct)).1
  · exact List.nodup_range.map (fun left right same => by simpa using same)
  · rintro id member other member' rfl
    have := (range id member).2
    have := (new id member').1
    omega
  · intro id member
    rcases List.mem_append.mp member with old | grew
    · have := range id old
      omega
    · have := new id grew
      omega

theorem chainPages_bounds {length count : Nat} (room : 0 < overflowPageCapacity size)
    (pages : count + 1 = chainPages size length) :
    count * overflowPageCapacity size < length ∧
      length ≤ (count + 1) * overflowPageCapacity size := by
  have parts := Nat.div_add_mod (length + (overflowPageCapacity size - 1))
    (overflowPageCapacity size)
  have least := Nat.mod_lt (length + (overflowPageCapacity size - 1)) room
  rw [← chainPages, ← pages, Nat.mul_comm] at parts
  rw [Nat.add_mul, Nat.one_mul] at parts ⊢
  omega

/-- What gets a page number for each page is not long. -/
theorem Allots.length_le {pager : Pager size} {fresh : Bytes size} {length : Nat}
    (room : 0 < overflowPageCapacity size) (allots : pager.Allots fresh (chainPages size length)) :
    length ≤ 2 ^ 32 * overflowPageCapacity size := by
  obtain ⟨ids, after, -, count, distinct, named⟩ := allots
  have subset : ids ⊆ List.range (2 ^ 32) := fun id member =>
    List.mem_range.mpr (named id member).2.2
  have few := (List.subperm_of_subset distinct subset).length_le
  rw [List.length_range, count] at few
  cases pages : chainPages size length with
  | zero =>
    have short := (Nat.div_eq_zero_iff.mp pages).resolve_left (by omega)
    have size : overflowPageCapacity size ≤ 2 ^ 32 * overflowPageCapacity size :=
      Nat.le_mul_of_pos_left _ (by decide)
    omega
  | succ more =>
    have bounds := (chainPages_bounds room pages.symm).2
    rw [pages] at few
    exact Nat.le_trans bounds (Nat.mul_le_mul_right _ few)

/-- A chain behind a local part is read back behind it. -/
theorem assembleOverflowPayload_linked (room : 0 < overflowPageCapacity size)
    (share rest : List UInt8) {id : Nat} {more : List Nat} (linked : Linked pager (id :: more) rest)
    (distinct : (id :: more).Nodup) (count : (id :: more).length = chainPages size rest.length)
    (named : ∀ other ∈ id :: more, other ≠ 0 ∧ other < pager.nPages ∧ other < 2 ^ 32) :
    pager.assembleOverflowPayload share (share.length + rest.length) id = .ok (share ++ rest) := by
  obtain ⟨many, few⟩ := chainPages_bounds room count
  have nonzero := (named id (List.mem_cons_self ..)).1
  have within : (id :: more).length ≤ pager.nPages := by
    have subset : (id :: more) ⊆ List.range pager.nPages := fun other member =>
      List.mem_range.mpr (named other member).2.1
    have fewer := (List.subperm_of_subset distinct subset).length_le
    rwa [List.length_range] at fewer
  have collected := @gatherLoop_linked size _ id share.length (share.length + rest.length)
    (by rw [overflowPageCapacity] at room; omega) more id share.length (pager.nPages + 4) rest []
    linked (fun other member => ⟨(named other (List.mem_cons_of_mem _ member)).1,
      (named other (List.mem_cons_of_mem _ member)).2.2⟩) many few (Nat.le_refl _) rfl
    (by rw [List.length_cons] at within; omega)
  have long : ¬ share.length + rest.length < share.length := by omega
  have reads : ¬ (share.length + rest.length ≤ share.length ∨ id = 0) := by omega
  have whole : share.length + rest.length - share.length = rest.length := by omega
  simp only [assembleOverflowPayload, if_neg long, gatherOverflowChainRange, if_neg reads,
    collected, bind, Except.bind, List.nil_append, whole, ne_eq, not_true_eq_false, if_false]

/-- What `build_overflow_chain_rest` makes of the pages it is given. -/
theorem buildOverflowChainRest_linked {pager middle : Pager size} (legal : LegalPageSize size)
    (fresh : Bytes size) (rest : List UInt8) {ids : List Nat}
    (returned : allocatePagesOpts (chainPages size rest.length) fresh pager = .ok ids middle)
    (distinct : ids.Nodup) (nonzero : ∀ id ∈ ids, id ≠ 0) :
    Succeeds (buildOverflowChainRest fresh rest) pager (fun first after =>
      first = ids.headD 0 ∧ after = fillChain none rest ids middle ∧
        after.nPages = middle.nPages ∧ Linked after ids rest) := by
  have large : 512 ≤ size := legal.atLeast
  have held := (allocatePagesOpts_cached (chainPages size rest.length) fresh pager).returned
    returned
  obtain ⟨-, chained, -, nPages⟩ := fillChain_spec (by omega) ids none rest middle distinct held
    (fun _ _ => nofun)
  simp only [buildOverflowChainRest, Succeeds.bind_iff, Succeeds.modify_iff, Succeeds.pure_iff]
  exact ⟨ids, middle, returned, rfl, rfl, nPages, chained.linked ids nonzero⟩

/-- What is written behind a local part is read back behind it. -/
theorem buildOverflowChain_assembled (legal : LegalPageSize size) (fresh : Bytes size)
    (payload : List UInt8) {localLen : Nat} (inside : localLen ≤ payload.length)
    (allots : pager.Allots fresh (chainPages size (payload.length - localLen))) :
    Succeeds (buildOverflowChain fresh payload localLen) pager (fun first after =>
      first < 2 ^ 32 ∧ after.assembleOverflowPayload (payload.take localLen) payload.length first =
        .ok payload) := by
  have large : 512 ≤ size := legal.atLeast
  have room : 0 < overflowPageCapacity size := by
    rw [overflowPageCapacity]
    omega
  have share : (payload.take localLen).length = localLen := List.length_take_of_le inside
  have length : (payload.drop localLen).length = payload.length - localLen := List.length_drop
  unfold buildOverflowChain
  simp only [Succeeds.ite_iff, Succeeds.pure_iff]
  refine ⟨fun empty => ⟨by decide, ?_⟩, fun some => ?_⟩
  · have whole : payload.take localLen = payload := by
      have parts := List.take_append_drop localLen payload
      rwa [empty, List.append_nil] at parts
    simp [assembleOverflowPayload, whole, gatherOverflowChainRange, bind, Except.bind]
  · obtain ⟨ids, middle, returned, count, distinct, named⟩ := allots
    rw [← length] at returned count
    apply (buildOverflowChainRest_linked legal fresh _ returned distinct fun id member =>
      (named id member).1).mono
    rintro first after ⟨rfl, -, nPages, linked⟩
    cases ids with
    | nil =>
      have pages : 1 ≤ chainPages size (payload.drop localLen).length :=
        (Nat.le_div_iff_mul_le room).mpr (by have := List.length_pos_iff.mpr some; omega)
      rw [← count] at pages
      cases pages
    | cons id more =>
      have assembled := assembleOverflowPayload_linked room (payload.take localLen)
        (payload.drop localLen) linked distinct count (nPages ▸ named)
      rw [List.take_append_drop, share, length, Nat.add_sub_cancel' inside] at assembled
      exact ⟨(named id (List.mem_cons_self ..)).2.2, assembled⟩

end RustSql.Storage.Pager
