import RustSql.Foundation.TotalRun
import RustSql.Storage.Pager

/-! What a page holds, wherever it lives: fetching and evicting pages moves them between
the cache and its media without changing the bytes `get_page` returns. -/

namespace RustSql.Storage.Pager

open RustSql.Foundation

/-- The bytes the miss path of `get_page` would read. -/
def medium (pager : Pager size) (id : Nat) : Option (Bytes size) :=
  if id = 0 ∧ pager.isNew = true then some (FileHeader.initPage0 size).data
  else
    match pager.spilledFrame id with
    | some index => (pager.readFrame index).toOption
    | none =>
      match pager.deleteSpill id with
      | some data => some data
      | none =>
        match pager.committedFrame id with
        | some index => (pager.readFrame index).toOption
        | none => pager.store[id]?

/-- The bytes `get_page` would return. -/
def view (pager : Pager size) (id : Nat) : Option (Bytes size) :=
  match pager.cache id with
  | some page => some page.data
  | none => pager.medium id

/-- Evicting the page now would not change its bytes: a clean copy agrees with the media,
and a dirty copy is written out (the lazily written header of a new file is not read
back). -/
def Solid (pager : Pager size) (id : Nat) : Prop :=
  ∀ page, pager.cache id = some page →
    (page.dirty = false → pager.medium id = some page.data) ∧
    (page.dirty = true → ¬ (id = 0 ∧ pager.isNew = true ∧ pager.lazyWriteback = true))

/-- The page holds `data`, and goes on holding it when it is evicted. -/
def Holds (pager : Pager size) (id : Nat) (data : Bytes size) : Prop :=
  pager.Solid id ∧ pager.view id = some data

/-- The page can be fetched, now and after an eviction. -/
def Backed (pager : Pager size) (id : Nat) : Prop :=
  (∃ page, pager.cache id = some page ∧ page.dirty = true) ∨ (pager.medium id).isSome

/-- Every reference into the log names a live frame of its own page, and lazily written
pagers have neither log nor spill. -/
structure Sound (pager : Pager size) : Prop where
  grounded : ∀ state, pager.wal = some state → state.wal.Grounded
  committed : ∀ state, pager.wal = some state →
    ∀ id index, state.map.lookup id = some index → state.wal.Owned id index
  spilled : ∀ state, pager.wal = some state →
    ∀ id index, state.spilled.lookup id = some index → state.wal.Owned id index
  plain : pager.lazyWriteback = true → pager.wal = none ∧ ∀ id, pager.deleteSpill id = none

/-- What fetches and evictions leave alone. -/
structure Undisturbed (before after : Pager size) : Prop where
  snapshot : after.snapshot = before.snapshot
  isMemory : after.isMemory = before.isMemory
  isNew : after.isNew = before.isNew
  lazyWriteback : after.lazyWriteback = before.lazyWriteback
  pendingTruncate : after.pendingTruncate = before.pendingTruncate
  committedNPages : after.committedNPages = before.committedNPages
  suspended : after.undoCaptureSuspended = before.undoCaptureSuspended
  minBase : after.savepointMinBase = before.savepointMinBase
  gate : after.savepointCaptureGate = before.savepointCaptureGate

namespace Undisturbed

theorem refl (pager : Pager size) : Undisturbed pager pager :=
  ⟨rfl, rfl, rfl, rfl, rfl, rfl, rfl, rfl, rfl⟩

theorem trans {first second third : Pager size} (left : Undisturbed first second)
    (right : Undisturbed second third) : Undisturbed first third where
  snapshot := right.snapshot.trans left.snapshot
  isMemory := right.isMemory.trans left.isMemory
  isNew := right.isNew.trans left.isNew
  lazyWriteback := right.lazyWriteback.trans left.lazyWriteback
  pendingTruncate := right.pendingTruncate.trans left.pendingTruncate
  committedNPages := right.committedNPages.trans left.committedNPages
  suspended := right.suspended.trans left.suspended
  minBase := right.minBase.trans left.minBase
  gate := right.gate.trans left.gate

theorem nPages {before after : Pager size} (same : Undisturbed before after) :
    after.nPages = before.nPages :=
  congrArg PagerSnapshot.nPages same.snapshot

theorem freelistHead {before after : Pager size} (same : Undisturbed before after) :
    after.freelistHead = before.freelistHead :=
  congrArg PagerSnapshot.freelistHead same.snapshot

theorem freelistCount {before after : Pager size} (same : Undisturbed before after) :
    after.freelistCount = before.freelistCount :=
  congrArg PagerSnapshot.freelistCount same.snapshot

end Undisturbed

@[simp]
theorem medium_dropPage (pager : Pager size) (target id : Nat) :
    (pager.dropPage target).medium id = pager.medium id := rfl

@[simp]
theorem medium_insertPage (pager : Pager size) (target : Nat) (page : Page size)
    (id : Nat) : (pager.insertPage target page).medium id = pager.medium id := rfl

variable {pager : Pager size}

theorem dropPage_sound (sound : pager.Sound) (id : Nat) :
    (pager.dropPage id).Sound :=
  ⟨sound.grounded, sound.committed, sound.spilled, sound.plain⟩

theorem spillPage_sound (sound : pager.Sound) (id : Nat) (data : Bytes size) :
    (pager.spillPage id data).Sound := by
  by_cases lazy : pager.lazyWriteback = true
  · obtain ⟨none, _⟩ := sound.plain lazy
    refine ⟨?_, ?_, ?_, ?_⟩
    · intro state attached
      simp [spillPage, lazy, none] at attached
    · intro state attached
      simp [spillPage, lazy, none] at attached
    · intro state attached
      simp [spillPage, lazy, none] at attached
    · simpa [spillPage, lazy] using sound.plain lazy
  · have step : ∀ state, (pager.spillPage id data).wal = some state →
        ∃ before, pager.wal = some before ∧ state = before.spill pager.crc id data := by
      intro state attached
      obtain ⟨before, found, same⟩ : ∃ before, pager.wal = some before ∧
          before.spill pager.crc id data = state := by
        simpa [spillPage, lazy] using attached
      exact ⟨before, found, same.symm⟩
    have keep : ∀ before, pager.wal = some before → ∀ page index,
        before.wal.Owned page index → (before.spill pager.crc id data).wal.Owned page index := by
      intro before attached page index owned
      have spilled := Wal.spill_spilled pager.crc before.wal (sound.grounded before attached) id data
      by_cases same : page = id
      · exact same ▸ spilled.keepsOwn index (same ▸ owned)
      · exact (spilled.keeps page index same owned).1
    refine ⟨?_, ?_, ?_, ?_⟩
    · intro state attached
      obtain ⟨before, found, rfl⟩ := step state attached
      exact (Wal.spill_spilled pager.crc before.wal (sound.grounded before found) id data).grounded
    · intro state attached page index found
      obtain ⟨before, same, rfl⟩ := step state attached
      exact keep before same page index (sound.committed before same page index found)
    · intro state attached page index found
      obtain ⟨before, same, rfl⟩ := step state attached
      simp only [WalState.spill, AssocMap.lookup_insert_eq] at found
      split at found
      · next hit =>
          cases found
          subst hit
          exact (Wal.spill_spilled pager.crc before.wal (sound.grounded before same) page data).own
      · exact keep before same page index (sound.spilled before same page index found)
    · intro still
      exact absurd still lazy

theorem getElem?_writeStore (store : List (Bytes size)) (target id : Nat)
    (data : Bytes size) :
    (writeStore store target data)[target]? = some data ∧
      ∀ found, id ≠ target → store[id]? = some found →
        (writeStore store target data)[id]? = some found := by
  unfold writeStore
  split
  · next inside =>
      refine ⟨by simp [inside], ?_⟩
      intro found differ there
      rw [List.getElem?_set_ne (Ne.symm differ), there]
  · next beyond =>
      constructor
      · rw [List.getElem?_append_right (by simp; omega)]
        simp [show target - (store.length + (target - store.length)) = 0 by omega]
      · intro found differ there
        have inside := (List.getElem?_eq_some_iff.mp there).1
        rw [List.append_assoc, List.getElem?_append_left inside, there]

/-- The media find a page right after it was spilled. -/
theorem medium_spillPage_self (sound : pager.Sound) (id : Nat) (data : Bytes size)
    (settled : ¬ (id = 0 ∧ pager.isNew = true)) :
    (pager.spillPage id data).medium id = some data := by
  unfold medium
  rw [if_neg (show ¬ (id = 0 ∧ (pager.spillPage id data).isNew = true) from settled)]
  by_cases lazy : pager.lazyWriteback = true
  · obtain ⟨none, clear⟩ := sound.plain lazy
    simp [spillPage, spilledFrame, committedFrame, lazy, none, clear,
      (getElem?_writeStore pager.store id id data).1]
  · cases attached : pager.wal with
    | none => simp [spillPage, spilledFrame, lazy, attached]
    | some state =>
      have spilled := Wal.spill_spilled pager.crc state.wal (sound.grounded state attached) id data
      simp [spillPage, spilledFrame, readFrame, lazy, attached, WalState.spill,
        spilled.content, Except.toOption]

/-- Spilling one page leaves what the media hold of every other page. -/
theorem medium_spillPage_ne (sound : pager.Sound) {target id : Nat} (data : Bytes size)
    {found : Bytes size} (differ : id ≠ target) (there : pager.medium id = some found) :
    (pager.spillPage target data).medium id = some found := by
  unfold medium at there ⊢
  by_cases settled : id = 0 ∧ pager.isNew = true
  · rw [if_pos settled] at there
    rw [← there]
    exact if_pos settled
  rw [if_neg settled] at there
  rw [if_neg (show ¬ (id = 0 ∧ (pager.spillPage target data).isNew = true) from settled)]
  by_cases lazy : pager.lazyWriteback = true
  · obtain ⟨none, clear⟩ := sound.plain lazy
    simp only [spilledFrame, committedFrame, none, clear, Option.bind_none] at there
    simp only [spillPage, spilledFrame, committedFrame, lazy, none, clear, Option.bind_none,
      if_true, true_or]
    exact (getElem?_writeStore pager.store target id data).2 found differ there
  · cases attached : pager.wal with
    | none =>
      simpa [spillPage, spilledFrame, committedFrame, readFrame, lazy, attached, differ]
        using there
    | some state =>
      have spilled :=
        Wal.spill_spilled pager.crc state.wal (sound.grounded state attached) target data
      have same : ∀ index, state.wal.Owned id index →
          (state.wal.spill pager.crc target data).1.readFrameAt index =
            state.wal.readFrameAt index := fun index owned =>
        (spilled.keeps id index differ owned).2
      simp only [spilledFrame, committedFrame, readFrame, attached, Option.bind_some] at there
      simp only [spillPage, spilledFrame, committedFrame, readFrame, attached, lazy,
        WalState.spill, Option.map_some, Option.bind_some, Option.isSome_some, or_true,
        Bool.false_eq_true, if_true, if_false, AssocMap.lookup_insert_eq, if_neg differ]
      cases spill : state.spilled.lookup id with
      | some index =>
        simp only [spill] at there ⊢
        rw [same index (sound.spilled state attached id index spill)]
        exact there
      | none =>
        simp only [spill] at there ⊢
        cases side : pager.deleteSpill id with
        | some bytes => simpa [side] using there
        | none =>
          simp only [side] at there ⊢
          cases frame : state.map.lookup id with
          | some index =>
            simp only [frame] at there ⊢
            rw [same index (sound.committed state attached id index frame)]
            exact there
          | none => simpa [frame] using there

/-- What evictions leave behind. -/
structure Evicted (pins : List Nat) (before after : Pager size) : Prop where
  undisturbed : Undisturbed before after
  savepoints : after.savepoints = before.savepoints
  sound : after.Sound
  holds : ∀ id data, before.Holds id data → after.Holds id data
  backed : ∀ id, before.Backed id → after.Backed id
  cached : ∀ id page, after.cache id = some page → before.cache id = some page
  pinned : ∀ id page, id ∈ pins → before.cache id = some page → after.cache id = some page

namespace Evicted

theorem refl {pins : List Nat} {pager : Pager size} (sound : pager.Sound) :
    Evicted pins pager pager :=
  ⟨.refl pager, rfl, sound, fun _ _ held => held, fun _ held => held, fun _ _ found => found,
    fun _ _ _ found => found⟩

theorem trans {pins : List Nat} {first second third : Pager size}
    (left : Evicted pins first second) (right : Evicted pins second third) :
    Evicted pins first third where
  undisturbed := left.undisturbed.trans right.undisturbed
  savepoints := right.savepoints.trans left.savepoints
  sound := right.sound
  holds := fun id data held => right.holds id data (left.holds id data held)
  backed := fun id held => right.backed id (left.backed id held)
  cached := fun id page found => left.cached id page (right.cached id page found)
  pinned := fun id page member found =>
    right.pinned id page member (left.pinned id page member found)

end Evicted

theorem cache_dropPage (pager : Pager size) (target id : Nat) :
    (pager.dropPage target).cache id = if id = target then none else pager.cache id := by
  simp [dropPage, Function.update_apply]

variable {pins : List Nat} {id : Nat}

/-- Dropping an unpinned page; a dirty one has been written out before. -/
theorem dropPage_evicted (sound : pager.Sound) (free : id ∉ pins ∨ pager.cache id = none)
    (written : ∀ page, pager.cache id = some page → page.dirty = true →
      (pager.medium id).isSome ∧ (pager.Solid id → pager.medium id = some page.data)) :
    Evicted pins pager (pager.dropPage id) := by
  refine ⟨⟨rfl, rfl, rfl, rfl, rfl, rfl, rfl, rfl, rfl⟩, rfl, dropPage_sound sound id, ?_, ?_,
    ?_, ?_⟩
  · rintro other data ⟨solid, seen⟩
    by_cases same : other = id
    · subst same
      refine ⟨?_, ?_⟩
      · intro page found
        simp [cache_dropPage] at found
      · cases cached : pager.cache other with
        | none => simpa [view, cache_dropPage, cached] using seen
        | some page =>
          simp only [view, cached, Option.some.injEq] at seen
          simp only [view, cache_dropPage, if_true, medium_dropPage]
          cases dirty : page.dirty with
          | true => rw [(written page cached dirty).2 solid, seen]
          | false => rw [(solid page cached).1 dirty, seen]
    · refine ⟨?_, ?_⟩
      · intro page found
        rw [cache_dropPage, if_neg same] at found
        exact solid page found
      · simpa [view, cache_dropPage, same] using seen
  · rintro other (⟨page, found, dirty⟩ | stored)
    · by_cases same : other = id
      · subst same
        exact Or.inr (written page found dirty).1
      · exact Or.inl ⟨page, by simpa [cache_dropPage, same] using found, dirty⟩
    · exact Or.inr stored
  · intro other page found
    rw [cache_dropPage] at found
    split at found
    · cases found
    · exact found
  · intro other page member found
    rw [cache_dropPage]
    split
    · next same =>
        subst same
        rcases free with free | free
        · exact absurd member free
        · rw [free] at found
          cases found
    · exact found

variable {page : Page size}

/-- Writing a dirty page out while it is still cached. -/
theorem spillPage_evicted (sound : pager.Sound) (cached : pager.cache id = some page)
    (dirty : page.dirty = true) : Evicted pins pager (pager.spillPage id page.data) := by
  have stored : ∀ other data, other ≠ id → pager.medium other = some data →
      (pager.spillPage id page.data).medium other = some data :=
    fun other data differ there => medium_spillPage_ne sound page.data differ there
  refine ⟨⟨rfl, rfl, rfl, rfl, rfl, rfl, rfl, rfl, rfl⟩, rfl,
    spillPage_sound sound id page.data, ?_, ?_, fun _ _ found => found,
    fun _ _ _ found => found⟩
  · rintro other data ⟨solid, seen⟩
    by_cases same : other = id
    · subst same
      refine ⟨?_, ?_⟩
      · intro found there
        rw [show (pager.spillPage other page.data).cache = pager.cache from rfl, cached] at there
        cases there
        exact ⟨fun clean => by simp [dirty] at clean, (solid page cached).2⟩
      · simpa [view, show (pager.spillPage other page.data).cache = pager.cache from rfl, cached]
          using seen
    · refine ⟨?_, ?_⟩
      · intro found there
        exact ⟨fun clean => stored other found.data same ((solid found there).1 clean),
          (solid found there).2⟩
      · cases there : pager.cache other with
        | some found =>
          simpa [view, show (pager.spillPage id page.data).cache = pager.cache from rfl, there]
            using seen
        | none =>
          simp only [view, there] at seen
          simpa [view, show (pager.spillPage id page.data).cache = pager.cache from rfl, there]
            using stored other data same seen
  · rintro other (found | there)
    · exact Or.inl found
    · by_cases same : other = id
      · exact Or.inl ⟨page, by rw [same]; exact cached, dirty⟩
      · obtain ⟨data, found⟩ := Option.isSome_iff_exists.mp there
        exact Or.inr (by rw [stored other data same found]; rfl)

theorem evictOne_evicted (sound : pager.Sound) (pins : List Nat) (id : Nat) :
    Evicted pins pager (pager.evictOne pins id) := by
  unfold evictOne
  cases cached : pager.cache id with
  | none =>
    apply dropPage_evicted sound (Or.inr cached)
    intro page found
    rw [cached] at found
    cases found
  | some page =>
    simp only
    split
    · exact .refl sound
    · next free =>
      split
      · next dirty =>
        split
        · next allowed =>
          apply (spillPage_evicted sound cached dirty).trans
          apply dropPage_evicted (spillPage_sound sound id page.data) (Or.inl free)
          intro found there _
          have same : some page = some found := cached.symm.trans there
          cases same
          by_cases fresh : id = 0 ∧ pager.isNew = true
          · -- Only lazy write-back drops the header of a new file.
            have lazy : pager.lazyWriteback = true := by simpa [fresh.1] using allowed
            refine ⟨by simp [medium, spillPage, fresh], ?_⟩
            intro solid
            exact absurd ⟨fresh.1, fresh.2, lazy⟩ ((solid page there).2 dirty)
          · have stored := medium_spillPage_self sound id page.data fresh
            exact ⟨by rw [stored]; rfl, fun _ => stored⟩
        · exact .refl sound
      · next clean =>
        apply dropPage_evicted sound (Or.inl free)
        intro found there dirty
        rw [cached] at there
        cases there
        exact absurd dirty clean

theorem maybeEvict_evicted (sound : pager.Sound) (pins : List Nat) :
    Evicted pins pager (pager.maybeEvict pins) := by
  have walk : ∀ (victims : List Nat) (pager : Pager size), pager.Sound →
      Evicted pins pager (victims.foldl (fun pager id => pager.evictOne pins id) pager) := by
    intro victims
    induction victims with
    | nil => exact fun pager sound => .refl sound
    | cons id rest ih =>
      intro pager sound
      have first := evictOne_evicted sound pins id
      exact first.trans (ih _ first.sound)
  unfold maybeEvict
  split
  · exact .refl sound
  · split
    · exact .refl sound
    · next victims later _ =>
      have start : Evicted pins pager { pager with pressure := later } :=
        ⟨⟨rfl, rfl, rfl, rfl, rfl, rfl, rfl, rfl, rfl⟩, rfl,
          ⟨sound.grounded, sound.committed, sound.spilled, sound.plain⟩, fun _ _ held => held,
          fun _ held => held, fun _ _ found => found, fun _ _ _ found => found⟩
      exact start.trans (walk victims _ start.sound)

theorem getPage_hit (cached : pager.cache id = some page) :
    getPage pins id pager = .ok page (pager.captureOnFetch id page.data) := by
  simp only [getPage, bind, EStateM.bind, get, getThe, MonadStateOf.get, ran_get, cached]
  rfl

theorem getPage_new (absent : pager.cache 0 = none) (fresh : pager.isNew = true) :
    getPage pins 0 pager = .ok (FileHeader.initPage0 size)
      ((pager.maybeEvict pins).insertPage 0 (FileHeader.initPage0 size)) := by
  simp only [getPage, bind, EStateM.bind, get, getThe, MonadStateOf.get, ran_get, absent]
  rw [if_neg (by omega), if_pos (by simp [fresh])]
  rfl

theorem getPage_miss {pager middle : Pager size} (absent : pager.cache id = none)
    (inRange : id < pager.nPages ∨ id = 0) (settled : ¬ (id = 0 ∧ pager.isNew = true))
    (read : readMiss id pager = .ok page middle) :
    getPage pins id pager = .ok page
      (captureOnFetch id page.data
        (if page.dirty then ((middle.maybeEvict pins).insertPage id page).noteDirty id
          else (middle.maybeEvict pins).insertPage id page)) := by
  simp only [getPage, bind, EStateM.bind, get, getThe, MonadStateOf.get, ran_get, absent]
  rw [if_neg (by omega), if_neg settled]
  simp only [EStateM.bind, read]
  cases page.dirty <;> rfl

theorem getPage_failed {error : Error} (absent : pager.cache id = none)
    (inRange : id < pager.nPages ∨ id = 0) (settled : ¬ (id = 0 ∧ pager.isNew = true))
    (read : readMiss id pager = .error error pager) :
    getPage pins id pager = .error error pager := by
  simp only [getPage, bind, EStateM.bind, get, getThe, MonadStateOf.get, ran_get, absent]
  rw [if_neg (by omega), if_neg settled]
  simp only [EStateM.bind, read]

theorem getPage_outside (pins : List Nat) (absent : pager.cache id = none)
    (outside : pager.nPages ≤ id ∧ id ≠ 0) :
    ∃ error, getPage pins id pager = .error error pager := by
  simp only [getPage, bind, EStateM.bind, get, getThe, MonadStateOf.get, ran_get, absent]
  rw [if_pos outside]
  exact ⟨_, rfl⟩

/-- The page is served by one of the two spills. -/
def FromSpill (pager : Pager size) (id : Nat) : Prop :=
  (pager.spilledFrame id).isSome ∨ (pager.deleteSpill id).isSome

variable {data : Bytes size}

theorem readMiss_medium (settled : ¬ (id = 0 ∧ pager.isNew = true))
    (seen : pager.medium id = some data) :
    (pager.FromSpill id ∧
        readMiss id pager = .ok { data := data, dirty := true } (pager.unspill id)) ∨
      (¬ pager.FromSpill id ∧
        readMiss id pager = .ok { data := data, dirty := false } pager) := by
  unfold medium at seen
  rw [if_neg settled] at seen
  unfold readMiss FromSpill
  have ok : ∀ index, (pager.readFrame index).toOption = some data →
      pager.readFrame index = .ok data := by
    intro index read
    cases result : pager.readFrame index with
    | ok bytes => simpa [result, Except.toOption] using read
    | error error => simp [result, Except.toOption] at read
  cases spill : pager.spilledFrame id with
  | some index =>
    simp only [spill] at seen
    simp [ok index seen]
  | none =>
    simp only [spill] at seen
    cases side : pager.deleteSpill id with
    | some bytes =>
      simp only [side, Option.some.injEq] at seen
      simp [seen]
    | none =>
      simp only [side] at seen
      cases frame : pager.committedFrame id with
      | some index =>
        simp only [frame] at seen
        simp [ok index seen]
      | none =>
        simp only [frame] at seen
        simp [seen]

theorem unspill_sound (sound : pager.Sound) (id : Nat) : (pager.unspill id).Sound := by
  have step : ∀ state, (pager.unspill id).wal = some state →
      ∃ before, pager.wal = some before ∧ state.wal = before.wal ∧ state.map = before.map ∧
        ∀ other index, state.spilled.lookup other = some index →
          before.spilled.lookup other = some index := by
    intro state attached
    unfold unspill at attached
    split at attached
    · obtain ⟨before, found, rfl⟩ := Option.map_eq_some_iff.mp attached
      refine ⟨before, found, rfl, rfl, ?_⟩
      intro other index there
      rw [AssocMap.lookup_erase_eq] at there
      split at there
      · cases there
      · exact there
    · exact ⟨state, attached, rfl, rfl, fun _ _ there => there⟩
  refine ⟨?_, ?_, ?_, ?_⟩
  · intro state attached
    obtain ⟨before, found, log, _, _⟩ := step state attached
    exact log ▸ sound.grounded before found
  · intro state attached other index there
    obtain ⟨before, found, log, map, _⟩ := step state attached
    exact log ▸ sound.committed before found other index (map ▸ there)
  · intro state attached other index there
    obtain ⟨before, found, log, _, spill⟩ := step state attached
    exact log ▸ sound.spilled before found other index (spill other index there)
  · intro lazy
    have lazy : pager.lazyWriteback = true := by
      unfold unspill at lazy
      split at lazy <;> exact lazy
    obtain ⟨none, clear⟩ := sound.plain lazy
    unfold unspill
    rw [if_neg (by simp [spilledFrame, none])]
    refine ⟨none, ?_⟩
    intro other
    by_cases same : other = id <;> simp [same, clear]

theorem medium_unspill_ne {target id : Nat} (differ : id ≠ target) :
    (pager.unspill target).medium id = pager.medium id := by
  unfold unspill
  split
  · next spilled =>
      cases attached : pager.wal with
      | none => simp [spilledFrame, attached] at spilled
      | some state =>
        simp [medium, spilledFrame, committedFrame, readFrame, attached, differ]
  · simp [medium, spilledFrame, committedFrame, readFrame, differ]

theorem unspill_undisturbed (pager : Pager size) (id : Nat) :
    Undisturbed pager (pager.unspill id) ∧ (pager.unspill id).cache = pager.cache ∧
      (pager.unspill id).savepoints = pager.savepoints := by
  unfold unspill
  split <;> exact ⟨⟨rfl, rfl, rfl, rfl, rfl, rfl, rfl, rfl, rfl⟩, rfl, rfl⟩

/-- A page is in the cache, and the others live on. -/
structure Loaded (pins : List Nat) (id : Nat) (page : Page size) (before after : Pager size) :
    Prop where
  undisturbed : Undisturbed before after
  sound : after.Sound
  seen : before.view id = some page.data
  cached : after.cache id = some page
  holds : ∀ other data, before.Holds other data → after.Holds other data
  backed : ∀ other, before.Backed other → after.Backed other
  pinned : ∀ other held, other ∈ pins → before.cache other = some held →
    after.cache other = some held

/-- What caching a page that was read leaves behind. -/
structure Installed (pins : List Nat) (id : Nat) (page : Page size) (before after : Pager size) : Prop
    extends Loaded pins id page before after where
  savepoints : after.savepoints = before.savepoints

/-- What a fetch of `id` leaves behind: it also captured the page's bytes for the open
savepoints, unless it rebuilt the header of a new file. -/
structure Fetched (pins : List Nat) (id : Nat) (page : Page size) (before after : Pager size) : Prop
    extends Loaded pins id page before after where
  savepoints : after.savepoints = (before.captureOnFetch id page.data).savepoints ∨
    (id = 0 ∧ before.isNew = true ∧ before.cache 0 = none ∧
      after.savepoints = before.savepoints)

namespace Installed

variable {pins : List Nat} {id : Nat} {page : Page size} {before after : Pager size}

theorem refl (sound : before.Sound) (cached : before.cache id = some page) :
    Installed pins id page before before :=
  ⟨⟨.refl before, sound, by simp [view, cached], cached, fun _ _ held => held,
    fun _ held => held, fun _ _ _ found => found⟩, rfl⟩

theorem noteDirty (installed : Installed pins id page before after) (noted : Nat) :
    Installed pins id page before (after.noteDirty noted) where
  __ := installed
  undisturbed := installed.undisturbed.trans ⟨rfl, rfl, rfl, rfl, rfl, rfl, rfl, rfl, rfl⟩
  sound := ⟨installed.sound.grounded, installed.sound.committed, installed.sound.spilled,
    installed.sound.plain⟩

theorem capture (installed : Installed pins id page before after) :
    Fetched pins id page before (after.captureOnFetch id page.data) where
  __ := installed.toLoaded
  undisturbed := installed.undisturbed.trans ⟨rfl, rfl, rfl, rfl, rfl, rfl, rfl, rfl, rfl⟩
  sound := ⟨installed.sound.grounded, installed.sound.committed, installed.sound.spilled,
    installed.sound.plain⟩
  savepoints := by
    left
    simp only [captureOnFetch, captureSavepointUndo, installed.savepoints,
      installed.undisturbed.gate, installed.undisturbed.suspended]

end Installed

/-- Pages other than `id` live where they lived. -/
structure Elsewhere (id : Nat) (before after : Pager size) : Prop where
  undisturbed : Undisturbed before after
  cache : ∀ other, other ≠ id → after.cache other = before.cache other
  medium : ∀ other, other ≠ id → after.medium other = before.medium other

variable {before after : Pager size}

theorem Elsewhere.holds {id other : Nat} (same : Elsewhere id before after) (differ : other ≠ id)
    (held : before.Holds other data) : after.Holds other data := by
  refine ⟨?_, ?_⟩
  · intro page found
    rw [same.cache other differ] at found
    rw [same.medium other differ, same.undisturbed.isNew, same.undisturbed.lazyWriteback]
    exact held.1 page found
  · simpa [view, same.cache other differ, same.medium other differ] using held.2

theorem Elsewhere.backed {id other : Nat} (same : Elsewhere id before after) (differ : other ≠ id)
    (held : before.Backed other) : after.Backed other := by
  simpa [Backed, same.cache other differ, same.medium other differ] using held

theorem insertPage_elsewhere (pager : Pager size) (id : Nat) (page : Page size) :
    Elsewhere id pager (pager.insertPage id page) where
  undisturbed := ⟨rfl, rfl, rfl, rfl, rfl, rfl, rfl, rfl, rfl⟩
  cache := fun other differ => by simp [insertPage, differ]
  medium := fun _ _ => rfl

theorem unspill_elsewhere (pager : Pager size) (id : Nat) :
    Elsewhere id pager (pager.unspill id) where
  undisturbed := (unspill_undisturbed pager id).1
  cache := fun other _ => congrFun (unspill_undisturbed pager id).2.1 other
  medium := fun _ differ => medium_unspill_ne differ

/-- The tail of the miss path: evict, then cache the page that was read. -/
theorem insertPage_installed {pager middle : Pager size} (sound : middle.Sound)
    (moved : Elsewhere id pager middle) (levels : middle.savepoints = pager.savepoints)
    (absent : pager.cache id = none) (stillAbsent : middle.cache id = none)
    (seen : pager.medium id = some page.data)
    (settled : page.dirty = true → ¬ (id = 0 ∧ pager.isNew = true))
    (clean : page.dirty = false → middle.medium id = some page.data) :
    Installed pins id page pager ((middle.maybeEvict pins).insertPage id page) := by
  have evicted := maybeEvict_evicted sound pins
  have inserted := insertPage_elsewhere (middle.maybeEvict pins) id page
  have gone : (middle.maybeEvict pins).cache id = none := by
    cases found : (middle.maybeEvict pins).cache id with
    | none => rfl
    | some held =>
      have there := evicted.cached id held found
      rw [stillAbsent] at there
      cases there
  have undisturbed : Undisturbed pager ((middle.maybeEvict pins).insertPage id page) :=
    moved.undisturbed.trans (evicted.undisturbed.trans inserted.undisturbed)
  have cached : ((middle.maybeEvict pins).insertPage id page).cache id = some page := by
    simp [insertPage]
  refine ⟨⟨undisturbed, ⟨evicted.sound.grounded, evicted.sound.committed,
    evicted.sound.spilled, evicted.sound.plain⟩, by simp [view, absent, seen], cached, ?_, ?_,
    ?_⟩, evicted.savepoints.trans levels⟩
  · intro other data held
    by_cases same : other = id
    · subst same
      have bytes : data = page.data := by
        have found := held.2
        simp only [view, absent, seen, Option.some.injEq] at found
        exact found.symm
      subst bytes
      refine ⟨?_, by simp [view, cached]⟩
      intro found there
      rw [cached] at there
      cases there
      refine ⟨?_, ?_⟩
      · intro isClean
        have kept := evicted.holds other page.data
          ⟨fun _ found => by simp [stillAbsent] at found,
            by simp [view, stillAbsent, clean isClean]⟩
        simpa [view, gone] using kept.2
      · rintro isDirty ⟨zero, fresh, _⟩
        exact settled isDirty ⟨zero, undisturbed.isNew ▸ fresh⟩
    · exact inserted.holds same (evicted.holds other data (moved.holds same held))
  · intro other held
    by_cases same : other = id
    · subst same
      cases dirty : page.dirty with
      | true => exact Or.inl ⟨page, cached, dirty⟩
      | false =>
        have kept := evicted.backed other (Or.inr (by simp [clean dirty]))
        rcases kept with ⟨found, there, _⟩ | there
        · rw [gone] at there
          cases there
        · exact Or.inr there
    · exact inserted.backed same (evicted.backed other (moved.backed same held))
  · intro other held member found
    by_cases same : other = id
    · subst same
      rw [absent] at found
      cases found
    · rw [inserted.cache other same]
      exact evicted.pinned other held member ((moved.cache other same).trans found)

/-- `get_page` succeeds on every page it can see. -/
theorem getPage_fetched (sound : pager.Sound) (pins : List Nat)
    (inRange : (pager.cache id).isSome ∨ id < pager.nPages ∨ id = 0)
    (seen : pager.view id = some data) :
    Succeeds (getPage pins id) pager (fun page after =>
      page.data = data ∧ Fetched pins id page pager after) := by
  cases cached : pager.cache id with
  | some page =>
    refine ⟨page, _, getPage_hit cached, ?_, (Installed.refl sound cached).capture⟩
    simpa [view, cached] using seen
  | none =>
    have stored : pager.medium id = some data := by simpa [view, cached] using seen
    by_cases fresh : id = 0 ∧ pager.isNew = true
    · obtain ⟨rfl, fresh⟩ := fresh
      have bytes : (FileHeader.initPage0 size).data = data := by
        simpa [medium, fresh] using stored
      have installed : Installed pins 0 (FileHeader.initPage0 size) pager
          ((pager.maybeEvict pins).insertPage 0 (FileHeader.initPage0 size)) := by
        apply insertPage_installed sound ⟨.refl pager, fun _ _ => rfl, fun _ _ => rfl⟩ rfl
          cached cached (bytes ▸ stored) (fun dirty => by cases dirty)
        exact fun _ => bytes ▸ stored
      exact ⟨_, _, getPage_new cached fresh, bytes, installed.toLoaded,
        Or.inr ⟨rfl, fresh, cached, installed.savepoints⟩⟩
    · have inRange : id < pager.nPages ∨ id = 0 := by simpa [cached] using inRange
      rcases readMiss_medium fresh stored with ⟨_, read⟩ | ⟨_, read⟩
      · refine ⟨_, _, getPage_miss cached inRange fresh read, rfl, ?_⟩
        apply Installed.capture
        exact (insertPage_installed (unspill_sound sound id) (unspill_elsewhere pager id)
          (unspill_undisturbed pager id).2.2 cached
          ((congrFun (unspill_undisturbed pager id).2.1 id).trans cached) stored
          (fun _ => fresh) (fun clean => by cases clean)).noteDirty id
      · refine ⟨_, _, getPage_miss cached inRange fresh read, rfl, ?_⟩
        apply Installed.capture
        exact insertPage_installed sound ⟨.refl pager, fun _ _ => rfl, fun _ _ => rfl⟩ rfl
          cached cached stored (fun _ => fresh) (fun _ => stored)

theorem Fetched.quiet (fetched : Fetched pins id page before after) (none : before.savepoints = []) :
    after.savepoints = [] := by
  rcases fetched.savepoints with captured | ⟨_, _, _, same⟩
  · simpa [captureOnFetch, none] using captured
  · exact same.trans none

theorem Backed.seen (backed : pager.Backed id) : ∃ data, pager.view id = some data := by
  unfold view
  cases cached : pager.cache id with
  | some page => exact ⟨page.data, rfl⟩
  | none =>
    rcases backed with ⟨page, found, _⟩ | stored
    · rw [cached] at found
      cases found
    · exact Option.isSome_iff_exists.mp stored

/-- What a write of `data` to page `id` leaves behind. -/
structure Written (id : Nat) (data : Bytes size) (before after : Pager size) : Prop where
  undisturbed : Undisturbed before after
  sound : after.Sound
  here : after.Holds id data
  holds : ∀ other bytes, other ≠ id → before.Holds other bytes → after.Holds other bytes
  backed : ∀ other, before.Backed other → after.Backed other
  quiet : before.savepoints = [] → after.savepoints = []

theorem updatePage_elsewhere (pager : Pager size) (id : Nat)
    (change : Page size → Page size) : Elsewhere id pager (pager.updatePage id change) where
  undisturbed := ⟨rfl, rfl, rfl, rfl, rfl, rfl, rfl, rfl, rfl⟩
  cache := fun other differ => by simp [updatePage, differ]
  medium := fun _ _ => rfl

theorem updatePage_sound (sound : pager.Sound) (id : Nat) (change : Page size → Page size) :
    (pager.updatePage id change).Sound :=
  ⟨sound.grounded, sound.committed, sound.spilled, sound.plain⟩

/-- Changing a cached page into a dirty one, except for the header that lazy write-back
does not read back. -/
theorem updatePage_settled (sound : pager.Sound) (change : Page size → Page size)
    (cached : pager.cache id = some page)
    (settled : ¬ (id = 0 ∧ pager.isNew = true ∧ pager.lazyWriteback = true))
    (dirty : (change page).dirty = true) :
    Written id (change page).data pager (pager.updatePage id change) := by
  have here : (pager.updatePage id change).cache id = some (change page) := by
    simp [updatePage, cached]
  have elsewhere := updatePage_elsewhere pager id change
  refine ⟨elsewhere.undisturbed, updatePage_sound sound id change, ⟨?_, by simp [view, here]⟩,
    fun other bytes differ held => elsewhere.holds differ held, ?_, fun none => none⟩
  · intro found there
    rw [here] at there
    cases there
    exact ⟨fun clean => by simp [dirty] at clean, fun _ => settled⟩
  · intro other held
    by_cases same : other = id
    · subst same
      exact Or.inl ⟨change page, here, dirty⟩
    · exact elsewhere.backed same held

theorem updatePage_written (sound : pager.Sound) (change : Page size → Page size)
    (cached : pager.cache id = some page) (nonzero : id ≠ 0) (dirty : (change page).dirty = true) :
    Written id (change page).data pager (pager.updatePage id change) :=
  updatePage_settled sound change cached (fun bad => nonzero bad.1) dirty

theorem Written.noteDirty {id : Nat} {data : Bytes size} {before after : Pager size}
    (written : Written id data before after) (noted : Nat) :
    Written id data before (after.noteDirty noted) :=
  ⟨written.undisturbed.trans ⟨rfl, rfl, rfl, rfl, rfl, rfl, rfl, rfl, rfl⟩,
    ⟨written.sound.grounded, written.sound.committed, written.sound.spilled,
      written.sound.plain⟩, written.here, written.holds, written.backed, written.quiet⟩

theorem Fetched.written {pins : List Nat} {id : Nat} {page : Page size} {data : Bytes size}
    {before middle after : Pager size} (fetched : Fetched pins id page before middle)
    (written : Written id data middle after) : Written id data before after where
  undisturbed := fetched.undisturbed.trans written.undisturbed
  sound := written.sound
  here := written.here
  holds := fun other bytes differ held =>
    written.holds other bytes differ (fetched.holds other bytes held)
  backed := fun other held => written.backed other (fetched.backed other held)
  quiet := fun none => written.quiet (fetched.quiet none)

theorem writePage_written (sound : pager.Sound) (pins : List Nat) (change : Bytes size → Bytes size)
    (nonzero : id ≠ 0) (inRange : id < pager.nPages) (seen : pager.view id = some data) :
    Succeeds (writePage pins id change) pager (fun _ after =>
      Written id (change data) pager after) := by
  unfold writePage
  rw [Succeeds.bind_iff]
  apply (getPage_fetched sound pins (Or.inr (Or.inl inRange)) seen).mono
  rintro page middle ⟨rfl, fetched⟩
  simp only [Succeeds.bind_iff, Succeeds.modify_iff]
  have written := updatePage_written fetched.sound
    (fun page => { data := change page.data, dirty := true }) fetched.cached nonzero rfl
  exact fetched.written (written.noteDirty id)

end RustSql.Storage.Pager
