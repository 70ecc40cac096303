import RustSql.Storage.FreelistInvariant

/-! Tail truncation: the walk that scrubs the freelist, and what becomes of the chain. -/

namespace RustSql.Storage.Pager

open RustSql.Foundation

/-- The pages a truncation to `bound` keeps. -/
def below (bound id : Nat) : Bool := decide (id < bound)

theorem filter_below (bound : Nat) (entries : List Nat) :
    entries.filter (fun entry => decide (entry < bound)) = entries.filter (below bound) := rfl

variable {pager : Pager size} {data : Bytes size}

/-- Compacting a trunk leaves it with the kept entries. -/
theorem compactKept_page (legal : LegalPageSize size) (sound : pager.Sound) {cur next : Nat}
    {entries : List Nat} (nonzero : cur ≠ 0) (inRange : cur < pager.nPages)
    (held : pager.Holds cur data) (page : TrunkPage data next entries)
    (room : entries.length ≤ trunkCap size) (small : ∀ entry ∈ entries, entry < 2 ^ 32)
    (bound : Nat) :
    Succeeds (compactKept cur entries (entries.filter (below bound))) pager (fun _ after =>
      ∃ bytes, after.Holds cur bytes ∧ TrunkPage bytes next (entries.filter (below bound)) ∧
        Carried [cur] pager after ∧ Undisturbed pager after) := by
  have large : 8 ≤ size := Nat.le_trans (by omega) legal.atLeast
  have few := List.length_filter_le (below bound) entries
  unfold compactKept
  simp only [Succeeds.ite_iff, Succeeds.pure_iff]
  refine ⟨fun _ => ?_, fun same => ?_⟩
  · apply (writePage_written sound [] _ nonzero inRange held.2).mono
    intro _ after written
    refine ⟨_, written.here, ?_, written.carried, written.undisturbed⟩
    exact compactTrunk_trunkPage page (Nat.le_trans few room) large (trunkCap_lt legal)
      (fun entry member => small entry (List.mem_filter.mp member).1)
  · have whole : entries.filter (below bound) = entries :=
      List.filter_eq_self.mpr (List.length_filter_eq_length_iff.mp (not_not.mp same))
    rw [whole]
    have kept : Carried [cur] pager pager :=
      ⟨sound, fun _ _ _ before => before, fun _ before => before, fun none => none⟩
    exact ⟨data, held, page, kept, .refl pager⟩

/-- Linking the last trunk of a chain to `cur` moves the end of the chain there. -/
theorem relink_chain (large : 8 ≤ size) (sound : pager.Sound) {head link cur : Nat}
    {front : List (Trunk Nat)} {last : Trunk Nat} (chain : pager.Chain head (front ++ [last]) link)
    (solid : ∀ trunk ∈ front ++ [last], pager.Solid trunk.item)
    (distinct : ((front ++ [last]).map Trunk.item).Nodup) (inRange : last.item < pager.nPages)
    (small : cur < 2 ^ 32) :
    Succeeds (writePage [] last.item (fun data => data.writeU32 0 cur)) pager (fun _ after =>
      Carried [last.item] pager after ∧ Undisturbed pager after ∧
        after.Chain head (front ++ [last]) cur ∧
        ∀ trunk ∈ front ++ [last], after.Solid trunk.item) := by
  obtain ⟨middle, before, same, nonzero, data, next, seen, page, _⟩ := chain_append.mp chain
  subst same
  apply (writePage_written sound [] _ nonzero inRange seen).mono
  intro _ after written
  have kept := before.keep
    (fun trunk member => solid trunk (List.mem_append_left _ member))
    (fun trunk member data held => written.holds trunk.item data (by
      rw [List.map_append, List.map_singleton] at distinct
      exact (List.nodup_append.mp distinct).2.2 trunk.item (List.mem_map_of_mem member)
        last.item (by simp)) held)
  refine ⟨written.carried, written.undisturbed, chain_append.mpr ⟨last.item, kept.1, rfl,
    nonzero, _, cur, written.here.2, relink_trunkPage page large small, rfl⟩, ?_⟩
  intro trunk member
  rcases List.mem_append.mp member with member | member
  · exact kept.2 trunk member
  · rw [List.mem_singleton.mp member]
    exact written.here.1

/-- The walk between two trunks. The kept ones form a chain of their own; its last link
goes to the next trunk, or to the dropped trunk that followed the last kept one. -/
structure Walking (bound : Nat) (start pager : Pager size) (done todo : List (Trunk Nat))
    (cur : Nat) (walk : TruncateWalk) : Prop where
  carried : Carried ((done ++ todo).map Trunk.item) start pager
  undisturbed : Undisturbed start pager
  rest : pager.Chain cur todo 0
  solid : ∀ trunk ∈ todo, pager.Solid trunk.item
  linked : (Trunk.retain (below bound) done = [] ∧ walk.newHead = 0) ∨
    ∃ front last link, Trunk.retain (below bound) done = front ++ [last] ∧
      walk.newHead ≠ 0 ∧ walk.prevKept = last.item ∧
      pager.Chain walk.newHead (front ++ [last]) link ∧
      (∀ trunk ∈ front ++ [last], pager.Solid trunk.item) ∧
      (if done.getLast?.any (fun trunk => below bound trunk.item) then link = cur
        else bound ≤ link)
  pages : walk.keptPages = (Trunk.items (Trunk.retain (below bound) done)).length
  orphans : walk.orphans = Trunk.orphans (below bound) done

variable {walk : TruncateWalk}

variable {bound : Nat}

/-- Fetching pages does not disturb the walk. -/
theorem Walking.carry {start before after : Pager size} {done todo : List (Trunk Nat)} {cur : Nat}
    (walking : Walking bound start before done todo cur walk) (carried : Carried [] before after)
    (undisturbed : Undisturbed before after) : Walking bound start after done todo cur walk := by
  have holds : ∀ (trunk : Trunk Nat) data, before.Holds trunk.item data →
      after.Holds trunk.item data :=
    fun trunk data => carried.holds trunk.item data (by simp)
  obtain ⟨rest, solidRest⟩ := walking.rest.keep walking.solid (fun trunk _ => holds trunk)
  refine ⟨?_, walking.undisturbed.trans undisturbed, rest, solidRest, ?_, walking.pages,
    walking.orphans⟩
  · apply (walking.carried.trans carried).mono
    simp
  · rcases walking.linked with none | ⟨front, last, link, kept, nonzero, prev, chain, solid,
      back⟩
    · exact Or.inl none
    · obtain ⟨same, solidKept⟩ := chain.keep solid (fun trunk _ => holds trunk)
      exact Or.inr ⟨front, last, link, kept, nonzero, prev, same, solidKept, back⟩

variable {start pager : Pager size}

/-- A dropped trunk: nothing is written, and the last kept trunk goes on naming it. -/
theorem Walking.drop {done rest : List (Trunk Nat)} {trunk : Trunk Nat} {cur next : Nat}
    (walking : Walking bound start pager done (trunk :: rest) cur walk) (same : cur = trunk.item)
    (dropped : bound ≤ trunk.item) (chain : pager.Chain next rest 0) :
    Walking bound start pager (done ++ [trunk]) rest next
      { walk with orphans := walk.orphans ++ trunk.entries.filter (below bound) } := by
  have gone : below bound trunk.item = false := decide_eq_false (by omega)
  refine ⟨?_, walking.undisturbed, chain, fun other member =>
    walking.solid other (List.mem_cons_of_mem _ member), ?_, ?_, ?_⟩
  · simpa using walking.carried
  · rw [Trunk.retain_concat_dropped gone]
    rcases walking.linked with none | ⟨front, last, link, kept, nonzero, prev, chain, solid,
      back⟩
    · exact Or.inl none
    · refine Or.inr ⟨front, last, link, kept, nonzero, prev, chain, solid, ?_⟩
      simp only [List.getLast?_concat, Option.any_some, gone, Bool.false_eq_true, if_false]
      split at back
      · omega
      · exact back
  · rw [Trunk.retain_concat_dropped gone]
    exact walking.pages
  · rw [Trunk.orphans_concat_dropped gone, walking.orphans]

/-- The chain of kept trunks, once its end is linked to the trunk that comes next. -/
theorem Walking.relink {done todo : List (Trunk Nat)} {cur : Nat} (large : 8 ≤ size)
    (walking : Walking bound start pager done todo cur walk)
    (distinct : ((done ++ todo).map Trunk.item).Nodup)
    (inRange : ∀ trunk ∈ done, trunk.item < pager.nPages) (small : cur < 2 ^ 32) :
    Succeeds (relinkKept walk cur) pager (fun _ after =>
      Carried (done.map Trunk.item) pager after ∧ Undisturbed pager after ∧
        after.Chain (if walk.newHead = 0 then cur else walk.newHead)
          (Trunk.retain (below bound) done) cur ∧
        ∀ trunk ∈ Trunk.retain (below bound) done, after.Solid trunk.item) := by
  unfold relinkKept
  simp only [Succeeds.ite_iff, Succeeds.pure_iff]
  rcases walking.linked with ⟨empty, zero⟩ | ⟨front, last, link, kept, nonzero, prev, chain,
    solid, _⟩
  · refine ⟨fun nonzero => absurd zero nonzero, fun _ => ?_⟩
    rw [empty, if_pos zero]
    exact ⟨⟨walking.carried.sound, fun _ _ _ held => held, fun _ held => held, fun none => none⟩,
      .refl pager, rfl, by simp⟩
  · refine ⟨fun _ => ?_, fun zero => absurd nonzero zero⟩
    have sublist := Trunk.map_item_retain_sublist (below bound) done
    rw [kept] at sublist
    have listed : last.item ∈ done.map Trunk.item := sublist.subset (by simp)
    obtain ⟨member, found, same⟩ := List.mem_map.mp listed
    rw [prev, if_neg nonzero, kept]
    apply (relink_chain large walking.carried.sound chain solid ?_
      (same ▸ inRange member found) small).mono
    · rintro _ after ⟨carried, undisturbed, linked, solidKept⟩
      exact ⟨carried.mono (by simpa using listed), undisturbed, linked, solidKept⟩
    · rw [List.map_append] at distinct
      exact sublist.nodup (List.nodup_append.mp distinct).1

/-- A kept trunk, first step: it loses the entries that go. -/
theorem Walking.compact {done rest : List (Trunk Nat)} {trunk : Trunk Nat} {cur next : Nat}
    (legal : LegalPageSize size) (walking : Walking bound start pager done (trunk :: rest) cur walk)
    (distinct : ((done ++ trunk :: rest).map Trunk.item).Nodup) (same : cur = trunk.item)
    (nonzero : cur ≠ 0) (inRange : cur < pager.nPages) (seen : pager.view cur = some data)
    (page : TrunkPage data next trunk.entries) (chain : pager.Chain next rest 0)
    (room : trunk.entries.length ≤ trunkCap size) (small : ∀ entry ∈ trunk.entries, entry < 2 ^ 32) :
    Succeeds (compactKept cur trunk.entries (trunk.entries.filter (below bound))) pager
      (fun _ after => Walking bound start after done
          ({ trunk with entries := trunk.entries.filter (below bound) } :: rest) cur walk ∧
        Undisturbed pager after ∧ ∃ bytes, after.Holds cur bytes ∧
          TrunkPage bytes next (trunk.entries.filter (below bound)) ∧
          after.Chain next rest 0) := by
  subst same
  rw [List.map_append, List.map_cons] at distinct
  obtain ⟨_, later, apart⟩ := List.nodup_append.mp distinct
  apply (compactKept_page legal walking.carried.sound nonzero inRange
    ⟨walking.solid trunk List.mem_cons_self, seen⟩ page room small bound).mono
  rintro _ after ⟨bytes, held, compacted, carried, undisturbed⟩
  obtain ⟨linked, solidRest⟩ := chain.keep
    (fun other member => walking.solid other (List.mem_cons_of_mem _ member))
    (fun other member bytes => carried.holds other.item bytes (by
      intro equal
      have listed := List.mem_map_of_mem (f := Trunk.item) member
      exact (List.nodup_cons.mp later).1 (List.mem_singleton.mp equal ▸ listed)))
  refine ⟨⟨?_, walking.undisturbed.trans undisturbed,
    ⟨rfl, nonzero, bytes, next, held.2, compacted, linked⟩, ?_, ?_, walking.pages,
    walking.orphans⟩, undisturbed, bytes, held, compacted, linked⟩
  · apply (walking.carried.trans carried).mono
    intro id member
    rcases List.mem_append.mp member with member | member
    · simpa using member
    · simp [List.mem_singleton.mp member]
  · intro other member
    rcases List.mem_cons.mp member with rfl | member
    · exact held.1
    · exact solidRest other member
  · rcases walking.linked with none | ⟨front, last, link, kept, newHead, prev, before, solid,
      back⟩
    · exact Or.inl none
    · have sublist := Trunk.map_item_retain_sublist (below bound) done
      rw [kept] at sublist
      obtain ⟨after, solidKept⟩ := before.keep solid (fun other member bytes =>
        carried.holds other.item bytes (by
          intro equal
          exact apart other.item (sublist.subset (List.mem_map_of_mem member)) trunk.item
            List.mem_cons_self (List.mem_singleton.mp equal)))
      exact Or.inr ⟨front, last, link, kept, newHead, prev, after, solidKept, back⟩

/-- A kept trunk, second step: the chain of kept trunks now ends at it. -/
theorem Walking.keep {bound : Nat} {start pager : Pager size}
    {done rest : List (Trunk Nat)} {trunk : Trunk Nat} {cur next : Nat} {walk : TruncateWalk}
    {data : Bytes size} (large : 8 ≤ size)
    (walking : Walking bound start pager done
      ({ trunk with entries := trunk.entries.filter (below bound) } :: rest) cur walk)
    (distinct : ((done ++ trunk :: rest).map Trunk.item).Nodup)
    (inRange : ∀ trunk ∈ done, trunk.item < pager.nPages) (small : pager.nPages < 2 ^ 32)
    (same : cur = trunk.item) (nonzero : cur ≠ 0) (kept : trunk.item < bound)
    (here : cur < pager.nPages) (held : pager.Holds cur data)
    (page : TrunkPage data next (trunk.entries.filter (below bound)))
    (chain : pager.Chain next rest 0)
    (few : (Trunk.items (Trunk.retain (below bound) (done ++ [trunk]))).length < 2 ^ 32) :
    Succeeds (relinkKept walk cur) pager (fun _ after =>
      Walking bound start after (done ++ [trunk]) rest next
        (walk.keep cur (trunk.entries.filter (below bound))) ∧ Undisturbed pager after) := by
  subst same
  have stays : below bound trunk.item = true := decide_eq_true kept
  have split := distinct
  rw [List.map_append, List.map_cons] at split
  obtain ⟨_, _, apart⟩ := List.nodup_append.mp split
  apply (walking.relink large (by simpa using distinct) inRange (Nat.lt_trans here small)).mono
  rintro _ after ⟨carried, undisturbed, linked, solidKept⟩
  have holds : ∀ id ∈ trunk.item :: rest.map Trunk.item, ∀ bytes,
      pager.Holds id bytes → after.Holds id bytes :=
    fun id member bytes => carried.holds id bytes (fun listed => apart id listed id member rfl)
  have stillHeld := holds trunk.item List.mem_cons_self data held
  obtain ⟨later, solidRest⟩ := chain.keep
    (fun other member => walking.solid other (List.mem_cons_of_mem _ member))
    (fun other member => holds other.item
      (List.mem_cons_of_mem _ (List.mem_map_of_mem member)))
  rw [Trunk.retain_concat_kept stays] at few
  refine ⟨⟨?_, walking.undisturbed.trans undisturbed, later, solidRest, Or.inr ?_, ?_, ?_⟩,
    undisturbed⟩
  · apply (walking.carried.trans carried).mono
    intro id member
    rcases List.mem_append.mp member with member | member
    · simpa using member
    · rw [List.append_assoc, List.map_append]
      exact List.mem_append_left _ member
  · refine ⟨Trunk.retain (below bound) done, _, next, Trunk.retain_concat_kept stays done, ?_,
      rfl, chain_append.mpr ⟨trunk.item, linked, rfl, nonzero, data, next, stillHeld.2, page,
        rfl⟩, ?_, ?_⟩
    · unfold TruncateWalk.keep
      split
      · exact nonzero
      · assumption
    · intro other member
      rcases List.mem_append.mp member with member | member
      · exact solidKept other member
      · rw [List.mem_singleton.mp member]
        exact stillHeld.1
    · simp [stays]
  · rw [Trunk.retain_concat_kept stays]
    unfold TruncateWalk.keep
    simp only [Trunk.items_append, Trunk.items_cons, Trunk.items_nil, List.append_nil,
      List.length_append, List.length_cons] at few ⊢
    rw [walking.pages, Nat.mod_eq_of_lt (by omega)]
    omega
  · rw [Trunk.orphans_concat_kept stays]
    exact walking.orphans

theorem Freelist.length_le {pager : Pager size} {trunks : List (Trunk Nat)}
    (freelist : pager.Freelist trunks) : (Trunk.items trunks).length ≤ pager.nPages := by
  have inside : Trunk.items trunks ⊆ List.range pager.nPages := fun id member =>
    List.mem_range.mpr (freelist.inRange id member).2
  simpa using (List.subperm_of_subset freelist.distinct inside).length_le

theorem length_retain_le (keep : Nat → Bool) (trunks : List (Trunk Nat)) :
    (Trunk.items (Trunk.retain keep trunks)).length ≤ (Trunk.items trunks).length := by
  have same := (Trunk.items_retain keep trunks).length_eq
  have fewer := List.length_filter_le keep (Trunk.items trunks)
  rw [List.length_append] at same
  omega

variable {trunks : List (Trunk Nat)}

/-- The whole walk, given enough steps for the trunks that are left. -/
theorem truncateWalk_walking {start : Pager size} (legal : LegalPageSize size)
    (inv : start.FreelistInv trunks) (todo : List (Trunk Nat)) {done : List (Trunk Nat)}
    {cur steps : Nat} (whole : trunks = done ++ todo) (enough : todo.length ≤ steps)
    (walking : Walking bound start pager done todo cur walk) :
    Succeeds (truncateWalk bound steps cur walk) pager (fun walk after =>
      Walking bound start after trunks [] 0 walk) := by
  have large : 8 ≤ size := Nat.le_trans (by omega) legal.atLeast
  induction todo generalizing pager done cur steps walk with
  | nil =>
    have last : cur = 0 := walking.rest
    rw [List.append_nil] at whole
    subst last whole
    cases steps with
    | zero =>
      rw [truncateWalk, Succeeds.pure_iff]
      exact walking
    | succ steps =>
      rw [truncateWalk, if_pos rfl, Succeeds.pure_iff]
      exact walking
  | cons trunk rest ih =>
    obtain ⟨steps, rfl⟩ : ∃ fewer, steps = fewer + 1 :=
      ⟨steps - 1, by simp only [List.length_cons] at enough; omega⟩
    simp only [List.length_cons] at enough
    obtain ⟨same, nonzero, data, next, seen, page, chain⟩ := walking.rest
    have nPages := walking.undisturbed.nPages
    have member : trunk ∈ trunks := by simp [whole]
    have room := inv.fits trunk member
    have inRange := (inv.freelist.inRange trunk.item (Trunk.item_mem_items member)).2
    have small : ∀ entry ∈ trunk.entries, entry < 2 ^ 32 := fun entry listed =>
      Nat.lt_trans (inv.freelist.inRange entry (Trunk.entry_mem_items member listed)).2
        inv.small
    have distinct : ((done ++ trunk :: rest).map Trunk.item).Nodup :=
      whole ▸ (Trunk.map_item_sublist trunks).nodup inv.freelist.distinct
    have total : (Trunk.items (Trunk.retain (below bound) (done ++ [trunk]))).length <
        2 ^ 32 := by
      have fewer := length_retain_le (below bound) (done ++ [trunk])
      have all := inv.freelist.length_le
      have := inv.small
      rw [whole, List.append_cons, Trunk.items_append, List.length_append] at all
      omega
    rw [truncateWalk, if_neg nonzero, Succeeds.bind_iff]
    apply (getPage_fetched walking.carried.sound [] (Or.inr (Or.inl (by
      rw [nPages, same]; exact inRange))) seen).mono
    rintro fetchedPage middle ⟨read, fetched⟩
    have fetchedWalk := walking.carry fetched.carried fetched.undisturbed
    have held : middle.Holds cur data := fetched.holds cur data
      ⟨same ▸ walking.solid trunk List.mem_cons_self, seen⟩
    obtain ⟨later, _⟩ := chain.keep
      (fun other member => walking.solid other (List.mem_cons_of_mem _ member))
      (fun other _ data => fetched.holds other.item data)
    rw [read, trunkEntries_eq page room, page.next, Succeeds.ite_iff, filter_below]
    refine ⟨fun dropped => ?_, fun kept => ?_⟩
    · exact ih (whole.trans (by simp)) (by omega) (fetchedWalk.drop same (same ▸ dropped) later)
    · rw [Succeeds.bind_iff]
      apply (fetchedWalk.compact legal distinct same nonzero (by
        rw [fetchedWalk.undisturbed.nPages, same]; exact inRange) held.2 page later room
        small).mono
      rintro _ compacted ⟨compactWalk, undisturbed, bytes, stillHeld, newPage, rest⟩
      rw [Succeeds.bind_iff]
      have pages := compactWalk.undisturbed.nPages
      apply (compactWalk.keep large distinct (by
        intro other earlier
        rw [pages]
        exact (inv.freelist.inRange other.item (Trunk.item_mem_items (by
          simp [whole, earlier]))).2) (by rw [pages]; exact inv.small) same nonzero (by omega)
        (by rw [pages, same]; exact inRange) stillHeld newPage rest total).mono
      rintro _ linked ⟨keptWalk, _⟩
      exact ih (whole.trans (by simp)) (by omega) keptWalk

theorem Walking.begin (bound : Nat) (inv : pager.FreelistInv trunks) :
    Walking bound pager pager [] trunks pager.freelistHead
      { newHead := 0, prevKept := 0, keptPages := 0, orphans := [] } :=
  ⟨⟨inv.sound, fun _ _ _ held => held, fun _ held => held, fun none => none⟩, .refl pager,
    inv.freelist.chain, inv.solid, Or.inl ⟨rfl, rfl⟩, rfl, rfl⟩

/-- The cycle guard of the walk is no bound on a chain that has none. -/
theorem steps_enough (inv : pager.FreelistInv trunks)
    (small : pager.freelistCount + pager.nPages < 2 ^ 32) :
    trunks.length ≤ max ((pager.freelistCount + pager.nPages) % 2 ^ 32) 1 := by
  have fewer := (Trunk.map_item_sublist trunks).length_le
  have count := inv.freelist.count
  rw [List.length_map] at fewer
  rw [Nat.mod_eq_of_lt small]
  omega

/-- After the walk the chain is right again if the last trunk stays, or if none does. -/
def TailLinked (bound : Nat) (trunks : List (Trunk Nat)) : Prop :=
  (∀ trunk ∈ trunks, bound ≤ trunk.item) ∨
    trunks.getLast?.any (fun trunk => below bound trunk.item)

theorem Walking.finish (inv : start.FreelistInv trunks)
    (walking : Walking bound start pager trunks [] 0 walk) (tail : TailLinked bound trunks) :
    ((pager.setFreelistHead walk.newHead).setFreelistCount walk.keptPages).FreelistInv
      (Trunk.retain (below bound) trunks) := by
  have headSame := setFreelistHead_same walk.newHead pager
  have headCarried := headSame.carried walking.carried.sound
  have carried := walking.carried.trans (headCarried.trans
    ((setFreelistCount_same walk.keptPages (pager.setFreelistHead walk.newHead)).carried
      headCarried.sound))
  have chain : pager.Chain walk.newHead (Trunk.retain (below bound) trunks) 0 ∧
      ∀ trunk ∈ Trunk.retain (below bound) trunks, pager.Solid trunk.item := by
    rcases walking.linked with ⟨empty, zero⟩ | ⟨front, last, link, kept, _, _, chain, solid,
      back⟩
    · rw [empty, zero]
      exact ⟨rfl, by simp⟩
    · rcases tail with gone | stays
      · have none : Trunk.retain (below bound) trunks = [] := by
          unfold Trunk.retain
          rw [List.map_eq_nil_iff, List.filter_eq_nil_iff]
          intro trunk member
          have := gone trunk member
          simp only [below, decide_eq_true_eq]
          omega
        simp [none] at kept
      · rw [if_pos stays] at back
        rw [kept, ← back]
        exact ⟨chain, solid⟩
  obtain ⟨linked, solid⟩ := chain.1.keep chain.2 (fun trunk _ data =>
    (headCarried.trans ((setFreelistCount_same walk.keptPages
      (pager.setFreelistHead walk.newHead)).carried headCarried.sound)).holds trunk.item data
        (by simp))
  have perm := Trunk.items_retain (below bound) trunks
  have distinct := perm.nodup_iff.mpr (inv.freelist.distinct.filter _)
  refine inv.of_carried carried walking.undisturbed.nPages walking.undisturbed.minBase
    ⟨linked, (List.nodup_append.mp distinct).2.1, ?_, walking.pages⟩ solid
    (Trunk.fits_retain inv.fits _)
  intro id member
  have listed := perm.mem_iff.mp (List.mem_append_right _ member)
  rw [show ((pager.setFreelistHead walk.newHead).setFreelistCount walk.keptPages).nPages =
    start.nPages from walking.undisturbed.nPages]
  exact inv.freelist.inRange id (List.mem_filter.mp listed).1

/-- The orphans go back on the freelist one by one. -/
theorem freeOrphans_inv (legal : LegalPageSize size) (orphans : List Nat)
    (inv : pager.FreelistInv trunks) (distinct : (orphans ++ Trunk.items trunks).Nodup)
    (inRange : ∀ id ∈ orphans, 1 ≤ id ∧ id < pager.nPages) :
    Succeeds (orphans.forM freePage) pager (fun _ after =>
      after.FreelistInv (Trunk.pushAll (trunkCap size) orphans trunks) ∧
        after.nPages = pager.nPages) := by
  induction orphans generalizing pager trunks with
  | nil =>
    rw [List.forM, Succeeds.pure_iff]
    exact ⟨inv, rfl⟩
  | cons id rest ih =>
    have here := inRange id List.mem_cons_self
    rw [List.cons_append, List.nodup_cons] at distinct
    rw [List.forM, Succeeds.bind_iff]
    apply (freePage_inv legal inv here.1 here.2 (fun member =>
      distinct.1 (List.mem_append_right _ member))).mono
    rintro _ middle ⟨pushed, nPages⟩
    have perm : (rest ++ Trunk.items (Trunk.push (trunkCap size) id trunks)).Perm
        (id :: (rest ++ Trunk.items trunks)) :=
      ((Trunk.items_push _ _ _).append_left rest).trans List.perm_middle
    apply (ih pushed (perm.nodup_iff.mpr (List.nodup_cons.mpr distinct)) (by
      intro other member
      rw [nPages]
      exact inRange other (List.mem_cons_of_mem _ member))).mono
    rintro _ after ⟨final, same⟩
    exact ⟨final, same.trans nPages⟩

variable {bound id : Nat}

theorem getElem?_setLen {store : List (Bytes size)} (low : id < bound)
    (found : store[id]? = some data) : (setLen store bound)[id]? = some data := by
  unfold setLen
  split
  · rw [List.getElem?_take_of_lt low, found]
  · rw [List.getElem?_append_left (List.getElem?_eq_some_iff.mp found).1, found]

theorem committedFrame_dropTail (pager : Pager size) (low : id < bound) :
    (pager.dropTail bound).committedFrame id = pager.committedFrame id := by
  unfold committedFrame dropTail
  cases pager.wal with
  | none => rfl
  | some state => simp [AssocMap.lookup_retain, low]

theorem spilledFrame_dropTail (pager : Pager size) (bound id : Nat) :
    (pager.dropTail bound).spilledFrame id = pager.spilledFrame id := by
  unfold spilledFrame dropTail
  cases pager.wal <;> rfl

theorem readFrame_dropTail (pager : Pager size) (bound index : Nat) :
    (pager.dropTail bound).readFrame index = pager.readFrame index := by
  unfold readFrame dropTail
  cases pager.wal <;> rfl

/-- What the media have of a page below the new end stays. -/
theorem medium_dropTail (low : id < bound) (found : pager.medium id = some data) :
    (pager.dropTail bound).medium id = some data := by
  unfold medium at found ⊢
  rw [spilledFrame_dropTail, committedFrame_dropTail pager low]
  simp only [readFrame_dropTail]
  change (if id = 0 ∧ pager.isNew = true then _ else _) = _
  split at found
  · next new => rw [if_pos new, ← found]
  · next old =>
      rw [if_neg old]
      cases spilled : pager.spilledFrame id with
      | some index => simpa only [spilled] using found
      | none =>
        simp only [spilled] at found
        rw [show (pager.dropTail bound).deleteSpill id = pager.deleteSpill id from rfl]
        cases kept : pager.deleteSpill id with
        | some bytes => simpa only [kept] using found
        | none =>
          simp only [kept] at found
          cases committed : pager.committedFrame id with
          | some index => simpa only [committed] using found
          | none =>
            simp only [committed] at found
            change (if pager.isMemory = true then setLen pager.store bound
              else pager.store)[id]? = _
            split
            · exact getElem?_setLen low found
            · exact found

theorem cache_dropTail (pager : Pager size) (low : id < bound) :
    (pager.dropTail bound).cache id = pager.cache id :=
  if_neg (fun high => absurd high.1 (Nat.not_le.mpr low))

theorem holds_dropTail (low : id < bound) (held : pager.Holds id data) :
    (pager.dropTail bound).Holds id data := by
  refine ⟨?_, ?_⟩
  · intro page cached
    rw [cache_dropTail pager low] at cached
    obtain ⟨clean, dirty⟩ := held.1 page cached
    exact ⟨fun isClean => medium_dropTail low (clean isClean), dirty⟩
  · have seen := held.2
    unfold view at seen ⊢
    rw [cache_dropTail pager low]
    cases cached : pager.cache id with
    | some page => simpa only [cached] using seen
    | none =>
      simp only [cached] at seen
      exact medium_dropTail low seen

theorem backed_dropTail (low : id < bound) (backed : pager.Backed id) :
    (pager.dropTail bound).Backed id := by
  rcases backed with ⟨page, cached, dirty⟩ | stored
  · exact Or.inl ⟨page, (cache_dropTail pager low).trans cached, dirty⟩
  · obtain ⟨data, found⟩ := Option.isSome_iff_exists.mp stored
    exact Or.inr (Option.isSome_iff_exists.mpr ⟨data, medium_dropTail low found⟩)

theorem dropTail_sound (sound : pager.Sound) (bound : Nat) : (pager.dropTail bound).Sound := by
  have attached : ∀ state, (pager.dropTail bound).wal = some state → ∃ before,
      pager.wal = some before ∧ state = { before with
        map := AssocMap.retain (fun id => decide (id < bound)) before.map } := by
    intro state found
    obtain ⟨before, here, same⟩ := Option.map_eq_some_iff.mp found
    exact ⟨before, here, same.symm⟩
  refine ⟨?_, ?_, ?_, ?_⟩
  · intro state found
    obtain ⟨before, here, rfl⟩ := attached state found
    exact sound.grounded before here
  · intro state found id index listed
    obtain ⟨before, here, rfl⟩ := attached state found
    simp only [AssocMap.lookup_retain] at listed
    split at listed
    · exact sound.committed before here id index listed
    · cases listed
  · intro state found
    obtain ⟨before, here, rfl⟩ := attached state found
    exact sound.spilled before here
  · intro lazy
    obtain ⟨none, spill⟩ := sound.plain lazy
    refine ⟨?_, spill⟩
    simp [dropTail, none]

theorem dropTail_inv (inv : pager.FreelistInv trunks) (shorter : bound ≤ pager.nPages)
    (low : ∀ id ∈ Trunk.items trunks, id < bound) : (pager.dropTail bound).FreelistInv trunks := by
  have holds : ∀ trunk ∈ trunks, ∀ data, pager.Holds trunk.item data →
      (pager.dropTail bound).Holds trunk.item data :=
    fun trunk member data => holds_dropTail (low trunk.item (Trunk.item_mem_items member))
  obtain ⟨chain, solid⟩ := inv.freelist.chain.keep inv.solid holds
  exact ⟨⟨chain, inv.freelist.distinct, fun id member =>
      ⟨(inv.freelist.inRange id member).1, low id member⟩, inv.freelist.count⟩,
    dropTail_sound inv.sound bound, inv.quiet, inv.floor, Nat.lt_of_le_of_lt shorter inv.small,
    fun id positive high => backed_dropTail high
      (inv.backed id positive (Nat.lt_of_lt_of_le high shorter)), solid, inv.fits⟩

theorem tailBound_le (freed : List Nat) (n : Nat) : tailBound freed n ≤ n := by
  fun_induction tailBound freed n with
  | case1 => exact Nat.le_refl 0
  | case2 => exact Nat.le_refl 1
  | case3 bound member ih => omega
  | case4 bound absent => exact Nat.le_refl _

theorem tailBound_pos (freed : List Nat) {n : Nat} (positive : 1 ≤ n) :
    1 ≤ tailBound freed n := by
  fun_induction tailBound freed n with
  | case1 => omega
  | case2 => exact Nat.le_refl 1
  | case3 bound member ih => exact ih (by omega)
  | case4 bound absent => omega

theorem tailBound_freed (freed : List Nat) (n : Nat) {id : Nat} (high : tailBound freed n ≤ id)
    (low : id < n) : id ∈ freed := by
  fun_induction tailBound freed n with
  | case1 => omega
  | case2 => omega
  | case3 bound member ih =>
    by_cases top : id = bound + 1
    · exact top ▸ member
    · exact ih high (by omega)
  | case4 bound absent => omega

/-- What `truncate_tail` does to the freelist: exactly the free pages below the new end
stay, and every page it cuts off was free. -/
theorem truncateTail_inv (legal : LegalPageSize size) (freed : List Nat)
    (inv : pager.FreelistInv trunks) (allFree : ∀ id ∈ freed, id ∈ Trunk.items trunks)
    (tail : tailBound freed pager.nPages = pager.nPages ∨
      TailLinked (tailBound freed pager.nPages) trunks)
    (small : pager.freelistCount + pager.nPages < 2 ^ 32) :
    Succeeds (truncateTail freed) pager (fun _ after => ∃ later, after.FreelistInv later ∧
      after.nPages ≤ pager.nPages ∧ (1 ≤ pager.nPages → 1 ≤ after.nPages) ∧
      (∀ id, after.nPages ≤ id → id < pager.nPages → id ∈ Trunk.items trunks) ∧
      (Trunk.items later).Perm ((Trunk.items trunks).filter (below after.nPages))) := by
  have unchanged : ∃ later, pager.FreelistInv later ∧ pager.nPages ≤ pager.nPages ∧
      (1 ≤ pager.nPages → 1 ≤ pager.nPages) ∧
      (∀ id, pager.nPages ≤ id → id < pager.nPages → id ∈ Trunk.items trunks) ∧
      (Trunk.items later).Perm ((Trunk.items trunks).filter (below pager.nPages)) := by
    refine ⟨trunks, inv, Nat.le_refl _, fun positive => positive,
      fun id high low => absurd low (Nat.not_lt.mpr high), ?_⟩
    rw [List.filter_eq_self.mpr]
    intro id member
    exact decide_eq_true (inv.freelist.inRange id member).2
  unfold truncateTail
  simp only [Succeeds.bind_iff, Succeeds.get_iff, Succeeds.ite_iff, Succeeds.modify_iff,
    Succeeds.pure_iff, inv.floor, Option.getD_none, Nat.max_zero]
  refine ⟨fun _ => unchanged, fun _ => ⟨fun _ => unchanged, fun _ => ⟨fun _ => unchanged,
    fun cut => ?_⟩⟩⟩
  have shorter := tailBound_le freed pager.nPages
  have positive : 1 ≤ pager.nPages → 1 ≤ tailBound freed pager.nPages := tailBound_pos freed
  have cutFree : ∀ id, tailBound freed pager.nPages ≤ id → id < pager.nPages →
      id ∈ Trunk.items trunks :=
    fun id high low => allFree id (tailBound_freed freed pager.nPages high low)
  generalize tailBound freed pager.nPages = bound at *
  have linked := tail.resolve_left cut
  apply (truncateWalk_walking legal inv trunks rfl (steps_enough inv small)
    (Walking.begin bound inv)).mono
  intro walk middle walking
  have scrubbed := walking.finish inv linked
  have perm := Trunk.items_retain (below bound) trunks
  rw [walking.orphans]
  apply (freeOrphans_inv legal (Trunk.orphans (below bound) trunks) scrubbed
    (perm.nodup_iff.mpr (inv.freelist.distinct.filter _)) ?_).mono
  · rintro _ after ⟨final, nPages⟩
    have pages : after.nPages = pager.nPages := nPages.trans walking.undisturbed.nPages
    have same := (Trunk.items_pushAll (trunkCap size) (Trunk.orphans (below bound) trunks)
      (Trunk.retain (below bound) trunks)).trans perm
    refine ⟨_, dropTail_inv final (pages ▸ shorter) ?_, shorter, positive, cutFree, same⟩
    intro id member
    exact of_decide_eq_true (List.mem_filter.mp (same.mem_iff.mp member)).2
  · intro id member
    have listed := perm.mem_iff.mp (List.mem_append_left _ member)
    have range := inv.freelist.inRange id (List.mem_filter.mp listed).1
    exact ⟨range.1, Nat.lt_of_lt_of_eq range.2 walking.undisturbed.nPages.symm⟩

/-- When a trunk stays but the last one goes, the chain is left ending past the new end of
the file: the last kept trunk still names a page that was cut off. -/
theorem truncateTail_breaks (legal : LegalPageSize size) (freed : List Nat)
    (inv : pager.FreelistInv trunks) (some : freed ≠ []) (header : 1 ≤ pager.nPages)
    (cut : tailBound freed pager.nPages ≠ pager.nPages)
    (unlinked : ¬ TailLinked (tailBound freed pager.nPages) trunks)
    (none : Trunk.orphans (below (tailBound freed pager.nPages)) trunks = [])
    (small : pager.freelistCount + pager.nPages < 2 ^ 32) :
    Succeeds (truncateTail freed) pager (fun _ after => ∀ later, ¬ after.Freelist later) := by
  have shorter := tailBound_le freed pager.nPages
  have positive := tailBound_pos freed header
  unfold truncateTail
  simp only [Succeeds.bind_iff, Succeeds.get_iff, Succeeds.ite_iff, Succeeds.modify_iff,
    Succeeds.pure_iff, inv.floor, Option.getD_none, Nat.max_zero]
  refine ⟨fun empty => absurd (List.isEmpty_iff.mp empty) some, fun _ => ⟨fun _ => by omega,
    fun _ => ⟨fun same => absurd same cut, fun _ => ?_⟩⟩⟩
  generalize tailBound freed pager.nPages = bound at *
  apply (truncateWalk_walking legal inv trunks rfl (steps_enough inv small)
    (Walking.begin bound inv)).mono
  intro walk middle walking
  rw [walking.orphans, none, List.forM, Succeeds.pure_iff]
  intro later freelist
  rcases walking.linked with ⟨empty, _⟩ | ⟨front, last, link, kept, _, _, chain, solid, back⟩
  · refine unlinked (Or.inl ?_)
    intro trunk member
    by_contra low
    have listed : trunk ∈ trunks.filter (fun trunk => below bound trunk.item) :=
      List.mem_filter.mpr ⟨member, decide_eq_true (by omega)⟩
    unfold Trunk.retain at empty
    rw [List.map_eq_nil_iff] at empty
    simp [empty] at listed
  · rw [if_neg (fun stays => unlinked (Or.inr stays))] at back
    have low : ∀ trunk ∈ front ++ [last], trunk.item < bound := by
      intro trunk member
      rw [← kept] at member
      obtain ⟨before, found, rfl⟩ := List.mem_map.mp member
      exact of_decide_eq_true (List.mem_filter.mp found).2
    obtain ⟨cutChain, _⟩ := chain.keep solid (fun trunk member data held =>
      holds_dropTail (low trunk member) ((show ((middle.setFreelistHead
        walk.newHead).setFreelistCount walk.keptPages).Holds trunk.item data from held)))
    have passed := cutChain.reaches freelist.chain (by omega)
    have range := freelist.inRange link ((Trunk.map_item_sublist later).subset passed)
    exact absurd range.2 (Nat.not_lt.mpr back)

end RustSql.Storage.Pager
