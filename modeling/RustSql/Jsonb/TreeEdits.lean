import RustSql.Jsonb.BlobEdits

/-! What an edit of a blob in place does to its tree, by the steps of the path, and what a
located span holds. -/

namespace RustSql.Jsonb

open RustSql.Foundation RustSql.Types

section Slots

variable {before behind : List Layout} {item : Layout} {pairsBefore pairsBehind : List (Layout × Layout)}
  {key value : Layout}

theorem itemTrees_get : (itemTrees (before ++ item :: behind))[before.length]? = some item.tree := by
  rw [itemTrees_eq]
  simp

theorem itemTrees_set (t : Jb) : (itemTrees (before ++ item :: behind)).set before.length t =
    itemTrees before ++ t :: itemTrees behind := by
  simp only [itemTrees_eq, List.map_append, List.map_cons]
  rw [← List.length_map (f := Layout.tree), List.set_append_right _ _ (Nat.le_refl _), Nat.sub_self]
  rfl

theorem itemTrees_erase : (itemTrees (before ++ item :: behind)).eraseIdx before.length =
    itemTrees (before ++ behind) := by
  simp only [itemTrees_eq, List.map_append, List.map_cons]
  rw [← List.length_map (f := Layout.tree), List.eraseIdx_append_of_length_le (Nat.le_refl _), Nat.sub_self]
  rfl

theorem length_itemTrees (items : List Layout) : (itemTrees items).length = items.length := by
  rw [itemTrees_eq, List.length_map]

theorem pairTrees_get : (pairTrees (pairsBefore ++ (key, value) :: pairsBehind))[pairsBefore.length]? =
    some (key.tree, value.tree) := by
  rw [pairTrees_eq]
  simp

theorem pairTrees_set (t : Jb) :
    (pairTrees (pairsBefore ++ (key, value) :: pairsBehind)).set pairsBefore.length (key.tree, t) =
      pairTrees pairsBefore ++ (key.tree, t) :: pairTrees pairsBehind := by
  simp only [pairTrees_eq, List.map_append, List.map_cons]
  rw [← List.length_map (f := fun x : Layout × Layout => (x.1.tree, x.2.tree)),
    List.set_append_right _ _ (Nat.le_refl _), Nat.sub_self]
  rfl

theorem pairTrees_erase :
    (pairTrees (pairsBefore ++ (key, value) :: pairsBehind)).eraseIdx pairsBefore.length =
      pairTrees (pairsBefore ++ pairsBehind) := by
  simp only [pairTrees_eq, List.map_append, List.map_cons]
  rw [← List.length_map (f := fun x : Layout × Layout => (x.1.tree, x.2.tree)),
    List.eraseIdx_append_of_length_le (Nat.le_refl _), Nat.sub_self]
  rfl

end Slots

theorem bind_ok_map {α β : Type} (x : Checked Unit α) (f : α → β) :
    (x >>= fun a => .ok (f a)) = x.map f := by
  cases x <;> rfl

theorem created_storable {val : Layout} (valid : val.Fits) {create : Bool} {segs : List PathSeg} {sub : Jb}
    (made : (if create = true then createSub val.tree segs else none) = some sub) : sub.Storable := by
  split at made
  · exact createSub_storable (tree_storable val valid) made
  · cases made

section Arrays

variable {seg : PathSeg} (noKey : ∀ k, seg ≠ .key k)
include noKey

variable {segs : List PathSeg}

theorem jbSetAt_array {val : Jb} {create insertOnly : Bool} {items : List Jb} :
    jbSetAt val create insertOnly (.array items) (seg :: segs) =
      if 0 ≤ seg.slot items.length ∧ seg.slot items.length < items.length then
        match items[(seg.slot items.length).toNat]? with
        | some child => do
          let child ← jbSetAt val create insertOnly child segs
          .ok (.array (items.set (seg.slot items.length).toNat child))
        | none => .error .slice
      else
        match if create ∧ seg.slot items.length = items.length then createSub val segs else none with
        | some child => .ok (.array (items ++ [child]))
        | none => .ok (.array items) := by
  cases seg with
  | key k => exact absurd rfl (noKey k)
  | index i => rfl
  | append => rfl

theorem jbResolve_array {items : List Jb} :
    jbResolve (.array items) (seg :: segs) =
      if seg = .append then .ok none
      else if seg.slot items.length < 0 ∨ items.length ≤ seg.slot items.length then .ok none
      else
        match items[(seg.slot items.length).toNat]? with
        | some item => jbResolve item segs
        | none => .error .slice := by
  cases seg with
  | key k => exact absurd rfl (noKey k)
  | index i =>
    rw [if_neg (by simp)]
    rfl
  | append => rfl

theorem jbRemoveAt_array {items : List Jb} :
    jbRemoveAt (.array items) (seg :: segs) =
      if seg = .append then .ok (some (.array items))
      else if 0 ≤ seg.slot items.length ∧ seg.slot items.length < items.length then
        match items[(seg.slot items.length).toNat]? with
        | some child => do
          let child ← jbRemoveAt child segs
          match child with
          | some child => .ok (some (.array (items.set (seg.slot items.length).toNat child)))
          | none => .ok (some (.array (items.eraseIdx (seg.slot items.length).toNat)))
        | none => .error .slice
      else .ok (some (.array items)) := by
  cases seg with
  | key k => exact absurd rfl (noKey k)
  | index i =>
    rw [if_neg (by simp)]
    rfl
  | append => rfl

end Arrays

section Apart

variable {seg : PathSeg} {l : Layout} (apart : Apart seg l) (segs : List PathSeg)
include apart

theorem jbSetAt_other (val : Jb) (create insertOnly : Bool) :
    jbSetAt val create insertOnly l.tree (seg :: segs) = .ok l.tree := by
  cases seg <;> cases l <;> first | rfl | simp [Apart, Layout.typ] at apart

theorem jbResolve_other : jbResolve l.tree (seg :: segs) = .ok none := by
  cases seg <;> cases l <;> first | rfl | simp [Apart, Layout.typ] at apart

theorem jbRemoveAt_other : jbRemoveAt l.tree (seg :: segs) = .ok (some l.tree) := by
  cases seg <;> cases l <;> first | rfl | simp [Apart, Layout.typ] at apart

end Apart

section Edits

variable {buf : List UInt8}

theorem editFrom_put (val : Layout) (valid : val.Fits) (create overwrite : Bool) (segs : List PathSeg) :
    ∀ (frames : List Frame) (l : Layout) (ms : Option Nat), Framed buf frames l →
      Edited frames l
        ((JbEdit.put val.bytes val.tree create overwrite).Change
          (locateFrom buf (holeStart frames) (holeStart frames + l.bytes.length) segs))
        (jbSetAt val.tree create (!overwrite) l.tree segs)
        (editFrom buf (.put val.bytes val.tree create overwrite) (headerStarts frames).reverse ms
          (holeStart frames) (holeStart frames + l.bytes.length) segs) := by
  induction segs with
  | nil =>
    intro frames l ms framed
    rw [editFrom, jbSetAt]
    cases overwrite with
    | false =>
      have same := @Edited.unchanged frames l ((JbEdit.put val.bytes val.tree create false).Change
          (locateFrom buf (holeStart frames) (holeStart frames + l.bytes.length) []))
      rwa [framed.whole] at same
    | true =>
      have spliced := spliceAndResize_plug framed.framesFit val.bytes
      rw [framed.whole] at spliced
      rw [if_pos rfl, spliced]
      exact .changed val (fun _ => valid) [] l.bytes val.bytes rfl rfl (.inr ⟨rfl, rfl⟩)
  | cons seg segs ih =>
    intro frames l ms framed
    have stays {located : Checked Unit (Option (Nat × Nat))} : Edited frames l
        ((JbEdit.put val.bytes val.tree create overwrite).Change located) (.ok l.tree) (.ok (true, buf)) := by
      rw [← framed.whole]
      exact .unchanged
    rcases step_cases seg l with ⟨k, w, pairs, rfl, rfl⟩ | ⟨noKey, w, items, rfl⟩ | apart
    · rw [Layout.tree, jbSetAt]
      rcases framed.key_cases k segs with ⟨fault, looked, located, edited⟩ |
        ⟨before, key, value, behind, rfl, looked, located, edited⟩ | ⟨looked, located, edited⟩
      · rw [looked, located, edited]
        exact .fault fault
      · rw [looked, located, edited, Checked.ok_bind]
        dsimp only
        rw [pairTrees_get]
        simp only [pairTrees_set, bind_ok_map]
        have inner := ih _ value (some (holeStart frames + (1 + w.size) + (pairBytes before).length))
          (framed.slot (valueSlot w before key behind))
        rw [headerStarts, List.reverse_cons] at inner
        exact inner.lift (valueSlot w before key behind) framed.fits
      · rw [looked, located, edited, created_put, Checked.ok_bind]
        dsimp only
        cases made : if create = true then createSub val.tree segs else none with
        | none => exact stays
        | some sub =>
          exact .member framed k (created_storable valid made) fun put => .inl ⟨rfl, rfl⟩
    · rw [Layout.tree, jbSetAt_array noKey, length_itemTrees]
      rcases framed.slot_cases noKey segs with
        ⟨before, item, behind, rfl, named, slot, located, edited⟩ | ⟨outside, located, edited⟩
      · rw [located, edited, if_pos (by rw [slot, List.length_append, List.length_cons]; omega), slot,
          Int.toNat_natCast, itemTrees_get]
        simp only [itemTrees_set, bind_ok_map]
        have inner := ih _ item (some (holeStart ((itemSlot w before behind).frame :: frames)))
          (framed.slot (itemSlot w before behind))
        rw [headerStarts, List.reverse_cons] at inner
        exact inner.lift (itemSlot w before behind) framed.fits
      · rw [located, edited, if_neg (by omega), created_put]
        have same : (if create = true ∧ seg.slot items.length = items.length then createSub val.tree segs
            else none) = if seg.slot items.length = items.length then
              if create = true then createSub val.tree segs else none else none := by
          by_cases last : seg.slot items.length = items.length <;> simp [last]
        rw [same]
        cases made : if seg.slot items.length = items.length then
            if create = true then createSub val.tree segs else none else none with
        | none => exact stays
        | some sub =>
          split at made
          · exact .item framed (created_storable valid made) fun put => .inl ⟨rfl, rfl⟩
          · cases made
    · obtain ⟨located, edited⟩ := framed.other_cases apart segs
      rw [located, edited, jbSetAt_other apart]
      exact stays

section Removals

variable {frames : List Frame} {change : List Frame → List UInt8 → List UInt8 → Prop} {w : Width}

theorem Edited.removeItem {before behind : List Layout} {item : Layout}
    (framed : Framed buf frames (.array w (before ++ item :: behind)))
    (what : change (⟨.array, w, itemBytes before, itemBytes behind⟩ :: frames) item.bytes []) {start : Nat}
    (isStart : start = holeStart ((itemSlot w before behind).frame :: frames)) :
    Edited frames (.array w (before ++ item :: behind)) change
      (.ok (.array (itemTrees (before ++ behind)))) (do
        let out ← spliceAndResize buf start (start + item.bytes.length) []
          ((headerStarts frames).reverse ++ [holeStart frames])
        .ok (true, out)) := by
  obtain ⟨size, all⟩ := framed.fits
  have edited := @Edited.container _ _ change _ framed ⟨.array, w, itemBytes before, itemBytes behind⟩
    (fun w => .array w (before ++ behind)) item.bytes []
    (by simpa [itemBytes_append, itemBytes, Frame.payload] using size)
    (by simp [Layout.bytes, itemBytes_append, itemBytes, Frame.wrap, Frame.payload])
    (fun w => by simp [Layout.bytes, itemBytes_append, Frame.wrap, Frame.withWidth, Frame.payload])
    (fun w size _ => ?_) what _ _ isStart rfl
  · exact edited
  · simp only [Layout.Fits, itemBytes_append, Frame.payload, List.append_nil, itemsFit_iff,
      List.forall_mem_append, List.forall_mem_cons] at size all ⊢
    exact ⟨size, all.1, all.2.2⟩

theorem Edited.removeMember {before behind : List (Layout × Layout)} {key value : Layout}
    (framed : Framed buf frames (.object w (before ++ (key, value) :: behind)))
    (what : change (⟨.object, w, pairBytes before, pairBytes behind⟩ :: frames) (key.bytes ++ value.bytes) [])
    {start stop : Nat} (isStart : start = holeStart frames + (1 + w.size) + (pairBytes before).length)
    (isStop : stop = start + (key.bytes ++ value.bytes).length) :
    Edited frames (.object w (before ++ (key, value) :: behind)) change
      (.ok (.object (pairTrees (before ++ behind)))) (do
        let out ← spliceAndResize buf start stop [] ((headerStarts frames).reverse ++ [holeStart frames])
        .ok (true, out)) := by
  obtain ⟨size, all⟩ := framed.fits
  have edited := @Edited.container _ _ change _ framed ⟨.object, w, pairBytes before, pairBytes behind⟩
    (fun w => .object w (before ++ behind)) (key.bytes ++ value.bytes) []
    (by simpa [pairBytes_append, pairBytes, Frame.payload] using size)
    (by simp [Layout.bytes, pairBytes_append, pairBytes, Frame.wrap, Frame.payload])
    (fun w => by simp [Layout.bytes, pairBytes_append, Frame.wrap, Frame.withWidth, Frame.payload])
    (fun w size _ => ?_) what _ _ isStart isStop
  · exact edited
  · simp only [Layout.Fits, pairBytes_append, Frame.payload, List.append_nil, pairsFit_iff,
      List.forall_mem_append, List.forall_mem_cons] at size all ⊢
    exact ⟨size, all.1, all.2.2⟩

end Removals

/-- What a removal along a path does to an element. -/
def Removes (buf : List UInt8) (frames : List Frame) (l : Layout) (segs : List PathSeg) : Prop :=
  ∀ ms, ∃ tree, jbRemoveAt l.tree segs = tree.map some ∧
    Edited frames l
      (JbEdit.remove.Change (locateFrom buf (holeStart frames) (holeStart frames + l.bytes.length) segs))
      tree
      (editFrom buf .remove (headerStarts frames).reverse ms (holeStart frames)
        (holeStart frames + l.bytes.length) segs)

/-- A removal inside a child is one inside the container. -/
theorem removes_inside {frames : List Frame} (slot : Slot) {child : Layout}
    (fits : (slot.layout slot.frame.width child).Fits)
    {change : List Frame → List UInt8 → List UInt8 → Prop} {removal : Checked Unit (Option Jb)}
    {tree : Checked Unit Jb} (removed : removal = tree.map some) {result : Checked Unit (Bool × List UInt8)}
    (inner : Edited (slot.frame :: frames) child change tree result) {next : Option Jb → Checked Unit (Option Jb)}
    (set : ∀ t, next (some t) = .ok (some (slot.tree t))) :
    ∃ whole, removal >>= next = whole.map some ∧
      Edited frames (slot.layout slot.frame.width child) change whole result := by
  refine ⟨tree.map slot.tree, ?_, inner.lift slot fits⟩
  rw [removed]
  cases tree with
  | error fault => rfl
  | ok t => exact set t

/-- One step of a removal: behind it the path is at its end or removes further inside. -/
theorem removes_step {segs : List PathSeg}
    (further : segs = [] ∨ ∀ frames l, Framed buf frames l → Removes buf frames l segs) (seg : PathSeg)
    {frames : List Frame} {l : Layout} (framed : Framed buf frames l) : Removes buf frames l (seg :: segs) := by
  intro ms
  have stays {located : Checked Unit (Option (Nat × Nat))} : Edited frames l
      (JbEdit.remove.Change located) (.ok l.tree) (.ok (true, buf)) := by
    rw [← framed.whole]
    exact .unchanged
  rcases step_cases seg l with ⟨k, w, pairs, rfl, rfl⟩ | ⟨noKey, w, items, rfl⟩ | apart
  · rw [Layout.tree, jbRemoveAt]
    rcases framed.key_cases k segs with ⟨fault, looked, located, edited⟩ |
      ⟨before, key, value, behind, rfl, looked, located, edited⟩ | ⟨looked, located, edited⟩
    · rw [looked, located, edited]
      exact ⟨.error fault, rfl, .fault fault⟩
    · rw [looked, located, edited, Checked.ok_bind]
      dsimp only
      rw [pairTrees_get]
      dsimp only
      rcases further with rfl | further
      · refine ⟨_, ?_, Edited.removeMember framed ?_ rfl ?_⟩
        · rw [jbRemoveAt, Checked.ok_bind, pairTrees_erase]
          rfl
        · obtain ⟨_, keyFits, isString, _⟩ := ((valueSlot w before key behind).fits_iff _ _).mp framed.fits |>.2.2
          refine ⟨rfl, key.bytes, value.bytes, rfl, .inr ⟨key, keyFits, isString, rfl⟩, ?_⟩
          rw [locateFrom, holeStart, holeStart, valueSlot, List.length_append, List.length_append]
          simp only [Nat.add_assoc]
        · rw [holeStart, valueSlot, List.length_append, List.length_append]
          simp only [Nat.add_assoc]
      · obtain ⟨tree, removed, inner⟩ := further _ value (framed.slot (valueSlot w before key behind))
          (some (holeStart frames + (1 + w.size) + (pairBytes before).length))
        rw [headerStarts, List.reverse_cons] at inner
        refine removes_inside (valueSlot w before key behind) framed.fits removed inner fun t => ?_
        dsimp only
        rw [pairTrees_set]
        rfl
    · rw [looked, located, edited]
      exact ⟨.ok (.object (pairTrees pairs)), rfl, stays⟩
  · rcases framed.slot_cases noKey segs with
      ⟨before, item, behind, rfl, named, slot, located, edited⟩ | ⟨outside, located, edited⟩
    · rw [located, edited, Layout.tree, jbRemoveAt_array noKey, if_neg named, length_itemTrees,
        if_pos (by rw [slot, List.length_append, List.length_cons]; omega), slot, Int.toNat_natCast,
        itemTrees_get]
      dsimp only
      rcases further with rfl | further
      · refine ⟨_, ?_, Edited.removeItem framed ?_ rfl⟩
        · rw [jbRemoveAt, Checked.ok_bind, itemTrees_erase]
          rfl
        · refine ⟨rfl, [], item.bytes, rfl, .inl rfl, ?_⟩
          rw [locateFrom]
          rfl
      · obtain ⟨tree, removed, inner⟩ := further _ item (framed.slot (itemSlot w before behind))
          (some (holeStart ((itemSlot w before behind).frame :: frames)))
        rw [headerStarts, List.reverse_cons] at inner
        refine removes_inside (itemSlot w before behind) framed.fits removed inner fun t => ?_
        dsimp only
        rw [itemTrees_set]
        rfl
    · refine ⟨.ok (.array (itemTrees items)), ?_, ?_⟩
      · rw [Layout.tree, jbRemoveAt_array noKey, length_itemTrees]
        by_cases isAppend : seg = .append
        · rw [if_pos isAppend]
          rfl
        · rw [if_neg isAppend, if_neg (by omega)]
          rfl
      · rw [located, edited]
        have nothing : (if seg.slot items.length = items.length then JbEdit.remove.created segs else none) =
            none := by
          split <;> rfl
        rw [nothing]
        exact stays
  · obtain ⟨located, edited⟩ := framed.other_cases apart segs
    rw [located, edited, jbRemoveAt_other apart]
    exact ⟨.ok l.tree, rfl, stays⟩

theorem editFrom_removes (segs : List PathSeg) : ∀ (seg : PathSeg) {frames : List Frame} {l : Layout},
    Framed buf frames l → Removes buf frames l (seg :: segs) := by
  induction segs with
  | nil => exact fun seg _ _ framed => removes_step (.inl rfl) seg framed
  | cons next segs ih => exact fun seg _ _ framed => removes_step (.inr fun _ _ => ih next) seg framed

/-- What a path selects in a tree, and the span it selects in the blob. -/
inductive Located (buf : List UInt8) :
    Checked Unit (Option Jb) → Checked Unit (Option (Nat × Nat)) → Prop
  | fault (fault : Fault Unit) : Located buf (.error fault) (.error fault)
  | nothing : Located buf (.ok none) (.ok none)
  | found (l : Layout) (fits : l.Fits) {start stop : Nat} (laid : Laid buf start l.bytes stop) :
      Located buf (.ok (some l.tree)) (.ok (some (start, stop)))

theorem locateFrom_located (segs : List PathSeg) :
    ∀ {frames : List Frame} {l : Layout}, Framed buf frames l →
      Located buf (jbResolve l.tree segs)
        (locateFrom buf (holeStart frames) (holeStart frames + l.bytes.length) segs) := by
  induction segs with
  | nil => exact fun framed => .found _ framed.fits framed.laid
  | cons seg segs ih =>
    intro frames l framed
    rcases step_cases seg l with ⟨k, w, pairs, rfl, rfl⟩ | ⟨noKey, w, items, rfl⟩ | apart
    · rw [Layout.tree, jbResolve]
      rcases framed.key_cases k segs with ⟨fault, looked, located, _⟩ |
        ⟨before, key, value, behind, rfl, looked, located, _⟩ | ⟨looked, located, _⟩
      · rw [looked, located]
        exact .fault fault
      · rw [looked, located, Checked.ok_bind, Option.bind_some, pairTrees_get]
        exact ih (framed.slot (valueSlot w before key behind))
      · rw [looked, located]
        exact .nothing
    · rw [Layout.tree, jbResolve_array noKey, length_itemTrees]
      rcases framed.slot_cases noKey segs with
        ⟨before, item, behind, rfl, named, slot, located, _⟩ | ⟨outside, located, _⟩
      · have inside : ¬ (seg.slot (before ++ item :: behind).length < 0 ∨
            ((before ++ item :: behind).length : Int) ≤ seg.slot (before ++ item :: behind).length) := by
          rw [slot, List.length_append, List.length_cons]
          omega
        rw [located, if_neg named, if_neg inside, slot, Int.toNat_natCast, itemTrees_get]
        exact ih (framed.slot (itemSlot w before behind))
      · rw [located, if_pos outside]
        split <;> exact .nothing
    · rw [(framed.other_cases apart segs).1, jbResolve_other apart]
      exact .nothing

end Edits

/-- The value to put is the encoding of its tree. -/
def JbEdit.Encoded : JbEdit → Prop
  | .put val tree _ _ => jbFromBytes val = some tree
  | .remove => True

/-- The edit of a tree: none when its root is removed. -/
def editTree (t : Jb) (segs : List PathSeg) : JbEdit → Checked Unit (Option Jb)
  | .put _ tree create overwrite => (jbSetAt tree create (!overwrite) t segs).map some
  | .remove => jbRemoveAt t segs

/-- The blob is edited, and the edited blob decodes to `t`. A blob that changes is that of
containers around the splice, each with the size of what it holds then; a blob in memory is
shorter than `2 ^ 64`. -/
def BlobChange (b : List UInt8) (change : List Frame → List UInt8 → List UInt8 → Prop)
    (result : Checked Unit (Bool × List UInt8)) (t : Jb) : Prop :=
  ∃ out, result = .ok (true, out) ∧ (out.length < 2 ^ 64 → jbFromBytes out = some t) ∧
    (out = b ∨ ∃ frames old put, plug frames old = b ∧ replug frames old put = out ∧
      change frames old put)

/-- The edit of a blob in place is the edit of its tree. -/
def EditAgrees (b : List UInt8) (t : Jb) (segs : List PathSeg) (edit : JbEdit) : Prop :=
  match editTree t segs edit with
  | .error fault => jsonbEdit b segs edit = .error fault
  | .ok none => segs = [] ∧ jsonbEdit b segs edit = .ok (false, b)
  | .ok (some edited) =>
    BlobChange b (edit.Change (jsonbLocate b segs)) (jsonbEdit b segs edit) edited

/-- The span of a path holds what the path selects in the tree. -/
def LocateAgrees (b : List UInt8) (t : Jb) (segs : List PathSeg) : Prop :=
  match jbResolve t segs with
  | .error fault => jsonbLocate b segs = .error fault
  | .ok none => jsonbLocate b segs = .ok none
  | .ok (some found) =>
    ∃ start stop, jsonbLocate b segs = .ok (some (start, stop)) ∧
      jbFromBytes (slice b start stop) = some found

section Whole

variable {b : List UInt8} {l : Layout}

theorem jbFromBytes_iff {t : Jb} : jbFromBytes b = some t ↔ ∃ l : Layout, l.Fits ∧ l.bytes = b ∧ l.tree = t := by
  rw [jbFromBytes_eq, Option.map_eq_some_iff]
  constructor
  · rintro ⟨l, read, is⟩
    obtain ⟨fits, bytes⟩ := blobLayout_eq_some_iff.mp read
    exact ⟨l, fits, bytes, is⟩
  · rintro ⟨l, fits, bytes, is⟩
    exact ⟨l, blobLayout_eq_some_iff.mpr ⟨fits, bytes⟩, is⟩

theorem framed_whole (fits : l.Fits) (bytes : l.bytes = b) : Framed b [] l := ⟨bytes, fits, trivial⟩

variable {change : List Frame → List UInt8 → List UInt8 → Prop}
  {result : Checked Unit (Bool × List UInt8)}

theorem Edited.failed {frames : List Frame} {why : Fault Unit}
    (edited : Edited frames l change (.error why) result) : result = .error why := by
  cases edited
  rfl

/-- An edited root tells what becomes of the blob. -/
theorem Edited.whole {t : Jb} (edited : Edited [] l change (.ok t) result) (fits : l.Fits)
    (bytes : l.bytes = b) : BlobChange b change result t := by
  cases edited with
  | unchanged =>
    exact ⟨b, by rw [← bytes]; rfl, fun _ => jbFromBytes_iff.mpr ⟨l, fits, bytes, rfl⟩, .inl rfl⟩
  | changed new newFits inner old put before after what =>
    refine ⟨new.bytes, rfl, fun small => jbFromBytes_iff.mpr ⟨new, newFits small, rfl, rfl⟩,
      .inr ⟨inner, old, put, before.trans bytes, after, ?_⟩⟩
    rw [List.append_nil] at what
    exact what

theorem edit_agrees {t : Jb} (valid : jbFromBytes b = some t) (segs : List PathSeg) {edit : JbEdit}
    (encoded : edit.Encoded) : EditAgrees b t segs edit := by
  obtain ⟨l, fits, bytes, rfl⟩ := jbFromBytes_iff.mp valid
  have framed := framed_whole fits bytes
  have size : 0 + l.bytes.length = b.length := by rw [Nat.zero_add, bytes]
  have start : holeStart [] = 0 := rfl
  unfold EditAgrees
  cases edit with
  | put val tree create overwrite =>
    obtain ⟨v, vFits, rfl, rfl⟩ := jbFromBytes_iff.mp encoded
    have edited := editFrom_put v vFits create overwrite segs [] l none framed
    rw [start, size] at edited
    rw [editTree]
    generalize jbSetAt v.tree create (!overwrite) l.tree segs = tree at edited
    cases tree with
    | error why => exact edited.failed
    | ok t => exact edited.whole fits bytes
  | remove =>
    cases segs with
    | nil => exact ⟨rfl, rfl⟩
    | cons seg segs =>
      obtain ⟨tree, removed, edited⟩ := editFrom_removes segs seg framed none
      rw [start, size] at edited
      rw [editTree, removed]
      cases tree with
      | error why => exact edited.failed
      | ok t => exact edited.whole fits bytes

theorem locate_agrees {t : Jb} (valid : jbFromBytes b = some t) (segs : List PathSeg) :
    LocateAgrees b t segs := by
  obtain ⟨l, fits, bytes, rfl⟩ := jbFromBytes_iff.mp valid
  have located := locateFrom_located segs (framed_whole fits bytes)
  rw [holeStart, Nat.zero_add, bytes] at located
  unfold LocateAgrees jsonbLocate
  generalize jbResolve l.tree segs = found at located
  generalize locateFrom b 0 b.length segs = span at located
  cases located with
  | fault fault => rfl
  | nothing => rfl
  | found l fits laid =>
    exact ⟨_, _, rfl, jbFromBytes_iff.mpr ⟨l, fits, (slice_of_laid laid).symm, rfl⟩⟩

end Whole

/-- Along every path the edits of a valid blob in place are those of its tree, and a located
span holds what the path selects. -/
theorem blob_paths_agree (b : List UInt8) (t : Jb) (valid : jbFromBytes b = some t) (segs : List PathSeg) :
    (∀ edit : JbEdit, edit.Encoded → EditAgrees b t segs edit) ∧ LocateAgrees b t segs :=
  ⟨fun _ encoded => edit_agrees valid segs encoded, locate_agrees valid segs⟩

/-- The document with the member `"a": true`, whose header has a byte more than it needs. -/
theorem blob_paths_agree_member :
    (∀ edit : JbEdit, edit.Encoded → EditAgrees [0xCC, 3, 0x17, 0x61, 0x01]
      (.object [(.string .text [0x61], .truth true)]) [.key [0x61]] edit) ∧
      LocateAgrees [0xCC, 3, 0x17, 0x61, 0x01]
        (.object [(.string .text [0x61], .truth true)]) [.key [0x61]] :=
  blob_paths_agree _ _ (jbFromBytes_iff.mpr
    ⟨.object .one [(.string .inline .text [0x61], .truth .inline true)],
      ⟨show 3 < 256 by decide, show 1 ≤ 11 by decide, rfl, show 0 ≤ 11 by decide, trivial⟩, rfl, rfl⟩) _

theorem findMember_set (k : List UInt8) {pairs : List (Jb × Jb)} {pos : Nat} {key old : Jb}
    (there : pairs[pos]? = some (key, old)) (new : Jb) :
    findMember k (pairs.set pos (key, new)) = findMember k pairs := by
  induction pairs generalizing pos with
  | nil => rfl
  | cons first rest ih =>
    cases pos with
    | zero =>
      cases there
      rfl
    | succ pos => simp only [List.set_cons_succ, findMember, ih there]

/-- What is set over what a path selects is what the path selects from then on. -/
theorem jbResolve_jbSetAt (create : Bool) {new old : Jb} {segs : List PathSeg} {t : Jb}
    (selected : jbResolve t segs = .ok (some old)) :
    ∃ edited, jbSetAt new create false t segs = .ok edited ∧ jbResolve edited segs = .ok (some new) := by
  induction segs generalizing t with
  | nil => exact ⟨new, rfl, rfl⟩
  | cons seg segs ih =>
    unfold jbResolve at selected
    split at selected
    · next k pairs =>
      obtain ⟨found, looked, selected⟩ := Checked.bind_ok_iff.mp selected
      split at selected
      · next key v member =>
        obtain ⟨pos, rfl, there⟩ := Option.bind_eq_some_iff.mp member
        obtain ⟨edited, set, resolved⟩ := ih selected
        refine ⟨.object (pairs.set pos (key, edited)), ?_, ?_⟩
        · simp only [jbSetAt, looked, Checked.ok_bind, there, set]
        · simp only [jbResolve, findMember_set k there, looked, Checked.ok_bind, Option.bind_some,
            List.getElem?_set_self (List.getElem?_eq_some_iff.mp there).1, resolved]
      · cases selected
    · next i items =>
      dsimp only at selected
      split at selected
      · cases selected
      · next inside =>
        split at selected
        · next item there =>
          obtain ⟨edited, set, resolved⟩ := ih selected
          refine ⟨.array (items.set (PathSeg.slot items.length (.index i)).toNat edited), ?_, ?_⟩
          · simp only [jbSetAt, there, set, Checked.ok_bind]
            rw [if_pos ⟨by omega, by omega⟩]
          · simp only [jbResolve, List.length_set, if_neg inside, resolved,
              List.getElem?_set_self (List.getElem?_eq_some_iff.mp there).1]
        · cases selected
    · cases selected

/-- A value put in place over what a path selects is found behind the same path. -/
theorem put_then_located {b val : List UInt8} {t tree old : Jb} (valid : jbFromBytes b = some t)
    (encoded : jbFromBytes val = some tree) {segs : List PathSeg}
    (selected : jbResolve t segs = .ok (some old)) (create : Bool) :
    ∃ out, jsonbEdit b segs (.put val tree create true) = .ok (true, out) ∧
      (out.length < 2 ^ 64 → ∃ start stop, jsonbLocate out segs = .ok (some (start, stop)) ∧
        jbFromBytes (slice out start stop) = some tree) := by
  obtain ⟨edited, set, resolved⟩ := jbResolve_jbSetAt create selected
  have agrees := @edit_agrees b t valid segs (.put val tree create true) encoded
  rw [EditAgrees, editTree, show jbSetAt tree create (!true) t segs = _ from set] at agrees
  obtain ⟨out, is, reads, _⟩ := agrees
  refine ⟨out, is, fun small => ?_⟩
  have located := locate_agrees (reads small) segs
  rwa [LocateAgrees, resolved] at located

theorem put_then_located_member : ∃ out,
    jsonbEdit [0x3C, 0x17, 0x61, 0x01] [.key [0x61]] (.put [0x00] .null false true) = .ok (true, out) ∧
    (out.length < 2 ^ 64 → ∃ start stop, jsonbLocate out [.key [0x61]] = .ok (some (start, stop)) ∧
      jbFromBytes (slice out start stop) = some .null) :=
  @put_then_located _ _ _ _ (.truth true) (jbFromBytes_iff.mpr
      ⟨.object .inline [(.string .inline .text [0x61], .truth .inline true)],
        ⟨show 3 ≤ 11 by decide, show 1 ≤ 11 by decide, rfl, show 0 ≤ 11 by decide, trivial⟩, rfl, rfl⟩)
    (jbFromBytes_iff.mpr ⟨.null .inline, show 0 ≤ 11 by decide, rfl, rfl⟩)
    _ rfl false

end RustSql.Jsonb
