import RustSql.Jsonb.BlobWalk
import RustSql.Jsonb.Enclosing

/-! Edits of a JSONB blob in place are edits of its tree: what is spliced, the containers
around it, and nothing else changes. -/

namespace RustSql.Jsonb

open RustSql.Foundation RustSql.Types

/-- What an edit does to the element `l` in the hole of `frames`, beside what it does to its
tree. An element that changes is `new` afterwards: in its frames `inner` the hole that held
`old` holds `put`, and `change` tells of that. -/
inductive Edited (frames : List Frame) (l : Layout)
    (change : List Frame → List UInt8 → List UInt8 → Prop) :
    Checked Unit Jb → Checked Unit (Bool × List UInt8) → Prop
  | fault (fault : Fault Unit) : Edited frames l change (.error fault) (.error fault)
  | unchanged : Edited frames l change (.ok l.tree) (.ok (true, plug frames l.bytes))
  | changed (new : Layout) (fits : new.bytes.length < 2 ^ 64 → new.Fits) (inner : List Frame)
      (old put : List UInt8) (before : plug inner old = l.bytes) (after : replug inner old put = new.bytes)
      (what : change (inner ++ frames) old put) :
      Edited frames l change (.ok new.tree) (.ok (true, replug frames l.bytes new.bytes))

/-- A place for an element in a container: the container with an element in it, by the width
of its header, as bytes and as a tree; `others` says that the rest of it is valid. -/
structure Slot where
  frame : Frame
  layout : Width → Layout → Layout
  tree : Jb → Jb
  others : Prop
  bytes_eq : ∀ w l, (layout w l).bytes = (frame.withWidth w).wrap l.bytes
  tree_eq : ∀ w l, (layout w l).tree = tree l.tree
  fits_iff : ∀ w l, (layout w l).Fits ↔ w.Fits (frame.payload l.bytes).length ∧ l.Fits ∧ others

def itemSlot (w : Width) (before behind : List Layout) : Slot where
  frame := ⟨.array, w, itemBytes before, itemBytes behind⟩
  layout w l := .array w (before ++ l :: behind)
  tree t := .array (itemTrees before ++ t :: itemTrees behind)
  others := itemsFit before ∧ itemsFit behind
  bytes_eq w l := by
    simp only [Layout.bytes, itemBytes_append, itemBytes, Frame.wrap, Frame.withWidth, Frame.payload,
      List.append_assoc]
  tree_eq w l := by
    rw [Layout.tree, itemTrees_eq, itemTrees_eq, itemTrees_eq, List.map_append, List.map_cons]
  fits_iff w l := by
    simp only [Layout.Fits, itemBytes_append, itemBytes, Frame.payload, List.append_assoc, itemsFit_iff,
      List.forall_mem_append, List.forall_mem_cons]
    exact ⟨fun ⟨size, before, this, behind⟩ => ⟨size, this, before, behind⟩,
      fun ⟨size, this, before, behind⟩ => ⟨size, before, this, behind⟩⟩

def valueSlot (w : Width) (before : List (Layout × Layout)) (key : Layout)
    (behind : List (Layout × Layout)) : Slot where
  frame := ⟨.object, w, pairBytes before ++ key.bytes, pairBytes behind⟩
  layout w l := .object w (before ++ (key, l) :: behind)
  tree t := .object (pairTrees before ++ (key.tree, t) :: pairTrees behind)
  others := pairsFit before ∧ key.Fits ∧ key.isString = true ∧ pairsFit behind
  bytes_eq w l := by
    simp only [Layout.bytes, pairBytes_append, pairBytes, Frame.wrap, Frame.withWidth, Frame.payload,
      List.append_assoc]
  tree_eq w l := by
    rw [Layout.tree, pairTrees_eq, pairTrees_eq, pairTrees_eq, List.map_append, List.map_cons]
  fits_iff w l := by
    simp only [Layout.Fits, pairBytes_append, pairBytes, Frame.payload, List.append_assoc, pairsFit_iff,
      List.forall_mem_append, List.forall_mem_cons]
    exact ⟨fun ⟨size, before, ⟨key, isString, this⟩, behind⟩ => ⟨size, this, before, key, isString, behind⟩,
      fun ⟨size, this, before, key, isString, behind⟩ => ⟨size, before, ⟨key, isString, this⟩, behind⟩⟩

section Frames

variable {frames : List Frame} {change : List Frame → List UInt8 → List UInt8 → Prop}

/-- A header that is written anew holds the new size, and one that is not held it already. -/
theorem newWidth_fits {f : Frame} {old new : List UInt8} (fits : f.width.Fits (f.payload old).length)
    (small : ((f.resized old new).wrap new).length < 2 ^ 64) :
    (f.newWidth old new).Fits (f.payload new).length := by
  unfold Frame.newWidth
  by_cases same : new.length = old.length
  · rw [if_pos same]
    rwa [Frame.length_payload, same, ← Frame.length_payload]
  · rw [if_neg same]
    apply Width.fits_shortest
    rw [Frame.length_wrap, Frame.length_payload] at small
    rw [Frame.length_payload]
    exact Nat.lt_of_le_of_lt (Nat.le_add_left _ _) small

/-- An edit of the element in a slot is an edit of the container. -/
theorem Edited.lift (slot : Slot) {child : Layout} (fits : (slot.layout slot.frame.width child).Fits)
    {tree : Checked Unit Jb} {result : Checked Unit (Bool × List UInt8)}
    (edited : Edited (slot.frame :: frames) child change tree result) :
    Edited frames (slot.layout slot.frame.width child) change (tree.map slot.tree) result := by
  have whole : (slot.layout slot.frame.width child).bytes = slot.frame.wrap child.bytes :=
    slot.bytes_eq _ _
  cases edited with
  | fault fault => exact .fault fault
  | unchanged =>
    have same := @Edited.unchanged frames (slot.layout slot.frame.width child) change
    rw [slot.tree_eq, whole] at same
    exact same
  | changed new newFits inner old put before after what =>
    have bytes : (slot.layout (slot.frame.newWidth child.bytes new.bytes) new).bytes =
        (slot.frame.resized child.bytes new.bytes).wrap new.bytes := slot.bytes_eq _ _
    obtain ⟨size, _, others⟩ := (slot.fits_iff _ _).mp fits
    have result := @Edited.changed frames (slot.layout slot.frame.width child) change
        (slot.layout (slot.frame.newWidth child.bytes new.bytes) new) ?_ (inner ++ [slot.frame]) old put ?_ ?_ ?_
    · rw [slot.tree_eq, bytes, whole] at result
      exact result
    · intro small
      rw [bytes] at small
      have inside := newWidth_fits size small
      rw [Frame.length_wrap, Frame.length_payload] at small
      exact (slot.fits_iff _ _).mpr ⟨inside, newFits (by omega), others⟩
    · rw [plug_append, before, whole]
      rfl
    · rw [replug_append, before, after, bytes]
      rfl
    · rw [List.append_assoc]
      exact what

/-- A splice in the payload of a container. -/
theorem Edited.splice {l new : Layout} {f : Frame} {old put : List UInt8}
    (framesFit : FramesFit frames l.bytes) (fits : f.width.Fits (f.payload old).length)
    (before : f.wrap old = l.bytes) (after : new.bytes = (f.resized old put).wrap put)
    (newFits : new.bytes.length < 2 ^ 64 → new.Fits) (what : change (f :: frames) old put)
    {start stop : Nat} (isStart : start = holeStart (f :: frames)) (isStop : stop = start + old.length) :
    Edited frames l change (.ok new.tree) (do
      let out ← spliceAndResize (plug frames l.bytes) start stop put
        ((headerStarts frames).reverse ++ [holeStart frames])
      .ok (true, out)) := by
  have spliced := @spliceAndResize_plug (f :: frames) old ⟨fits, by rw [before]; exact framesFit⟩
      put
  rw [plug, replug, headerStarts, List.reverse_cons, before, ← after] at spliced
  rw [isStop, isStart, spliced, Checked.ok_bind]
  exact .changed new newFits [f] old put before after.symm what

end Frames

/-- The element `l` is valid and lies in the blob, in the hole of `frames`. -/
structure Framed (buf : List UInt8) (frames : List Frame) (l : Layout) : Prop where
  whole : plug frames l.bytes = buf
  fits : l.Fits
  framesFit : FramesFit frames l.bytes

namespace Framed

variable {buf : List UInt8} {frames : List Frame} {l : Layout}

theorem slot (slot : Slot) {child : Layout}
    (framed : Framed buf frames (slot.layout slot.frame.width child)) :
    Framed buf (slot.frame :: frames) child := by
  have whole : (slot.layout slot.frame.width child).bytes = slot.frame.wrap child.bytes :=
    slot.bytes_eq _ _
  obtain ⟨size, childFits, _⟩ := (slot.fits_iff _ _).mp framed.fits
  refine ⟨?_, childFits, size, ?_⟩
  · rw [plug, ← whole]
    exact framed.whole
  · rw [← whole]
    exact framed.framesFit

theorem laid (framed : Framed buf frames l) :
    Laid buf (holeStart frames) l.bytes (holeStart frames + l.bytes.length) := by
  have inside := plug_laid frames l.bytes
  rwa [framed.whole] at inside

/-- The walk reads its header. -/
theorem read (framed : Framed buf frames l) :
    elemWithin buf (holeStart frames) (holeStart frames + l.bytes.length) =
        .ok (l.typ.code, holeStart frames + (1 + l.width.size), holeStart frames + l.bytes.length) ∧
      Laid buf (holeStart frames + (1 + l.width.size)) l.payload (holeStart frames + l.bytes.length) ∧
      l.payload.length < buf.length + 1 := by
  obtain ⟨read, payload⟩ := elemWithin_laid framed.fits framed.laid (Nat.le_refl _)
  have bound := laid_bound framed.laid (List.length_pos_iff.mp l.length_bytes_pos)
  rw [l.length_bytes] at bound
  exact ⟨read, payload, by omega⟩

end Framed

mutual

theorem tree_storable : (l : Layout) → l.Fits → l.tree.Storable
  | .null _, _ | .truth _ _, _ | .string _ _ _, _ => trivial
  | .number _ _ _, fits => fits.2
  | .array _ items, fits => itemTrees_storable items fits.2
  | .object _ pairs, fits => pairTrees_storable pairs fits.2

theorem itemTrees_storable : (items : List Layout) → itemsFit items → itemsStorable (itemTrees items)
  | [], _ => trivial
  | item :: rest, fits => ⟨tree_storable item fits.1, itemTrees_storable rest fits.2⟩

theorem pairTrees_storable : (pairs : List (Layout × Layout)) → pairsFit pairs →
    pairsStorable (pairTrees pairs)
  | [], _ => trivial
  | (key, value) :: rest, fits => by
    obtain ⟨keyFits, isString, valueFits, restFit⟩ := fits
    refine ⟨tree_storable key keyFits, ?_, tree_storable value valueFits, pairTrees_storable rest restFit⟩
    cases key with
    | string w kind s => rfl
    | null | truth | number | array | object => cases isString

end

theorem createSub_storable {val sub : Jb} (storable : val.Storable) {tail : List PathSeg}
    (made : createSub val tail = some sub) : sub.Storable := by
  induction tail generalizing sub with
  | nil =>
    cases made
    exact storable
  | cons seg tail ih =>
    have inner : ∃ s, createSub val tail = some s ∧
        (sub = .array [s] ∨ ∃ k, sub = .object [(.string .textRaw k, s)]) := by
      cases seg with
      | key k =>
        obtain ⟨s, inner, is⟩ := Option.map_eq_some_iff.mp made
        exact ⟨s, inner, .inr ⟨k, is.symm⟩⟩
      | append =>
        obtain ⟨s, inner, is⟩ := Option.map_eq_some_iff.mp made
        exact ⟨s, inner, .inl is.symm⟩
      | index i =>
        rw [createSub] at made
        split at made
        · obtain ⟨s, inner, is⟩ := Option.map_eq_some_iff.mp made
          exact ⟨s, inner, .inl is.symm⟩
        · cases made
    obtain ⟨s, inner, rfl | ⟨k, rfl⟩⟩ := inner
    · exact ⟨ih inner, trivial⟩
    · exact ⟨trivial, rfl, ih inner, trivial⟩

/-- The bytes of a key, or none: an item of an array has no key. -/
def IsKey (key : List UInt8) : Prop :=
  key = [] ∨ ∃ l : Layout, l.Fits ∧ l.isString = true ∧ l.bytes = key

/-- What an edit splices, when its path selects `located`: a value takes the place of the
selected element, or is inserted where there is none; a removed element goes with its key. -/
def JbEdit.Change (edit : JbEdit) (located : Checked Unit (Option (Nat × Nat)))
    (frames : List Frame) (old put : List UInt8) : Prop :=
  match edit with
  | .put val _ _ _ =>
    (located = .ok none ∧ old = []) ∨
      (located = .ok (some (holeStart frames, holeStart frames + old.length)) ∧ put = val)
  | .remove =>
    put = [] ∧ ∃ key target, old = key ++ target ∧ IsKey key ∧
      located = .ok (some (holeStart frames + key.length, holeStart frames + old.length))

section Puts

variable {buf : List UInt8} {frames : List Frame} {change : List Frame → List UInt8 → List UInt8 → Prop}

theorem created_put (val : List UInt8) (tree : Jb) (create overwrite : Bool) (tail : List PathSeg) :
    (JbEdit.put val tree create overwrite).created tail = if create then createSub tree tail else none := by
  cases create <;> rfl

/-- A splice makes another container of the same type: `make` gives it by the width of its header. -/
theorem Edited.container {l : Layout} (framed : Framed buf frames l) {f : Frame} (make : Width → Layout)
    {old put : List UInt8} (size : f.width.Fits (f.payload old).length) (before : f.wrap old = l.bytes)
    (after : ∀ w, (make w).bytes = (f.withWidth w).wrap put)
    (fits : ∀ w, w.Fits (f.payload put).length → put.length < 2 ^ 64 → (make w).Fits)
    (what : change (f :: frames) old put) {start stop : Nat} (isStart : start = holeStart (f :: frames))
    (isStop : stop = start + old.length) :
    Edited frames l change (.ok (make (f.newWidth old put)).tree) (do
      let out ← spliceAndResize buf start stop put ((headerStarts frames).reverse ++ [holeStart frames])
      .ok (true, out)) := by
  have bytes : (make (f.newWidth old put)).bytes = (f.resized old put).wrap put := after _
  rw [← framed.whole]
  refine Edited.splice framed.framesFit size before bytes (fun small => ?_) what isStart isStop
  rw [bytes] at small
  have wide := newWidth_fits size small
  rw [Frame.length_wrap, Frame.length_payload] at small
  exact fits _ wide (by omega)

/-- A member that is made stands behind the others. -/
theorem Edited.member {w : Width} {pairs : List (Layout × Layout)}
    (framed : Framed buf frames (.object w pairs)) (k : List UInt8) {sub : Jb} (storable : sub.Storable)
    (what : ∀ put, change (⟨.object, w, pairBytes pairs, []⟩ :: frames) [] put) :
    Edited frames (.object w pairs) change
      (.ok (.object (pairTrees pairs ++ [(.string .textRaw k, sub)]))) (do
        let out ← spliceAndResize buf (holeStart frames + (Layout.object w pairs).bytes.length)
          (holeStart frames + (Layout.object w pairs).bytes.length)
          (encodeElem (.string .textRaw k) ++ encodeElem sub)
          ((headerStarts frames).reverse ++ [holeStart frames])
        .ok (true, out)) := by
  have payload : (⟨.object, w, pairBytes pairs, []⟩ : Frame).payload [] = pairBytes pairs := by
    simp [Frame.payload]
  have edited := @Edited.container _ _ change _ framed ⟨.object, w, pairBytes pairs, []⟩
    (fun w => .object w (pairs ++ [(layoutOf (.string .textRaw k), layoutOf sub)])) []
    (encodeElem (.string .textRaw k) ++ encodeElem sub) (by rw [payload]; exact framed.fits.1)
    (by rw [Frame.wrap, payload, Layout.bytes])
    (fun w => by simp [Layout.bytes, pairBytes_append, pairBytes, layoutOf_bytes, Frame.wrap, Frame.withWidth,
      Frame.payload])
    (fun w size small => ?_) (what _) _ _ rfl rfl
  · rw [Layout.tree, pairTrees_eq, List.map_append, List.map_singleton, layoutOf_tree, layoutOf_tree,
      ← pairTrees_eq] at edited
    rw [Layout.length_bytes, ← Nat.add_assoc]
    exact edited
  · rw [List.length_append] at small
    have pairsFit := framed.fits.2
    simp only [Layout.Fits, pairBytes_append, pairBytes, layoutOf_bytes, Frame.payload, List.append_nil,
      pairsFit_iff, List.forall_mem_append, List.forall_mem_singleton] at size pairsFit ⊢
    exact ⟨size, pairsFit, layoutOf_fits _ trivial (by omega), by rw [layoutOf_isString]; rfl,
      layoutOf_fits sub storable (by omega)⟩

/-- An item that is made stands behind the others. -/
theorem Edited.item {w : Width} {items : List Layout} (framed : Framed buf frames (.array w items))
    {sub : Jb} (storable : sub.Storable)
    (what : ∀ put, change (⟨.array, w, itemBytes items, []⟩ :: frames) [] put) :
    Edited frames (.array w items) change (.ok (.array (itemTrees items ++ [sub]))) (do
        let out ← spliceAndResize buf (holeStart frames + (Layout.array w items).bytes.length)
          (holeStart frames + (Layout.array w items).bytes.length) (encodeElem sub)
          ((headerStarts frames).reverse ++ [holeStart frames])
        .ok (true, out)) := by
  have payload : (⟨.array, w, itemBytes items, []⟩ : Frame).payload [] = itemBytes items := by
    simp [Frame.payload]
  have edited := @Edited.container _ _ change _ framed ⟨.array, w, itemBytes items, []⟩
    (fun w => .array w (items ++ [layoutOf sub])) [] (encodeElem sub) (by rw [payload]; exact framed.fits.1)
    (by rw [Frame.wrap, payload, Layout.bytes])
    (fun w => by simp [Layout.bytes, itemBytes_append, itemBytes, layoutOf_bytes, Frame.wrap, Frame.withWidth,
      Frame.payload])
    (fun w size small => ?_) (what _) _ _ rfl rfl
  · rw [Layout.tree, itemTrees_eq, List.map_append, List.map_singleton, layoutOf_tree, ← itemTrees_eq] at edited
    rw [Layout.length_bytes, ← Nat.add_assoc]
    exact edited
  · have itemsFit := framed.fits.2
    simp only [Layout.Fits, itemBytes_append, itemBytes, layoutOf_bytes, Frame.payload, List.append_nil,
      itemsFit_iff, List.forall_mem_append, List.forall_mem_singleton] at size itemsFit ⊢
    exact ⟨size, itemsFit, layoutOf_fits sub storable small⟩

end Puts

section Steps

variable {buf : List UInt8} {frames : List Frame} {w : Width}

/-- A key's step from an object: the comparison of the keys faults, the walk goes on at the
value of the first member with the key, or it ends. -/
theorem Framed.key_cases {pairs : List (Layout × Layout)} (framed : Framed buf frames (.object w pairs))
    (k : List UInt8) (segs : List PathSeg) :
    let start := holeStart frames
    let stop := start + (Layout.object w pairs).bytes.length
    (∃ fault, findMember k (pairTrees pairs) = .error fault ∧
      locateFrom buf start stop (.key k :: segs) = .error fault ∧
      ∀ edit parents ms, editFrom buf edit parents ms start stop (.key k :: segs) = .error fault) ∨
    (∃ before key value behind, pairs = before ++ (key, value) :: behind ∧
      findMember k (pairTrees pairs) = .ok (some before.length) ∧
      let at_ := holeStart ((valueSlot w before key behind).frame :: frames)
      locateFrom buf start stop (.key k :: segs) = locateFrom buf at_ (at_ + value.bytes.length) segs ∧
      ∀ edit parents ms, editFrom buf edit parents ms start stop (.key k :: segs) =
        editFrom buf edit (parents ++ [start]) (some (start + (1 + w.size) + (pairBytes before).length))
          at_ (at_ + value.bytes.length) segs) ∨
    (findMember k (pairTrees pairs) = .ok none ∧
      locateFrom buf start stop (.key k :: segs) = .ok none ∧
      ∀ edit parents ms, editFrom buf edit parents ms start stop (.key k :: segs) =
        match edit.created segs with
        | some sub => do
          let out ← spliceAndResize buf stop stop (encodeElem (.string .textRaw k) ++ encodeElem sub)
            (parents ++ [start])
          .ok (true, out)
        | none => .ok (true, buf)) := by
  intro start stop
  obtain ⟨read, payload, enough⟩ := framed.read
  have lookup : MemberLookup (start + (1 + w.size)) pairs (findMember k (pairTrees pairs))
      (memberAt buf k stop (buf.length + 1) (start + (1 + w.size))) :=
    memberAt_lookup k framed.fits.2 payload enough
  have object : ¬ Typ.ofCode (Layout.object w pairs).typ.code ≠ some .object := by
    rw [Typ.ofCode_code]
    exact not_not.mpr rfl
  have located : locateFrom buf start stop (.key k :: segs) =
      memberAt buf k stop (buf.length + 1) (start + (1 + w.size)) >>= fun found =>
        found.elim (.ok none) fun span => locateFrom buf span.2.1 span.2.2 segs := by
    rw [locateFrom, read, Checked.ok_bind]
    dsimp only
    rw [if_neg object, Layout.width]
    refine bind_congr fun found => ?_
    cases found <;> rfl
  have edited (edit : JbEdit) (parents : List Nat) (ms : Option Nat) :
      editFrom buf edit parents ms start stop (.key k :: segs) =
        memberAt buf k stop (buf.length + 1) (start + (1 + w.size)) >>= fun found =>
          found.elim
            (match edit.created segs with
              | some sub => do
                let out ← spliceAndResize buf stop stop
                  (encodeElem (.string .textRaw k) ++ encodeElem sub) (parents ++ [start])
                .ok (true, out)
              | none => .ok (true, buf))
            fun span => editFrom buf edit (parents ++ [start]) (some span.1) span.2.1 span.2.2 segs := by
    rw [editFrom, read, Checked.ok_bind]
    dsimp only
    rw [if_neg object, Layout.width]
    refine bind_congr fun found => ?_
    cases found <;> rfl
  generalize findMember k (pairTrees pairs) = found at lookup ⊢
  generalize memberAt buf k stop (buf.length + 1) (start + (1 + w.size)) = walked at lookup located edited
  cases lookup with
  | fault fault => exact .inl ⟨fault, rfl, located, edited⟩
  | found before key value behind split =>
    have position : start + (1 + w.size) + (pairBytes before).length + key.bytes.length =
        holeStart ((valueSlot w before key behind).frame :: frames) := by
      rw [holeStart, valueSlot, List.length_append, Nat.add_assoc _ (pairBytes before).length]
    rw [position] at located edited
    exact .inr (.inl ⟨before, key, value, behind, split, rfl, located, edited⟩)
  | missing => exact .inr (.inr ⟨rfl, located, edited⟩)

/-- A step of a slot from an array: the walk goes on at the item of the slot, or it ends. -/
theorem Framed.slot_cases {items : List Layout} (framed : Framed buf frames (.array w items))
    {seg : PathSeg} (noKey : ∀ k, seg ≠ .key k) (segs : List PathSeg) :
    let start := holeStart frames
    let stop := start + (Layout.array w items).bytes.length
    (∃ before item behind, items = before ++ item :: behind ∧ seg ≠ .append ∧
      seg.slot items.length = before.length ∧
      let at_ := holeStart ((itemSlot w before behind).frame :: frames)
      locateFrom buf start stop (seg :: segs) = locateFrom buf at_ (at_ + item.bytes.length) segs ∧
      ∀ edit parents ms, editFrom buf edit parents ms start stop (seg :: segs) =
        editFrom buf edit (parents ++ [start]) (some at_) at_ (at_ + item.bytes.length) segs) ∨
    ((seg.slot items.length < 0 ∨ items.length ≤ seg.slot items.length) ∧
      locateFrom buf start stop (seg :: segs) = .ok none ∧
      ∀ edit parents ms, editFrom buf edit parents ms start stop (seg :: segs) =
        match if seg.slot items.length = items.length then edit.created segs else none with
        | some sub => do
          let out ← spliceAndResize buf stop stop (encodeElem sub) (parents ++ [start])
          .ok (true, out)
        | none => .ok (true, buf)) := by
  intro start stop
  obtain ⟨read, payload, enough⟩ := framed.read
  have wanted : wantedSlot buf (start + (1 + w.size)) stop seg = .ok (seg.slot items.length) :=
    wantedSlot_laid framed.fits.2 payload (Nat.le_of_lt_succ enough)
  have lookup : ∃ found, itemAt buf stop (seg.slot items.length) (buf.length + 1) (start + (1 + w.size)) 0 =
      .ok found ∧ ItemLookup (seg.slot items.length) (start + (1 + w.size)) items found :=
    itemAt_lookup _ framed.fits.2 payload enough
  obtain ⟨found, walked, lookup⟩ := lookup
  have array : ¬ Typ.ofCode (Layout.array w items).typ.code ≠ some .array := by
    rw [Typ.ofCode_code]
    exact not_not.mpr rfl
  have edited (edit : JbEdit) (parents : List Nat) (ms : Option Nat) :
      editFrom buf edit parents ms start stop (seg :: segs) = found.elim
        (fun n : Nat => match if 0 ≤ seg.slot items.length ∧ seg.slot items.length = n then edit.created segs else none with
          | some sub => do
            let out ← spliceAndResize buf stop stop (encodeElem sub) (parents ++ [start])
            .ok (true, out)
          | none => .ok (true, buf))
        fun span => editFrom buf edit (parents ++ [start]) (some span.1) span.1 span.2 segs := by
    rw [editFrom, read, Checked.ok_bind]
    cases seg with
    | key k => exact absurd rfl (noKey k)
    | index i =>
      dsimp only
      rw [if_neg array, Layout.width, wanted, Checked.ok_bind, walked]
      cases found <;> rfl
    | append =>
      dsimp only
      rw [if_neg array, Layout.width, wanted, Checked.ok_bind, walked]
      cases found <;> rfl
  have located : locateFrom buf start stop (seg :: segs) =
      if seg = .append ∨ seg.slot items.length < 0 then .ok none
      else found.elim (fun _ => .ok none) fun span => locateFrom buf span.1 span.2 segs := by
    rw [locateFrom, read, Checked.ok_bind]
    cases seg with
    | key k => exact absurd rfl (noKey k)
    | append => rw [if_pos (.inl rfl)]
    | index i =>
      dsimp only
      rw [if_neg array, Layout.width, wanted, Checked.ok_bind]
      by_cases negative : (PathSeg.index i).slot items.length < 0
      · rw [if_pos negative, if_pos (.inr negative)]
      · have counted : ¬ (PathSeg.index i = .append ∨ (PathSeg.index i).slot items.length < 0) := by
          rintro (is | is)
          · cases is
          · exact negative is
        rw [if_neg negative, if_neg counted, walked]
        cases found <;> rfl
  cases lookup with
  | found before item behind split slot =>
    have named : seg ≠ .append := by
      rintro rfl
      rw [PathSeg.slot, split, List.length_append, List.length_cons] at slot
      · omega
      · intro i is
        cases is
    have counted : ¬ (seg = .append ∨ seg.slot items.length < 0) := by
      rintro (is | is)
      · exact named is
      · omega
    rw [if_neg counted] at located
    exact .inl ⟨before, item, behind, split, named, slot, located, edited⟩
  | missing outside =>
    refine .inr ⟨outside, ?_, fun edit parents ms => ?_⟩
    · rw [located]
      split <;> rfl
    · rw [edited, Sum.elim_inl]
      congr 1
      by_cases last : seg.slot items.length = items.length
      · rw [if_pos last, if_pos ⟨by omega, last⟩]
      · rw [if_neg last, if_neg (fun both => last both.2)]

/-- A step that leads into no element of this type: a key into no object, a slot into no array. -/
def Apart (seg : PathSeg) (l : Layout) : Prop :=
  (∃ k, seg = .key k ∧ l.typ ≠ .object) ∨ ((∀ k, seg ≠ .key k) ∧ l.typ ≠ .array)

theorem step_cases (seg : PathSeg) (l : Layout) :
    (∃ k w pairs, seg = .key k ∧ l = .object w pairs) ∨
      ((∀ k, seg ≠ .key k) ∧ ∃ w items, l = .array w items) ∨ Apart seg l := by
  cases seg <;> cases l <;> simp [Apart, Layout.typ]

theorem Framed.other_cases {l : Layout} (framed : Framed buf frames l) {seg : PathSeg} (apart : Apart seg l)
    (segs : List PathSeg) :
    locateFrom buf (holeStart frames) (holeStart frames + l.bytes.length) (seg :: segs) = .ok none ∧
      ∀ edit parents ms, editFrom buf edit parents ms (holeStart frames)
        (holeStart frames + l.bytes.length) (seg :: segs) = .ok (true, buf) := by
  obtain ⟨read, _, _⟩ := framed.read
  have differs {typ : Typ} (ne : l.typ ≠ typ) : Typ.ofCode l.typ.code ≠ some typ := by
    rw [Typ.ofCode_code]
    exact fun same => ne (Option.some.inj same)
  rw [locateFrom, read, Checked.ok_bind]
  simp only [editFrom, read, Checked.ok_bind]
  rcases apart with ⟨k, rfl, other⟩ | ⟨noKey, other⟩
  · exact ⟨if_pos (differs other), fun _ _ _ => if_pos (differs other)⟩
  · cases seg with
    | key k => exact absurd rfl (noKey k)
    | index i => exact ⟨if_pos (differs other), fun _ _ _ => if_pos (differs other)⟩
    | append => exact ⟨rfl, fun _ _ _ => if_pos (differs other)⟩

end Steps

end RustSql.Jsonb
