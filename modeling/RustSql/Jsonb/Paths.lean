import RustSql.Jsonb.Escapes

/-! Paths into a JSON tree: looking up what a path selects, and setting and removing it. In a blob a
path is followed over the headers alone, and an edit splices the blob and resizes the containers
around the splice. -/

namespace RustSql.Jsonb

open RustSql.Foundation RustSql.Types

/-- A step of a path: a member, an item (a negative index counts from the end), or the slot
behind the last item. -/
inductive PathSeg where
  | key (k : List UInt8)
  | index (i : Int)
  | append
deriving DecidableEq, Repr

/-- `string_value`; what is no string has none. -/
def Jb.stringValue : Jb → Checked Unit (Option (List UInt8))
  | .string kind s => (Jsonb.stringValue kind s).map some
  | _ => .ok none

/-- The position of the first member with this key. -/
def findMember (k : List UInt8) : List (Jb × Jb) → Checked Unit (Option Nat)
  | [] => .ok none
  | (mk, _) :: rest => do
    let value ← mk.stringValue
    if value = some k then .ok (some 0)
    else do
      let found ← findMember k rest
      .ok (found.map (· + 1))

/-- The slot a step names in an array of `n` items. -/
def PathSeg.slot (n : Nat) : PathSeg → Int
  | .index i => if i < 0 then n + i else i
  | _ => n

def jbResolve (cur : Jb) : (segs : List PathSeg) → Checked Unit (Option Jb)
  | [] => .ok (some cur)
  | seg :: segs =>
    match seg, cur with
    | .key k, .object pairs => do
      let found ← findMember k pairs
      match found.bind (pairs[·]?) with
      | some (_, v) => jbResolve v segs
      | none => .ok none
    | .index i, .array items =>
      let idx := PathSeg.slot items.length (.index i)
      if idx < 0 ∨ items.length ≤ idx then .ok none
      else
        match items[idx.toNat]? with
        | some item => jbResolve item segs
        | none => .error .slice
    | _, _ => .ok none

/-- `create_sub`: what is made for the rest of a path below a missing slot. -/
def createSub (val : Jb) : (tail : List PathSeg) → Option Jb
  | [] => some val
  | .key k :: tail => (createSub val tail).map fun sub => .object [(.string .textRaw k, sub)]
  | .append :: tail => (createSub val tail).map fun sub => .array [sub]
  | .index i :: tail => if i = 0 then (createSub val tail).map fun sub => .array [sub] else none

/-- `jb_set_at`. -/
def jbSetAt (newVal : Jb) (create insertOnly : Bool) (node : Jb) :
    (segs : List PathSeg) → Checked Unit Jb
  | [] => .ok (if insertOnly then node else newVal)
  | seg :: segs =>
    match seg, node with
    | .key k, .object members => do
      let found ← findMember k members
      match found with
      | some pos =>
        match members[pos]? with
        | some (key, child) => do
          let child ← jbSetAt newVal create insertOnly child segs
          .ok (.object (members.set pos (key, child)))
        | none => .error .slice
      | none =>
        match if create then createSub newVal segs else none with
        | some child => .ok (.object (members ++ [(.string .textRaw k, child)]))
        | none => .ok (.object members)
    | .key _, node => .ok node
    | seg, .array items =>
      let idx := seg.slot items.length
      if 0 ≤ idx ∧ idx < items.length then
        match items[idx.toNat]? with
        | some child => do
          let child ← jbSetAt newVal create insertOnly child segs
          .ok (.array (items.set idx.toNat child))
        | none => .error .slice
      else
        match if create ∧ idx = items.length then createSub newVal segs else none with
        | some child => .ok (.array (items ++ [child]))
        | none => .ok (.array items)
    | _, node => .ok node

/-- `jb_remove_at`: none when the root is removed. A slot whose content is removed goes. -/
def jbRemoveAt (node : Jb) : (segs : List PathSeg) → Checked Unit (Option Jb)
  | [] => .ok none
  | seg :: segs =>
    match seg, node with
    | .key k, .object members => do
      let found ← findMember k members
      match found with
      | some pos =>
        match members[pos]? with
        | some (key, child) => do
          let child ← jbRemoveAt child segs
          match child with
          | some child => .ok (some (.object (members.set pos (key, child))))
          | none => .ok (some (.object (members.eraseIdx pos)))
        | none => .error .slice
      | none => .ok (some (.object members))
    | .index i, .array items =>
      let idx := PathSeg.slot items.length (.index i)
      if 0 ≤ idx ∧ idx < items.length then
        match items[idx.toNat]? with
        | some child => do
          let child ← jbRemoveAt child segs
          match child with
          | some child => .ok (some (.array (items.set idx.toNat child)))
          | none => .ok (some (.array (items.eraseIdx idx.toNat)))
        | none => .error .slice
      else .ok (some (.array items))
    | _, node => .ok (some node)

end RustSql.Jsonb

namespace RustSql.Jsonb

open RustSql.Foundation RustSql.Types

/-- `elem`: the type of the element at a position, with the ends of its payload. An end that
overflows lies behind every limit. -/
def elemWithin (b : List UInt8) (pos lim : Nat) : Checked Unit (UInt8 × Nat × Nat) :=
  match readHeader b pos with
  | none => Checked.fail ()
  | some (typ, len, hdr) =>
    if pos + hdr + len > lim then Checked.fail () else .ok (typ, pos + hdr, pos + hdr + len)

/-- The member with a key, from `p` on: where it starts, and its value's span. -/
def memberAt (b k : List UInt8) (pe : Nat) : (fuel p : Nat) → Checked Unit (Option (Nat × Nat × Nat))
  | 0, _ => Checked.fail ()
  | fuel + 1, p =>
    if p < pe then do
      let (kt, kps, kpe) ← elemWithin b p pe
      match Typ.ofCode kt with
      | some (.string kind) =>
        if kpe ≥ pe then Checked.fail ()
        else do
          let (_, _, vpe) ← elemWithin b kpe pe
          let found ← keyMatches kind (slice b kps kpe) k
          if found then .ok (some (p, kpe, vpe)) else memberAt b k pe fuel vpe
      | _ => Checked.fail ()
    else .ok none

/-- How many items there are from `p` on. -/
def countItems (b : List UInt8) (pe : Nat) : (fuel p : Nat) → Checked Unit Nat
  | 0, _ => Checked.fail ()
  | fuel + 1, p =>
    if p < pe then do
      let (_, _, epe) ← elemWithin b p pe
      let n ← countItems b pe fuel epe
      .ok (n + 1)
    else .ok 0

/-- The span of item `want` when the one at `p` is item `k`; when there is none, how many
items there are. -/
def itemAt (b : List UInt8) (pe : Nat) (want : Int) : (fuel p k : Nat) →
    Checked Unit (Nat ⊕ Nat × Nat)
  | 0, _, _ => Checked.fail ()
  | fuel + 1, p, k =>
    if p < pe then do
      let (_, _, epe) ← elemWithin b p pe
      if k = want then .ok (.inr (p, epe)) else itemAt b pe want fuel epe (k + 1)
    else .ok (.inl k)

/-- The slot a step names, the items counted only when it names one from the end. -/
def wantedSlot (b : List UInt8) (ps pe : Nat) (seg : PathSeg) : Checked Unit Int :=
  match seg with
  | .index i =>
    if i < 0 then do
      let n ← countItems b pe (b.length + 1) ps
      .ok (n + i)
    else .ok i
  | _ => do
    let n ← countItems b pe (b.length + 1) ps
    .ok n

/-- `jsonb_locate`, from the element at `start`. -/
def locateFrom (b : List UInt8) (start stop : Nat) :
    (segs : List PathSeg) → Checked Unit (Option (Nat × Nat))
  | [] => .ok (some (start, stop))
  | seg :: segs => do
    let (typ, ps, pe) ← elemWithin b start stop
    match seg with
    | .key k =>
      if Typ.ofCode typ ≠ some .object then .ok none
      else do
        let found ← memberAt b k pe (b.length + 1) ps
        match found with
        | some (_, vs, ve) => locateFrom b vs ve segs
        | none => .ok none
    | .append => .ok none
    | .index i =>
      if Typ.ofCode typ ≠ some .array then .ok none
      else do
        let want ← wantedSlot b ps pe (.index i)
        if want < 0 then .ok none
        else do
          let found ← itemAt b pe want (b.length + 1) ps 0
          match found with
          | .inr (vs, ve) => locateFrom b vs ve segs
          | .inl _ => .ok none

def jsonbLocate (b : List UInt8) (segs : List PathSeg) : Checked Unit (Option (Nat × Nat)) :=
  locateFrom b 0 b.length segs

/-- `buf.splice(from..to, with)`. -/
def splice (buf : List UInt8) (start stop : Nat) (new : List UInt8) : Checked Unit (List UInt8) :=
  if start ≤ stop ∧ stop ≤ buf.length then .ok (buf.take start ++ new ++ buf.drop stop)
  else .error .slice

/-- The loop over the containers around a splice that made the blob longer by `delta`, the
innermost first. -/
def resize (buf : List UInt8) (delta : Int) : (parents : List Nat) → Checked Unit (List UInt8)
  | [] => .ok buf
  | h :: parents =>
    if delta = 0 then .ok buf
    else
      match readHeader buf h with
      | none => .error .slice
      | some (typ, len, hdr) => do
        let head := pushHeader typ (len + delta).toNat
        let buf ← splice buf h (h + hdr) head
        resize buf (delta + head.length - hdr) parents

/-- `splice_and_resize`. -/
def spliceAndResize (buf : List UInt8) (start stop : Nat) (new : List UInt8) (parents : List Nat) :
    Checked Unit (List UInt8) := do
  let spliced ← splice buf start stop new
  resize spliced (new.length - (stop - start : Nat)) parents.reverse

/-- `JbEdit`. -/
inductive JbEdit where
  | put (val : List UInt8) (tree : Jb) (create overwrite : Bool)
  | remove

/-- What an edit makes for the rest of a path that ends at a missing slot. -/
def JbEdit.created (edit : JbEdit) (tail : List PathSeg) : Option Jb :=
  match edit with
  | .put _ tree true _ => createSub tree tail
  | _ => none

/-- `jsonb_edit`, from the element at `start` on: `parents` are the headers of the
containers around it, and what is removed with it starts at `memberStart`. -/
def editFrom (buf : List UInt8) (edit : JbEdit) (parents : List Nat) (memberStart : Option Nat)
    (start stop : Nat) : (segs : List PathSeg) → Checked Unit (Bool × List UInt8)
  | [] =>
    match edit with
    | .put val _ _ overwrite =>
      if overwrite then do
        let out ← spliceAndResize buf start stop val parents
        .ok (true, out)
      else .ok (true, buf)
    | .remove =>
      match memberStart with
      | none => .ok (false, buf)
      | some ms => do
        let out ← spliceAndResize buf ms stop [] parents
        .ok (true, out)
  | seg :: segs => do
    let (typ, ps, pe) ← elemWithin buf start stop
    match seg with
    | .key k =>
      if Typ.ofCode typ ≠ some .object then .ok (true, buf)
      else do
        let found ← memberAt buf k pe (buf.length + 1) ps
        match found with
        | some (ms, vs, ve) => editFrom buf edit (parents ++ [start]) (some ms) vs ve segs
        | none =>
          match edit.created segs with
          | some sub => do
            let bytes := encodeElem (.string .textRaw k) ++ encodeElem sub
            let out ← spliceAndResize buf pe pe bytes (parents ++ [start])
            .ok (true, out)
          | none => .ok (true, buf)
    | seg =>
      if Typ.ofCode typ ≠ some .array then .ok (true, buf)
      else do
        let want ← wantedSlot buf ps pe seg
        let found ← itemAt buf pe want (buf.length + 1) ps 0
        match found with
        | .inr (vs, ve) => editFrom buf edit (parents ++ [start]) (some vs) vs ve segs
        | .inl n =>
          match if 0 ≤ want ∧ want = n then edit.created segs else none with
          | some sub => do
            let out ← spliceAndResize buf pe pe (encodeElem sub) (parents ++ [start])
            .ok (true, out)
          | none => .ok (true, buf)

/-- `jsonb_edit`: whether the root is still there, and the edited blob. -/
def jsonbEdit (buf : List UInt8) (segs : List PathSeg) (edit : JbEdit) : Checked Unit (Bool × List UInt8) :=
  editFrom buf edit [] none 0 buf.length segs

end RustSql.Jsonb
