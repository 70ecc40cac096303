import RustSql.Jsonb.LayoutReading

/-! The four walkers through a blob, each as a function of the layout they walk. The
validity check and the renderer stop at a depth the decoders do not know. -/

namespace RustSql.Jsonb

open RustSql.Foundation RustSql.Types

variable {b : List UInt8}

theorem tree_isString (l : Layout) : l.tree.isString = l.isString := by
  cases l <;> rfl

theorem decodeElem_eq (b : List UInt8) (fuel : Nat) :
    (∀ pos, decodeElem b fuel pos = (layoutAt b fuel pos).map fun (l, p) => (l.tree, p)) ∧
    (∀ stop pos, decodeItems b stop fuel pos =
      (layoutsAt b stop fuel pos).map fun (ls, p) => (itemTrees ls, p)) ∧
    (∀ stop pos, decodePairs b stop fuel pos =
      (layoutPairsAt b stop fuel pos).map fun (ls, p) => (pairTrees ls, p)) := by
  induction fuel with
  | zero =>
    exact ⟨fun _ => by rw [decodeElem, layoutAt]; rfl, fun _ _ => by rw [decodeItems, layoutsAt]; rfl,
      fun _ _ => by rw [decodePairs, layoutPairsAt]; rfl⟩
  | succ fuel ih =>
    obtain ⟨element, items, pairs⟩ := ih
    refine ⟨?_, ?_, ?_⟩
    · intro pos
      rw [decodeElem, layoutAt, elemBounds]
      cases header : readHeader b pos with
      | none => rfl
      | some found =>
        obtain ⟨code, len, hdr⟩ := found
        simp only [Option.bind_eq_bind, Option.bind_some]
        split
        · rfl
        · simp only [Option.bind_some]
          cases known : Typ.ofCode code with
          | none => rfl
          | some typ =>
            cases typ with
            | null | truth value => by_cases empty : len = 0 <;> simp [empty, Layout.tree]
            | number kind => cases valid : validUtf8 (slice b (pos + hdr) (pos + hdr + len)) <;> simp [Layout.tree]
            | string kind => simp [Layout.tree]
            | array =>
              dsimp only
              rw [items]
              cases layoutsAt b (pos + hdr + len) fuel (pos + hdr) with
              | none => rfl
              | some inner =>
                by_cases full : inner.2 = pos + hdr + len <;> simp [full, Layout.tree]
            | object =>
              dsimp only
              rw [pairs]
              cases layoutPairsAt b (pos + hdr + len) fuel (pos + hdr) with
              | none => rfl
              | some inner =>
                by_cases full : inner.2 = pos + hdr + len <;> simp [full, Layout.tree]
    · intro stop pos
      rw [decodeItems, layoutsAt]
      split
      · rw [element]
        cases layoutAt b fuel pos with
        | none => rfl
        | some first =>
          simp only [Option.map_some, Option.bind_eq_bind, Option.bind_some, items]
          cases layoutsAt b stop fuel first.2 with
          | none => rfl
          | some rest => rfl
      · rfl
    · intro stop pos
      rw [decodePairs, layoutPairsAt]
      split
      · rw [element]
        cases layoutAt b fuel pos with
        | none => rfl
        | some first =>
          simp only [Option.map_some, Option.bind_eq_bind, Option.bind_some, tree_isString]
          split
          · rfl
          · split
            · rfl
            · rw [element]
              cases layoutAt b fuel first.2 with
              | none => rfl
              | some second =>
                simp only [Option.map_some, Option.bind_some, pairs]
                cases layoutPairsAt b stop fuel second.2 with
                | none => rfl
                | some rest => rfl
      · rfl

theorem sp_isString (l : Layout) (start : Nat) : (l.sp start).isString = l.isString := by
  cases l <;> rfl

/-- The payload starts where the header's width says. -/
theorem payload_start {pos len hdr : Nat} {code : UInt8}
    (header : readHeader b pos = some (code, len, hdr)) :
    pos + 1 + (Width.ofHdr hdr).size = pos + hdr := by
  obtain ⟨w, rfl, _⟩ := readHeader_some header
  rw [Width.ofHdr_size, Nat.add_assoc]

theorem layoutAt_end {fuel pos : Nat} {found : Layout × Nat}
    (read : layoutAt b fuel pos = some found) : found.2 = pos + found.1.bytes.length :=
  ((layoutAt_sound b fuel).1 pos found.1 found.2 read).2.2

theorem decodeSpElem_eq (b : List UInt8) (fuel : Nat) :
    (∀ pos, decodeSpElem b fuel pos = (layoutAt b fuel pos).map fun (l, p) => (l.sp pos, p)) ∧
    (∀ stop pos, decodeSpItems b stop fuel pos =
      (layoutsAt b stop fuel pos).map fun (ls, p) => (itemSps pos ls, p)) ∧
    (∀ stop pos, decodeSpPairs b stop fuel pos =
      (layoutPairsAt b stop fuel pos).map fun (ls, p) => (pairSps pos ls, p)) := by
  induction fuel with
  | zero =>
    exact ⟨fun _ => by rw [decodeSpElem, layoutAt]; rfl, fun _ _ => by rw [decodeSpItems, layoutsAt]; rfl,
      fun _ _ => by rw [decodeSpPairs, layoutPairsAt]; rfl⟩
  | succ fuel ih =>
    obtain ⟨element, items, pairs⟩ := ih
    refine ⟨?_, ?_, ?_⟩
    · intro pos
      rw [decodeSpElem, layoutAt, elemBounds]
      cases header : readHeader b pos with
      | none => rfl
      | some found =>
        obtain ⟨code, len, hdr⟩ := found
        have start := payload_start header
        simp only [Option.bind_eq_bind, Option.bind_some]
        split
        · rfl
        · simp only [Option.bind_some]
          cases known : Typ.ofCode code with
          | none => rfl
          | some typ =>
            cases typ with
            | null | truth value => by_cases empty : len = 0 <;> simp [empty, Layout.sp]
            | number kind =>
              cases valid : validUtf8 (slice b (pos + hdr) (pos + hdr + len)) <;> simp [Layout.sp]
            | string kind => simp [Layout.sp]
            | array =>
              dsimp only
              rw [items]
              cases layoutsAt b (pos + hdr + len) fuel (pos + hdr) with
              | none => rfl
              | some inner =>
                by_cases full : inner.2 = pos + hdr + len <;> simp [full, Layout.sp, start]
            | object =>
              dsimp only
              rw [pairs]
              cases layoutPairsAt b (pos + hdr + len) fuel (pos + hdr) with
              | none => rfl
              | some inner =>
                by_cases full : inner.2 = pos + hdr + len <;> simp [full, Layout.sp, start]
    · intro stop pos
      rw [decodeSpItems, layoutsAt]
      split
      · rw [element]
        cases read : layoutAt b fuel pos with
        | none => rfl
        | some first =>
          simp only [Option.map_some, Option.bind_eq_bind, Option.bind_some, items]
          cases layoutsAt b stop fuel first.2 with
          | none => rfl
          | some rest => simp [itemSps, layoutAt_end read]
      · rfl
    · intro stop pos
      rw [decodeSpPairs, layoutPairsAt]
      split
      · rw [element]
        cases keyRead : layoutAt b fuel pos with
        | none => rfl
        | some first =>
          simp only [Option.map_some, Option.bind_eq_bind, Option.bind_some, sp_isString]
          split
          · rfl
          · split
            · rfl
            · rw [element]
              cases valueRead : layoutAt b fuel first.2 with
              | none => rfl
              | some second =>
                simp only [Option.map_some, Option.bind_some, pairs]
                cases layoutPairsAt b stop fuel second.2 with
                | none => rfl
                | some rest =>
                  simp [pairSps, layoutAt_end keyRead, layoutAt_end valueRead]
      · rfl

theorem hdr_minimal {pos len hdr : Nat} {code : UInt8}
    (header : readHeader b pos = some (code, len, hdr)) :
    (hdr == minHdr len) = (Width.ofHdr hdr == .shortest len) := by
  obtain ⟨w, rfl, _⟩ := readHeader_some header
  rw [Width.ofHdr_size, Width.minHdr_eq]
  cases w <;> cases Width.shortest len <;> rfl

/-- A depth that is too large for the check. -/
def tooDeep (depth : Nat) : Bool := decide (2000 < depth)

theorem tooDeep_max (depth l r : Nat) :
    tooDeep (depth + max l r) = (tooDeep (depth + l) || tooDeep (depth + r)) := by
  rw [Bool.eq_iff_iff]
  simp only [tooDeep, Bool.or_eq_true, decide_eq_true_eq]
  omega

theorem tooDeep_shallow {depth : Nat} (low : depth ≤ 2000) : tooDeep depth = false := by
  simpa [tooDeep] using low

/-- What is read, unless it lies too deep. -/
def shallow {σ : Type} (size : σ → Nat) (found : Option (σ × Nat)) : Option (σ × Nat) :=
  found.bind fun inner => if tooDeep (size inner.1) then none else some inner

section Shallow

variable {σ : Type} {size : σ → Nat} {stop fuel pos depth : Nat}

theorem shallow_some {read : Option (σ × Nat)} {found : σ × Nat} (short : shallow size read = some found) :
    read = some found := by
  obtain ⟨whole, all, short⟩ := Option.bind_eq_some_iff.mp short
  split at short
  · cases short
  · rw [all, short]

/-- A container is as deep as what it holds. -/
theorem shallow_container (size : σ → Nat) (make : σ → Layout)
    (sized : ∀ inner, depth + (make inner).depth = size inner) (read : Option (σ × Nat)) :
    (shallow (depth + ·.depth) (read.bind fun inner =>
      if inner.2 ≠ stop then none else some (make inner.1, stop))) =
    (shallow size read).bind fun inner => if inner.2 ≠ stop then none else some (make inner.1, stop) := by
  cases read with
  | none => rfl
  | some inner =>
    by_cases full : inner.2 = stop <;> by_cases deep : tooDeep (size inner.1) = true <;>
      simp [shallow, full, deep, sized]

theorem shallow_deep (deep : 2000 < depth) (read : Option (Layout × Nat)) :
    shallow (depth + ·.depth) read = none := by
  cases read with
  | none => rfl
  | some found =>
    have past : tooDeep (depth + found.1.depth) = true := by
      simp only [tooDeep, decide_eq_true_eq]
      omega
    simp [shallow, past]

theorem shallowsAt_succ (low : depth ≤ 2000) :
    shallow (depth + itemsDepth ·) (layoutsAt b stop (fuel + 1) pos) = if pos < stop then do
      let (item, p) ← shallow (depth + 1 + ·.depth) (layoutAt b fuel pos)
      let (items, p) ← shallow (depth + itemsDepth ·) (layoutsAt b stop fuel p)
      some (item :: items, p)
    else some ([], pos) := by
  rw [layoutsAt]
  split
  · cases layoutAt b fuel pos with
    | none => rfl
    | some first =>
      simp only [Option.bind_eq_bind, Option.bind_some, shallow, Nat.add_right_comm depth 1]
      cases others : layoutsAt b stop fuel first.2 with
      | none => by_cases deep : tooDeep (depth + first.1.depth + 1) = true <;> simp [deep, others]
      | some rest =>
        by_cases deep : tooDeep (depth + first.1.depth + 1) = true <;>
          by_cases deeper : tooDeep (depth + itemsDepth rest.1) = true <;>
          simp [deep, deeper, others, itemsDepth, tooDeep_max, ← Nat.add_assoc]
  · simp [shallow, itemsDepth, tooDeep_shallow low]

theorem shallowPairsAt_succ (low : depth ≤ 2000) :
    shallow (depth + pairsDepth ·) (layoutPairsAt b stop (fuel + 1) pos) = if pos < stop then do
      let (key, p) ← shallow (depth + 1 + ·.depth) (layoutAt b fuel pos)
      if !key.isString || p ≥ stop then none
      else do
        let (value, p) ← shallow (depth + 1 + ·.depth) (layoutAt b fuel p)
        let (pairs, p) ← shallow (depth + pairsDepth ·) (layoutPairsAt b stop fuel p)
        some ((key, value) :: pairs, p)
    else some ([], pos) := by
  rw [layoutPairsAt]
  split
  · cases layoutAt b fuel pos with
    | none => rfl
    | some key =>
      simp only [Option.bind_eq_bind, Option.bind_some, shallow, Nat.add_right_comm depth 1]
      by_cases isString : key.1.isString = true
      · by_cases past : key.2 ≥ stop
        · by_cases deep : tooDeep (depth + key.1.depth + 1) = true <;> simp [deep, isString, past]
        · cases second : layoutAt b fuel key.2 with
          | none =>
            by_cases deep : tooDeep (depth + key.1.depth + 1) = true <;> simp [deep, isString, past, second]
          | some value =>
            cases others : layoutPairsAt b stop fuel value.2 with
            | none =>
              by_cases deep : tooDeep (depth + key.1.depth + 1) = true <;>
                by_cases deeper : tooDeep (depth + value.1.depth + 1) = true <;>
                simp [deep, deeper, isString, past, second, others]
            | some rest =>
              by_cases deep : tooDeep (depth + key.1.depth + 1) = true <;>
                by_cases deeper : tooDeep (depth + value.1.depth + 1) = true <;>
                by_cases deepest : tooDeep (depth + pairsDepth rest.1) = true <;>
                simp [deep, deeper, deepest, isString, past, second, others, pairsDepth, tooDeep_max,
                  ← Nat.add_assoc]
      · by_cases deep : tooDeep (depth + key.1.depth + 1) = true <;> simp [deep, isString]
  · simp [shallow, pairsDepth, tooDeep_shallow low]

end Shallow

theorem checkElem_succ {fuel : Nat}
    (items : ∀ stop pos canon depth, depth ≤ 2000 → checkItems b stop fuel pos canon (depth + 1) =
      (shallow (depth + itemsDepth ·) (layoutsAt b stop fuel pos)).map fun (ls, p) =>
        (p, canon && itemsCanonical ls))
    (pairs : ∀ stop pos canon depth, depth ≤ 2000 → checkPairs b stop fuel pos canon (depth + 1) =
      (shallow (depth + pairsDepth ·) (layoutPairsAt b stop fuel pos)).map fun (ls, p) =>
        (p, canon && pairsCanonical ls))
    (pos : Nat) (canon : Bool) (depth : Nat) :
    checkElem b (fuel + 1) pos canon depth =
      (shallow (depth + ·.depth) (layoutAt b (fuel + 1) pos)).map fun (l, p) =>
        (p, l.isString, canon && l.canonical) := by
  rw [checkElem]
  split
  · rename_i deep
    rw [shallow_deep deep]
    rfl
  · rename_i deep
    have low := Nat.le_of_not_lt deep
    have leaf := tooDeep_shallow low
    rw [layoutAt]
    cases header : readHeader b pos with
    | none => rfl
    | some found =>
      obtain ⟨code, len, hdr⟩ := found
      simp only [Option.bind_eq_bind, Option.bind_some, hdr_minimal header]
      split
      · rfl
      · rename_i room
        have length := (laid_slice (Nat.le_add_right (pos + hdr) len) (Nat.le_of_not_lt room)).2
        rw [Nat.add_sub_cancel_left] at length
        cases known : Typ.ofCode code with
        | none => rfl
        | some typ =>
          cases typ with
          | null | truth value =>
            by_cases empty : len = 0 <;>
              simp [empty, shallow, leaf, Layout.depth, Layout.isString, Layout.canonical]
          | number kind =>
            cases valid : validUtf8 (slice b (pos + hdr) (pos + hdr + len)) <;>
              simp [shallow, leaf, Layout.depth, Layout.isString, Layout.canonical, length]
          | string kind => simp [shallow, leaf, Layout.depth, Layout.isString, Layout.canonical, length]
          | array =>
            refine Eq.trans ?_ (congrArg (Option.map _)
              (shallow_container (depth + itemsDepth ·) (.array (.ofHdr hdr)) (fun _ => rfl) _).symm)
            dsimp only
            rw [items _ _ _ _ low]
            cases read : shallow (depth + itemsDepth ·)
                (layoutsAt b (pos + hdr + len) fuel (pos + hdr)) with
            | none => rfl
            | some inner =>
              have payload := (((layoutAt_sound b fuel).2.1 _ _ _ _ (shallow_some read)).2.1).2
              by_cases full : inner.2 = pos + hdr + len
              · have size : (itemBytes inner.1).length = len := by omega
                simp [full, size, Layout.isString, Layout.canonical, Bool.and_assoc]
              · simp [full]
          | object =>
            refine Eq.trans ?_ (congrArg (Option.map _)
              (shallow_container (depth + pairsDepth ·) (.object (.ofHdr hdr)) (fun _ => rfl) _).symm)
            dsimp only
            rw [pairs _ _ _ _ low]
            cases read : shallow (depth + pairsDepth ·)
                (layoutPairsAt b (pos + hdr + len) fuel (pos + hdr)) with
            | none => rfl
            | some inner =>
              have payload := (((layoutAt_sound b fuel).2.2 _ _ _ _ (shallow_some read)).2.1).2
              by_cases full : inner.2 = pos + hdr + len
              · have size : (pairBytes inner.1).length = len := by omega
                simp [full, size, Layout.isString, Layout.canonical, Bool.and_assoc]
              · simp [full]

theorem checkElem_eq (b : List UInt8) (fuel : Nat) :
    (∀ pos canon depth, checkElem b fuel pos canon depth =
      (shallow (depth + ·.depth) (layoutAt b fuel pos)).map fun (l, p) =>
        (p, l.isString, canon && l.canonical)) ∧
    (∀ stop pos canon depth, depth ≤ 2000 → checkItems b stop fuel pos canon (depth + 1) =
      (shallow (depth + itemsDepth ·) (layoutsAt b stop fuel pos)).map fun (ls, p) =>
        (p, canon && itemsCanonical ls)) ∧
    (∀ stop pos canon depth, depth ≤ 2000 → checkPairs b stop fuel pos canon (depth + 1) =
      (shallow (depth + pairsDepth ·) (layoutPairsAt b stop fuel pos)).map fun (ls, p) =>
        (p, canon && pairsCanonical ls)) := by
  induction fuel with
  | zero =>
    exact ⟨fun _ _ _ => by rw [checkElem, layoutAt]; rfl,
      fun _ _ _ _ _ => by rw [checkItems, layoutsAt]; rfl,
      fun _ _ _ _ _ => by rw [checkPairs, layoutPairsAt]; rfl⟩
  | succ fuel ih =>
    obtain ⟨element, items, pairs⟩ := ih
    refine ⟨checkElem_succ items pairs, ?_, ?_⟩
    · intro stop pos canon depth low
      rw [checkItems, shallowsAt_succ low]
      split
      · rw [element]
        cases shallow (depth + 1 + ·.depth) (layoutAt b fuel pos) with
        | none => rfl
        | some first =>
          simp only [Option.map_some, Option.bind_eq_bind, Option.bind_some, items _ _ _ _ low]
          cases shallow (depth + itemsDepth ·) (layoutsAt b stop fuel first.2) with
          | none => rfl
          | some rest => simp [itemsCanonical, Bool.and_assoc]
      · simp [itemsCanonical]
    · intro stop pos canon depth low
      rw [checkPairs, shallowPairsAt_succ low]
      split
      · rw [element]
        cases shallow (depth + 1 + ·.depth) (layoutAt b fuel pos) with
        | none => rfl
        | some first =>
          simp only [Option.map_some, Option.bind_eq_bind, Option.bind_some]
          split
          · rfl
          · rw [element]
            cases shallow (depth + 1 + ·.depth) (layoutAt b fuel first.2) with
            | none => rfl
            | some second =>
              simp only [Option.map_some, Option.bind_some, pairs _ _ _ _ low]
              cases shallow (depth + pairsDepth ·) (layoutPairsAt b stop fuel second.2) with
              | none => rfl
              | some rest => simp [pairsCanonical, Bool.and_assoc]
      · simp [pairsCanonical]

/-- Items behind others, each with a comma in front of it. -/
def itemsBehind (first : Bool) : List Jb → List UInt8
  | [] => []
  | item :: rest => (if first then [] else [0x2C]) ++ item.render ++ itemsBehind false rest

def membersBehind (first : Bool) : List (Jb × Jb) → List UInt8
  | [] => []
  | (key, value) :: rest =>
    (if first then [] else [0x2C]) ++ key.render ++ [0x3A] ++ value.render ++ membersBehind false rest

theorem itemsBehind_first (items : List Jb) : itemsBehind true items = renderItems items := by
  cases items with
  | nil => rfl
  | cons item rest =>
    induction rest generalizing item with
    | nil => simp [itemsBehind, renderItems]
    | cons next rest ih =>
      rw [renderItems, ← ih next]
      · simp [itemsBehind]
      · simp

theorem membersBehind_first (pairs : List (Jb × Jb)) :
    membersBehind true pairs = renderPairs pairs := by
  cases pairs with
  | nil => rfl
  | cons pair rest =>
    induction rest generalizing pair with
    | nil => simp [membersBehind, renderPairs]
    | cons next rest ih =>
      rw [renderPairs, ← ih next]
      · simp [membersBehind]
      · simp

/-- The header of an element that is read has the type of its layout. -/
theorem layoutAt_header {fuel pos : Nat} {found : Layout × Nat}
    (read : layoutAt b fuel pos = some found) : ∃ len hdr,
      readHeader b pos = some (found.1.typ.code, len, hdr) := by
  obtain ⟨fits, laid⟩ := (layoutAt_sound b fuel).1 pos found.1 found.2 read
  exact ⟨_, _, (readHeader_layout fits.width laid).1⟩

theorem isString_typ (l : Layout) : l.isString = true ↔ ∃ kind, l.typ = .string kind := by
  cases l <;> simp [Layout.isString, Layout.typ]

theorem renderElem_succ {fuel : Nat}
    (items : ∀ stop pos out first depth, depth ≤ 2000 →
      renderElems b stop fuel pos out first (depth + 1) =
        (shallow (depth + itemsDepth ·) (layoutsAt b stop fuel pos)).map fun (ls, p) =>
          (out ++ itemsBehind first (itemTrees ls), p))
    (pairs : ∀ stop pos out first depth, depth ≤ 2000 →
      renderMembers b stop fuel pos out first (depth + 1) =
        (shallow (depth + pairsDepth ·) (layoutPairsAt b stop fuel pos)).map fun (ls, p) =>
          (out ++ membersBehind first (pairTrees ls), p))
    (pos : Nat) (out : List UInt8) (depth : Nat) :
    renderElem b (fuel + 1) pos out depth =
      (shallow (depth + ·.depth) (layoutAt b (fuel + 1) pos)).map fun (l, p) => (out ++ l.tree.render, p) := by
  rw [renderElem]
  split
  · rename_i deep
    rw [shallow_deep deep]
    rfl
  · rename_i deep
    have low := Nat.le_of_not_lt deep
    have leaf := tooDeep_shallow low
    rw [layoutAt]
    cases header : readHeader b pos with
    | none => rfl
    | some found =>
      obtain ⟨code, len, hdr⟩ := found
      simp only [Option.bind_eq_bind, Option.bind_some]
      split
      · rfl
      · cases known : Typ.ofCode code with
        | none => rfl
        | some typ =>
          cases typ with
          | null =>
            by_cases empty : len = 0 <;> simp [empty, shallow, leaf, Layout.depth, Layout.tree, Jb.render]
          | truth value =>
            cases value <;> by_cases empty : len = 0 <;>
              simp [empty, shallow, leaf, Layout.depth, Layout.tree, Jb.render]
          | number kind =>
            cases valid : validUtf8 (slice b (pos + hdr) (pos + hdr + len)) <;>
              simp [shallow, leaf, Layout.depth, Layout.tree, Jb.render]
          | string kind => simp [shallow, leaf, Layout.depth, Layout.tree, Jb.render]
          | array =>
            refine Eq.trans ?_ (congrArg (Option.map _)
              (shallow_container (depth + itemsDepth ·) (.array (.ofHdr hdr)) (fun _ => rfl) _).symm)
            dsimp only
            rw [items _ _ _ _ _ low]
            cases shallow (depth + itemsDepth ·) (layoutsAt b (pos + hdr + len) fuel (pos + hdr)) with
            | none => rfl
            | some inner =>
              by_cases full : inner.2 = pos + hdr + len <;>
                simp [full, Layout.tree, Jb.render, itemsBehind_first]
          | object =>
            refine Eq.trans ?_ (congrArg (Option.map _)
              (shallow_container (depth + pairsDepth ·) (.object (.ofHdr hdr)) (fun _ => rfl) _).symm)
            dsimp only
            rw [pairs _ _ _ _ _ low]
            cases shallow (depth + pairsDepth ·) (layoutPairsAt b (pos + hdr + len) fuel (pos + hdr)) with
            | none => rfl
            | some inner =>
              by_cases full : inner.2 = pos + hdr + len <;>
                simp [full, Layout.tree, Jb.render, membersBehind_first]

theorem renderElem_eq (b : List UInt8) (fuel : Nat) :
    (∀ pos out depth, renderElem b fuel pos out depth =
      (shallow (depth + ·.depth) (layoutAt b fuel pos)).map fun (l, p) => (out ++ l.tree.render, p)) ∧
    (∀ stop pos out first depth, depth ≤ 2000 → renderElems b stop fuel pos out first (depth + 1) =
      (shallow (depth + itemsDepth ·) (layoutsAt b stop fuel pos)).map fun (ls, p) =>
        (out ++ itemsBehind first (itemTrees ls), p)) ∧
    (∀ stop pos out first depth, depth ≤ 2000 →
      renderMembers b stop fuel pos out first (depth + 1) =
        (shallow (depth + pairsDepth ·) (layoutPairsAt b stop fuel pos)).map fun (ls, p) =>
          (out ++ membersBehind first (pairTrees ls), p)) := by
  induction fuel with
  | zero =>
    exact ⟨fun _ _ _ => by rw [renderElem, layoutAt]; rfl,
      fun _ _ _ _ _ _ => by rw [renderElems, layoutsAt]; rfl,
      fun _ _ _ _ _ _ => by rw [renderMembers, layoutPairsAt]; rfl⟩
  | succ fuel ih =>
    obtain ⟨element, items, pairs⟩ := ih
    refine ⟨renderElem_succ items pairs, ?_, ?_⟩
    · intro stop pos out first depth low
      rw [renderElems, shallowsAt_succ low]
      split
      · rw [element]
        cases shallow (depth + 1 + ·.depth) (layoutAt b fuel pos) with
        | none => rfl
        | some head =>
          simp only [Option.map_some, Option.bind_eq_bind, Option.bind_some, items _ _ _ _ _ low]
          cases shallow (depth + itemsDepth ·) (layoutsAt b stop fuel head.2) with
          | none => rfl
          | some rest => cases first <;> simp [itemTrees, itemsBehind]
      · simp [itemTrees, itemsBehind]
    · intro stop pos out first depth low
      rw [renderMembers, shallowPairsAt_succ low]
      split
      · cases read : shallow (depth + 1 + ·.depth) (layoutAt b fuel pos) with
        | none =>
          cases readHeader b pos with
          | none => rfl
          | some found =>
            simp only [Option.bind_eq_bind, Option.bind_some]
            split
            · rw [element, read]
              rfl
            · rfl
        | some head =>
          obtain ⟨len, hdr, header⟩ := layoutAt_header (shallow_some read)
          simp only [header, Option.bind_eq_bind, Option.bind_some, Typ.ofCode_code]
          cases isString : head.1.isString with
          | false =>
            split
            · rename_i kind known
              have := (isString_typ head.1).mpr ⟨kind, Option.some.inj known⟩
              rw [isString] at this
              cases this
            · rfl
          | true =>
            obtain ⟨kind, known⟩ := (isString_typ head.1).mp isString
            rw [known]
            simp only [element, read, Option.map_some, Option.bind_some, Bool.not_true, Bool.false_or,
              decide_eq_true_eq]
            split
            · rfl
            · cases shallow (depth + 1 + ·.depth) (layoutAt b fuel head.2) with
              | none => rfl
              | some second =>
                simp only [Option.map_some, Option.bind_some, pairs _ _ _ _ _ low]
                cases shallow (depth + pairsDepth ·) (layoutPairsAt b stop fuel second.2) with
                | none => rfl
                | some rest => cases first <;> simp [pairTrees, membersBehind]
      · simp [pairTrees, membersBehind]

end RustSql.Jsonb
