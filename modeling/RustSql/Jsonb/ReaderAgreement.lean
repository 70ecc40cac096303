import RustSql.Jsonb.Readers

/-! The four readers of a blob agree, up to the depth at which two of them stop. -/

namespace RustSql.Jsonb

open RustSql.Foundation RustSql.Types

/-- The layout of the element that fills the blob. -/
def blobLayout (b : List UInt8) : Option Layout :=
  (layoutAt b (walkFuel b) 0).bind fun (l, p) => if p = b.length then some l else none

section Blob

variable {b : List UInt8}

theorem laid_whole {bytes : List UInt8} : Laid b 0 bytes b.length ↔ bytes = b := by
  constructor
  · rintro ⟨inside, length⟩
    rw [List.drop_zero] at inside
    exact inside.eq_of_length (by omega)
  · rintro rfl
    exact ⟨List.prefix_rfl, (Nat.zero_add _).symm⟩

/-- A blob is valid when it is the bytes of a layout whose sizes fit. -/
theorem blobLayout_eq_some_iff {l : Layout} : blobLayout b = some l ↔ l.Fits ∧ l.bytes = b := by
  constructor
  · intro found
    unfold blobLayout at found
    cases read : layoutAt b (walkFuel b) 0 with
    | none => simp [read] at found
    | some whole =>
      obtain ⟨m, p⟩ := whole
      simp only [read, Option.bind_some] at found
      split at found
      · rename_i full
        cases found
        obtain ⟨fits, laid⟩ := (layoutAt_sound b _).1 0 l p read
        rw [full] at laid
        exact ⟨fits, laid_whole.mp laid⟩
      · cases found
  · rintro ⟨fits, rfl⟩
    have read := (layoutAt_complete l.bytes (walkFuel l.bytes)).1 0 l _ fits
      (laid_whole.mpr rfl) (Nat.le_refl _)
    simp [blobLayout, read]

theorem blobLayout_nil : blobLayout [] = none := by
  cases found : blobLayout [] with
  | none => rfl
  | some l =>
    obtain ⟨_, empty⟩ := blobLayout_eq_some_iff.mp found
    have := l.length_bytes_pos
    rw [empty] at this
    cases this

theorem jbFromBytes_eq (b : List UInt8) : jbFromBytes b = (blobLayout b).map Layout.tree := by
  cases b with
  | nil => rw [blobLayout_nil]; rfl
  | cons head rest =>
    rw [jbFromBytes, blobLayout, (decodeElem_eq _ _).1]
    cases layoutAt (head :: rest) (walkFuel (head :: rest)) 0 with
    | none => rfl
    | some found => by_cases full : found.2 = (head :: rest).length <;> simp [full]

theorem jsonbCheck_eq (b : List UInt8) :
    jsonbCheck b = (blobLayout b).bind fun l => if tooDeep l.depth then none else some l.canonical := by
  cases b with
  | nil => rw [blobLayout_nil]; rfl
  | cons head rest =>
    rw [jsonbCheck, blobLayout, (checkElem_eq _ _).1]
    generalize (head :: rest).length = size
    cases layoutAt (head :: rest) (walkFuel (head :: rest)) 0 with
    | none => rfl
    | some found =>
      by_cases full : found.2 = size <;>
        by_cases deep : tooDeep found.1.depth = true <;> simp [shallow, full, deep]

theorem renderJsonb_eq (b : List UInt8) :
    renderJsonb b =
      (blobLayout b).bind fun l => if tooDeep l.depth then none else some l.tree.render := by
  cases b with
  | nil => rw [blobLayout_nil]; rfl
  | cons head rest =>
    rw [renderJsonb, blobLayout, (renderElem_eq _ _).1]
    generalize (head :: rest).length = size
    cases layoutAt (head :: rest) (walkFuel (head :: rest)) 0 with
    | none => rfl
    | some found =>
      by_cases full : found.2 = size <;>
        by_cases deep : tooDeep found.1.depth = true <;> simp [shallow, full, deep]

theorem spFromBytes_eq (b : List UInt8) : spFromBytes b = (blobLayout b).map (Layout.sp 0) := by
  cases b with
  | nil => rw [blobLayout_nil]; rfl
  | cons head rest =>
    rw [spFromBytes, blobLayout, (decodeSpElem_eq _ _).1]
    cases layoutAt (head :: rest) (walkFuel (head :: rest)) 0 with
    | none => rfl
    | some found => by_cases full : found.2 = (head :: rest).length <;> simp [full]

end Blob

namespace Width

theorem size_shortest_mono {short long : Nat} (le : short ≤ long) :
    (shortest short).size ≤ (shortest long).size := by
  unfold shortest
  split_ifs <;> simp only [size] <;> omega

theorem size_shortest_le {len : Nat} {w : Width} (fits : w.Fits len) :
    (shortest len).size ≤ w.size := by
  cases w <;> simp only [Fits, size] at fits <;> unfold shortest <;> split_ifs <;>
    simp only [size] <;> omega

theorem size_injective : Function.Injective size := by
  intro v w same
  cases v <;> cases w <;> first | rfl | cases same

end Width

/-- The shortest header of a shorter payload is shorter than any header of the longer
one, unless both are the shortest of one length. -/
theorem header_le {short long : Nat} {w : Width} (le : short ≤ long) (fits : w.Fits long) :
    1 + (Width.shortest short).size + short ≤ 1 + w.size + long ∧
      (1 + (Width.shortest short).size + short = 1 + w.size + long →
        short = long ∧ w = .shortest long) := by
  have mono := Width.size_shortest_mono le
  have least := Width.size_shortest_le fits
  refine ⟨by omega, fun same => ⟨by omega, Width.size_injective ?_⟩⟩
  omega

theorem length_pushHeader (typ : UInt8) (len : Nat) :
    (pushHeader typ len).length = 1 + (Width.shortest len).size := by
  rw [Width.pushHeader_eq, Width.length_header]

mutual

/-- The encoder's bytes are as short as any layout of the tree, and a layout as short
has only shortest headers. -/
theorem encode_le : (l : Layout) → l.Fits → (encodeElem l.tree).length ≤ l.bytes.length ∧
    ((encodeElem l.tree).length = l.bytes.length → l.canonical = true)
  | .null w, fits | .truth w value, fits => by
    obtain ⟨le, same⟩ := header_le (Nat.le_refl 0) fits
    simp only [Layout.tree, encodeElem, Layout.bytes, Width.length_header, List.length_singleton,
      Layout.canonical, beq_iff_eq]
    exact ⟨le, fun equal => (same equal).2⟩
  | .number w kind s, ⟨fits, _⟩ => by
    obtain ⟨le, same⟩ := header_le (Nat.le_refl s.length) fits
    simp only [Layout.tree, encodeElem, Layout.bytes, Width.length_header, List.length_append,
      length_pushHeader, Layout.canonical, beq_iff_eq]
    exact ⟨le, fun equal => (same equal).2⟩
  | .string w kind s, fits => by
    obtain ⟨le, same⟩ := header_le (Nat.le_refl s.length) fits
    simp only [Layout.tree, encodeElem, Layout.bytes, Width.length_header, List.length_append,
      length_pushHeader, Layout.canonical, beq_iff_eq]
    exact ⟨le, fun equal => (same equal).2⟩
  | .array w items, ⟨fits, allFit⟩ => by
    obtain ⟨shorter, canonical⟩ := encodeItems_le items allFit
    obtain ⟨le, same⟩ := header_le shorter fits
    simp only [Layout.tree, encodeElem, Layout.bytes, Width.length_header, List.length_append,
      length_pushHeader, Layout.canonical, Bool.and_eq_true, beq_iff_eq]
    exact ⟨le, fun equal => ⟨(same equal).2, canonical (same equal).1⟩⟩
  | .object w pairs, ⟨fits, allFit⟩ => by
    obtain ⟨shorter, canonical⟩ := encodePairs_le pairs allFit
    obtain ⟨le, same⟩ := header_le shorter fits
    simp only [Layout.tree, encodeElem, Layout.bytes, Width.length_header, List.length_append,
      length_pushHeader, Layout.canonical, Bool.and_eq_true, beq_iff_eq]
    exact ⟨le, fun equal => ⟨(same equal).2, canonical (same equal).1⟩⟩

theorem encodeItems_le : (ls : List Layout) → itemsFit ls →
    (encodeItems (itemTrees ls)).length ≤ (itemBytes ls).length ∧
      ((encodeItems (itemTrees ls)).length = (itemBytes ls).length → itemsCanonical ls = true)
  | [], _ => ⟨Nat.le_refl _, fun _ => rfl⟩
  | item :: rest, ⟨fits, allFit⟩ => by
    obtain ⟨first, firstCanonical⟩ := encode_le item fits
    obtain ⟨others, othersCanonical⟩ := encodeItems_le rest allFit
    simp only [itemTrees, encodeItems, itemBytes, List.length_append, itemsCanonical,
      Bool.and_eq_true]
    exact ⟨by omega, fun equal => ⟨firstCanonical (by omega), othersCanonical (by omega)⟩⟩

theorem encodePairs_le : (ls : List (Layout × Layout)) → pairsFit ls →
    (encodePairs (pairTrees ls)).length ≤ (pairBytes ls).length ∧
      ((encodePairs (pairTrees ls)).length = (pairBytes ls).length → pairsCanonical ls = true)
  | [], _ => ⟨Nat.le_refl _, fun _ => rfl⟩
  | (key, value) :: rest, ⟨keyFits, _, valueFits, allFit⟩ => by
    obtain ⟨first, firstCanonical⟩ := encode_le key keyFits
    obtain ⟨second, secondCanonical⟩ := encode_le value valueFits
    obtain ⟨others, othersCanonical⟩ := encodePairs_le rest allFit
    simp only [pairTrees, encodePairs, pairBytes, List.length_append, pairsCanonical,
      Bool.and_eq_true]
    exact ⟨by omega, fun equal =>
      ⟨⟨firstCanonical (by omega), secondCanonical (by omega)⟩, othersCanonical (by omega)⟩⟩

end

mutual

/-- A layout whose headers are all the shortest is what the encoder writes. -/
theorem encode_canonical : (l : Layout) → l.canonical = true → encodeElem l.tree = l.bytes
  | .null w, canonical => by
    cases beq_iff_eq.mp canonical
    rfl
  | .truth w value, canonical => by
    cases beq_iff_eq.mp canonical
    cases value <;> rfl
  | .number w kind s, canonical | .string w kind s, canonical => by
    cases beq_iff_eq.mp canonical
    rw [Layout.tree, encodeElem, Layout.bytes, Width.pushHeader_eq]
  | .array w items, canonical => by
    obtain ⟨width, inner⟩ := Bool.and_eq_true_iff.mp canonical
    cases beq_iff_eq.mp width
    rw [Layout.tree, encodeElem, Layout.bytes, encodeItems_canonical items inner]
    simp only [Width.pushHeader_eq]
  | .object w pairs, canonical => by
    obtain ⟨width, inner⟩ := Bool.and_eq_true_iff.mp canonical
    cases beq_iff_eq.mp width
    rw [Layout.tree, encodeElem, Layout.bytes, encodePairs_canonical pairs inner]
    simp only [Width.pushHeader_eq]

theorem encodeItems_canonical : (ls : List Layout) → itemsCanonical ls = true →
    encodeItems (itemTrees ls) = itemBytes ls
  | [], _ => rfl
  | item :: rest, canonical => by
    obtain ⟨first, others⟩ := Bool.and_eq_true_iff.mp canonical
    rw [itemTrees, encodeItems, itemBytes, encode_canonical item first,
      encodeItems_canonical rest others]

theorem encodePairs_canonical : (ls : List (Layout × Layout)) → pairsCanonical ls = true →
    encodePairs (pairTrees ls) = pairBytes ls
  | [], _ => rfl
  | (key, value) :: rest, canonical => by
    obtain ⟨pair, others⟩ := Bool.and_eq_true_iff.mp canonical
    obtain ⟨first, second⟩ := Bool.and_eq_true_iff.mp pair
    rw [pairTrees, encodePairs, pairBytes, encode_canonical key first,
      encode_canonical value second, encodePairs_canonical rest others]

end

theorem canonical_iff {l : Layout} (fits : l.Fits) :
    l.canonical = true ↔ jbToBytes l.tree = l.bytes :=
  ⟨encode_canonical l, fun same => (encode_le l fits).2 (congrArg List.length same)⟩

mutual

/-- The node is the element from one offset to another, and what it holds lies behind its header,
one after another up to its end. -/
def Sp.Placed (b : List UInt8) : Sp → (start stop : Nat) → Prop
  | .scalar off jb, start, stop => off = start ∧ decodeElem b (walkFuel b) start = some (jb, stop)
  | .array off items, start, stop => off = start ∧
      decodeElem b (walkFuel b) start = some (.array (toJbs items), stop) ∧
      ∃ code len hdr, readHeader b start = some (code, len, hdr) ∧ itemsPlaced b items (start + hdr) stop
  | .object off pairs, start, stop => off = start ∧
      decodeElem b (walkFuel b) start = some (.object (toJbPairs pairs), stop) ∧
      ∃ code len hdr, readHeader b start = some (code, len, hdr) ∧ pairsPlaced b pairs (start + hdr) stop

def itemsPlaced (b : List UInt8) : List Sp → (start stop : Nat) → Prop
  | [], start, stop => start = stop
  | item :: rest, start, stop => ∃ next, item.Placed b start next ∧ itemsPlaced b rest next stop

def pairsPlaced (b : List UInt8) : List (Sp × Sp) → (start stop : Nat) → Prop
  | [], start, stop => start = stop
  | (key, value) :: rest, start, stop => ∃ middle next,
      key.Placed b start middle ∧ value.Placed b middle next ∧ pairsPlaced b rest next stop

end

mutual

theorem toJb_sp : (l : Layout) → (start : Nat) → (l.sp start).toJb = l.tree
  | .null _, _ | .truth _ _, _ | .number _ _ _, _ | .string _ _ _, _ => by
    simp [Layout.sp, Sp.toJb, Layout.tree]
  | .array w items, start => by
    rw [Layout.sp, Sp.toJb, Layout.tree, toJbs_itemSps items]
  | .object w pairs, start => by
    rw [Layout.sp, Sp.toJb, Layout.tree, toJbPairs_pairSps pairs]

theorem toJbs_itemSps : (ls : List Layout) → (start : Nat) → toJbs (itemSps start ls) = itemTrees ls
  | [], _ => rfl
  | item :: rest, start => by
    rw [itemSps, toJbs, itemTrees, toJb_sp item, toJbs_itemSps rest]

theorem toJbPairs_pairSps : (ls : List (Layout × Layout)) → (start : Nat) →
    toJbPairs (pairSps start ls) = pairTrees ls
  | [], _ => rfl
  | (key, value) :: rest, start => by
    rw [pairSps, toJbPairs, pairTrees, toJb_sp key, toJb_sp value, toJbPairs_pairSps rest]

end

/-- An element that lies in the blob is decoded where it lies. -/
theorem decodeElem_laid {b : List UInt8} {l : Layout} {start stop : Nat} (fits : l.Fits)
    (laid : Laid b start l.bytes stop) :
    decodeElem b (walkFuel b) start = some (l.tree, stop) := by
  have positive := l.length_bytes_pos
  have bound := laid_bound laid (List.length_pos_iff.mp positive)
  have length := laid.2
  have enough : 2 * l.bytes.length ≤ walkFuel b := by
    rw [walkFuel]
    omega
  rw [(decodeElem_eq b _).1, (layoutAt_complete b _).1 start l stop fits laid enough]
  rfl

mutual

theorem placed_sp (b : List UInt8) : (l : Layout) → (start stop : Nat) → l.Fits →
    Laid b start l.bytes stop → (l.sp start).Placed b start stop
  | .null w, _, _, fits, laid | .truth w _, _, _, fits, laid => ⟨rfl, decodeElem_laid fits laid⟩
  | .number w _ _, _, _, fits, laid | .string w _ _, _, _, fits, laid => ⟨rfl, decodeElem_laid fits laid⟩
  | .array w items, start, stop, fits, laid => by
    obtain ⟨header, inner, _⟩ := readHeader_layout fits.width laid
    rw [Layout.sp, Sp.Placed, toJbs_itemSps, Nat.add_assoc]
    exact ⟨rfl, decodeElem_laid fits laid, _, _, _, header, placed_items b items _ stop fits.2 inner⟩
  | .object w pairs, start, stop, fits, laid => by
    obtain ⟨header, inner, _⟩ := readHeader_layout fits.width laid
    rw [Layout.sp, Sp.Placed, toJbPairs_pairSps, Nat.add_assoc]
    exact ⟨rfl, decodeElem_laid fits laid, _, _, _, header, placed_pairs b pairs _ stop fits.2 inner⟩

theorem placed_items (b : List UInt8) : (ls : List Layout) → (start stop : Nat) → itemsFit ls →
    Laid b start (itemBytes ls) stop → itemsPlaced b (itemSps start ls) start stop
  | [], _, _, _, laid => laid.2.symm
  | item :: rest, start, stop, ⟨fits, allFit⟩, laid => by
    obtain ⟨first, others⟩ := laid_split laid
    exact ⟨_, placed_sp b item start _ fits first, placed_items b rest _ stop allFit others⟩

theorem placed_pairs (b : List UInt8) : (ls : List (Layout × Layout)) → (start stop : Nat) →
    pairsFit ls → Laid b start (pairBytes ls) stop → pairsPlaced b (pairSps start ls) start stop
  | [], _, _, _, laid => laid.2.symm
  | (key, value) :: rest, start, stop, ⟨keyFits, _, valueFits, allFit⟩, laid => by
    rw [pairBytes, List.append_assoc] at laid
    obtain ⟨first, others⟩ := laid_split laid
    obtain ⟨second, others⟩ := laid_split others
    exact ⟨_, _, placed_sp b key start _ keyFits first, placed_sp b value _ _ valueFits second,
      placed_pairs b rest _ stop allFit others⟩

end

/-- The check, the renderer and the spanned decoder accept what the decoder accepts: the
check tells whether encoding the tree gives the blob back, the renderer renders the
tree, and the spanned tree is the tree with the offset of every element. -/
structure ReadersAgree (b : List UInt8) : Prop where
  check : jsonbCheck b = (jbFromBytes b).map fun t => decide (jbToBytes t = b)
  rendered : renderJsonb b = (jbFromBytes b).map Jb.render
  spanned : (spFromBytes b).map Sp.toJb = jbFromBytes b
  placed : ∀ sp, spFromBytes b = some sp → sp.Placed b 0 b.length

/-- The blob holds a document nested more deeply than the check and the renderer go. -/
def NestedTooDeep (b : List UInt8) : Prop := ∃ l : Layout, l.Fits ∧ l.bytes = b ∧ 2000 < l.depth

theorem spanned_agree (b : List UInt8) :
    (spFromBytes b).map Sp.toJb = jbFromBytes b ∧ ∀ sp, spFromBytes b = some sp → sp.Placed b 0 b.length := by
  rw [spFromBytes_eq, jbFromBytes_eq]
  constructor
  · cases blobLayout b with
    | none => rfl
    | some l => exact congrArg some (toJb_sp l 0)
  · intro sp found
    cases known : blobLayout b with
    | none => simp [known] at found
    | some l =>
      rw [known] at found
      cases found
      obtain ⟨fits, bytes⟩ := blobLayout_eq_some_iff.mp known
      exact placed_sp b l 0 b.length fits (laid_whole.mpr bytes)

/-- The check refuses what the decoder accepts when it is nested too deeply. -/
theorem deep_disagree {b : List UInt8} (nested : NestedTooDeep b) : ¬ ReadersAgree b := by
  obtain ⟨l, fits, bytes, deep⟩ := nested
  intro agree
  have known := blobLayout_eq_some_iff.mpr ⟨fits, bytes⟩
  have check := agree.check
  rw [jsonbCheck_eq, jbFromBytes_eq, known] at check
  simp [tooDeep, deep] at check

/-- The readers agree on a blob exactly when it is not nested too deeply. -/
theorem readers_agree_iff (b : List UInt8) : ReadersAgree b ↔ ¬ NestedTooDeep b := by
  obtain ⟨spanned, placed⟩ := spanned_agree b
  constructor
  · exact fun agree nested => deep_disagree nested agree
  · intro shallow
    refine ⟨?_, ?_, spanned, placed⟩
    all_goals
      cases known : blobLayout b with
      | none => simp [jsonbCheck_eq, renderJsonb_eq, jbFromBytes_eq, known]
      | some l =>
        obtain ⟨fits, bytes⟩ := blobLayout_eq_some_iff.mp known
        have depth : ¬ 2000 < l.depth := fun deep => shallow ⟨l, fits, bytes, deep⟩
        have canonical : l.canonical = decide (jbToBytes l.tree = b) := by
          rw [Bool.eq_iff_iff, canonical_iff fits, bytes, decide_eq_true_iff]
        simp [jsonbCheck_eq, renderJsonb_eq, jbFromBytes_eq, known, tooDeep, depth, canonical]

/-- Arrays inside each other, with the shortest headers. -/
def nest : Nat → Layout
  | 0 => .array .inline []
  | n + 1 => .array (.shortest (nest n).bytes.length) [nest n]

theorem nest_facts (n : Nat) (few : n < 2 ^ 60) :
    (nest n).Fits ∧ (nest n).depth = n ∧ (nest n).bytes.length ≤ 9 * (n + 1) := by
  induction n with
  | zero => exact ⟨⟨Nat.zero_le _, trivial⟩, rfl, by decide⟩
  | succ n ih =>
    obtain ⟨fits, depth, length⟩ := ih (by omega)
    have short : (Width.shortest (nest n).bytes.length).size ≤ 8 := by
      cases Width.shortest (nest n).bytes.length <;> decide
    refine ⟨⟨?_, fits, trivial⟩, ?_, ?_⟩
    · rw [itemBytes, itemBytes, List.append_nil]
      exact Width.fits_shortest (by omega)
    · simp [nest, Layout.depth, itemsDepth, depth]
    · rw [Layout.length_bytes]
      simp only [nest, Layout.width, Layout.payload, itemBytes, List.append_nil]
      omega

/-- 2002 arrays inside each other decode, and the check refuses them. -/
theorem readers_agree_nest : ¬ ReadersAgree (nest 2001).bytes := by
  obtain ⟨fits, depth, _⟩ := nest_facts 2001 (by decide)
  exact deep_disagree ⟨nest 2001, fits, rfl, by omega⟩

end RustSql.Jsonb
