import RustSql.Jsonb.Paths

/-! Walking over the headers of a valid element: the members and items that the walk finds
are those of its tree. -/

namespace RustSql.Jsonb

open RustSql.Foundation RustSql.Types

theorem itemBytes_append (xs ys : List Layout) : itemBytes (xs ++ ys) = itemBytes xs ++ itemBytes ys := by
  induction xs with
  | nil => rfl
  | cons x xs ih => rw [List.cons_append, itemBytes, itemBytes, ih, List.append_assoc]

theorem pairBytes_append (xs ys : List (Layout × Layout)) :
    pairBytes (xs ++ ys) = pairBytes xs ++ pairBytes ys := by
  induction xs with
  | nil => rfl
  | cons x xs ih =>
    obtain ⟨key, value⟩ := x
    rw [List.cons_append, pairBytes, pairBytes, ih, List.append_assoc (key.bytes ++ value.bytes)]

theorem itemTrees_eq (xs : List Layout) : itemTrees xs = xs.map Layout.tree := by
  induction xs with
  | nil => rfl
  | cons x xs ih => rw [itemTrees, ih, List.map_cons]

theorem pairTrees_eq (xs : List (Layout × Layout)) :
    pairTrees xs = xs.map fun x => (x.1.tree, x.2.tree) := by
  induction xs with
  | nil => rfl
  | cons x xs ih =>
    obtain ⟨key, value⟩ := x
    rw [pairTrees, ih, List.map_cons]

theorem itemsFit_iff (xs : List Layout) : itemsFit xs ↔ ∀ x ∈ xs, x.Fits := by
  induction xs with
  | nil => exact ⟨fun _ _ inside => (List.not_mem_nil inside).elim, fun _ => trivial⟩
  | cons x xs ih => rw [itemsFit, ih, List.forall_mem_cons]

theorem pairsFit_iff (xs : List (Layout × Layout)) :
    pairsFit xs ↔ ∀ x ∈ xs, x.1.Fits ∧ x.1.isString = true ∧ x.2.Fits := by
  induction xs with
  | nil => exact ⟨fun _ _ inside => (List.not_mem_nil inside).elim, fun _ => trivial⟩
  | cons x xs ih =>
    obtain ⟨key, value⟩ := x
    rw [pairsFit, ih, List.forall_mem_cons]
    constructor
    · rintro ⟨keyFits, isString, valueFits, rest⟩
      exact ⟨⟨keyFits, isString, valueFits⟩, rest⟩
    · rintro ⟨⟨keyFits, isString, valueFits⟩, rest⟩
      exact ⟨keyFits, isString, valueFits, rest⟩

section Walk

variable {b : List UInt8} {p pe lim : Nat}

theorem elemWithin_laid {l : Layout} {stop : Nat} (fits : l.Fits) (laid : Laid b p l.bytes stop)
    (inside : stop ≤ lim) :
    elemWithin b p lim = .ok (l.typ.code, p + (1 + l.width.size), stop) ∧
      Laid b (p + (1 + l.width.size)) l.payload stop := by
  obtain ⟨header, payload, ends, _⟩ := readHeader_layout fits.width laid
  refine ⟨?_, payload⟩
  rw [elemWithin, header]
  dsimp only
  rw [← ends, if_neg (by omega)]

/-- A key is looked up in the members of an object, and the walk over their bytes, which
start at `p`: both fault, both find the same member, or neither finds one. -/
inductive MemberLookup (p : Nat) (pairs : List (Layout × Layout)) :
    Checked Unit (Option Nat) → Checked Unit (Option (Nat × Nat × Nat)) → Prop
  | fault (fault : Fault Unit) : MemberLookup p pairs (.error fault) (.error fault)
  | found (before : List (Layout × Layout)) (key value : Layout) (behind : List (Layout × Layout))
      (split : pairs = before ++ (key, value) :: behind) :
      MemberLookup p pairs (.ok (some before.length))
        (.ok (some (p + (pairBytes before).length, p + (pairBytes before).length + key.bytes.length,
          p + (pairBytes before).length + key.bytes.length + value.bytes.length)))
  | missing : MemberLookup p pairs (.ok none) (.ok none)

theorem MemberLookup.cons {pairs : List (Layout × Layout)} {key value : Layout}
    {found : Checked Unit (Option Nat)} {walked : Checked Unit (Option (Nat × Nat × Nat))}
    (rest : MemberLookup (p + key.bytes.length + value.bytes.length) pairs found walked) :
    MemberLookup p ((key, value) :: pairs) (found.map (Option.map (· + 1))) walked := by
  cases rest with
  | fault fault => exact .fault fault
  | missing => exact .missing
  | found before key' value' behind split =>
    subst split
    have start : p + key.bytes.length + value.bytes.length + (pairBytes before).length =
        p + (pairBytes ((key, value) :: before)).length := by
      rw [pairBytes, List.length_append, List.length_append]
      omega
    rw [start]
    exact .found ((key, value) :: before) key' value' behind rfl

theorem memberAt_lookup (k : List UInt8) {pairs : List (Layout × Layout)} (fits : pairsFit pairs)
    {fuel : Nat} (laid : Laid b p (pairBytes pairs) pe) (enough : (pairBytes pairs).length < fuel) :
    MemberLookup p pairs (findMember k (pairTrees pairs)) (memberAt b k pe fuel p) := by
  induction pairs generalizing p fuel with
  | nil =>
    obtain ⟨fuel, rfl⟩ := Nat.exists_eq_succ_of_ne_zero (Nat.ne_of_gt enough)
    rw [memberAt, if_neg (by rw [laid.2]; exact Nat.lt_irrefl _)]
    exact .missing
  | cons pair pairs ih =>
    obtain ⟨key, value⟩ := pair
    obtain ⟨fuel, rfl⟩ := Nat.exists_eq_succ_of_ne_zero (Nat.ne_of_gt (Nat.zero_lt_of_lt enough))
    obtain ⟨keyFits, isString, valueFits, restFit⟩ := fits
    have total := laid.2
    have keyPositive := key.length_bytes_pos
    have valuePositive := value.length_bytes_pos
    rw [pairBytes, List.append_assoc] at laid
    obtain ⟨keyLaid, others⟩ := laid_split laid
    obtain ⟨valueLaid, restLaid⟩ := laid_split others
    rw [pairBytes, List.append_assoc, List.length_append, List.length_append] at total enough
    obtain ⟨keyRead, keyPayload⟩ := @elemWithin_laid _ _ pe _ _ keyFits keyLaid (by omega)
    obtain ⟨valueRead, _⟩ := @elemWithin_laid _ _ pe _ _ valueFits valueLaid (by omega)
    cases key with
    | string w kind s =>
      have payload : slice b (p + (1 + w.size)) (p + (Layout.string w kind s).bytes.length) = s :=
        slice_of_laid keyPayload
      have rest := @ih _ restFit fuel restLaid (by omega)
      rw [memberAt, if_pos (by omega), keyRead, Checked.ok_bind]
      dsimp only [Layout.typ]
      rw [Typ.ofCode_code]
      dsimp only
      rw [if_neg (by omega), valueRead, Checked.ok_bind]
      dsimp only [Layout.width]
      rw [payload, keyMatches_eq, pairTrees, findMember]
      dsimp only [Layout.tree, Jb.stringValue]
      cases decoded : stringValue kind s with
      | error fault => exact .fault fault
      | ok text =>
        by_cases same : text = k
        · subst same
          simp only [Except.map, Checked.ok_bind, beq_self_eq_true, if_true]
          exact .found [] _ value pairs rfl
        · have other : ¬ (some text = some k) := fun eq => same (Option.some.inj eq)
          simp only [Except.map, Checked.ok_bind, beq_iff_eq, if_neg same, if_neg other]
          exact rest.cons
    | null | truth | number | array | object => cases isString

/-- The walk over items reads the first one, and the others stand behind it. -/
theorem itemWithin_laid {item : Layout} {items : List Layout} (fits : itemsFit (item :: items))
    (laid : Laid b p (itemBytes (item :: items)) pe) :
    p < pe ∧ (itemBytes items).length < (itemBytes (item :: items)).length ∧
      elemWithin b p pe =
        .ok (item.typ.code, p + (1 + item.width.size), p + item.bytes.length) ∧
      Laid b (p + item.bytes.length) (itemBytes items) pe := by
  have total := laid.2
  have positive := item.length_bytes_pos
  obtain ⟨itemLaid, restLaid⟩ := laid_split laid
  rw [itemBytes, List.length_append] at total ⊢
  obtain ⟨read, _⟩ := @elemWithin_laid _ _ pe _ _ fits.1 itemLaid (by omega)
  exact ⟨by omega, by omega, read, restLaid⟩

theorem countItems_laid {items : List Layout} (fits : itemsFit items) {fuel : Nat}
    (laid : Laid b p (itemBytes items) pe) (enough : (itemBytes items).length < fuel) :
    countItems b pe fuel p = .ok items.length := by
  induction items generalizing p fuel with
  | nil =>
    obtain ⟨fuel, rfl⟩ := Nat.exists_eq_succ_of_ne_zero (Nat.ne_of_gt enough)
    rw [countItems, if_neg (by rw [laid.2]; exact Nat.lt_irrefl _)]
    rfl
  | cons item items ih =>
    obtain ⟨fuel, rfl⟩ := Nat.exists_eq_succ_of_ne_zero (Nat.ne_of_gt (Nat.zero_lt_of_lt enough))
    obtain ⟨inside, shorter, read, restLaid⟩ := itemWithin_laid fits laid
    rw [countItems, if_pos inside, read, Checked.ok_bind]
    dsimp only
    rw [ih fits.2 restLaid (by omega), Checked.ok_bind, List.length_cons]

/-- The walk for slot `want` over items that start at `p` finds the item, or counts them. -/
inductive ItemLookup (want : Int) (p : Nat) (items : List Layout) : Nat ⊕ Nat × Nat → Prop
  | found (before : List Layout) (item : Layout) (behind : List Layout)
      (split : items = before ++ item :: behind) (slot : want = before.length) :
      ItemLookup want p items
        (.inr (p + (itemBytes before).length, p + (itemBytes before).length + item.bytes.length))
  | missing (outside : want < 0 ∨ items.length ≤ want) : ItemLookup want p items (.inl items.length)

theorem itemAt_from (want : Int) {items : List Layout} (fits : itemsFit items) {fuel k : Nat}
    (laid : Laid b p (itemBytes items) pe) (enough : (itemBytes items).length < fuel) :
    (∃ before item behind, items = before ++ item :: behind ∧ want = k + before.length ∧
      itemAt b pe want fuel p k =
        .ok (.inr (p + (itemBytes before).length, p + (itemBytes before).length + item.bytes.length))) ∨
    ((want < k ∨ k + items.length ≤ want) ∧ itemAt b pe want fuel p k = .ok (.inl (k + items.length))) := by
  induction items generalizing p fuel k with
  | nil =>
    obtain ⟨fuel, rfl⟩ := Nat.exists_eq_succ_of_ne_zero (Nat.ne_of_gt enough)
    rw [itemAt, if_neg (by rw [laid.2]; exact Nat.lt_irrefl _)]
    refine .inr ⟨?_, rfl⟩
    rw [List.length_nil]
    omega
  | cons item items ih =>
    obtain ⟨fuel, rfl⟩ := Nat.exists_eq_succ_of_ne_zero (Nat.ne_of_gt (Nat.zero_lt_of_lt enough))
    obtain ⟨inside, shorter, read, restLaid⟩ := itemWithin_laid fits laid
    rw [itemAt, if_pos inside, read, Checked.ok_bind]
    dsimp only
    by_cases here : (k : Int) = want
    · rw [if_pos here]
      refine .inl ⟨[], item, items, rfl, ?_, rfl⟩
      rw [List.length_nil, here]
      omega
    · rw [if_neg here]
      rcases @ih _ fits.2 fuel (k + 1) restLaid (by omega) with
        ⟨before, found, behind, split, slot, walked⟩ | ⟨outside, walked⟩
      · refine .inl ⟨item :: before, found, behind, by rw [split]; rfl, ?_, ?_⟩
        · rw [List.length_cons]
          omega
        · rw [walked, itemBytes, List.length_append, Nat.add_assoc p]
      · refine .inr ⟨?_, ?_⟩
        · rw [List.length_cons]
          omega
        · rw [walked, List.length_cons]
          congr 2
          omega

theorem itemAt_lookup (want : Int) {items : List Layout} (fits : itemsFit items) {fuel : Nat}
    (laid : Laid b p (itemBytes items) pe) (enough : (itemBytes items).length < fuel) :
    ∃ found, itemAt b pe want fuel p 0 = .ok found ∧ ItemLookup want p items found := by
  rcases itemAt_from want fits laid enough (k := 0) with
    ⟨before, item, behind, split, slot, walked⟩ | ⟨outside, walked⟩
  · exact ⟨_, walked, .found before item behind split (by omega)⟩
  · rw [Nat.zero_add] at walked
    exact ⟨_, walked, .missing (by omega)⟩

theorem wantedSlot_laid {items : List Layout} (fits : itemsFit items) {seg : PathSeg}
    (laid : Laid b p (itemBytes items) pe) (room : (itemBytes items).length ≤ b.length) :
    wantedSlot b p pe seg = .ok (seg.slot items.length) := by
  have count := @countItems_laid _ _ _ _ fits (b.length + 1) laid (by omega)
  cases seg with
  | index i =>
    by_cases negative : i < 0
    · rw [wantedSlot, if_pos negative, count, PathSeg.slot, if_pos negative]
      rfl
    · rw [wantedSlot, if_neg negative, PathSeg.slot, if_neg negative]
  | key k =>
    rw [wantedSlot, count]
    · rfl
    · intro i is
      cases is
  | append =>
    rw [wantedSlot, count]
    · rfl
    · intro i is
      cases is

end Walk

end RustSql.Jsonb
