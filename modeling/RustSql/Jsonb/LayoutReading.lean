import RustSql.Jsonb.Layout

/-! Reading a layout finds exactly the layouts that fit: what is read lies in the blob
byte for byte, and a layout that lies in the blob is read. -/

namespace RustSql.Jsonb

open RustSql.Foundation RustSql.Types

/-- These bytes lie in the blob from one position to another. -/
def Laid (b : List UInt8) (start : Nat) (bytes : List UInt8) (stop : Nat) : Prop :=
  bytes <+: b.drop start ∧ stop = start + bytes.length

section Positions

variable {b xs ys : List UInt8} {p q r : Nat}

theorem laid_nil (b : List UInt8) (p : Nat) : Laid b p [] p := ⟨List.nil_prefix, rfl⟩

theorem laid_append (first : Laid b p xs q) (second : Laid b q ys r) : Laid b p (xs ++ ys) r := by
  obtain ⟨⟨rest, eq⟩, rfl⟩ := first
  obtain ⟨inside, rfl⟩ := second
  have behind : b.drop (p + xs.length) = rest := by
    rw [← List.drop_drop, ← eq, List.drop_left]
  rw [behind] at inside
  refine ⟨?_, by rw [List.length_append, Nat.add_assoc]⟩
  rw [← eq]
  exact (List.prefix_append_right_inj xs).mpr inside

theorem laid_split (whole : Laid b p (xs ++ ys) r) :
    Laid b p xs (p + xs.length) ∧ Laid b (p + xs.length) ys r := by
  obtain ⟨⟨rest, eq⟩, rfl⟩ := whole
  rw [List.append_assoc] at eq
  have behind : b.drop (p + xs.length) = ys ++ rest := by
    rw [← List.drop_drop, ← eq, List.drop_left]
  refine ⟨⟨⟨ys ++ rest, eq⟩, rfl⟩, ⟨rest, behind.symm⟩, ?_⟩
  rw [List.length_append, Nat.add_assoc]

theorem laid_slice (ordered : p ≤ q) (inside : q ≤ b.length) :
    Laid b p (slice b p q) q ∧ (slice b p q).length = q - p := by
  have length : (slice b p q).length = q - p := by
    rw [slice, List.length_take, List.length_drop]
    omega
  exact ⟨⟨List.take_prefix _ _, by omega⟩, length⟩

theorem slice_of_laid (laid : Laid b p xs q) : slice b p q = xs := by
  obtain ⟨inside, rfl⟩ := laid
  rw [slice, Nat.add_sub_cancel_left]
  exact (List.prefix_iff_eq_take.mp inside).symm

theorem laid_bound (laid : Laid b p xs q) (filled : xs ≠ []) : q ≤ b.length := by
  obtain ⟨inside, rfl⟩ := laid
  rcases prefix_length inside with empty | bound
  · exact absurd empty filled
  · exact bound

end Positions

theorem Layout.length_bytes_pos (l : Layout) : 0 < l.bytes.length := by
  rw [l.length_bytes]
  omega

theorem Typ.code_lt (typ : Typ) : typ.code.toNat < 16 := by
  rcases typ with _ | ⟨_ | _⟩ | ⟨_ | _ | _ | _⟩ | ⟨_ | _ | _ | _⟩ | _ | _ <;> decide

@[simp] theorem Typ.ofCode_code (typ : Typ) : Typ.ofCode typ.code = some typ := by
  rcases typ with _ | ⟨_ | _⟩ | ⟨_ | _ | _ | _⟩ | ⟨_ | _ | _ | _⟩ | _ | _ <;> rfl

theorem Typ.code_of_ofCode {code : UInt8} {typ : Typ} (known : Typ.ofCode code = some typ) :
    typ.code = code := by
  unfold Typ.ofCode at known
  split at known <;> cases known <;> rename_i is <;> exact UInt8.toNat_inj.mp is.symm

section Soundness

variable {b : List UInt8}

/-- The element whose header is read and whose payload lies behind it. -/
theorem laid_element {pos len hdr : Nat} {code : UInt8} {typ : Typ} {payload : List UInt8}
    (read : readHeader b pos = some (code, len, hdr)) (known : Typ.ofCode code = some typ)
    (laid : Laid b (pos + hdr) payload (pos + hdr + len)) :
    (Width.ofHdr hdr).Fits payload.length ∧
      Laid b pos ((Width.ofHdr hdr).header typ.code payload.length ++ payload) (pos + hdr + len) := by
  obtain ⟨w, rfl, fits, _, start⟩ := readHeader_some read
  have size : len = payload.length := by
    have := laid.2
    omega
  rw [Width.ofHdr_size, Typ.code_of_ofCode known, ← size]
  refine ⟨fits, laid_append (q := pos + (1 + w.size)) ⟨start, ?_⟩ laid⟩
  rw [Width.length_header]

theorem layoutAt_laid {fuel pos p : Nat} {l : Layout}
    (items : ∀ stop pos ls p, layoutsAt b stop fuel pos = some (ls, p) →
      itemsFit ls ∧ Laid b pos (itemBytes ls) p ∧ stop ≤ p)
    (pairs : ∀ stop pos ls p, layoutPairsAt b stop fuel pos = some (ls, p) →
      pairsFit ls ∧ Laid b pos (pairBytes ls) p ∧ stop ≤ p)
    (read : layoutAt b (fuel + 1) pos = some (l, p)) : l.Fits ∧ Laid b pos l.bytes p := by
  rw [layoutAt] at read
  obtain ⟨⟨code, len, hdr⟩, header, read⟩ := Option.bind_eq_some_iff.mp read
  dsimp only at read
  split at read
  · cases read
  rename_i room
  obtain ⟨slice, length⟩ := laid_slice (p := pos + hdr) (Nat.le_add_right _ len) (Nat.le_of_not_lt room)
  cases known : Typ.ofCode code with
  | none => simp [known] at read
  | some typ =>
    rw [known] at read
    cases typ with
    | null | truth value =>
      dsimp only at read
      split at read
      · cases read
      · rename_i empty
        cases not_not.mp empty
        cases read
        have whole := laid_element header known (laid_nil b _)
        rw [List.append_nil] at whole
        exact whole
    | number kind =>
      dsimp only at read
      split at read
      · rename_i valid
        cases read
        obtain ⟨fits, laid⟩ := laid_element header known slice
        exact ⟨⟨fits, valid⟩, laid⟩
      · cases read
    | string kind =>
      cases read
      exact laid_element header known slice
    | array =>
      obtain ⟨⟨ls, q⟩, found, read⟩ := Option.bind_eq_some_iff.mp read
      dsimp only at read
      split at read
      · cases read
      · rename_i full
        cases not_not.mp full
        cases read
        obtain ⟨allFit, inside, _⟩ := items _ _ _ _ found
        obtain ⟨fits, laid⟩ := laid_element header known inside
        exact ⟨⟨fits, allFit⟩, laid⟩
    | object =>
      obtain ⟨⟨ls, q⟩, found, read⟩ := Option.bind_eq_some_iff.mp read
      dsimp only at read
      split at read
      · cases read
      · rename_i full
        cases not_not.mp full
        cases read
        obtain ⟨allFit, inside, _⟩ := pairs _ _ _ _ found
        obtain ⟨fits, laid⟩ := laid_element header known inside
        exact ⟨⟨fits, allFit⟩, laid⟩

theorem layoutAt_sound (b : List UInt8) (fuel : Nat) :
    (∀ pos l p, layoutAt b fuel pos = some (l, p) → l.Fits ∧ Laid b pos l.bytes p) ∧
    (∀ stop pos ls p, layoutsAt b stop fuel pos = some (ls, p) →
      itemsFit ls ∧ Laid b pos (itemBytes ls) p ∧ stop ≤ p) ∧
    (∀ stop pos ls p, layoutPairsAt b stop fuel pos = some (ls, p) →
      pairsFit ls ∧ Laid b pos (pairBytes ls) p ∧ stop ≤ p) := by
  induction fuel with
  | zero => simp [layoutAt, layoutsAt, layoutPairsAt]
  | succ fuel ih =>
    obtain ⟨element, items, pairs⟩ := ih
    refine ⟨fun _ _ _ => layoutAt_laid items pairs, ?_, ?_⟩
    · intro stop pos ls p read
      rw [layoutsAt] at read
      split at read
      · obtain ⟨⟨item, q⟩, first, read⟩ := Option.bind_eq_some_iff.mp read
        obtain ⟨⟨rest, r⟩, others, read⟩ := Option.bind_eq_some_iff.mp read
        cases read
        obtain ⟨fits, laid⟩ := element _ _ _ first
        obtain ⟨allFit, restLaid, past⟩ := items _ _ _ _ others
        exact ⟨⟨fits, allFit⟩, laid_append laid restLaid, past⟩
      · rename_i done
        cases read
        exact ⟨trivial, laid_nil b pos, Nat.le_of_not_lt done⟩
    · intro stop pos ls p read
      rw [layoutPairsAt] at read
      split at read
      · obtain ⟨⟨key, q⟩, first, read⟩ := Option.bind_eq_some_iff.mp read
        dsimp only at read
        split at read
        · cases read
        rename_i isString
        split at read
        · cases read
        obtain ⟨⟨value, r⟩, second, read⟩ := Option.bind_eq_some_iff.mp read
        obtain ⟨⟨rest, s⟩, others, read⟩ := Option.bind_eq_some_iff.mp read
        cases read
        obtain ⟨keyFits, keyLaid⟩ := element _ _ _ first
        obtain ⟨valueFits, valueLaid⟩ := element _ _ _ second
        obtain ⟨allFit, restLaid, past⟩ := pairs _ _ _ _ others
        exact ⟨⟨keyFits, by simpa using isString, valueFits, allFit⟩,
          laid_append (laid_append keyLaid valueLaid) restLaid, past⟩
      · rename_i done
        cases read
        exact ⟨trivial, laid_nil b pos, Nat.le_of_not_lt done⟩

end Soundness

section Completeness

variable {b : List UInt8}

theorem readHeader_layout {pos stop : Nat} {l : Layout} (fits : l.width.Fits l.payload.length)
    (laid : Laid b pos l.bytes stop) :
    readHeader b pos = some (l.typ.code, l.payload.length, 1 + l.width.size) ∧
      Laid b (pos + (1 + l.width.size)) l.payload stop ∧
      stop = pos + (1 + l.width.size) + l.payload.length ∧ stop ≤ b.length := by
  have bound := laid_bound laid (List.length_pos_iff.mp l.length_bytes_pos)
  rw [l.bytes_eq] at laid
  obtain ⟨header, payload⟩ := laid_split laid
  rw [Width.length_header] at payload
  exact ⟨readHeader_header l.width l.typ.code_lt fits header.1, payload, payload.2, bound⟩

theorem Layout.Fits.width {l : Layout} (fits : l.Fits) : l.width.Fits l.payload.length := by
  cases l with
  | null | truth => exact fits
  | string => exact fits
  | number => exact fits.1
  | array => exact fits.1
  | object => exact fits.1

theorem layoutAt_complete (b : List UInt8) (fuel : Nat) :
    (∀ pos l p, l.Fits → Laid b pos l.bytes p → 2 * l.bytes.length ≤ fuel →
      layoutAt b fuel pos = some (l, p)) ∧
    (∀ pos ls p, itemsFit ls → Laid b pos (itemBytes ls) p → 2 * (itemBytes ls).length + 1 ≤ fuel →
      layoutsAt b p fuel pos = some (ls, p)) ∧
    (∀ pos ls p, pairsFit ls → Laid b pos (pairBytes ls) p → 2 * (pairBytes ls).length + 1 ≤ fuel →
      layoutPairsAt b p fuel pos = some (ls, p)) := by
  induction fuel with
  | zero =>
    refine ⟨?_, ?_, ?_⟩
    · intro pos l p _ _ enough
      have := l.length_bytes_pos
      omega
    · intro pos ls p _ _ enough
      omega
    · intro pos ls p _ _ enough
      omega
  | succ fuel ih =>
    obtain ⟨element, items, pairs⟩ := ih
    refine ⟨?_, ?_, ?_⟩
    · intro pos l p fits laid enough
      obtain ⟨header, payload, stop, room⟩ := readHeader_layout fits.width laid
      rw [l.length_bytes] at enough
      rw [layoutAt, header]
      simp only [Option.bind_eq_bind, Option.bind_some, ← stop, Typ.ofCode_code, Width.ofHdr_size,
        if_neg (Nat.not_lt.mpr room), slice_of_laid payload]
      cases l with
      | null w => simp [Layout.payload, Layout.typ, Layout.width]
      | truth w value => simp [Layout.payload, Layout.typ, Layout.width]
      | number w kind s => simp [Layout.payload, Layout.typ, Layout.width, fits.2]
      | string w kind s => simp [Layout.payload, Layout.typ, Layout.width]
      | array w ls =>
        dsimp only [Layout.typ, Layout.width, Layout.payload] at payload enough ⊢
        rw [items _ ls p fits.2 payload (by omega)]
        simp
      | object w ls =>
        dsimp only [Layout.typ, Layout.width, Layout.payload] at payload enough ⊢
        rw [pairs _ ls p fits.2 payload (by omega)]
        simp
    · intro pos ls p fits laid enough
      rw [layoutsAt]
      cases ls with
      | nil =>
        rw [if_neg (by rw [laid.2]; exact Nat.lt_irrefl _), laid.2]
        rfl
      | cons item rest =>
        have positive := item.length_bytes_pos
        rw [itemBytes, List.length_append] at enough
        obtain ⟨first, others⟩ := laid_split laid
        have inside : pos < p := by
          have := laid.2
          rw [itemBytes, List.length_append] at this
          omega
        rw [if_pos inside, element pos item _ fits.1 first (by omega)]
        simp only [Option.bind_eq_bind, Option.bind_some]
        rw [items _ rest p fits.2 others (by omega)]
        rfl
    · intro pos ls p fits laid enough
      rw [layoutPairsAt]
      cases ls with
      | nil =>
        rw [if_neg (by rw [laid.2]; exact Nat.lt_irrefl _), laid.2]
        rfl
      | cons pair rest =>
        obtain ⟨key, value⟩ := pair
        obtain ⟨keyFits, isString, valueFits, restFit⟩ := fits
        have keyPositive := key.length_bytes_pos
        have positive := value.length_bytes_pos
        have total := laid.2
        rw [pairBytes, List.append_assoc, List.length_append, List.length_append] at enough total
        rw [pairBytes, List.append_assoc] at laid
        obtain ⟨first, others⟩ := laid_split laid
        obtain ⟨second, others⟩ := laid_split others
        have inside : pos < p := by omega
        have more : ¬ pos + key.bytes.length ≥ p := by omega
        rw [if_pos inside, element pos key _ keyFits first (by omega)]
        simp only [Option.bind_eq_bind, Option.bind_some, isString, Bool.not_true, if_neg more,
          Bool.false_eq_true, if_false]
        rw [element _ value _ valueFits second (by omega)]
        simp only [Option.bind_some]
        rw [pairs _ rest p restFit others (by omega)]
        rfl

end Completeness

end RustSql.Jsonb
