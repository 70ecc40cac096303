import RustSql.Storage.EncodedRows

/-! The layout of a row read from the part of its payload that is on the page. -/

namespace RustSql.Storage.RowCodec

open RustSql.Foundation RustSql.Types

/-- The bytes of the varint behind the tag. -/
def varintLen : Value → Nat
  | .text bytes | .blob bytes => (encodeUvarint bytes.length).length
  | .real f => if isCompact f then (encodeUvarint (zigzag (asI64 f))).length else 0
  | _ => 0

/-- The tag and the varint of a stored value. -/
def headerLen (rowidAlias : Option Nat) (col : Nat) (cell : Types.Cell) : Nat :=
  if rowidAlias = some col then 1 else 1 + varintLen cell.1

/-- The regions of stored values, from a position on. -/
def layout (rowidAlias : Option Nat) : Nat → Nat → List Types.Cell → List (Nat × Nat)
  | _, _, [] => []
  | col, pos, cell :: rest =>
    let width := (cellBytes rowidAlias col cell).length
    (asU32 pos, asU32 width) :: layout rowidAlias (col + 1) (pos + width) rest

/-- No cut through the header of the next values. -/
def HeadersWhole (rowidAlias : Option Nat) (k : Nat) : Nat → Nat → Nat → List Types.Cell → Prop
  | 0, _, _, _ | _ + 1, _, _, [] => True
  | left + 1, col, pos, cell :: rest =>
    ¬ (pos < k ∧ k < pos + headerLen rowidAlias col cell) ∧
      HeadersWhole rowidAlias k left (col + 1)
        (pos + (cellBytes rowidAlias col cell).length) rest

section Headers

theorem decodeUvarint_cut (n : Nat) {m shift acc : Nat} (short : m < (encodeUvarint n).length) :
    ∃ message, decodeUvarint shift acc ((encodeUvarint n).take m) = .error message := by
  induction n using Nat.strongRecOn generalizing m shift acc with
  | ind n ih =>
    cases m with
    | zero => exact ⟨_, rfl⟩
    | succ m =>
      rw [encodeUvarint] at short ⊢
      split at short
      next => simp at short
      next large =>
        have byte : ¬ (UInt8.ofNat (n % 128 + 128)).toNat < 128 := by simp; omega
        rw [if_neg large, List.take_succ_cons, decodeUvarint]
        split
        · exact ⟨_, rfl⟩
        · obtain ⟨message, failed⟩ := ih (n / 128) (by omega) (Nat.lt_of_succ_lt_succ short)
          exact ⟨message, failed⟩

theorem uvarint_cut {n m : Nat} {rest : List UInt8} (short : m < (encodeUvarint n).length) :
    uvarint ((encodeUvarint n ++ rest).take m) = none := by
  obtain ⟨message, failed⟩ := @decodeUvarint_cut n m 0 0 short
  rw [List.take_append_of_le_length short.le, uvarint, failed]

theorem uvarint_local {n m : Nat} {rest : List UInt8} (fits : n < 2 ^ 64)
    (whole : (encodeUvarint n).length ≤ m) :
    uvarint ((encodeUvarint n ++ rest).take m) = some (n, (encodeUvarint n).length) := by
  rw [List.take_append, List.take_of_length_le whole]
  exact uvarint_append n fits

/-- What the header of a value says when the varint behind its tag is there, or not. -/
def HeaderRead (hdr width m : Nat) (header : Checked LazyError (Nat × Nat)) : Prop :=
  if hdr ≤ m then ∃ body, header = .ok (hdr, body) ∧ 1 + hdr + body = width
  else ∃ message, header = Checked.fail (.corrupt message)

theorem headerRead_varint {n m width : Nat} {rest : List UInt8} {message : String}
    {body : Nat → Nat} (fits : n < 2 ^ 64)
    (exact : 1 + (encodeUvarint n).length + body n = width) :
    HeaderRead (encodeUvarint n).length width m (do
      let (len, hdr) ← Checked.mapError (fun _ => LazyError.corrupt message)
        (readUvarint ((encodeUvarint n ++ rest).take m))
      return (hdr, body len)) := by
  unfold HeaderRead
  split
  next whole =>
    rw [readUvarint_of_some (uvarint_local fits whole)]
    exact ⟨_, rfl, exact⟩
  next short =>
    obtain ⟨_, failed⟩ := readUvarint_of_none (uvarint_cut (Nat.lt_of_not_le short))
    rw [failed]
    exact ⟨_, rfl⟩

theorem headerRead_fixed {m width body : Nat} (exact : 1 + 0 + body = width) :
    HeaderRead 0 width m (.ok (0, body)) := by
  unfold HeaderRead
  rw [if_pos (Nat.zero_le _)]
  exact ⟨body, rfl, exact⟩

theorem spanHeader_encode {cell : Types.Cell} {tag : UInt8} {tail : List UInt8}
    (bytes : cell.1.encode = tag :: tail) (m : Nat) (rest : List UInt8) :
    HeaderRead (varintLen cell.1) cell.1.encode.length m
      (spanHeader tag ((tail ++ rest).take m)) := by
  obtain ⟨value, fits⟩ := cell
  rw [bytes]
  cases value with
  | null =>
    cases bytes
    exact headerRead_fixed rfl
  | integer i =>
    simp only [Value.encode] at bytes
    split at bytes
    · cases bytes
      exact headerRead_fixed rfl
    · split at bytes
      · cases bytes
        exact headerRead_fixed (by simp)
      · split at bytes
        · cases bytes
          exact headerRead_fixed (by simp)
        · split at bytes <;> cases bytes <;> exact headerRead_fixed (by simp)
  | real f =>
    simp only [Value.encode] at bytes
    simp only [varintLen]
    split at bytes
    next compact =>
      cases bytes
      rw [if_pos compact]
      refine @headerRead_varint _ m _ rest _ (fun _ => 0) (Value.zigzag_asI64_lt f) ?_
      rw [List.length_cons]
      omega
    next wide =>
      cases bytes
      rw [if_neg wide]
      exact headerRead_fixed (by simp)
  | text raw =>
    simp only [Value.encode] at bytes
    split at bytes <;>
      (cases bytes
       rw [List.append_assoc]
       refine @headerRead_varint _ m _ (raw ++ rest) _ (fun len => len) fits ?_
       rw [List.length_cons, List.length_append]
       omega)
  | blob raw =>
    cases bytes
    rw [List.append_assoc]
    refine @headerRead_varint _ m _ (raw ++ rest) _ (fun len => len) fits ?_
    rw [List.length_cons, List.length_append]
    omega

theorem spanHeader_cell {rowidAlias : Option Nat} {col : Nat} {cell : Types.Cell} {tag : UInt8}
    {tail : List UInt8} (bytes : cellBytes rowidAlias col cell = tag :: tail) (m : Nat)
    (rest : List UInt8) :
    HeaderRead (headerLen rowidAlias col cell - 1) (cellBytes rowidAlias col cell).length m
      (spanHeader tag ((tail ++ rest).take m)) := by
  unfold headerLen
  by_cases marked : rowidAlias = some col
  · rw [cellBytes, if_pos marked] at bytes ⊢
    rw [if_pos marked]
    cases bytes
    exact headerRead_fixed rfl
  · rw [cellBytes, if_neg marked] at bytes ⊢
    rw [if_neg marked, Nat.add_sub_cancel_left]
    exact spanHeader_encode bytes m rest

end Headers

section Spans

variable {payload : List UInt8} {rowidAlias : Option Nat} {k left col pos : Nat}
  {cells : List Types.Cell}

theorem columnRegions_layout (bounded : payload.length < 2 ^ 63)
    (here : At payload rowidAlias col pos cells) :
    columnRegions payload rowidAlias cells.length col pos =
      .ok (true, layout rowidAlias col pos cells) := by
  induction cells generalizing col pos with
  | nil =>
    have whole := here.done
    rw [List.length_nil, columnRegions, whole, beq_self_eq_true]
    rfl
  | cons cell cells ih =>
    rw [List.length_cons, columnRegions, if_pos here.before, layout]
    by_cases marked : rowidAlias = some col
    · have byte : @Checked.get Empty _ payload pos = .ok rowidMarker :=
        Checked.get_eq_ok.mpr (here.marker marked)
      rw [if_pos marked, byte, Checked.ok_bind, if_pos rfl, ih (here.next_marked marked),
        cellBytes, if_pos marked]
      rfl
    · have next := here.next_stored marked
      have behind := next.inside
      have skipped : valueEncodedLen (payload.drop pos) = .ok cell.1.encode.length :=
        (valueEncodedLen_eq_ok (drop_bounded bounded)).mpr ⟨here.claims bounded marked, by omega⟩
      rw [if_neg marked, Checked.sliceFrom_ok here.inside, Checked.ok_bind, skipped]
      simp only [Checked.attempt, Checked.ok_bind]
      rw [Checked.add_ok (by omega), Checked.ok_bind, if_neg (Nat.not_lt.mpr behind), ih next,
        cellBytes, if_neg marked]
      rfl

theorem layout_length : (layout rowidAlias col pos cells).length = cells.length := by
  induction cells generalizing col pos with
  | nil => rfl
  | cons cell cells ih => rw [layout, List.length_cons, List.length_cons, ih]

/-- The spans of so many columns, `none` behind the stored ones. -/
def spansOf (rowidAlias : Option Nat) (left col pos : Nat) (cells : List Types.Cell) :
    List (Option (Nat × Nat)) :=
  (List.range left).map fun i => (layout rowidAlias col pos cells)[i]?

theorem spansOf_cons (cell : Types.Cell) :
    spansOf rowidAlias (left + 1) col pos (cell :: cells) =
      some (asU32 pos, asU32 (cellBytes rowidAlias col cell).length) ::
        spansOf rowidAlias left (col + 1) (pos + (cellBytes rowidAlias col cell).length) cells := by
  rw [spansOf, List.range_succ_eq_map, List.map_cons, List.map_map]
  rfl

theorem spansOf_nil : spansOf rowidAlias left col pos [] = List.replicate left none := by
  rw [spansOf, layout, List.eq_replicate_iff]
  simp

theorem headersWhole_past (past : k ≤ pos) : HeadersWhole rowidAlias k left col pos cells := by
  induction left generalizing col pos cells with
  | zero => trivial
  | succ left ih =>
    cases cells with
    | nil => trivial
    | cons cell cells => exact ⟨fun cut => by omega, ih (Nat.le_add_right_of_le past)⟩

/-- A walk over a cut payload: the layout, a stop behind the cut, or a cut header. -/
theorem columnSpans_cut (bounded : payload.length < 2 ^ 63)
    (here : At payload rowidAlias col pos cells) :
    (HeadersWhole rowidAlias k left col pos cells →
      columnSpans (payload.take k) payload.length left pos =
          .ok (spansOf rowidAlias left col pos cells) ∨
        columnSpans (payload.take k) payload.length left pos = Checked.fail .headerPastLocal) ∧
    (¬ HeadersWhole rowidAlias k left col pos cells → ∃ message,
      columnSpans (payload.take k) payload.length left pos =
        Checked.fail (.corrupt message)) := by
  induction left generalizing col pos cells with
  | zero => exact ⟨fun _ => .inl rfl, fun cut => absurd trivial cut⟩
  | succ left ih =>
    cases cells with
    | nil =>
      refine ⟨fun _ => .inl ?_, fun cut => absurd trivial cut⟩
      rw [columnSpans_past here.done.ge, spansOf_nil]
    | cons cell cells =>
      have before := here.before
      rw [columnSpans, if_neg (Nat.not_le.mpr before)]
      by_cases cut : k ≤ pos
      · have short : (payload.take k).length ≤ pos := (List.length_take_le _ _).trans cut
        rw [if_pos short]
        exact ⟨fun _ => .inr rfl, fun broken => absurd (headersWhole_past cut) broken⟩
      obtain ⟨tag, tail, bytes⟩ := List.exists_cons_of_ne_nil (cellBytes_ne_nil rowidAlias col cell)
      have suffix := here.cons_suffix
      rw [bytes, List.cons_append] at suffix
      have length : (payload.take k).length = min k payload.length := List.length_take
      have first : payload[pos]? = some tag := by
        rw [← List.head?_drop, suffix]
        rfl
      have tagged : @Checked.get LazyError _ (payload.take k) pos = .ok tag :=
        Checked.get_eq_ok.mpr (by rw [List.getElem?_take_of_lt (Nat.lt_of_not_le cut), first])
      have behind : (payload.take k).drop (pos + 1) =
          (tail ++ encodeCells rowidAlias (col + 1) cells).take (k - (pos + 1)) := by
        rw [List.drop_take, ← List.drop_drop, suffix]
        rfl
      have next := here.next
      have inside := next.inside
      have header := spanHeader_cell bytes (k - (pos + 1)) (encodeCells rowidAlias (col + 1) cells)
      have positive : 0 < headerLen rowidAlias col cell := by
        unfold headerLen
        split <;> omega
      rw [if_neg (by omega), tagged, Checked.ok_bind, Checked.sliceFrom_ok (by omega),
        Checked.ok_bind, behind]
      unfold HeaderRead at header
      split at header
      next whole =>
        obtain ⟨body, read, size⟩ := header
        rw [read, Checked.ok_bind]
        simp only
        rw [if_neg (by omega), Checked.add_ok (by omega), Checked.ok_bind, size,
          Checked.add_ok (by omega), Checked.ok_bind, spansOf_cons]
        obtain ⟨fine, broken⟩ := ih next
        constructor
        · rintro ⟨_, later⟩
          rcases fine later with spans | stopped
          · rw [spans]
            exact .inl rfl
          · rw [stopped]
            exact .inr rfl
        · intro cuts
          obtain ⟨message, failed⟩ := broken fun later => cuts ⟨fun through => by omega, later⟩
          rw [failed]
          exact ⟨message, rfl⟩
      next short =>
        obtain ⟨message, failed⟩ := header
        rw [failed]
        exact ⟨fun whole => absurd ⟨by omega, by omega⟩ whole.1, fun _ => ⟨message, rfl⟩⟩

/-- Where a column of a row starts. -/
def columnStart (rowidAlias : Option Nat) (row : List Types.Cell) (col : Nat) : Nat :=
  (encodeCells rowidAlias 0 (row.take col)).length

theorem headersWhole_iff : HeadersWhole rowidAlias k left col pos cells ↔
    ∀ i cell, i < left → cells[i]? = some cell →
      ¬ (pos + (encodeCells rowidAlias col (cells.take i)).length < k ∧
        k < pos + (encodeCells rowidAlias col (cells.take i)).length +
          headerLen rowidAlias (col + i) cell) := by
  induction left generalizing col pos cells with
  | zero => exact iff_of_true trivial fun _ _ none => absurd none (Nat.not_lt_zero _)
  | succ left ih =>
    cases cells with
    | nil => exact iff_of_true trivial fun _ _ _ missing => by cases missing
    | cons head cells =>
      rw [HeadersWhole, ih]
      have shift (i : Nat) : pos + (cellBytes rowidAlias col head).length +
          (encodeCells rowidAlias (col + 1) (cells.take i)).length =
          pos + (encodeCells rowidAlias col ((head :: cells).take (i + 1))).length := by
        have bytes : (encodeCells rowidAlias col ((head :: cells).take (i + 1))).length =
          (cellBytes rowidAlias col head).length +
            (encodeCells rowidAlias (col + 1) (cells.take i)).length := List.length_append
        omega
      have column (i : Nat) : col + 1 + i = col + (i + 1) := by omega
      constructor
      · rintro ⟨first, others⟩ i cell inside found
        cases i with
        | zero =>
          cases found
          exact first
        | succ i =>
          have later := others i cell (Nat.lt_of_succ_lt_succ inside) found
          rwa [shift, column] at later
      · intro all
        refine ⟨all 0 head (Nat.succ_pos _) rfl, fun i cell inside found => ?_⟩
        rw [shift, column]
        exact all (i + 1) cell (Nat.succ_lt_succ inside) found

/-- The spans of a cut payload are the regions of the whole one, or the walk stops behind the cut,
unless the cut goes through the header of a visited column. -/
theorem columnSpansLocal_exact_iff (row : List Types.Cell) (rowidAlias : Option Nat)
    (payload : Payload) (encoded : payload.1 = encodeCells rowidAlias 0 row)
    (k nColsTotal maxCol : Nat) :
    ∃ regions, rowColumnRegions payload.1 row.length rowidAlias = .ok (true, regions) ∧
      regions.length = row.length ∧
      ((columnSpansLocal (payload.1.take k) payload.1.length nColsTotal maxCol =
            .ok ((List.range (spanCount nColsTotal maxCol)).map fun col => regions[col]?) ∨
          columnSpansLocal (payload.1.take k) payload.1.length nColsTotal maxCol =
            Checked.fail .headerPastLocal) ↔
        ∀ col cell, col < spanCount nColsTotal maxCol → row[col]? = some cell →
          ¬ (columnStart rowidAlias row col < k ∧
            k < columnStart rowidAlias row col + headerLen rowidAlias col cell)) := by
  have here : At payload.1 rowidAlias 0 0 row := encoded ▸ At.start rowidAlias row
  refine ⟨_, columnRegions_layout payload.2 here, layout_length, ?_⟩
  have whole := @headersWhole_iff rowidAlias k (spanCount nColsTotal maxCol) 0 0 row
  simp only [Nat.zero_add] at whole
  refine Iff.trans ?_ whole
  obtain ⟨fine, broken⟩ := @columnSpans_cut payload.1 rowidAlias k
    (spanCount nColsTotal maxCol) 0 0 row payload.2 here
  refine ⟨fun read => by_contra fun cut => ?_, fine⟩
  obtain ⟨message, failed⟩ := broken cut
  unfold columnSpansLocal at read
  rw [failed] at read
  rcases read with read | read <;> cases read

end Spans

theorem columnSpansLocal_exact_blob :
    ∃ regions, rowColumnRegions [8, 1, 9] 1 none = .ok (true, regions) ∧
      regions.length = [Types.Cell.blob [9] (by decide)].length ∧
      ((columnSpansLocal ([8, 1, 9].take 2) 3 1 0 =
            .ok ((List.range (spanCount 1 0)).map fun col => regions[col]?) ∨
          columnSpansLocal ([8, 1, 9].take 2) 3 1 0 = Checked.fail .headerPastLocal) ↔
        ∀ (col : Nat) (cell : Types.Cell), col < spanCount 1 0 →
          [Types.Cell.blob [9] (by decide)][col]? = some cell →
          ¬ (columnStart none [Types.Cell.blob [9] (by decide)] col < 2 ∧
            2 < columnStart none [Types.Cell.blob [9] (by decide)] col + headerLen none col cell)) :=
  columnSpansLocal_exact_iff [Types.Cell.blob [9] (by decide)] none ⟨[8, 1, 9], by decide⟩
    (by decide +kernel) 2 1 0

/-- A cut between the tag and the length of a blob is taken for corruption. -/
theorem columnSpansLocal_corrupt :
    encodeCells none 0 [Types.Cell.blob [9] (by decide)] = [8, 1, 9] ∧
      columnSpansLocal ([8, 1, 9].take 1) 3 1 0 =
        Checked.fail (.corrupt "truncated length varint in lazy layout walk") := by
  decide +kernel

end RustSql.Storage.RowCodec
