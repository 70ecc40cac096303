import RustSql.Session.Concat
import RustSql.Session.Invert

/-! An inverted changeset takes back what the changeset did, and inverts to it. -/

namespace RustSql.Session

open RustSql.Foundation RustSql.Types

theorem fromLittleEndian_lt (bytes : List UInt8) :
    fromLittleEndian bytes < 256 ^ bytes.length := by
  induction bytes with
  | nil => exact Nat.one_pos
  | cons b bytes ih =>
    rw [fromLittleEndian, List.length_cons, pow_succ]
    have byte := b.toNat_lt
    omega

theorem littleEndian_fromLittleEndian (bytes : List UInt8) :
    littleEndian bytes.length (fromLittleEndian bytes) = bytes := by
  induction bytes with
  | nil => rfl
  | cons b bytes ih =>
    have byte := b.toNat_lt
    rw [List.length_cons, fromLittleEndian, littleEndian, Nat.add_mul_mod_self_left,
      Nat.mod_eq_of_lt (by omega), Nat.add_mul_div_left _ _ (by decide),
      Nat.div_eq_of_lt (by omega), Nat.zero_add, ih, UInt8.ofNat_toNat]

theorem putI64_word {body : List UInt8} (eight : body.length = 8) :
    putI64 (UInt64.ofNat (fromLittleEndian body.reverse)) = body := by
  have small := fromLittleEndian_lt body.reverse
  have wide : body.reverse.length = 8 := by rw [List.length_reverse, eight]
  rw [wide] at small
  have back := littleEndian_fromLittleEndian body.reverse
  rw [wide] at back
  rw [putI64, UInt64.toNat_ofNat', Nat.mod_eq_of_lt (by omega), back, List.reverse_reverse]

/-- A canonical field is what its value is written as. -/
theorem written_valueOf {field : Field} (canonical : Canonical field) :
    written (valueOf field.1) = field.1 := by
  obtain ⟨bytes, shape⟩ := field
  cases shape with
  | bare kind => rcases kind with rfl | rfl | rfl <;> rfl
  | word kind eight =>
    have word := putI64_word eight
    rcases kind with rfl | rfl
    · exact congrArg (typeInt :: ·) word
    · exact congrArg (typeReal :: ·) word
  | @sized e header payload kind headed short =>
    have least := canonical e header payload rfl kind headed
    have behind : (header ++ payload).drop (getVarint (header ++ payload)).2 = payload := by
      rw [headed payload, List.drop_left]
    rcases kind with rfl | rfl
    · have value : valueOf (typeText :: (header ++ payload)) = .text payload :=
        congrArg SessVal.text behind
      simp only [value, written]
      rw [least]
    · have value : valueOf (typeBlob :: (header ++ payload)) = .blob payload :=
        congrArg SessVal.blob behind
      simp only [value, written]
      rw [least]

theorem written_fields {fields : List Field} (canonical : ∀ field ∈ fields, Canonical field) :
    (fields.map fun field => valueOf field.1).flatMap written = recordOf fields := by
  rw [List.flatMap_map, recordOf]
  exact List.flatMap_congr fun field member => written_valueOf (canonical field member)

theorem canonical_undefField : Canonical undefField := by
  intro e header payload same kind
  rw [show undefField.1 = [typeUndef] from rfl, List.cons.injEq] at same
  rcases kind with rfl | rfl <;> exact absurd same.1 (by decide)

theorem mem_swapOld {α : Type} {flags : List Bool} {old new : List α} {x : α}
    (member : x ∈ swapOld flags old new) : x ∈ old ∨ x ∈ new := by
  obtain ⟨i, inside, rfl⟩ := List.getElem_of_mem member
  simp only [swapOld, List.getElem_zipWith, List.getElem_zip]
  split
  · exact .inl (List.getElem_mem _)
  · exact .inr (List.getElem_mem _)

theorem mem_swapNew {α : Type} {flags : List Bool} {old : List α} {undef x : α}
    (member : x ∈ swapNew undef flags old) : x = undef ∨ x ∈ old := by
  obtain ⟨i, inside, rfl⟩ := List.getElem_of_mem member
  simp only [swapNew, List.getElem_zipWith]
  split
  · exact .inl rfl
  · exact .inr (List.getElem_mem _)

namespace FlatChange

variable {abPk : List UInt8} {c : FlatChange}

theorem inverse_insert (kind : c.op = .insert) :
    c.inverse abPk = { c with op := .delete } := by
  rw [inverse, kind]

theorem inverse_delete (kind : c.op = .delete) :
    c.inverse abPk = { c with op := .insert } := by
  rw [inverse, kind]

theorem inverse_update (kind : c.op = .update) :
    c.inverse abPk = ⟨c.op, c.indirect,
      swapOld (keyFlags abPk) (c.fields.take abPk.length) (c.fields.drop abPk.length) ++
        swapNew undefField (keyFlags abPk) (c.fields.take abPk.length)⟩ := by
  rw [inverse, kind]

/-- What an inverse is made of. -/
theorem inverse_spec (sound : Sound abPk (c.op, c.fields))
    (canonical : ∀ field ∈ c.fields, Canonical field) :
    Sound abPk ((c.inverse abPk).op, (c.inverse abPk).fields) ∧
      (∀ field ∈ (c.inverse abPk).fields, Canonical field) ∧
      (c.inverse abPk).inverse abPk = c ∧ (c.inverse abPk).bytes.length = c.bytes.length := by
  obtain ⟨op, indirect, fields⟩ := c
  cases op with
  | insert => exact ⟨sound, canonical, rfl, rfl⟩
  | delete => exact ⟨sound, canonical, rfl, rfl⟩
  | update =>
    obtain ⟨wide, columns⟩ := sound
    obtain ⟨again, olds, news, length⟩ := columns.inverse
    obtain ⟨cut, _⟩ := again.widths
    rw [inverse_update rfl]
    simp only
    refine ⟨⟨?_, ?_⟩, ?_, ?_, ?_⟩
    · rw [List.length_append, again.widths.1, again.widths.2]
      omega
    · rw [List.take_left' cut, List.drop_left' cut]
      exact again
    · intro field member
      rcases List.mem_append.mp member with first | second
      · rcases mem_swapOld first with old | new
        · exact canonical field (List.mem_of_mem_take old)
        · exact canonical field (List.mem_of_mem_drop new)
      · rcases mem_swapNew second with rfl | old
        · exact canonical_undefField
        · exact canonical field (List.mem_of_mem_take old)
    · rw [inverse_update rfl]
      simp only
      rw [List.take_left' cut, List.drop_left' cut, olds, news, List.take_append_drop]
    · simp only [bytes, List.length_cons, recordOf_append, List.length_append, length]
      rw [← List.length_append, ← recordOf_append, List.take_append_drop]

end FlatChange

theorem FlatTable.inverse_spec {t : FlatTable} (well : t.WellFormed) :
    t.inverse.WellFormed ∧ t.inverse.inverse = t ∧ t.inverse.bytes.length = t.bytes.length := by
  have each := fun c member => FlatChange.inverse_spec (well.sound c member) (well.canonical c member)
  refine ⟨⟨well.headed, ?_, ?_⟩, ?_, ?_⟩
  · intro c member
    obtain ⟨c, first, rfl⟩ := List.mem_map.mp member
    exact (each c first).1
  · intro c member
    obtain ⟨c, first, rfl⟩ := List.mem_map.mp member
    exact (each c first).2.1
  · have same : (t.changes.map (FlatChange.inverse t.abPk)).map (FlatChange.inverse t.abPk) =
        t.changes := by
      rw [List.map_map, @List.map_congr_left _ _ _ _ id, List.map_id]
      exact fun c member => (each c member).2.2.1
    simp only [inverse]
    rw [same]
  · simp only [bytes, inverse, List.length_append]
    congr 1
    rw [List.flatMap_map, List.length_flatMap, List.length_flatMap]
    congr 1
    exact List.map_congr_left fun c member => (each c member).2.2.2

section Steps

variable {cs rest : List UInt8} {st : InvertState}

theorem invertFrom_step {e : UInt8} {out : List UInt8} {st' : InvertState}
    (there : cs.drop st.pos = e :: rest) (step : invertStep cs st e = .ok (out, st')) :
    invertFrom cs st = invertFrom cs st' >>= fun behind => .ok (out ++ behind) := by
  have inside : st.pos < cs.length := @length_of_drop _ _ [e] _ _ there (List.cons_ne_nil _ _)
  have byte : cs[st.pos] = e := by
    have first := congrArg List.head? there
    rw [List.head?_drop, List.getElem?_eq_getElem inside] at first
    exact Option.some.inj first
  rw [invertFrom, dif_pos inside]
  split
  next fault other =>
    rw [byte, step] at other
    cases other
  next out' st₁ other =>
    rw [byte, step] at other
    cases other
    rfl

theorem skipFields_record {pos : Nat} {fields : List Field} (fits : cs.length < 2 ^ 64)
    (there : cs.drop pos = recordOf fields ++ rest) :
    skipFields cs fields.length pos = .ok (pos + (recordOf fields).length) := by
  induction fields generalizing pos with
  | nil => rfl
  | cons field fields ih =>
    rw [recordOf_cons, List.append_assoc] at there
    have inside := length_of_drop there field.2.ne_nil
    rw [List.length_cons, skipFields, there, serialLen_field, Checked.ok_bind,
      Checked.add_ok (by omega), Checked.ok_bind, if_neg (by omega),
      ih (drop_append_of_eq there), recordOf_cons, List.length_append, Nat.add_assoc]

theorem invertHeader_table {t : FlatTable} {pos : Nat} (fits : cs.length < 2 ^ 64)
    (headed : ChangesetIter.Headed t.name t.abPk.length t.abPk)
    (there : cs.drop pos = ChangeGroup.headerBytes t.head ++ rest) :
    invertHeader cs pos = .ok (ChangeGroup.headerBytes t.head,
      ⟨pos + (ChangeGroup.headerBytes t.head).length, t.abPk.length, keyFlags t.abPk⟩) := by
  have shape : ChangeGroup.headerBytes t.head =
      0x54 :: (putVarint t.abPk.length ++ (t.abPk ++ (t.name ++ [0]))) := by
    simp [ChangeGroup.headerBytes, FlatTable.head]
  have whole := length_of_drop there (by rw [shape]; exact List.cons_ne_nil _ _)
  have length := congrArg List.length shape
  simp only [List.length_cons, List.length_append, List.length_nil] at length
  have some := headed.some
  have bytes : cs.drop pos =
      0x54 :: (putVarint t.abPk.length ++ (t.abPk ++ (t.name ++ 0 :: rest))) := by
    rw [there, shape]
    simp
  have count : cs.drop (pos + 1) = putVarint t.abPk.length ++ (t.abPk ++ (t.name ++ 0 :: rest)) :=
    @drop_append_of_eq _ _ [0x54] _ _ bytes
  have flags := drop_append_of_eq count
  have name := drop_append_of_eq flags
  have read := header_putVarint (by omega : t.abPk.length < 2 ^ 64) (t.abPk ++ (t.name ++ 0 :: rest))
  rw [invertHeader, count, read]
  simp only
  rw [if_neg (by omega), Checked.add_ok (by omega), Checked.ok_bind, if_neg (by omega),
    sliceRange_front flags (by omega) rfl, Checked.ok_bind, name,
    ChangesetIter.findIdx?_zero headed.plain]
  simp only
  rw [sliceRange_front there (by omega) (by omega), Checked.ok_bind, length]
  simp only [keyFlags]
  congr 3
  omega

/-- A change is inverted. -/
theorem invertStep_change {c : FlatChange} {abPk : List UInt8} (fits : cs.length < 2 ^ 64)
    (cols : st.nCol = abPk.length) (flags : st.abPk = keyFlags abPk)
    (sound : Sound abPk (c.op, c.fields)) (canonical : ∀ field ∈ c.fields, Canonical field)
    (there : cs.drop st.pos = c.bytes ++ rest) :
    invertStep cs st c.op.code =
      .ok ((c.inverse abPk).bytes, { st with pos := st.pos + c.bytes.length }) := by
  obtain ⟨op, indirect, fields⟩ := c
  have front : cs.drop st.pos = op.code :: indirect :: (recordOf fields ++ rest) := there
  have body : cs.drop (st.pos + 2) = recordOf fields ++ rest :=
    @drop_append_of_eq _ _ [op.code, indirect] _ _ front
  have flag : @Checked.get String _ cs (st.pos + 1) = .ok indirect := by
    rw [Checked.get_eq_ok, ← List.head?_drop]
    have second := @drop_append_of_eq _ _ [op.code] _ _ front
    exact congrArg List.head? second
  have inside := @length_of_drop _ _ [op.code] _ _ front (List.cons_ne_nil _ _)
  have whole : st.pos + 2 + (recordOf fields).length ≤ cs.length := by
    have length := congrArg List.length front
    simp only [List.length_drop, List.length_cons, List.length_append] at length
    omega
  have length : (⟨op, indirect, fields⟩ : FlatChange).bytes.length = 2 + (recordOf fields).length := by
    rw [FlatChange.bytes, List.length_cons, List.length_cons]
    dsimp only
    omega
  have record {flipped : Op} (wide : fields.length = abPk.length) :
      invertRecord cs st flipped = .ok (flipped.code :: indirect :: recordOf fields,
        { st with pos := st.pos + (2 + (recordOf fields).length) }) := by
    have skipped := skipFields_record fits body
    rw [wide, ← cols] at skipped
    rw [invertRecord, flag, Checked.ok_bind, skipped, Checked.ok_bind,
      sliceRange_front body whole rfl, Checked.ok_bind, Nat.add_assoc]
  rw [invertStep, if_neg (fun same => ChangesetIter.code_opens_nothing op (.inl same)), Op.ofCode_code,
    length]
  cases op with
  | insert => exact record sound.1
  | delete => exact record sound.1
  | update =>
    obtain ⟨wide, columns⟩ := sound
    obtain ⟨olds, news⟩ := columns.widths
    have split : recordOf fields = recordOf (fields.take abPk.length) ++
        recordOf (fields.drop abPk.length) := by
      rw [← recordOf_append, List.take_append_drop]
    rw [split, List.append_assoc] at body
    have first := parseRecord_fields _ fits body
    have second := parseRecord_fields _ fits (drop_append_of_eq body)
    rw [olds] at first
    rw [news] at second
    obtain ⟨_, kept, _, _⟩ := @FlatChange.inverse_spec abPk ⟨.update, indirect, fields⟩ ⟨wide, columns⟩ canonical
    rw [FlatChange.inverse_update rfl] at kept ⊢
    simp only at kept ⊢
    rw [invertUpdate, flag, Checked.ok_bind, cols, first, Checked.ok_bind]
    simp only
    rw [second, Checked.ok_bind, flags, swapOld_map,
      show SessVal.undef = valueOf undefField.1 from rfl,
      @swapNew_map _ _ (fun field : Field => valueOf field.1) undefField,
      written_fields (fun field member => kept field (List.mem_append_left _ member)),
      written_fields (fun field member => kept field (List.mem_append_right _ member)),
      FlatChange.bytes, recordOf_append, split, List.length_append]
    simp only [Nat.add_assoc]

theorem invertFrom_changes {changes : List FlatChange} {abPk : List UInt8} (fits : cs.length < 2 ^ 64)
    (cols : st.nCol = abPk.length) (flags : st.abPk = keyFlags abPk)
    (sound : ∀ c ∈ changes, Sound abPk (c.op, c.fields))
    (canonical : ∀ c ∈ changes, ∀ field ∈ c.fields, Canonical field)
    (there : cs.drop st.pos = changes.flatMap FlatChange.bytes ++ rest) :
    invertFrom cs st = invertFrom cs { st with
        pos := st.pos + (changes.flatMap FlatChange.bytes).length } >>= fun behind =>
      .ok ((changes.map (FlatChange.inverse abPk)).flatMap FlatChange.bytes ++ behind) := by
  induction changes generalizing st with
  | nil =>
    rw [List.flatMap_nil, List.length_nil, Nat.add_zero, List.map_nil, List.flatMap_nil]
    simp only [List.nil_append]
    cases invertFrom cs st <;> rfl
  | cons c changes ih =>
    rw [List.flatMap_cons, List.append_assoc] at there
    have step := invertStep_change fits cols flags (sound c List.mem_cons_self)
      (canonical c List.mem_cons_self) there
    have behind := @ih { st with pos := st.pos + c.bytes.length } cols flags
      (fun c member => sound c (List.mem_cons_of_mem _ member))
      (fun c member => canonical c (List.mem_cons_of_mem _ member)) (drop_append_of_eq there)
    rw [invertFrom_step there step, behind, List.flatMap_cons, List.length_append, List.map_cons,
      List.flatMap_cons]
    simp only [Nat.add_assoc, List.append_assoc]
    cases invertFrom cs _ <;> rfl

theorem invertFrom_tables {tables : List FlatTable} (fits : cs.length < 2 ^ 64)
    (well : ∀ t ∈ tables, t.WellFormed) (there : cs.drop st.pos = changesetBytes tables) :
    invertFrom cs st = .ok (changesetBytes (tables.map FlatTable.inverse)) := by
  induction tables generalizing st with
  | nil =>
    have ended := List.drop_eq_nil_iff.mp there
    rw [invertFrom, dif_neg (by omega)]
    rfl
  | cons t tables ih =>
    have first := well t List.mem_cons_self
    rw [changesetBytes, List.flatMap_cons, FlatTable.bytes, List.append_assoc] at there
    have opens : cs.drop st.pos = 0x54 :: ((ChangeGroup.headerBytes t.head).tail ++
        (t.changes.flatMap FlatChange.bytes ++ tables.flatMap FlatTable.bytes)) := there
    have step : invertStep cs st 0x54 = _ := invertHeader_table fits first.headed there
    have changes := @invertFrom_changes cs (tables.flatMap FlatTable.bytes)
      ⟨st.pos + (ChangeGroup.headerBytes t.head).length, t.abPk.length, keyFlags t.abPk⟩ t.changes
      t.abPk fits rfl rfl first.sound first.canonical (drop_append_of_eq there)
    rw [invertFrom_step opens step, changes]
    rw [@ih _ (fun t member => well t (List.mem_cons_of_mem _ member))
      (drop_append_of_eq (drop_append_of_eq there)), Checked.ok_bind, Checked.ok_bind]
    rw [changesetBytes, changesetBytes, List.map_cons, List.flatMap_cons, FlatTable.bytes,
      List.append_assoc]
    rfl

end Steps

/-- The changes of a table as they are shown. -/
def FlatTable.shown (t : FlatTable) : List Change :=
  t.changes.map fun c => ChangesetIter.shownChange t.head c.op c.indirect c.fields

namespace ChangesetIter

variable {it : ChangesetIter}

theorem foldChanges_flat (fits : it.data.length < 2 ^ 64) (straight : it.bInvert = false)
    {t : FlatTable} {changes : List FlatChange}
    (headed : Headed t.name t.abPk.length t.abPk)
    (sound : ∀ c ∈ changes, Sound t.abPk (c.op, c.fields)) {rest : List UInt8}
    (there : it.ahead = changes.flatMap FlatChange.bytes ++ rest) (seen : List Change) :
    (it.under t.head).foldChanges (fun seen change => .ok (seen ++ [change])) seen =
      ((it.under t.head).skip (changes.flatMap FlatChange.bytes).length).foldChanges
        (fun seen change => .ok (seen ++ [change]))
        (seen ++ changes.map fun c => shownChange t.head c.op c.indirect c.fields) := by
  induction changes generalizing it seen with
  | nil =>
    rw [List.map_nil, List.append_nil]
    rfl
  | cons c changes ih =>
    rw [List.flatMap_cons, List.append_assoc] at there
    have wide : c.fields.length = entryWidth t.abPk false c.op :=
      (sound c List.mem_cons_self).wide
    have length : c.bytes.length = 2 + (recordOf c.fields).length := by
      rw [FlatChange.bytes, List.length_cons, List.length_cons]
      omega
    rw [foldChanges_some (@next_change it t.head _ c.op c.indirect c.fields fits straight headed.named
      rfl (fun both => absurd both.1 nofun) wide there), Checked.ok_bind]
    have rest := @ih (it.skip c.bytes.length) fits straight
      (fun c member => sound c (List.mem_cons_of_mem _ member)) (ahead_skip there)
      (seen ++ [shownChange t.head c.op c.indirect c.fields])
    rw [List.append_assoc, List.singleton_append, length] at rest
    rw [List.flatMap_cons, List.length_append, List.map_cons]
    refine Eq.trans rest ?_
    simp only [skip, under, length, Nat.add_assoc]

theorem foldChanges_flats (fits : it.data.length < 2 ^ 64) (straight : it.bInvert = false)
    {tables : List FlatTable} (well : ∀ t ∈ tables, t.WellFormed)
    (there : it.ahead = changesetBytes tables) (seen : List Change) :
    it.foldChanges (fun seen change => .ok (seen ++ [change])) seen =
      .ok (seen ++ tables.flatMap FlatTable.shown) := by
  induction tables generalizing it seen with
  | nil =>
    have done : it.next = .ok (none, it) := by rw [next, readOp_end there, Checked.ok_bind]
    rw [foldChanges_none done, List.flatMap_nil, List.append_nil]
  | cons t tables ih =>
    have first := well t List.mem_cons_self
    rw [changesetBytes, List.flatMap_cons, FlatTable.bytes, List.append_assoc] at there
    have behind : ((it.skip (ChangeGroup.headerBytes t.head).length).under t.head).ahead =
        t.changes.flatMap FlatChange.bytes ++ changesetBytes tables := ahead_skip there
    rw [foldChanges_next (next_header fits first.headed there),
      @foldChanges_flat (it.skip (ChangeGroup.headerBytes t.head).length) fits straight t
        t.changes first.headed first.sound _ behind]
    have rest := @ih (((it.skip (ChangeGroup.headerBytes t.head).length).under t.head).skip
        (t.changes.flatMap FlatChange.bytes).length) fits straight
      (fun t member => well t (List.mem_cons_of_mem _ member)) (ahead_skip behind) (seen ++ t.shown)
    rw [List.flatMap_cons, ← List.append_assoc]
    exact rest

end ChangesetIter

theorem all_changeset {tables : List FlatTable} (well : ∀ t ∈ tables, t.WellFormed)
    (fits : (changesetBytes tables).length < 2 ^ 64) :
    (ChangesetIter.start (changesetBytes tables) false).all =
      .ok (tables.flatMap FlatTable.shown) :=
  ChangesetIter.foldChanges_flats fits rfl well rfl []

theorem pickKey_take {α : Type} (abPk : List UInt8) (xs : List α) :
    pickKey abPk (xs.take abPk.length) = pickKey abPk xs := by
  induction abPk generalizing xs with
  | nil => cases xs <;> rfl
  | cons pk abPk ih =>
    match xs with
    | [] => rfl
    | x :: xs => rw [List.length_cons, List.take_succ_cons, pickKey, pickKey, ih]

theorem pickKey_swapOld {α : Type} {abPk : List UInt8} {old new : List α}
    (wide : old.length = abPk.length) (wide' : new.length = abPk.length) :
    pickKey abPk (swapOld (keyFlags abPk) old new) = pickKey abPk old := by
  induction abPk generalizing old new with
  | nil => rw [List.length_eq_zero_iff.mp wide]; rfl
  | cons pk abPk ih =>
    match old, new with
    | o :: old, n :: new =>
      rw [swapOld_cons, pickKey, pickKey, ih (Nat.succ.inj wide) (Nat.succ.inj wide')]
      by_cases key : pk ≠ 0
      · rw [if_pos key, if_pos key, if_pos key]
      · rw [if_neg key, if_neg key]

/-- What a change does to a row, its inverse takes back, at the same key. -/
theorem FlatChange.inverse_undoes {abPk : List UInt8} {c : FlatChange}
    (sound : Sound abPk (c.op, c.fields)) {row row' : Option Row}
    (applied : rowApply abPk.length (some (c.op, c.fields)) row = some row') :
    rowApply abPk.length (some ((c.inverse abPk).op, (c.inverse abPk).fields)) row' = some row ∧
      pickKey abPk (c.inverse abPk).fields = pickKey abPk c.fields := by
  obtain ⟨op, indirect, fields⟩ := c
  cases op with
  | insert =>
    obtain ⟨rfl, rfl⟩ := rowApply_insert applied
    refine ⟨?_, rfl⟩
    rw [inverse_insert rfl]
    exact if_pos ((agrees_full sound.2).mpr rfl)
  | delete =>
    obtain ⟨r, rfl, agree, rfl⟩ := rowApply_delete applied
    refine ⟨?_, rfl⟩
    rw [inverse_delete rfl, ← (agrees_full sound.2).mp agree]
    rfl
  | update =>
    obtain ⟨r, rfl, agree, rfl⟩ := rowApply_update applied
    obtain ⟨_, columns⟩ := sound
    obtain ⟨again, back⟩ := columns.undo agree
    obtain ⟨sound', _⟩ := columns.inverse
    have cut := sound'.widths.1
    rw [inverse_update rfl]
    simp only
    refine ⟨?_, ?_⟩
    · rw [rowApply, List.take_left' cut, List.drop_left' cut, if_pos again, back]
    · rw [← pickKey_take, List.take_left' cut, pickKey_swapOld columns.widths.1 columns.widths.2,
        pickKey_take]

theorem applyChange_shown {t : FlatTable} {op : Op} {fields : List Field} (sound : Sound t.abPk (op, fields))
    (indirect : UInt8) (s : Store) :
    applyChange s (ChangesetIter.shownChange t.head op indirect fields) =
      (rowApply t.abPk.length (some (op, fields))
        (s (lowered t.name, (pickKey t.abPk fields).map Subtype.val))).map
          (Function.update s (lowered t.name, (pickKey t.abPk fields).map Subtype.val)) := by
  have read : fieldsOf (entryWidth t.abPk false op) (recordOf fields) = some fields :=
    fieldsOf_record sound.wide
  rw [applyChange]
  simp only [ChangesetIter.shownChange, FlatTable.head, rowIdOf]
  rw [read, Option.map_eq_bind]
  rfl

theorem applyChange_inverse {t : FlatTable} {c : FlatChange} (sound : Sound t.abPk (c.op, c.fields))
    (sound' : Sound t.abPk ((c.inverse t.abPk).op, (c.inverse t.abPk).fields)) {s s' : Store}
    (applied : applyChange s (ChangesetIter.shownChange t.head c.op c.indirect c.fields) = some s') :
    applyChange s' (ChangesetIter.shownChange t.head (c.inverse t.abPk).op (c.inverse t.abPk).indirect
      (c.inverse t.abPk).fields) = some s := by
  rw [applyChange_shown sound] at applied
  obtain ⟨row, done, rfl⟩ := Option.map_eq_some_iff.mp applied
  obtain ⟨undone, key⟩ := FlatChange.inverse_undoes sound done
  rw [applyChange_shown sound', key, Function.update_self, undone, Option.map_some, Function.update_idem,
    Function.update_eq_self]

/-- The changes of a changeset on a store, the last one first. -/
noncomputable def applyBack (bytes : List UInt8) (s : Store) : Option Store :=
  match (ChangesetIter.start bytes false).all with
  | .ok changes => changes.reverse.foldlM applyChange s
  | .error _ => none

theorem foldlM_undo {σ α β : Type} {step : σ → α → Option σ} {back : σ → β → Option σ}
    {changes : List α} {inverses : List β}
    (each : List.Forall₂ (fun c c' => ∀ s s', step s c = some s' → back s' c' = some s)
      changes inverses) {s s' : σ} (done : changes.foldlM step s = some s') :
    inverses.reverse.foldlM back s' = some s := by
  induction each generalizing s with
  | nil => exact done.symm
  | @cons c c' changes inverses first rest ih =>
    obtain ⟨s₁, stepped, later⟩ := Option.bind_eq_some_iff.mp done
    rw [List.reverse_cons, List.foldlM_append, ih later]
    exact (bind_pure _).trans (first s s₁ stepped)

theorem shown_inverses {tables : List FlatTable} (well : ∀ t ∈ tables, t.WellFormed) :
    List.Forall₂ (fun c c' => ∀ s s', applyChange s c = some s' → applyChange s' c' = some s)
      (tables.flatMap FlatTable.shown) ((tables.map FlatTable.inverse).flatMap FlatTable.shown) := by
  have same : List.Forall₂ (fun t t' => t = t' ∧ t ∈ tables) tables tables :=
    List.forall₂_same.mpr fun t member => ⟨rfl, member⟩
  rw [List.flatMap_map]
  refine List.rel_flatMap same fun t t' both => ?_
  obtain ⟨rfl, here⟩ := both
  have sound := (well t here).sound
  have canonical := (well t here).canonical
  rw [FlatTable.shown, FlatTable.shown, FlatTable.inverse, List.map_map,
    List.forall₂_map_left_iff, List.forall₂_map_right_iff, List.forall₂_same]
  intro c member s s' applied
  exact applyChange_inverse (sound c member)
    (FlatChange.inverse_spec (sound c member) (canonical c member)).1 applied

/-- What a well-formed changeset inverts to, inverts to it and takes its changes back. -/
theorem invert_tables {tables : List FlatTable} (well : ∀ t ∈ tables, t.WellFormed)
    (fits : (changesetBytes tables).length < 2 ^ 63) :
    ∃ inverse, invert (changesetBytes tables) = .ok inverse ∧
      invert inverse = .ok (changesetBytes tables) ∧
      ∀ s s', applySet (changesetBytes tables) s = some s' → applyBack inverse s' = some s := by
  have well' : ∀ t ∈ tables.map FlatTable.inverse, t.WellFormed := by
    intro t member
    obtain ⟨t, here, rfl⟩ := List.mem_map.mp member
    exact (FlatTable.inverse_spec (well t here)).1
  have twice : (tables.map FlatTable.inverse).map FlatTable.inverse = tables := by
    rw [List.map_map, @List.map_congr_left _ _ _ _ id, List.map_id]
    exact fun t member => (FlatTable.inverse_spec (well t member)).2.1
  have length : (changesetBytes (tables.map FlatTable.inverse)).length =
      (changesetBytes tables).length := by
    rw [changesetBytes, changesetBytes, List.flatMap_map, List.length_flatMap, List.length_flatMap]
    congr 1
    exact List.map_congr_left fun t member => (FlatTable.inverse_spec (well t member)).2.2
  refine ⟨changesetBytes (tables.map FlatTable.inverse), invertFrom_tables (by omega) well rfl, ?_, ?_⟩
  · have again : invert (changesetBytes (tables.map FlatTable.inverse)) = _ :=
      invertFrom_tables (by omega) well' rfl
    rw [again, twice]
  · intro s s' applied
    rw [applySet, all_changeset well (by omega)] at applied
    rw [applyBack, all_changeset well' (by omega)]
    exact foldlM_undo (shown_inverses well) applied

/-- Inversion of a well-formed changeset is an involution, and what it gives takes the changes
back. -/
theorem invert_undoes (tables : List FlatTable) (well : ∀ t ∈ tables, t.WellFormed)
    (fits : (changesetBytes tables).length < 2 ^ 63) :
    ∃ inverse, invert (changesetBytes tables) = .ok inverse ∧
      invert inverse = .ok (changesetBytes tables) ∧
      ∀ s s', applySet (changesetBytes tables) s = some s' → applyBack inverse s' = some s :=
  invert_tables well fits

/-- A table with an insert and an update of the row. -/
def insertAndUpdate : FlatTable :=
  ⟨ascii "t", [1, 0], [
    ⟨.insert, 0, [ChangeGroup.integerField 1, ChangeGroup.integerField 2]⟩,
    ⟨.update, 0, [ChangeGroup.integerField 1, ChangeGroup.integerField 2, undefField,
      ChangeGroup.integerField 3]⟩]⟩

theorem canonical_integerField (i : Int64) : Canonical (ChangeGroup.integerField i) := by
  intro e header payload same kind
  have first : e = typeInt := (List.cons.inj same).1.symm
  rw [first] at kind
  rcases kind with bad | bad <;> exact absurd bad (by decide)

theorem insertAndUpdate_wellFormed : insertAndUpdate.WellFormed := by
  refine ⟨⟨by decide, by decide, by decide, rfl, by decide⟩, ?_, ?_⟩
  · intro c member
    rcases List.mem_pair.mp member with rfl | rfl
    · exact ⟨rfl, by decide⟩
    · exact ⟨rfl, ⟨rfl, rfl⟩, rfl, trivial⟩
  · intro c member field inside
    rcases List.mem_pair.mp member with rfl | rfl
    · rcases List.mem_pair.mp inside with rfl | rfl <;> exact canonical_integerField _
    · rcases List.mem_cons.mp inside with rfl | inside
      · exact canonical_integerField _
      · rcases List.mem_cons.mp inside with rfl | inside
        · exact canonical_integerField _
        · rcases List.mem_pair.mp inside with rfl | rfl
          · exact canonical_undefField
          · exact canonical_integerField _

theorem invert_undoes_updated :
    ∃ inverse, invert (changesetBytes [insertAndUpdate]) = .ok inverse ∧
      invert inverse = .ok (changesetBytes [insertAndUpdate]) ∧
      ∀ s s', applySet (changesetBytes [insertAndUpdate]) s = some s' →
        applyBack inverse s' = some s :=
  invert_undoes [insertAndUpdate]
    (fun t member => List.mem_singleton.mp member ▸ insertAndUpdate_wellFormed) (by decide)

/-- The removal of the row as it has been updated. -/
def deleteUpdated : FlatTable :=
  ⟨ascii "t", [1, 0], [⟨.delete, 0, [ChangeGroup.integerField 1, ChangeGroup.integerField 3]⟩]⟩

theorem deleteUpdated_wellFormed : deleteUpdated.WellFormed := by
  refine ⟨⟨by decide, by decide, by decide, rfl, by decide⟩, ?_, ?_⟩
  · intro c member
    rw [List.mem_singleton.mp member]
    exact ⟨rfl, by decide⟩
  · intro c member field inside
    rw [List.mem_singleton.mp member] at inside
    rcases List.mem_pair.mp inside with rfl | rfl <;> exact canonical_integerField _

def rowKey : RowId := (lowered (ascii "t"), [(ChangeGroup.integerField 1).1])

/-- The row that the two changesets are about, with a value. -/
def oneRow (value : Int64) : Store :=
  Function.update (fun _ => none) rowKey
    (some [ChangeGroup.integerField 1, ChangeGroup.integerField value])

theorem oneRow_update (value : Int64) {row : Option Row} {body : Body}
    (applied : rowApply 2 (some body)
      (some [ChangeGroup.integerField 1, ChangeGroup.integerField value]) = some row) :
    (rowApply 2 (some body) (oneRow value rowKey)).map (Function.update (oneRow value) rowKey) =
      some (Function.update (fun _ => none) rowKey row) := by
  rw [oneRow, Function.update_self, applied, Option.map_some, Function.update_idem]

theorem insertAndUpdate_applies : applySet (changesetBytes [insertAndUpdate]) (fun _ => none) = some (oneRow 3) := by
  have well : ∀ t ∈ [insertAndUpdate], t.WellFormed := fun t member =>
    List.mem_singleton.mp member ▸ insertAndUpdate_wellFormed
  have inserted := applyChange_shown (insertAndUpdate_wellFormed.sound _ List.mem_cons_self) 0 fun _ => none
  have updated := applyChange_shown (insertAndUpdate_wellFormed.sound _ (.tail _ List.mem_cons_self)) 0 (oneRow 2)
  rw [applySet, all_changeset well (by decide)]
  exact Option.bind_eq_some_iff.mpr ⟨_, inserted,
    Option.bind_eq_some_iff.mpr ⟨_, updated.trans (oneRow_update 2 (by decide)), rfl⟩⟩

theorem deleteUpdated_applies : applySet (changesetBytes [deleteUpdated]) (oneRow 3) = some fun _ => none := by
  have well : ∀ t ∈ [deleteUpdated], t.WellFormed := fun t member =>
    List.mem_singleton.mp member ▸ deleteUpdated_wellFormed
  have deleted := applyChange_shown (deleteUpdated_wellFormed.sound _ List.mem_cons_self) 0 (oneRow 3)
  rw [applySet, all_changeset well (by decide)]
  have gone : Function.update (fun _ => none : Store) rowKey none = fun _ => none := Function.update_eq_self _ _
  rw [← gone]
  exact Option.bind_eq_some_iff.mpr ⟨_, deleted.trans (@oneRow_update 3 none _ (by decide)), rfl⟩

end RustSql.Session
