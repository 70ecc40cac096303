import RustSql.Session.GroupMerge

/-! Reading back what a group writes: fields, records, changes and table headers. -/

namespace RustSql.Session

open RustSql.Foundation RustSql.Types

/-- The bytes of a value, its length in the shortest form. -/
def written : SessVal → List UInt8
  | .undef => [typeUndef]
  | .replaced => [typeReplaced]
  | .null => [typeNull]
  | .int i => typeInt :: putI64 i
  | .real bits => typeReal :: putI64 bits
  | .text bytes => typeText :: (putVarint bytes.length ++ bytes)
  | .blob bytes => typeBlob :: (putVarint bytes.length ++ bytes)

theorem drop_append_of_eq {α : Type} {data front rest : List α} {pos : Nat}
    (there : data.drop pos = front ++ rest) : data.drop (pos + front.length) = rest := by
  rw [← List.drop_drop, there, List.drop_left]

/-- The value of a field. -/
def valueOf : List UInt8 → SessVal
  | [] => .undef
  | e :: body =>
    if e = typeReplaced then .replaced
    else if e = typeNull then .null
    else if e = typeInt then .int (UInt64.ofNat (fromLittleEndian body.reverse))
    else if e = typeReal then .real (UInt64.ofNat (fromLittleEndian body.reverse))
    else if e = typeText then .text (body.drop (getVarint body).2)
    else if e = typeBlob then .blob (body.drop (getVarint body).2)
    else .undef

theorem length_of_drop {α : Type} {data front rest : List α} {pos : Nat}
    (there : data.drop pos = front ++ rest) (some : front ≠ []) :
    pos + front.length ≤ data.length := by
  have positive := List.length_pos_iff.mpr some
  have length := congrArg List.length there
  rw [List.length_drop, List.length_append] at length
  omega

theorem sliceRange_front {data front rest : List UInt8} {pos stop : Nat}
    (there : data.drop pos = front ++ rest) (inside : stop ≤ data.length)
    (same : stop = pos + front.length) : @Checked.sliceRange ε _ data pos stop = .ok front := by
  subst same
  rw [Checked.sliceRange_ok (Nat.le_add_right _ _) inside, there, Nat.add_sub_cancel_left,
    List.take_left]

/-- A payload behind its header. -/
theorem parsePayload_sized {build : List UInt8 → SessVal} {data header payload rest : List UInt8}
    {e : UInt8} {pos : Nat} (fits : data.length < 2 ^ 64)
    (there : data.drop pos = e :: (header ++ payload) ++ rest)
    (headed : Header header payload.length) :
    parsePayload build data pos = .ok (build payload) := by
  have inside := length_of_drop there (List.cons_ne_nil _ _)
  rw [List.length_cons, List.length_append] at inside
  have behind : data.drop (pos + 1) = header ++ (payload ++ rest) := by
    rw [← List.append_assoc]
    exact @drop_append_of_eq _ _ [e] _ _ there
  have body := drop_append_of_eq behind
  rw [parsePayload, behind, headed]
  simp only
  rw [Checked.add_ok (by omega), Checked.ok_bind, if_neg (by omega),
    sliceRange_front body (by omega) rfl, Checked.ok_bind]

/-- A field is read with any bytes around it. -/
theorem parseValue_field {data rest : List UInt8} {pos : Nat} (field : Field)
    (fits : data.length < 2 ^ 64) (there : data.drop pos = field.1 ++ rest) :
    parseValue data pos = .ok (valueOf field.1, field.1.length) := by
  have inside := length_of_drop there field.2.ne_nil
  have positive := List.length_pos_iff.mpr field.2.ne_nil
  have first : @Checked.get String _ data pos = .ok (field.1.headD 0) := by
    rw [Checked.get_eq_ok, ← List.head?_drop, there]
    match field with
    | ⟨e :: body, _⟩ => rfl
    | ⟨[], shape⟩ => exact absurd rfl shape.ne_nil
  rw [parseValue, if_neg (by omega), first, Checked.ok_bind, there, serialLen_field,
    Checked.ok_bind, Checked.add_ok (by omega), Checked.ok_bind, if_neg (by omega)]
  obtain ⟨bytes, shape⟩ := field
  cases shape with
  | bare kind => rcases kind with rfl | rfl | rfl <;> rfl
  | @word e body kind eight =>
    have behind : data.drop (pos + 1) = body ++ rest := @drop_append_of_eq _ _ [e] _ _ there
    have read := @getI64_append String _ rest eight
    rw [behind]
    rcases kind with rfl | rfl
    · simp only [List.headD_cons, read]
      rfl
    · simp only [List.headD_cons, read]
      rfl
  | @sized e header payload kind headed short =>
    have length := headed payload
    rcases kind with rfl | rfl
    · have read := @parsePayload_sized .text _ _ _ _ _ _ fits there headed
      simp only [List.headD_cons, read, valueOf, length, List.drop_left]
      rfl
    · have read := @parsePayload_sized .blob _ _ _ _ _ _ fits there headed
      simp only [List.headD_cons, read, valueOf, length, List.drop_left]
      rfl

/-- A record is read with any bytes around it. -/
theorem parseRecord_fields {data rest : List UInt8} {pos : Nat} (fields : List Field)
    (fits : data.length < 2 ^ 64) (there : data.drop pos = recordOf fields ++ rest) :
    parseRecord data pos fields.length =
      .ok (fields.map fun field => valueOf field.1, (recordOf fields).length) := by
  induction fields generalizing pos with
  | nil => rfl
  | cons field fields ih =>
    rw [recordOf_cons, List.append_assoc] at there
    rw [List.length_cons, parseRecord, parseValue_field field fits there, Checked.ok_bind]
    simp only
    rw [ih (drop_append_of_eq there), Checked.ok_bind, List.map_cons, recordOf_cons,
      List.length_append]

/-- The old and the new side of a change, by the values of its record. -/
def sidesOf (abPk : List UInt8) (patch : Bool) (op : Op) (vals : List SessVal) :
    List (Option SessVal) × List (Option SessVal) :=
  if patch then
    if op = .delete then (ChangesetIter.spreadKey abPk vals, []) else ([], vals.map some)
  else
    match op with
    | .update => ((vals.take abPk.length).map some, (vals.drop abPk.length).map some)
    | .delete => (vals.map some, [])
    | .insert => ([], vals.map some)

/-- An entry that can be shown: a patchset has no updates of keyed rows. -/
def Shown (abPk : List UInt8) (patch : Bool) (op : Op) : Prop :=
  ¬ (patch = true ∧ op = .update ∧ ∃ pk ∈ abPk, pk ≠ 0)

/-- What the iterator shows of an entry. -/
def changeOf (t : GroupTable) (e : GroupEntry) (fields : List Field) : Change :=
  let sides := sidesOf t.abPk t.bPatch e.op (fields.map fun field => valueOf field.1)
  ⟨t.name, t.nCol, t.abPk, t.bPatch, e.op, e.indirect, sides.1, sides.2, e.record⟩

namespace ChangesetIter

/-- The bytes ahead. -/
def ahead (it : ChangesetIter) : List UInt8 := it.data.drop it.pos

def skip (it : ChangesetIter) (n : Nat) : ChangesetIter := { it with pos := it.pos + n }

/-- The iterator behind the header of a table. -/
def under (it : ChangesetIter) (t : GroupTable) : ChangesetIter :=
  { it with bPatchset := t.bPatch, zTab := t.name, nCol := t.nCol, abPk := t.abPk }

variable {it : ChangesetIter} {t : GroupTable}

variable {rest : List UInt8}

theorem readSides_fields {op : Op} {fields : List Field} (fits : it.data.length < 2 ^ 64)
    (cols : it.nCol = it.abPk.length) (wide : fields.length = entryWidth it.abPk it.bPatchset op)
    (there : it.ahead = recordOf fields ++ rest) :
    it.readSides op =
      .ok ((sidesOf it.abPk it.bPatchset op (fields.map fun field => valueOf field.1)).1,
        (sidesOf it.abPk it.bPatchset op (fields.map fun field => valueOf field.1)).2,
        it.pos + (recordOf fields).length) := by
  have whole := parseRecord_fields fields fits there
  rw [wide] at whole
  unfold readSides sidesOf
  unfold entryWidth at whole wide
  cases patch : it.bPatchset
  · rw [patch] at whole wide
    cases op
    case update =>
      simp only [Bool.false_eq_true, if_false, if_true] at wide ⊢
      have olds : (fields.take it.abPk.length).length = it.abPk.length := by
        rw [List.length_take]
        omega
      have news : (fields.drop it.abPk.length).length = it.abPk.length := by
        rw [List.length_drop]
        omega
      rw [ahead, ← List.take_append_drop it.abPk.length fields, recordOf_append,
        List.append_assoc] at there
      have first := parseRecord_fields _ fits there
      have second := parseRecord_fields _ fits (drop_append_of_eq there)
      rw [olds] at first
      rw [news] at second
      rw [cols, first, Checked.ok_bind]
      simp only
      rw [second, Checked.ok_bind, List.map_take, List.map_drop, Nat.add_assoc,
        ← List.length_append, ← recordOf_append, List.take_append_drop]
    all_goals
      simp only [Bool.false_eq_true, if_false, reduceCtorEq] at whole ⊢
      rw [cols, whole, Checked.ok_bind]
  · rw [patch] at whole
    cases op
    all_goals
      simp only [if_true, reduceCtorEq, if_false] at whole ⊢
      first
        | rw [whole, Checked.ok_bind]
        | rw [cols, whole, Checked.ok_bind]

/-- The sides of an update are shown as they are, for each new field is there. -/
theorem shownSides_eq (straight : it.bInvert = false) {op : Op} {vals : List SessVal} {patch : Bool}
    (wide : op = .update → patch = false → vals.length = 2 * it.abPk.length) :
    it.shownSides op (sidesOf it.abPk patch op vals).1 (sidesOf it.abPk patch op vals).2 =
      (op, (sidesOf it.abPk patch op vals).1, (sidesOf it.abPk patch op vals).2) := by
  unfold shownSides
  rw [if_neg (by rw [straight]; exact nofun)]
  split
  next update =>
    subst update
    cases patch
    case true => rfl
    case false =>
      have length := wide rfl rfl
      simp only [sidesOf, Bool.false_eq_true, if_false, Prod.mk.injEq, true_and, and_true]
      refine List.ext_getElem (by rw [List.length_mapIdx]) fun i inside _ => ?_
      rw [List.length_mapIdx, List.length_map, List.length_take] at inside
      rw [List.getElem_mapIdx, if_neg]
      rintro ⟨_, missing⟩
      rw [List.getD_eq_getElem?_getD, List.getElem?_eq_getElem (by
        rw [List.length_map, List.length_drop]; omega), Option.getD_some, List.getElem_map] at missing
      cases missing
  · rfl

theorem ahead_lt {c : UInt8} (there : it.ahead = c :: rest) :
    it.pos < it.data.length := @length_of_drop _ _ [c] _ _ there (List.cons_ne_nil _ _)

theorem ahead_skip {front rest : List UInt8} (there : it.ahead = front ++ rest) :
    (it.skip front.length).ahead = rest := drop_append_of_eq there

theorem get_ahead {c : UInt8} (there : it.ahead = c :: rest) : it.data[it.pos]? = some c := by
  rw [← List.head?_drop]
  exact congrArg List.head? there

/-- A byte that opens no table is the one of a change. -/
theorem readOp_code {c : UInt8} (there : it.ahead = c :: rest) (change : ¬ (c = 0x54 ∨ c = 0x50)) :
    it.readOp = .ok (some c, it.skip 1) := by
  have inside := ahead_lt there
  have byte : it.data[it.pos] = c := Option.some.inj
    ((List.getElem?_eq_getElem inside).symm.trans (get_ahead there))
  rw [readOp, dif_pos inside]
  simp only [byte]
  rw [if_neg change]
  rfl

theorem readOp_end (done : it.ahead = []) : it.readOp = .ok (none, it) := by
  have outside := List.drop_eq_nil_iff.mp done
  rw [readOp, dif_neg (by omega)]

theorem code_opens_nothing (op : Op) : ¬ (op.code = 0x54 ∨ op.code = 0x50) := by
  cases op <;> decide

/-- What the iterator shows of a change with these fields. -/
def shownChange (t : GroupTable) (op : Op) (flag : UInt8) (fields : List Field) : Change :=
  let sides := sidesOf t.abPk t.bPatch op (fields.map fun field => valueOf field.1)
  ⟨t.name, t.nCol, t.abPk, t.bPatch, op, flag != 0, sides.1, sides.2, recordOf fields⟩

/-- A change of a table is read back. -/
theorem next_change {op : Op} {flag : UInt8} {fields : List Field} (fits : it.data.length < 2 ^ 64)
    (straight : it.bInvert = false) (named : t.name ≠ []) (cols : t.nCol = t.abPk.length)
    (shown : Shown t.abPk t.bPatch op) (wide : fields.length = entryWidth t.abPk t.bPatch op)
    (there : it.ahead = op.code :: flag :: (recordOf fields ++ rest)) :
    (it.under t).next = .ok (some (shownChange t op flag fields),
      (it.under t).skip (2 + (recordOf fields).length)) := by
  have code : (it.under t).readOp = .ok (some op.code, (it.under t).skip 1) :=
    readOp_code there (code_opens_nothing op)
  have flagged : ((it.under t).skip 1).ahead = flag :: (recordOf fields ++ rest) :=
    @ahead_skip (it.under t) [op.code] _ there
  have body : ((it.under t).skip 2).ahead = recordOf fields ++ rest :=
    @ahead_skip ((it.under t).skip 1) [flag] _ flagged
  have inside := ahead_lt flagged
  have sides : ({ (it.under t).skip 1 with pos := ((it.under t).skip 1).pos + 1 } :
      ChangesetIter).readSides op = _ :=
    @readSides_fields ((it.under t).skip 2) rest op fields fits cols wide body
  have stop : it.pos + 2 + (recordOf fields).length ≤ it.data.length := by
    have length := congrArg List.length body
    rw [ahead, List.length_drop, List.length_append] at length
    change it.data.length - (it.pos + 2) = _ at length
    change it.pos + 1 < it.data.length at inside
    omega
  have raw : @Checked.sliceRange String _ ((it.under t).skip 1).data
      (((it.under t).skip 1).pos + 1) (((it.under t).skip 2).pos + (recordOf fields).length) = _ :=
    sliceRange_front body stop rfl
  have inOrder := @shownSides_eq ((it.under t).skip 1) straight op
    (fields.map fun field => valueOf field.1) t.bPatch (fun update full => by
      rw [List.length_map, wide, entryWidth, full, if_neg (by simp), if_pos update]
      rfl)
  have shown' : ¬ (((it.under t).skip 1).bPatchset = true ∧ op = .update ∧
      ∃ pk ∈ ((it.under t).skip 1).abPk, pk ≠ 0) := shown
  rw [next, code, Checked.ok_bind]
  simp only
  have read : ((it.under t).skip 1).readChange op.code = .ok (shownChange t op flag fields,
      (it.under t).skip (2 + (recordOf fields).length)) := by
    rw [readChange, if_neg (by
      rintro (empty | ⟨_, inverted⟩)
      · exact named empty
      · rw [show ((it.under t).skip 1).bInvert = it.bInvert from rfl, straight] at inverted
        cases inverted), Op.ofCode_code]
    simp only
    rw [if_neg (Nat.not_le.mpr inside), Checked.get_eq_ok.mpr (get_ahead flagged), Checked.ok_bind]
    rw [sides, Checked.ok_bind]
    simp only
    rw [raw, Checked.ok_bind, if_neg shown']
    simp only [under, skip, Nat.add_assoc] at inOrder ⊢
    rw [inOrder, shownChange]
  rw [read, Checked.ok_bind]

theorem shownChange_entry {e : GroupEntry} {fields : List Field} (record : e.record = recordOf fields) :
    shownChange t e.op (if e.indirect then 1 else 0) fields = changeOf t e fields := by
  have flagged : ((if e.indirect = true then 1 else 0 : UInt8) != 0) = e.indirect := by
    cases e.indirect <;> rfl
  rw [shownChange, changeOf, flagged, record]

/-- An entry of a table is read back. -/
theorem next_entry {e : GroupEntry} {fields : List Field} (fits : it.data.length < 2 ^ 64)
    (straight : it.bInvert = false) (named : t.name ≠ []) (cols : t.nCol = t.abPk.length)
    (shown : Shown t.abPk t.bPatch e.op) (wide : fields.length = entryWidth t.abPk t.bPatch e.op)
    (record : e.record = recordOf fields) (there : it.ahead = ChangeGroup.entryBytes e ++ rest) :
    (it.under t).next =
      .ok (some (changeOf t e fields), (it.under t).skip (ChangeGroup.entryBytes e).length) := by
  rw [ChangeGroup.entryBytes, record] at there
  have length : 2 + (recordOf fields).length = (ChangeGroup.entryBytes e).length := by
    rw [ChangeGroup.entryBytes, record, List.length_cons, List.length_cons]
    omega
  rw [next_change fits straight named cols shown wide there, shownChange_entry record, length]

/-- The header of a table can be written and read back. -/
structure Headed (name : Name) (nCol : Nat) (abPk : List UInt8) : Prop where
  named : name ≠ []
  plain : 0 ∉ name
  utf8 : validUtf8 name = true
  cols : nCol = abPk.length
  some : 0 < nCol

theorem findIdx?_zero {name rest : List UInt8} (plain : 0 ∉ name) :
    (name ++ 0 :: rest).findIdx? (· = 0) = some name.length := by
  induction name with
  | nil => rfl
  | cons c name ih =>
    have other : c ≠ 0 := fun zero => plain (zero ▸ List.mem_cons_self)
    rw [List.cons_append, List.findIdx?_cons, ih fun member => plain (List.mem_cons_of_mem _ member)]
    simp [other]

theorem readTblhdr_header (fits : it.data.length < 2 ^ 64) (headed : Headed t.name t.nCol t.abPk)
    (there : it.ahead = putVarint t.nCol ++ (t.abPk ++ (t.name ++ 0 :: rest))) :
    it.readTblhdr = .ok { it with
      zTab := t.name
      nCol := t.nCol
      abPk := t.abPk
      pos := it.pos + (putVarint t.nCol ++ t.abPk ++ t.name ++ [0]).length } := by
  have length := congrArg List.length there
  have cols := headed.cols
  have some := headed.some
  simp only [ahead, List.length_drop, List.length_append, List.length_cons] at length
  have flags := drop_append_of_eq there
  have name := drop_append_of_eq flags
  have count := header_putVarint (by omega : t.nCol < 2 ^ 64) (t.abPk ++ (t.name ++ 0 :: rest))
  rw [ahead] at there
  rw [← cols] at name
  rw [readTblhdr, if_neg (by omega), there, count]
  simp only
  rw [if_neg (by omega), Checked.add_ok (by omega), Checked.ok_bind, if_neg (by omega),
    sliceRange_front flags (by omega) (by omega), Checked.ok_bind, name,
    findIdx?_zero headed.plain]
  simp only
  rw [List.take_left, if_pos headed.utf8]
  simp only [List.length_append, List.length_singleton, ← cols, Nat.add_assoc]

/-- Behind the header of a table are its changes. -/
theorem next_header (fits : it.data.length < 2 ^ 64) (headed : Headed t.name t.nCol t.abPk)
    (there : it.ahead = ChangeGroup.headerBytes t ++ rest) :
    it.next = ((it.skip (ChangeGroup.headerBytes t).length).under t).next := by
  have open_table : ∃ c', (c' = 0x54 ∨ c' = 0x50) ∧ (decide (c' = 0x50)) = t.bPatch ∧
      it.ahead = c' :: (putVarint t.nCol ++ (t.abPk ++ (t.name ++ 0 :: rest))) := by
    refine ⟨if t.bPatch then 0x50 else 0x54, by cases t.bPatch <;> decide,
      by cases t.bPatch <;> rfl, ?_⟩
    rw [there, ChangeGroup.headerBytes]
    simp
  obtain ⟨c', opens, patch, bytes⟩ := open_table
  have inside := ahead_lt bytes
  have byte : it.data[it.pos] = c' := Option.some.inj
    ((List.getElem?_eq_getElem inside).symm.trans (get_ahead bytes))
  have read := @readTblhdr_header { it with pos := it.pos + 1, bPatchset := t.bPatch } t rest
    fits headed (@ahead_skip it [c'] _ bytes)
  have behind : it.readOp = ((it.skip (ChangeGroup.headerBytes t).length).under t).readOp := by
    rw [readOp, dif_pos inside]
    simp only
    rw [if_pos (by rw [byte]; exact opens)]
    split
    next fault other => rw [byte, patch, read] at other; cases other
    next it' other =>
      rw [byte, patch, read] at other
      cases other
      congr 1
      simp only [under, skip, ChangesetIter.mk.injEq, true_and, and_true]
      rw [ChangeGroup.headerBytes, List.length_cons]
      omega
  rw [next, next, behind]

theorem foldChanges_some {σ : Type} {f : σ → Change → Checked String σ} {change : Change}
    {it' : ChangesetIter} (read : it.next = .ok (some change, it')) (s : σ) :
    it.foldChanges f s = f s change >>= it'.foldChanges f := by
  rw [foldChanges]
  split
  next fault other => rw [read] at other; cases other
  next other => rw [read] at other; cases other
  next other =>
    rw [read] at other
    cases other
    rfl

theorem foldChanges_none {σ : Type} {f : σ → Change → Checked String σ} {it' : ChangesetIter}
    (read : it.next = .ok (none, it')) (s : σ) : it.foldChanges f s = .ok s := by
  rw [foldChanges]
  split
  next fault other => rw [read] at other; cases other
  next => rfl
  next other => rw [read] at other; cases other

theorem foldChanges_error {σ : Type} {f : σ → Change → Checked String σ} {fault : Fault String}
    (read : it.next = .error fault) (s : σ) : it.foldChanges f s = .error fault := by
  rw [foldChanges]
  split
  next other =>
    rw [read] at other
    cases other
    rfl
  next other => rw [read] at other; cases other
  next other => rw [read] at other; cases other

theorem foldChanges_next {σ : Type} {f : σ → Change → Checked String σ} {it' : ChangesetIter}
    (same : it.next = it'.next) (s : σ) : it.foldChanges f s = it'.foldChanges f s := by
  match read : it'.next with
  | .error _ => rw [foldChanges_error read, foldChanges_error (same.trans read)]
  | .ok (none, _) => rw [foldChanges_none read, foldChanges_none (same.trans read)]
  | .ok (some _, _) => rw [foldChanges_some read, foldChanges_some (same.trans read)]

/-- A loop over an iterator that gets to its end is a loop over its changes. -/
theorem foldChanges_collected {seen out : List Change}
    (read : it.foldChanges (fun seen change => .ok (seen ++ [change])) seen = .ok out) :
    ∃ changes, out = seen ++ changes ∧
      ∀ {σ : Type} (f : σ → Change → Checked String σ) (s : σ),
        it.foldChanges f s = changes.foldlM f s := by
  fun_induction foldChanges (fun seen change => .ok (seen ++ [change])) it seen with
  | case1 => cases read
  | case2 it seen it' done =>
    cases read
    exact ⟨[], (List.append_nil _).symm, fun f s => foldChanges_none done s⟩
  | case3 it seen change it' step ih =>
    rw [Checked.ok_bind] at read
    obtain ⟨changes, same, rest⟩ := ih _ read
    refine ⟨change :: changes, ?_, fun f s => ?_⟩
    · rw [same, List.append_assoc, List.singleton_append]
    · rw [foldChanges_some step, List.foldlM_cons]
      congr 1
      funext s'
      exact rest f s'

theorem foldChanges_of_all {σ : Type} {changes : List Change} (read : it.all = .ok changes)
    (f : σ → Change → Checked String σ) (s : σ) : it.foldChanges f s = changes.foldlM f s := by
  obtain ⟨_, rfl, same⟩ := foldChanges_collected read
  exact same f s

/-- An entry with the fields it is written from. -/
structure Legible (t : GroupTable) (e : GroupEntry × List Field) : Prop where
  record : e.1.record = recordOf e.2
  wide : e.2.length = entryWidth t.abPk t.bPatch e.1.op
  shown : Shown t.abPk t.bPatch e.1.op

theorem foldChanges_entries (fits : it.data.length < 2 ^ 64) (straight : it.bInvert = false)
    (headed : Headed t.name t.nCol t.abPk) {entries : List (GroupEntry × List Field)}
    (legible : ∀ e ∈ entries, Legible t e)
    (there : it.ahead = entries.flatMap (fun e => ChangeGroup.entryBytes e.1) ++ rest)
    (seen : List Change) :
    (it.under t).foldChanges (fun seen change => .ok (seen ++ [change])) seen =
      ((it.under t).skip (entries.flatMap fun e => ChangeGroup.entryBytes e.1).length).foldChanges
        (fun seen change => .ok (seen ++ [change]))
        (seen ++ entries.map fun e => changeOf t e.1 e.2) := by
  induction entries generalizing it seen with
  | nil => rw [List.map_nil, List.append_nil]; rfl
  | cons e entries ih =>
    have first := legible e List.mem_cons_self
    rw [List.flatMap_cons, List.append_assoc] at there
    rw [foldChanges_some (next_entry fits straight headed.named headed.cols first.shown first.wide
      first.record there), Checked.ok_bind]
    have rest := @ih (it.skip (ChangeGroup.entryBytes e.1).length) fits straight
      (fun e member => legible e (List.mem_cons_of_mem _ member)) (ahead_skip there)
      (seen ++ [changeOf t e.1 e.2])
    rw [List.append_assoc, List.singleton_append] at rest
    rw [List.flatMap_cons, List.length_append, List.map_cons]
    refine (Eq.trans rest ?_)
    simp only [skip, under, Nat.add_assoc]

/-- A table as it is written: its header and its entries. -/
def tableChunk (table : GroupTable × List (GroupEntry × List Field)) : List UInt8 :=
  ChangeGroup.headerBytes table.1 ++ table.2.flatMap fun e => ChangeGroup.entryBytes e.1

/-- What a group writes is read back whole. -/
theorem foldChanges_tables (fits : it.data.length < 2 ^ 64) (straight : it.bInvert = false)
    {tables : List (GroupTable × List (GroupEntry × List Field))}
    (headed : ∀ table ∈ tables, Headed table.1.name table.1.nCol table.1.abPk)
    (legible : ∀ table ∈ tables, ∀ e ∈ table.2, Legible table.1 e)
    (there : it.ahead = tables.flatMap tableChunk) (seen : List Change) :
    it.foldChanges (fun seen change => .ok (seen ++ [change])) seen =
      .ok (seen ++ tables.flatMap fun table => table.2.map fun e => changeOf table.1 e.1 e.2) := by
  induction tables generalizing it seen with
  | nil =>
    have done : it.next = .ok (none, it) := by rw [next, readOp_end there, Checked.ok_bind]
    rw [foldChanges_none done, List.flatMap_nil, List.append_nil]
  | cons table tables ih =>
    obtain ⟨t, entries⟩ := table
    have header := headed _ List.mem_cons_self
    rw [List.flatMap_cons, tableChunk, List.append_assoc] at there
    have behind : ((it.skip (ChangeGroup.headerBytes t).length).under t).ahead =
        (entries.flatMap fun e => ChangeGroup.entryBytes e.1) ++ tables.flatMap tableChunk :=
      ahead_skip there
    rw [foldChanges_next (next_header fits header there),
      @foldChanges_entries (it.skip (ChangeGroup.headerBytes t).length) t _ fits straight header
        entries (legible _ List.mem_cons_self) behind]
    have rest := @ih (((it.skip (ChangeGroup.headerBytes t).length).under t).skip
        (entries.flatMap fun e => ChangeGroup.entryBytes e.1).length) fits straight
      (fun table member => headed table (List.mem_cons_of_mem _ member))
      (fun table member => legible table (List.mem_cons_of_mem _ member))
      (ahead_skip behind) (seen ++ entries.map fun e => changeOf t e.1 e.2)
    rw [rest, List.flatMap_cons, List.append_assoc]

end ChangesetIter

end RustSql.Session
