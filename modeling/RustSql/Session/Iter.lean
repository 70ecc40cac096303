import RustSql.Session.State

/-! The changeset iterator: table headers, and behind each the changes of its table. -/

namespace RustSql.Session

open RustSql.Foundation RustSql.Types

def corruptChangeset : String := "corrupt changeset"

structure ChangesetIter where
  data : List UInt8
  pos : Nat
  bPatchset : Bool
  bInvert : Bool
  zTab : Name
  nCol : Nat
  abPk : List UInt8
deriving DecidableEq, Repr

/-- What the iterator shows of one change. -/
structure Change where
  table : Name
  nCol : Nat
  pk : List UInt8
  patchset : Bool
  op : Op
  indirect : Bool
  old : List (Option SessVal)
  new : List (Option SessVal)
  raw : List UInt8
deriving DecidableEq, Repr

namespace ChangesetIter

def start (data : List UInt8) (bInvert : Bool) : ChangesetIter := ⟨data, 0, false, bInvert, [], 0, []⟩

def readTblhdr (it : ChangesetIter) : Checked String ChangesetIter := do
  if it.data.length ≤ it.pos then Checked.fail corruptChangeset
  else
    let (nCol, used) := getVarint (it.data.drop it.pos)
    let pos := it.pos + used
    if nCol = 0 then Checked.fail corruptChangeset
    else
      let stop ← Checked.add pos nCol
      if it.data.length < stop then Checked.fail corruptChangeset
      else
        let abPk ← Checked.sliceRange it.data pos stop
        let rest := it.data.drop stop
        match rest.findIdx? (· = 0) with
        | none => Checked.fail corruptChangeset
        | some nameEnd =>
          if validUtf8 (rest.take nameEnd) then
            .ok { it with zTab := rest.take nameEnd, nCol, abPk, pos := stop + (nameEnd + 1) }
          else Checked.fail corruptChangeset

theorem readTblhdr_pos {it it' : ChangesetIter} (read : it.readTblhdr = .ok it') :
    it'.data = it.data ∧ it.pos < it'.pos := by
  unfold readTblhdr at read
  split at read
  · cases read
  · simp only at read
    split at read
    · cases read
    next some =>
      obtain ⟨stop, added, read⟩ := Checked.bind_ok_iff.mp read
      obtain ⟨_, rfl⟩ := Checked.add_eq_ok.mp added
      split at read
      · cases read
      · obtain ⟨abPk, _, read⟩ := Checked.bind_ok_iff.mp read
        split at read
        · cases read
        · split at read
          · cases read
            exact ⟨rfl, by dsimp only; omega⟩
          · cases read

/-- The byte behind any table headers, and the iterator behind that byte. -/
def readOp (it : ChangesetIter) : Checked String (Option UInt8 × ChangesetIter) :=
  if inside : it.pos < it.data.length then
    let op := it.data[it.pos]
    if op = 0x54 ∨ op = 0x50 then
      match read : readTblhdr { it with pos := it.pos + 1, bPatchset := op = 0x50 } with
      | .error fault => .error fault
      | .ok it' => it'.readOp
    else .ok (some op, { it with pos := it.pos + 1 })
  else .ok (none, it)
termination_by it.data.length - it.pos
decreasing_by
  obtain ⟨data, moved⟩ := readTblhdr_pos read
  rw [data]
  dsimp only at moved ⊢
  omega

/-- The key fields of a key-only record at their columns. -/
def spreadKey : List UInt8 → List SessVal → List (Option SessVal)
  | [], _ => []
  | pk :: abPk, vals =>
    if pk ≠ 0 then vals.head? :: spreadKey abPk vals.tail else none :: spreadKey abPk vals

/-- The old and the new side of a change, and where it ends. -/
def readSides (it : ChangesetIter) (op : Op) :
    Checked String (List (Option SessVal) × List (Option SessVal) × Nat) := do
  if it.bPatchset then
    if op = .delete then
      let (vals, used) ← parseRecord it.data it.pos (it.abPk.countP (· ≠ 0))
      .ok (spreadKey it.abPk vals, [], it.pos + used)
    else
      let (vals, used) ← parseRecord it.data it.pos it.nCol
      .ok ([], vals.map some, it.pos + used)
  else
    match op with
    | .update =>
      let (o, used1) ← parseRecord it.data it.pos it.nCol
      let (n, used2) ← parseRecord it.data (it.pos + used1) it.nCol
      .ok (o.map some, n.map some, it.pos + used1 + used2)
    | .delete =>
      let (o, used) ← parseRecord it.data it.pos it.nCol
      .ok (o.map some, [], it.pos + used)
    | .insert =>
      let (n, used) ← parseRecord it.data it.pos it.nCol
      .ok ([], n.map some, it.pos + used)

/-- The sides as they are shown: swapped by an inversion, else without old fields that are not
new. -/
def shownSides (it : ChangesetIter) (op : Op) (old new : List (Option SessVal)) :
    Op × List (Option SessVal) × List (Option SessVal) :=
  if it.bInvert then
    (match op with
      | .insert => .delete
      | .delete => .insert
      | .update => .update, new, old)
  else if op = .update then
    (op, old.mapIdx fun i v =>
      if it.abPk.getD i 0 = 0 ∧ (new.getD i none).isNone then none else v, new)
  else (op, old, new)

/-- A change behind its first byte. -/
def readChange (it : ChangesetIter) (code : UInt8) : Checked String (Change × ChangesetIter) := do
  if it.zTab = [] ∨ it.bPatchset = true ∧ it.bInvert = true then Checked.fail corruptChangeset
  else
    match Op.ofCode code with
    | none => Checked.fail corruptChangeset
    | some op =>
      if it.data.length ≤ it.pos then Checked.fail corruptChangeset
      else
        let flag ← Checked.get it.data it.pos
        let cur := it.pos + 1
        let (old, new, stop) ← readSides { it with pos := cur } op
        let raw ← Checked.sliceRange it.data cur stop
        -- the old side of a patchset update is empty when its key fields are to go there
        if it.bPatchset = true ∧ op = .update ∧ ∃ pk ∈ it.abPk, pk ≠ 0 then .error .slice
        else
          let (shown, old, new) := it.shownSides op old new
          .ok (⟨it.zTab, it.nCol, it.abPk, it.bPatchset, shown, flag != 0, old, new, raw⟩,
            { it with pos := stop })

def next (it : ChangesetIter) : Checked String (Option Change × ChangesetIter) := do
  let (code, it) ← it.readOp
  match code with
  | none => .ok (none, it)
  | some code =>
    let (change, it) ← it.readChange code
    .ok (some change, it)

theorem readOp_pos {it it' : ChangesetIter} {code : UInt8} (read : it.readOp = .ok (some code, it')) :
    it'.data = it.data ∧ it.pos < it.data.length ∧ it.pos < it'.pos := by
  fun_induction readOp it with
  | case1 => cases read
  | case2 it inside op header it₁ moved ih =>
    obtain ⟨data, later⟩ := readTblhdr_pos moved
    obtain ⟨data', _, later'⟩ := ih read
    dsimp only at later
    exact ⟨data'.trans data, inside, by omega⟩
  | case3 it inside op =>
    simp only [Except.ok.injEq, Prod.mk.injEq] at read
    obtain ⟨_, rfl⟩ := read
    exact ⟨rfl, inside, Nat.lt_succ_self _⟩
  | case4 it outside => cases read

theorem readSides_pos {it : ChangesetIter} {op : Op} {old new : List (Option SessVal)} {stop : Nat}
    (read : it.readSides op = .ok (old, new, stop)) : it.pos ≤ stop := by
  unfold readSides at read
  split at read
  · split at read <;>
    · obtain ⟨_, _, done⟩ := Checked.bind_ok_iff.mp read
      cases done
      exact Nat.le_add_right _ _
  · split at read
    · obtain ⟨_, _, read⟩ := Checked.bind_ok_iff.mp read
      obtain ⟨_, _, done⟩ := Checked.bind_ok_iff.mp read
      cases done
      omega
    all_goals
      obtain ⟨_, _, done⟩ := Checked.bind_ok_iff.mp read
      cases done
      exact Nat.le_add_right _ _

theorem readChange_pos {it it' : ChangesetIter} {code : UInt8} {change : Change}
    (read : it.readChange code = .ok (change, it')) : it'.data = it.data ∧ it.pos < it'.pos := by
  unfold readChange at read
  split at read
  · cases read
  · split at read
    · cases read
    · split at read
      · cases read
      · obtain ⟨flag, _, read⟩ := Checked.bind_ok_iff.mp read
        obtain ⟨⟨old, new, stop⟩, sides, read⟩ := Checked.bind_ok_iff.mp read
        obtain ⟨raw, _, read⟩ := Checked.bind_ok_iff.mp read
        have forward := readSides_pos sides
        dsimp only at forward read
        split at read
        · cases read
        · cases read
          exact ⟨rfl, by dsimp only; omega⟩

/-- Every change takes bytes. -/
theorem next_pos {it it' : ChangesetIter} {change : Change}
    (read : it.next = .ok (some change, it')) :
    it'.data = it.data ∧ it.pos < it.data.length ∧ it.pos < it'.pos := by
  unfold next at read
  obtain ⟨⟨code, it₁⟩, op, read⟩ := Checked.bind_ok_iff.mp read
  cases code with
  | none => cases read
  | some code =>
    obtain ⟨⟨change', it₂⟩, body, done⟩ := Checked.bind_ok_iff.mp read
    cases done
    obtain ⟨data, inside, later⟩ := readOp_pos op
    obtain ⟨data', later'⟩ := readChange_pos body
    exact ⟨data'.trans data, inside, by omega⟩

/-- `while iter.next()?`: one step for each change. -/
def foldChanges {σ : Type} (f : σ → Change → Checked String σ) (it : ChangesetIter) (s : σ) :
    Checked String σ :=
  match _read : it.next with
  | .error fault => .error fault
  | .ok (none, _) => .ok s
  | .ok (some change, it') => do
    let s ← f s change
    it'.foldChanges f s
termination_by it.data.length - it.pos
decreasing_by
  obtain ⟨data, inside, later⟩ := next_pos _read
  rw [data]
  omega

/-- All changes, when the iterator gets to the end without an error. -/
def all (it : ChangesetIter) : Checked String (List Change) :=
  it.foldChanges (fun seen change => .ok (seen ++ [change])) []

/-- A loop over the iterator is a loop over its changes. -/
theorem foldChanges_ok {σ : Type} {f : σ → Change → Checked String σ} {it : ChangesetIter} {s s' : σ}
    (done : it.foldChanges f s = .ok s') (seen : List Change) :
    ∃ changes, it.foldChanges (fun seen change => .ok (seen ++ [change])) seen =
        .ok (seen ++ changes) ∧ changes.foldlM f s = .ok s' := by
  fun_induction foldChanges f it s generalizing seen with
  | case1 => cases done
  | case2 it s it' read =>
    refine ⟨[], ?_, done⟩
    rw [foldChanges]
    split
    next fault other => rw [read] at other; cases other
    next => rw [List.append_nil]
    next other => rw [read] at other; cases other
  | case3 it s change it' read ih =>
    obtain ⟨s₁, stepped, rest⟩ := Checked.bind_ok_iff.mp done
    obtain ⟨changes, collected, folded⟩ := ih s₁ rest (seen ++ [change])
    refine ⟨change :: changes, ?_, by rw [List.foldlM_cons, stepped]; exact folded⟩
    rw [foldChanges]
    split
    next fault other => rw [read] at other; cases other
    next other => rw [read] at other; cases other
    next other =>
      rw [read] at other
      cases other
      rw [Checked.ok_bind, collected, List.append_assoc, List.singleton_append]

theorem foldChanges_all {σ : Type} {f : σ → Change → Checked String σ} {it : ChangesetIter} {s s' : σ}
    (done : it.foldChanges f s = .ok s') :
    ∃ changes, it.all = .ok changes ∧ changes.foldlM f s = .ok s' := by
  obtain ⟨changes, collected, folded⟩ := foldChanges_ok done []
  exact ⟨changes, by rw [all, collected, List.nil_append], folded⟩

end ChangesetIter

end RustSql.Session
