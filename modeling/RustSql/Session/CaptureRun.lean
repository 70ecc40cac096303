import RustSql.Session.Capture

/-! Runs of preupdate events through a session. -/

namespace RustSql.Session

open RustSql.Foundation RustSql.Types

/-- A table without entries takes any model. -/
theorem Kept.remodel {t : SessionTable} {log : List Capture} (kept : Kept t log)
    (none : t.nEntry = 0) {t' : SessionTable} (buckets : t'.chains.buckets = t.chains.buckets)
    (dead : ∀ id, t'.chains.live id = Option.none) (slots : t'.freeIds = t.freeIds)
    (count : t'.nEntry = t.nEntry)
    (modelled : t'.initialized = true → t'.untrackable = false → Modelled t') : Kept t' log := by
  have empty : t.chains.count = 0 := by rw [← kept.counted, none]
  have nobody : ∀ e, ¬ t'.chains.Has e := by
    rintro e ⟨id, found⟩
    rw [dead] at found
    cases found
  exact ⟨by rw [slots, kept.slots], by rw [count, none, HashChains.count_eq_zero.mpr dead],
    by rw [buckets]; exact kept.buckets, by rw [buckets]; exact kept.small,
    kept.filed.rekey (HashChains.count_eq_zero.mp empty) buckets dead _ _, modelled,
    fun _ => by rw [count, none], fun has => absurd has (nobody _),
    fun has => absurd has (nobody _),
    fun logged => by
      obtain ⟨e, has, _⟩ := kept.complete logged
      exact absurd has (kept.vacant none e)⟩

namespace SessionCore

/-- The captures of an event, each with the index of its table. -/
def captures (s : SessionCore) (event : Event) : List (Nat × Capture) :=
  match s.prepare event with
  | (_, none) => []
  | (s, some i) =>
    match s.tables[i]? with
    | none => []
    | some t => (attempts event.op).filterMap fun a => (t.capture a.1 event a.2).map (i, ·)

def run (s : SessionCore) (events : List Event) : Checked String SessionCore :=
  events.foldlM record s

/-- The captures of a run, oldest first. -/
def history : SessionCore → List Event → List (Nat × Capture)
  | _, [] => []
  | s, event :: rest =>
    s.captures event ++
      match s.record event with
      | .ok s' => history s' rest
      | .error _ => []

/-- The table an event finds by its name. -/
def tableOf (s : SessionCore) (name : Name) : Option SessionTable :=
  (s.findTableIdx name).bind (s.tables[·]?)

/-- Each capture of an event finds room in its table. -/
def RoomFor (event : Event) : List (Op × Bool) → SessionCore → Prop
  | [], _ => True
  | a :: rest, s =>
    (∀ t ∈ s.tableOf event.tbl.name, Room t) ∧
      ∀ s' ∈ (s.recordOne event a.1 a.2).toOption, RoomFor event rest s'

def listens (s : SessionCore) : Bool :=
  s.enable && s.rc.isNone && eqIgnoreAsciiCase s.zDb (ascii "main")

/-- An event that the hash of its table takes as it is. -/
def Steady (s : SessionCore) (event : Event) : Prop :=
  (s.listens = true → ∀ t ∈ s.tableOf event.tbl.name, t.nEntry ≠ 0 → ¬ drifted t event) ∧
    ∀ _i ∈ (s.prepare event).2, RoomFor event (attempts event.op) (s.prepare event).1

def SteadyRun : SessionCore → List Event → Prop
  | _, [] => True
  | s, event :: rest => s.Steady event ∧ ∀ s' ∈ (s.record event).toOption, SteadyRun s' rest

instance (t : SessionTable) : Decidable (Room t) := inferInstanceAs (Decidable (_ ∧ (_ → _)))

instance RoomFor.decidable (event : Event) : ∀ steps s, Decidable (RoomFor event steps s)
  | [], _ => .isTrue trivial
  | _ :: rest, _ =>
    have := RoomFor.decidable event rest
    inferInstanceAs (Decidable (_ ∧ _))

instance (s : SessionCore) (event : Event) : Decidable (s.Steady event) :=
  inferInstanceAs (Decidable ((_ → _) ∧ _))

instance SteadyRun.decidable : ∀ s events, Decidable (SteadyRun s events)
  | _, [] => .isTrue trivial
  | _, _ :: rest =>
    have := fun s => SteadyRun.decidable s rest
    inferInstanceAs (Decidable (_ ∧ _))

/-- A session that has recorded nothing. -/
def Fresh (s : SessionCore) : Prop := ∀ t ∈ s.tables, t = .new t.name

/-- What the captures so far say of one table. -/
def logOf (history : List (Nat × Capture)) (i : Nat) : List Capture :=
  history.filterMap fun c => if c.1 = i then some c.2 else none

/-- The invariant of a session. -/
structure Keeps (s : SessionCore) (history : List (Nat × Capture)) : Prop where
  tables : ∀ i t, s.tables[i]? = some t → Kept t (logOf history i)
  unused : ∀ i, s.tables.length ≤ i → logOf history i = []

/-- The table of an event is resolved. -/
structure Resolved (s : SessionCore) (event : Event) (i : Nat) (t : SessionTable) : Prop where
  named : s.findTableIdx event.tbl.name = some i
  table : s.tables[i]? = some t
  active : t.initialized = true ∧ t.untrackable = false
  fits : event.tbl.columns.length = t.nDbCol

variable {s : SessionCore} {history : List (Nat × Capture)} {event : Event} {i : Nat}
  {t : SessionTable}

@[simp] theorem logOf_append (front back : List (Nat × Capture)) :
    logOf (front ++ back) i = logOf front i ++ logOf back i := List.filterMap_append

theorem logOf_captures (j : Nat) (attempts : List (Op × Bool)) :
    logOf (attempts.filterMap fun a => (t.capture a.1 event a.2).map (i, ·)) j =
      if i = j then attempts.filterMap fun a => t.capture a.1 event a.2 else [] := by
  rw [logOf, List.filterMap_filterMap]
  by_cases same : i = j
  · rw [if_pos same]
    congr 1
    funext a
    cases t.capture a.1 event a.2 <;> simp [same]
  · rw [if_neg same, List.filterMap_eq_nil_iff]
    intro a _
    cases t.capture a.1 event a.2 <;> simp [same]

theorem findTableIdx_set {t' : SessionTable} (table : s.tables[i]? = some t)
    (name : t'.name = t.name) (wanted : Name) :
    ({ s with tables := s.tables.set i t' } : SessionCore).findTableIdx wanted =
      s.findTableIdx wanted := by
  have names : (s.tables.set i t').map SessionTable.name = s.tables.map SessionTable.name := by
    rw [List.map_set, name]
    apply List.ext_getElem?
    intro j
    rw [List.getElem?_set]
    split
    next same =>
      subst same
      have inside := (List.getElem?_eq_some_iff.mp table).1
      rw [if_pos (by rw [List.length_map]; exact inside), List.getElem?_map, table]
      rfl
    · rfl
  have through : ∀ tables : List SessionTable,
      (tables.findIdx? fun t => eqIgnoreAsciiCase t.name wanted) =
        (tables.map SessionTable.name).findIdx? fun n => eqIgnoreAsciiCase n wanted := by
    intro tables
    rw [List.findIdx?_map]
    rfl
  rw [findTableIdx, findTableIdx, through, through, names]

theorem Keeps.set (keeps : s.Keeps history) (table : s.tables[i]? = some t) {t' : SessionTable}
    {more : List (Nat × Capture)} (others : ∀ j, i ≠ j → logOf more j = [])
    (kept : Kept t' (logOf history i ++ logOf more i)) :
    ({ s with tables := s.tables.set i t' } : SessionCore).Keeps (history ++ more) := by
  have inside := (List.getElem?_eq_some_iff.mp table).1
  refine ⟨fun j u found => ?_, fun j beyond => ?_⟩
  · rw [List.getElem?_set] at found
    rw [logOf_append]
    split at found
    next same =>
      subst same
      cases found
      exact kept
    next other =>
      rw [others j other, List.append_nil]
      exact keeps.tables j u found
  · rw [List.length_set] at beyond
    rw [logOf_append, keeps.unused j beyond, others j (by omega)]
    rfl

theorem eqIgnoreAsciiCase_stat {a b : Name} (same : eqIgnoreAsciiCase a b = true) (c : Name) :
    eqIgnoreAsciiCase a c = eqIgnoreAsciiCase b c := by
  have lower := eq_of_beq same
  rw [eqIgnoreAsciiCase, eqIgnoreAsciiCase, lower]

/-- The model of an event fits it. -/
theorem initTableModel_modelled (named : eqIgnoreAsciiCase t.name event.tbl.name = true)
    (implicitPk : Bool) :
    Modelled (t.initTableModel event.tbl implicitPk) ∧
      event.tbl.columns.length = (t.initTableModel event.tbl implicitPk).nDbCol := by
  have stat := eqIgnoreAsciiCase_stat named (ascii "sqlite_stat1")
  have front : ∀ (b : Bool) {α : Type} (x : α), (if b = true then [x] else []).length =
      if b = true then 1 else 0 := by
    intro b α x
    cases b <;> rfl
  refine ⟨⟨?_, ?_⟩, ?_⟩
  · simp only [SessionTable.initTableModel]
    split
    next special =>
      rw [special]
      simp only [Bool.not_true, Bool.and_false, Bool.false_eq_true, if_false, List.nil_append,
        List.length_map]
      rw [event.statWide (by rw [← stat, special])]
      rfl
    next => simp only [List.length_append, front, List.length_map]
  · intro implicit
    simp only [SessionTable.initTableModel, Bool.and_eq_true, Bool.not_eq_true'] at implicit ⊢
    obtain ⟨⟨⟨wanted, kept⟩, undeclared⟩, other⟩ := implicit
    rw [other, wanted, kept, undeclared]
    refine ⟨event.tbl.columns.length, ?_⟩
    simp only [if_true, Bool.false_eq_true, if_false,
      List.cons_append, List.nil_append, List.cons.injEq, true_and]
    apply List.eq_replicate_iff.mpr
    refine ⟨List.length_map _, fun seq member => ?_⟩
    obtain ⟨column, inside, rfl⟩ := List.mem_map.mp member
    exact column.member (List.any_eq_false.mp undeclared column inside |> Bool.eq_false_iff.mpr)
  · simp only [SessionTable.nDbCol, SessionTable.offset, SessionTable.initTableModel,
      List.length_append, front, List.length_map]
    omega

/-- Padding fills no empty slot. -/
theorem reinitAndPad_model (t : SessionTable) (tbl : Table) (implicitPk : Bool) :
    ∃ chains, (t.reinitAndPad tbl implicitPk).1 = { t.initTableModel tbl implicitPk with chains } ∧
      chains.buckets = t.chains.buckets ∧
      ∀ id, t.chains.live id = none → chains.live id = none := by
  unfold SessionTable.reinitAndPad
  simp only
  split
  · exact ⟨t.chains, rfl, rfl, fun _ dead => dead⟩
  · refine ⟨_, rfl, rfl, fun id dead => ?_⟩
    rw [HashChains.live] at dead ⊢
    rw [List.getElem?_map]
    rcases slot : t.chains.entries[id]? with _ | _ | e
    · rfl
    · rfl
    · rw [slot] at dead
      cases dead

theorem drifted_iff : drifted t event ↔ t.nDbCol ≠ event.tbl.columns.length := by
  unfold drifted
  cases kind : event.op with
  | insert => rw [event.newWide (by rw [kind]; decide), Option.getD_some]
  | delete => rw [event.oldWide (by rw [kind]; decide), Option.getD_some]
  | update => rw [event.oldWide (by rw [kind]; decide), Option.getD_some]

/-- An error of the session changes no table. -/
theorem Keeps.abandoned (keeps : s.Keeps history) (rc : Option String) :
    ({ s with rc } : SessionCore).Keeps history := ⟨keeps.tables, keeps.unused⟩

/-- The found table becomes a resolved one, or the event is ignored. -/
theorem Keeps.resolve (keeps : s.Keeps history) (named : s.findTableIdx event.tbl.name = some i)
    (undrifted : ∀ t, s.tables[i]? = some t → t.nEntry ≠ 0 → ¬ drifted t event) :
    (s.resolve event i).1.Keeps history ∧
      ∀ j, (s.resolve event i).2 = some j → ∃ t, (s.resolve event i).1.Resolved event j t := by
  have match_name : ∀ t, s.tables[i]? = some t →
      eqIgnoreAsciiCase t.name event.tbl.name = true := by
    intro t table
    obtain ⟨inside, holds, _⟩ := List.findIdx?_eq_some_iff_getElem.mp named
    rw [List.getElem?_eq_getElem inside, Option.some.injEq] at table
    rw [← table]
    exact holds
  unfold SessionCore.resolve
  cases table : s.tables[i]? with
  | none => exact ⟨keeps, nofun⟩
  | some t =>
    have kept := keeps.tables i t table
    obtain ⟨modelled, fits⟩ := initTableModel_modelled (match_name t table) s.implicitPk
    have inside := (List.getElem?_eq_some_iff.mp table).1
    have placed : ∀ {t' : SessionTable}, t'.name = t.name → Kept t' (logOf history i) →
        ({ s with tables := s.tables.set i t' } : SessionCore).Keeps history := by
      intro t' _ kept'
      have set := keeps.set table (fun j _ => (rfl : logOf [] j = []))
        (show Kept t' (logOf history i ++ logOf [] i) by
          rw [show logOf [] i = [] from rfl, List.append_nil]; exact kept')
      rwa [List.append_nil] at set
    have resolved : ∀ {t' : SessionTable}, t'.name = t.name → t'.initialized = true →
        t'.untrackable = false → event.tbl.columns.length = t'.nDbCol →
        ({ s with tables := s.tables.set i t' } : SessionCore).Resolved event i t' := by
      intro t' name ready tracked wide
      refine ⟨by rw [findTableIdx_set table name]; exact named, ?_, ⟨ready, tracked⟩, wide⟩
      simp only [List.getElem?_set_self inside]
    simp only
    split
    next new =>
      have empty := kept.idle (.inl new)
      have dead := HashChains.count_eq_zero.mp (by rw [← kept.counted, empty])
      refine ⟨placed rfl (kept.remodel empty rfl dead rfl rfl fun _ _ => modelled), fun j some => ?_⟩
      simp only at some
      split at some
      · cases some
      next tracked =>
        cases some
        exact ⟨_, resolved rfl rfl (Bool.eq_false_iff.mpr tracked) fits⟩
    next ready =>
      split
      · exact ⟨keeps, nofun⟩
      next tracked =>
        split
        next drift =>
          have empty : t.nEntry = 0 := by
            by_contra some
            exact undrifted t table some drift
          have dead := HashChains.count_eq_zero.mp (by rw [← kept.counted, empty])
          obtain ⟨chains, model, buckets, still⟩ := reinitAndPad_model t event.tbl s.implicitPk
          have remodelled : Kept (t.reinitAndPad event.tbl s.implicitPk).1 (logOf history i) := by
            rw [model]
            exact kept.remodel empty buckets (fun id => still id (dead id)) rfl rfl
              fun _ _ => ⟨modelled.wide, modelled.rowid⟩
          have name : (t.reinitAndPad event.tbl s.implicitPk).1.name = t.name := by rw [model]; rfl
          split
          next => exact ⟨(placed name remodelled).abandoned _, nofun⟩
          next =>
            refine ⟨placed name remodelled, fun j some => ?_⟩
            simp only at some
            split at some
            · cases some
            next tracked' =>
              cases some
              exact ⟨_, resolved name (by rw [model]; rfl) (Bool.eq_false_iff.mpr tracked')
                (by rw [model]; exact fits)⟩
        next settled =>
          rw [drifted_iff, not_not] at settled
          exact ⟨keeps, fun j some => by
            cases some
            exact ⟨t, named, table, ⟨Bool.eq_true_of_not_eq_false ready,
              Bool.eq_false_iff.mpr tracked⟩, settled.symm⟩⟩

theorem kept_new (name : Name) : Kept (.new name) [] := by
  have nobody : ∀ e, ¬ (SessionTable.new name).chains.Has e := by
    rintro e ⟨id, found⟩
    cases found
  exact ⟨rfl, rfl, .inl rfl, Nat.two_pow_pos 32, HashChains.filed_empty, nofun, fun _ => rfl,
    fun has => absurd has (nobody _), fun has => absurd has (nobody _), nofun⟩

theorem Keeps.attach (keeps : s.Keeps history) (name : Name) :
    ({ s with tables := s.tables ++ [.new name] } : SessionCore).Keeps history := by
  refine ⟨fun j u found => ?_, fun j beyond => ?_⟩
  · simp only [List.getElem?_append] at found
    split at found
    · exact keeps.tables j u found
    next beyond =>
      rw [List.mem_singleton.mp (List.mem_of_getElem? found), keeps.unused j (by omega)]
      exact kept_new name
  · rw [List.length_append] at beyond
    exact keeps.unused j (by omega)

theorem findTableIdx_attach {name : Name} (missing : s.findTableIdx name = none) :
    ({ s with tables := s.tables ++ [.new name] } : SessionCore).findTableIdx name =
      some s.tables.length := by
  have same : eqIgnoreAsciiCase name name = true := beq_self_eq_true _
  rw [findTableIdx] at missing ⊢
  simp only [List.findIdx?_append, missing, Option.none_or, List.findIdx?_singleton,
    SessionTable.new, same, if_true, Option.map_some, Nat.zero_add]

/-- Before its captures an event has its table resolved. -/
theorem Keeps.prepare (keeps : s.Keeps history) (steady : s.Steady event) :
    (s.prepare event).1.Keeps history ∧
      ∀ i, (s.prepare event).2 = some i → ∃ t, (s.prepare event).1.Resolved event i t := by
  have undrifted : s.listens = true → ∀ i t, s.findTableIdx event.tbl.name = some i →
      s.tables[i]? = some t → t.nEntry ≠ 0 → ¬ drifted t event := by
    intro listening i t named table
    exact steady.1 listening t (by rw [tableOf, named]; exact table)
  unfold SessionCore.prepare
  split
  · exact ⟨keeps, nofun⟩
  next hearing =>
    split
    · exact ⟨keeps, nofun⟩
    next main =>
      have listening : s.listens = true := by
        rw [not_or, ne_eq, not_not] at hearing
        rw [listens, Bool.eq_true_of_not_eq_false hearing.1, hearing.2,
          Bool.eq_true_of_not_eq_false main]
        rfl
      unfold SessionCore.findOrAutoAttach
      cases named : s.findTableIdx event.tbl.name with
      | some i =>
        exact keeps.resolve named fun t table => undrifted listening i t named table
      | none =>
        simp only
        by_cases wanted : s.autoAttach ∧ (s.filter.map (· event.tbl.name)).getD true
        · have attached := findTableIdx_attach named
          rw [if_pos wanted]
          refine (keeps.attach event.tbl.name).resolve attached fun t table some => ?_
          simp only [List.getElem?_concat_length, Option.some.injEq] at table
          subst table
          exact absurd rfl some
        · rw [if_neg wanted]
          exact ⟨keeps, nofun⟩

theorem capture_rechain {t' : SessionTable} (same : Rechained t t') (sop : Op) (bNewKey : Bool) :
    t'.capture sop event bNewKey = t.capture sop event bNewKey := by
  rw [same]
  rfl

theorem Resolved.rechain {t' : SessionTable} (resolved : s.Resolved event i t)
    (same : Rechained t t') :
    ({ s with tables := s.tables.set i t' } : SessionCore).Resolved event i t' := by
  have name : t'.name = t.name := by rw [same]
  have inside := (List.getElem?_eq_some_iff.mp resolved.table).1
  refine ⟨by rw [findTableIdx_set resolved.table name]; exact resolved.named, ?_, ?_, ?_⟩
  · simp only [List.getElem?_set_self inside]
  · rw [same]
    exact resolved.active
  · rw [same]
    exact resolved.fits

theorem Resolved.tableOf (resolved : s.Resolved event i t) :
    s.tableOf event.tbl.name = some t := by
  rw [SessionCore.tableOf, resolved.named]
  exact resolved.table

/-- The captures of an event, one after the other. -/
theorem Keeps.attempts (keeps : s.Keeps history) (resolved : s.Resolved event i t)
    (steps : List (Op × Bool)) (known : ∀ a ∈ steps, a ∈ SessionCore.attempts event.op)
    (room : RoomFor event steps s) :
    ∃ s', steps.foldlM (fun s a => s.recordOne event a.1 a.2) s = .ok s' ∧
      s'.Keeps (history ++ steps.filterMap fun a => (t.capture a.1 event a.2).map (i, ·)) := by
  induction steps generalizing s t history with
  | nil => exact ⟨s, rfl, by rw [List.filterMap_nil, List.append_nil]; exact keeps⟩
  | cons a steps ih =>
    obtain ⟨t', captured, same, kept⟩ := (keeps.tables i t resolved.table).recordOne
      resolved.active (room.1 t resolved.tableOf) (known a List.mem_cons_self)
      resolved.fits s.indirect
    have step : s.recordOne event a.1 a.2 = .ok { s with tables := s.tables.set i t' } := by
      rw [SessionCore.recordOne, resolved.named]
      simp only [resolved.table, captured, Checked.ok_bind]
    have log := fun j => @logOf_captures event i t j [a]
    have keeps' := @Keeps.set s history i t keeps resolved.table t'
      ([a].filterMap fun a => (t.capture a.1 event a.2).map (i, ·))
      (fun j other => by rw [log, if_neg other])
      (by
        rw [log, if_pos rfl]
        cases entry : t.capture a.1 event a.2 <;> simpa [entry] using kept)
    obtain ⟨s', done, final⟩ := ih keeps' (resolved.rechain same)
      (fun b member => known b (List.mem_cons_of_mem _ member)) (room.2 _ (by rw [step]; rfl))
    refine ⟨s', by rw [List.foldlM_cons, step, Checked.ok_bind, done], ?_⟩
    simp only [capture_rechain same] at final
    rw [List.append_assoc, ← List.filterMap_append, List.singleton_append] at final
    exact final

theorem Keeps.record (keeps : s.Keeps history) (steady : s.Steady event) :
    ∃ s', s.record event = .ok s' ∧ s'.Keeps (history ++ s.captures event) := by
  obtain ⟨prepared, resolves⟩ := keeps.prepare steady
  have room := steady.2
  unfold SessionCore.record SessionCore.captures
  match ready : s.prepare event with
  | (s', none) =>
    rw [ready] at prepared
    exact ⟨s', rfl, by rw [List.append_nil]; exact prepared⟩
  | (s', some i) =>
    rw [ready] at prepared resolves room
    obtain ⟨t, resolved⟩ := resolves i rfl
    simp only [resolved.table]
    exact prepared.attempts resolved _ (fun _ member => member) (room i rfl)

theorem Keeps.run (keeps : s.Keeps past) (events : List Event) (steady : s.SteadyRun events) :
    ∃ s', s.run events = .ok s' ∧ s'.Keeps (past ++ s.history events) := by
  induction events generalizing s past with
  | nil => exact ⟨s, rfl, by rw [SessionCore.history, List.append_nil]; exact keeps⟩
  | cons event rest ih =>
    obtain ⟨s', recorded, keeps'⟩ := keeps.record steady.1
    obtain ⟨final, done, kept⟩ := ih keeps' (steady.2 s' (by rw [recorded]; rfl))
    refine ⟨final, by rw [SessionCore.run, List.foldlM_cons, recorded]; exact done, ?_⟩
    rw [SessionCore.history, recorded, ← List.append_assoc]
    exact kept

theorem Fresh.keeps (fresh : s.Fresh) : s.Keeps [] := by
  refine ⟨fun i t table => ?_, fun _ _ => rfl⟩
  rw [fresh t (List.mem_of_getElem? table)]
  exact kept_new t.name

/-- As long as no rowid table comes to grow, no bucket count wraps and no schema drifts under
recorded changes, every table holds the first capture of each key where a lookup finds it. -/
theorem capture_first (s : SessionCore) (events : List Event) (fresh : s.Fresh)
    (steady : s.SteadyRun events) :
    ∃ s', s.run events = .ok s' ∧
      ∀ i t, s'.tables[i]? = some t → Captured t (logOf (s.history events) i) := by
  obtain ⟨s', done, keeps⟩ := fresh.keeps.run events steady
  rw [List.nil_append] at keeps
  exact ⟨s', done, fun i t table => (keeps.tables i t table).captured⟩

/-- A session on all tables, with the rowid where no key is declared. -/
def everything : SessionCore := ⟨true, false, ascii "main", true, true, [], none, none⟩

def oneColumn (declared : Bool) : Table :=
  ⟨ascii "t", [⟨ascii "a", declared, if declared then 1 else 0, ⟨.null, trivial⟩, by
    cases declared <;> simp⟩], false⟩

def insertion (declared : Bool) (n : Nat) : Event :=
  ⟨.insert, oneColumn declared, Int64.ofNat n, none, some [⟨.integer (Int64.ofNat n), trivial⟩], 0,
    fun kind => absurd rfl kind, fun _ => rfl, by cases declared <;> decide⟩

def deletion (declared : Bool) (n : Nat) : Event :=
  ⟨.delete, oneColumn declared, Int64.ofNat n, some [⟨.integer (Int64.ofNat n), trivial⟩], none, 0,
    fun _ => rfl, fun kind => absurd rfl kind, by cases declared <;> decide⟩

theorem capture_first_declared :
    ∃ s', everything.run [insertion true 1, insertion true 2, deletion true 1] = .ok s' ∧
      ∀ i t, s'.tables[i]? = some t → Captured t
        (logOf (everything.history [insertion true 1, insertion true 2, deletion true 1]) i) :=
  capture_first everything _ nofun (by decide +kernel)

/-- The 129th rowid lets the hash grow, and the key of an earlier one is entered again. -/
theorem rowid_twice :
    ∃ s' t, everything.run ((List.range 129).map (insertion false) ++ [deletion false 5]) =
        .ok s' ∧
      s'.tables[0]? = some t ∧ ∀ log, ¬ Captured t log := by
  have computed : (do
      let s' ← (everything.run ((List.range 129).map (insertion false) ++ [deletion false 5])).toOption
      let t ← s'.tables[0]?
      let key ← (t.entryKey (← t.chains.live 5)).toOption
      let key' ← (t.entryKey (← t.chains.live 129)).toOption
      some (key == key')) = some true := by
    decide +kernel
  simp only [Option.bind_eq_bind, Option.bind_eq_some_iff, Option.some.injEq] at computed
  obtain ⟨s', done, t, table, e, live, key, keyed, e', live', key', keyed', same⟩ := computed
  have ok {α : Type} {x : Checked String α} {a : α} (is : x.toOption = some a) : x = .ok a := by
    cases x <;> cases is
    rfl
  refine ⟨s', t, ok done, table, fun log captured => ?_⟩
  rw [← eq_of_beq same] at keyed'
  exact absurd (captured.once live live' (ok keyed) (ok keyed')) (by decide)

end SessionCore

end RustSql.Session
