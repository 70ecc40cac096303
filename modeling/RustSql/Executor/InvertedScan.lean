import RustSql.Executor.SortedRowids
import Mathlib.Data.List.Nodup

/-! An index scan misses no matching row, as long as the prefix terms are the front part of what
escaping makes of them. -/

namespace RustSql.Executor.Fts

open RustSql.Foundation RustSql.Types

abbrev Rows := List (Int64 × TsVector)

def entriesOf (row : Int64 × TsVector) : List Entry := (indexEntryKeys row.2).map fun key => (key, row.1)

/-- The tree holds the keys of all rows in order, and nothing else. -/
structure Indexed (bt : List Entry) (rows : Rows) : Prop where
  sorted : bt.Pairwise fun one two => (entryOrder one two).isLE
  holds : bt.Perm (rows.flatMap entriesOf)
  distinct : (rows.map Prod.fst).Nodup

/-- The bytes of the term are the front part of what they are escaped to. -/
def Stable (front : List UInt8) : Prop := front <+: escapeOrderBytes front

instance (front : List UInt8) : Decidable (Stable front) := inferInstanceAs (Decidable (_ <+: _))

mutual

/-- The prefix terms of a query whose postings are read. -/
def TsQuery.initials : TsQuery → List (List UInt8)
  | .lex word initial => if initial then [word] else []
  | .and a b => a.initials ++ b.initials
  | .or a b => a.initials ++ b.initials
  | .not _ => []
  | .phrase elems => elementInitials elems

def elementInitials : List TsQuery → List (List UInt8)
  | [] => []
  | e :: rest => e.initials ++ elementInitials rest

end

/-- No candidates, or all rows that match, in strict order. -/
def Complete (bt : List Entry) (rows : Rows) (q : TsQuery) : Prop :=
  ∀ rowids, invertedCandidates bt q = some rowids →
    Ascending rowids ∧ ∀ row ∈ rows, tsMatch row.2 q = true → row.1 ∈ rowids

def termKey (word : List UInt8) : List UInt8 := Value.encodeOrderKey (.text word)

theorem termKey_eq (word : List UInt8) : termKey word = 2 :: (escapeOrderBytes word ++ [0, 0]) := rfl

theorem eq_of_termKey_initial {one two : List UInt8} (part : termKey one <+: termKey two) : one = two := by
  rw [termKey_eq, termKey_eq, List.cons_prefix_cons] at part
  exact eq_of_prefix_escape one two part.2

theorem termKey_injective : Function.Injective termKey := by
  intro one two same
  exact eq_of_termKey_initial (same ▸ List.prefix_refl _)

theorem mem_entriesOf {row : Int64 × TsVector} {entry : Entry} :
    entry ∈ entriesOf row ↔ entry.2 = row.1 ∧ ∃ lexeme ∈ row.2.lexemes, entry.1 = termKey lexeme.1 := by
  obtain ⟨key, rowid⟩ := entry
  rw [entriesOf, indexEntryKeys, List.mem_map]
  constructor
  · rintro ⟨_, member, same⟩
    obtain ⟨lexeme, inside, rfl⟩ := List.mem_map.mp member
    cases same
    exact ⟨rfl, lexeme, inside, rfl⟩
  · rintro ⟨same, lexeme, inside, key⟩
    exact ⟨_, List.mem_map_of_mem inside, Prod.ext key.symm same.symm⟩

theorem entriesOf_nodup (row : Int64 × TsVector) : (entriesOf row).Nodup := by
  have keys : (indexEntryKeys row.2).Nodup := by
    have words := List.Nodup.map termKey_injective row.2.distinct
    rwa [List.map_map] at words
  exact List.Nodup.map (fun one two same => (Prod.mk.inj same).1) keys

section

variable {bt : List Entry} {rows : Rows} (index : Indexed bt rows)
include index

theorem Indexed.mem_iff {entry : Entry} : entry ∈ bt ↔ ∃ row ∈ rows, entry ∈ entriesOf row := by
  rw [index.holds.mem_iff, List.mem_flatMap]

theorem Indexed.nodup : bt.Nodup := by
  rw [index.holds.nodup_iff, List.Nodup, List.pairwise_flatMap]
  refine ⟨fun row _ => entriesOf_nodup row, ?_⟩
  have rowids := List.pairwise_map.mp index.distinct
  refine rowids.imp fun differ entry left other right same => differ ?_
  rw [← (mem_entriesOf.mp left).1, ← (mem_entriesOf.mp right).1, same]

theorem Indexed.keys_sorted : bt.Pairwise fun one two => (List.compareLex compare one.1 two.1).isLE := by
  refine index.sorted.imp fun {one two} order => ?_
  rw [entryOrder] at order
  cases keys : List.compareLex compare one.1 two.1 <;> simp_all

/-- What begins with some bytes is found by a scan from them. -/
theorem Indexed.scan_eq (key : List UInt8) :
    (scanIndexFrom bt key).takeWhile (fun entry => decide (key <+: entry.1)) =
      bt.filter fun entry => decide (key <+: entry.1) :=
  scanFrom_takeWhile index.keys_sorted

/-- The rowids of an exact term: in strict order, and of all rows with the lexeme. -/
theorem Indexed.postingsExact_spec (term : List UInt8) :
    Ascending (postingsExact bt term) ∧
      ∀ row ∈ rows, (∃ lexeme ∈ row.2.lexemes, lexeme.1 = term) → row.1 ∈ postingsExact bt term := by
  have found : postingsExact bt term = (bt.filter fun entry => decide (termKey term <+: entry.1)).map Prod.snd :=
    congrArg _ (index.scan_eq (termKey term))
  rw [found]
  constructor
  · -- all entries found are under one key
    have ordered : bt.Pairwise fun one two => (entryOrder one two).isLE ∧ one ≠ two :=
      index.sorted.and index.nodup
    refine List.pairwise_map.mpr ((ordered.filter _).imp_of_mem fun {one two} first second order => ?_)
    have key {entry : Entry} (member : entry ∈ bt.filter fun entry => decide (termKey term <+: entry.1)) :
        entry.1 = termKey term := by
      rw [List.mem_filter, decide_eq_true_eq] at member
      obtain ⟨row, _, held⟩ := index.mem_iff.mp member.1
      obtain ⟨_, lexeme, _, same⟩ := mem_entriesOf.mp held
      rw [same] at member ⊢
      rw [eq_of_termKey_initial member.2]
    obtain ⟨below, differ⟩ := order
    have same : one.1 = two.1 := (key first).trans (key second).symm
    have reflexive : List.compareLex compare two.1 two.1 = .eq := Std.ReflCmp.compare_self
    rw [entryOrder, same, reflexive, Ordering.then] at below
    have atMost : one.2.toInt ≤ two.2.toInt := Std.isLE_compare.mp below
    have apart : one.2 ≠ two.2 := fun equal => differ (Prod.ext same equal)
    exact Int64.lt_of_le_of_ne (Int64.le_iff_toInt_le.mpr atMost) apart
  · rintro row member ⟨lexeme, inside, rfl⟩
    refine List.mem_map.mpr ⟨(termKey lexeme.1, row.1), List.mem_filter.mpr ⟨?_, by simp⟩, rfl⟩
    exact index.mem_iff.mpr ⟨row, member, mem_entriesOf.mpr ⟨rfl, lexeme, inside, rfl⟩⟩

theorem Indexed.mem_postingsPrefix {front : List UInt8} {rowid : Int64} :
    rowid ∈ postingsPrefix bt front ↔ ∃ key, (key, rowid) ∈ bt ∧ 0x02 :: front <+: key := by
  have test : (fun entry : Entry => decide (entry.1.head? = some 0x02) && decide (front <+: entry.1.drop 1)) =
      fun entry => decide (0x02 :: front <+: entry.1) := by
    funext ⟨key, _⟩
    cases key with
    | nil => simp
    | cons head rest =>
      rw [Bool.eq_iff_iff, Bool.and_eq_true, decide_eq_true_eq, decide_eq_true_eq, decide_eq_true_eq,
        List.cons_prefix_cons, List.head?_cons, Option.some.injEq, List.drop_one, List.tail_cons,
        eq_comm (a := head)]
  unfold postingsPrefix
  rw [(sortDedup_spec _).2, test, index.scan_eq, List.mem_map]
  constructor
  · rintro ⟨entry, member, rfl⟩
    rw [List.mem_filter, decide_eq_true_eq] at member
    exact ⟨entry.1, member⟩
  · rintro ⟨key, member, part⟩
    exact ⟨(key, rowid), List.mem_filter.mpr ⟨member, by simpa using part⟩, rfl⟩

end

theorem escapeOrderBytes_append (one two : List UInt8) :
    escapeOrderBytes (one ++ two) = escapeOrderBytes one ++ escapeOrderBytes two := List.flatMap_append

/-- Of a stable term, the key of what begins with it begins with its bytes. -/
theorem Stable.key_initial {front word : List UInt8} (stable : Stable front) (part : front <+: word) :
    0x02 :: front <+: termKey word := by
  obtain ⟨rest, rfl⟩ := part
  rw [termKey_eq, List.cons_prefix_cons, escapeOrderBytes_append, List.append_assoc]
  exact ⟨rfl, stable.trans (List.prefix_append _ _)⟩

theorem escapeOrderBytes_length (bytes : List UInt8) : bytes.length ≤ (escapeOrderBytes bytes).length := by
  induction bytes with
  | nil => rfl
  | cons b rest ih =>
    rw [escapeOrderBytes_cons]
    split <;> simp <;> omega

/-- Of any other term, not even its own key does. -/
theorem stable_of_own_key {front : List UInt8} (part : 0x02 :: front <+: termKey front) : Stable front := by
  rw [termKey_eq, List.cons_prefix_cons] at part
  exact List.prefix_of_prefix_length_le part.2 (List.prefix_append _ _) (escapeOrderBytes_length front)

/-- A candidate set covers the rows of a property. -/
def Covers (rows : Rows) (candidates : CandSet) (holds : TsVector → Prop) : Prop :=
  ∀ rowids, candidates = .rows rowids → Ascending rowids ∧ ∀ row ∈ rows, holds row.2 → row.1 ∈ rowids

section

variable {rows : Rows} {one two : CandSet} {first second : TsVector → Prop}

theorem Covers.all (holds : TsVector → Prop) : Covers rows .all holds := nofun

theorem Covers.mono (covers : Covers rows one first) (weaker : ∀ v, second v → first v) :
    Covers rows one second := fun rowids is =>
  ⟨(covers rowids is).1, fun row member holds => (covers rowids is).2 row member (weaker _ holds)⟩

theorem Covers.inter (left : Covers rows one first) (right : Covers rows two second) :
    Covers rows (one.inter two) fun v => first v ∧ second v := by
  cases one with
  | all => exact right.mono fun _ holds => holds.2
  | rows l =>
    cases two with
    | all => exact left.mono fun _ holds => holds.1
    | rows r =>
      rintro _ ⟨⟩
      obtain ⟨ascending, mem⟩ := intersectSorted_spec (left l rfl).1 (right r rfl).1
      refine ⟨ascending, fun row member holds => (mem row.1).mpr ⟨?_, ?_⟩⟩
      · exact (left l rfl).2 row member holds.1
      · exact (right r rfl).2 row member holds.2

theorem Covers.union (left : Covers rows one first) (right : Covers rows two second) :
    Covers rows (one.union two) fun v => first v ∨ second v := by
  cases one with
  | all => exact Covers.all _
  | rows l =>
    cases two with
    | all => exact Covers.all _
    | rows r =>
      rintro _ ⟨⟩
      obtain ⟨ascending, mem⟩ := mergeSortedDedup_spec (left l rfl).1 (right r rfl).1
      refine ⟨ascending, fun row member holds => (mem row.1).mpr ?_⟩
      exact holds.imp ((left l rfl).2 row member) ((right r rfl).2 row member)

end

/-- A query holds of a vector as a whole or at some position. -/
def Meets (q : TsQuery) (v : TsVector) : Prop := tsMatch v q = true ∨ ∃ pos, queryMatchesAt v q pos = true

theorem meets_lex {v : TsVector} {word : List UInt8} {initial : Bool} (meets : Meets (.lex word initial) v) :
    ∃ lexeme ∈ v.lexemes, if initial then word <+: lexeme.1 else lexeme.1 = word := by
  rcases meets with whole | ⟨pos, here⟩
  · cases initial <;> simpa [tsMatch, TsVector.has, TsVector.hasPrefix] using whole
  · cases initial <;> simp only [queryMatchesAt, TsVector.hasAt, TsVector.hasPrefixAt, Bool.false_eq_true,
      if_false, if_true, List.any_eq_true, Bool.and_eq_true, decide_eq_true_eq] at here
    · obtain ⟨lexeme, inside, same, _⟩ := here
      exact ⟨lexeme, inside, same⟩
    · obtain ⟨lexeme, inside, part, _⟩ := here
      exact ⟨lexeme, inside, part⟩

theorem meets_and {v : TsVector} {a b : TsQuery} (meets : Meets (.and a b) v) : Meets a v ∧ Meets b v := by
  rcases meets with whole | ⟨pos, here⟩
  · rw [tsMatch, Bool.and_eq_true] at whole
    exact ⟨.inl whole.1, .inl whole.2⟩
  · rw [queryMatchesAt, Bool.and_eq_true] at here
    exact ⟨.inr ⟨pos, here.1⟩, .inr ⟨pos, here.2⟩⟩

theorem meets_or {v : TsVector} {a b : TsQuery} (meets : Meets (.or a b) v) : Meets a v ∨ Meets b v := by
  rcases meets with whole | ⟨pos, here⟩
  · rw [tsMatch, Bool.or_eq_true] at whole
    exact whole.imp .inl .inl
  · rw [queryMatchesAt, Bool.or_eq_true] at here
    exact here.imp (fun at_ => .inr ⟨pos, at_⟩) fun at_ => .inr ⟨pos, at_⟩

theorem elementsMatchAt_meets {v : TsVector} {elems : List TsQuery} {pos : UInt16} {i : Nat}
    (here : elementsMatchAt v elems pos i = true) : ∀ e ∈ elems, Meets e v := by
  induction elems generalizing i with
  | nil => simp
  | cons e rest ih =>
    rw [elementsMatchAt, Bool.and_eq_true] at here
    exact List.forall_mem_cons.mpr ⟨.inr ⟨_, here.1⟩, ih here.2⟩

theorem meets_phrase {v : TsVector} {elems : List TsQuery} (meets : Meets (.phrase elems) v) :
    ∀ e ∈ elems, Meets e v := by
  rcases meets with whole | ⟨pos, here⟩
  · rw [tsMatch] at whole
    obtain ⟨_, _, here⟩ := List.any_eq_true.mp whole
    exact elementsMatchAt_meets here
  · rw [queryMatchesAt] at here
    exact elementsMatchAt_meets here

section

variable {bt : List Entry} {rows : Rows}

theorem Indexed.lex_covers (index : Indexed bt rows) {word : List UInt8} {initial : Bool} (stable : initial = true → Stable word) :
    Covers rows (evalCandidates bt (.lex word initial)) (Meets (.lex word initial)) := by
  rw [evalCandidates]
  rintro _ ⟨⟩
  cases initial with
  | false =>
    obtain ⟨ascending, mem⟩ := index.postingsExact_spec word
    exact ⟨ascending, fun row member meets => mem row member (meets_lex meets)⟩
  | true =>
    refine ⟨(sortDedup_spec _).1, fun row member meets => ?_⟩
    obtain ⟨lexeme, inside, part⟩ := meets_lex meets
    refine index.mem_postingsPrefix.mpr ⟨termKey lexeme.1, ?_, (stable rfl).key_initial part⟩
    exact index.mem_iff.mpr ⟨row, member, mem_entriesOf.mpr ⟨rfl, lexeme, inside, rfl⟩⟩

mutual

theorem Indexed.evalCandidates_covers (index : Indexed bt rows) (q : TsQuery) (stable : ∀ word ∈ q.initials, Stable word) :
    Covers rows (evalCandidates bt q) (Meets q) := by
  cases q with
  | lex word initial =>
    exact index.lex_covers fun is => stable word (by simp [TsQuery.initials, is])
  | and a b =>
    rw [TsQuery.initials, List.forall_mem_append] at stable
    rw [evalCandidates]
    have left := index.evalCandidates_covers a stable.1
    have right := index.evalCandidates_covers b stable.2
    exact (left.inter right).mono fun _ => meets_and
  | or a b =>
    rw [TsQuery.initials, List.forall_mem_append] at stable
    rw [evalCandidates]
    have left := index.evalCandidates_covers a stable.1
    have right := index.evalCandidates_covers b stable.2
    exact (left.union right).mono fun _ => meets_or
  | not n =>
    rw [evalCandidates]
    exact Covers.all _
  | phrase elems =>
    rw [TsQuery.initials] at stable
    rw [evalCandidates]
    have covers := index.phraseCandidates_covers elems stable (Covers.all fun _ => True)
    exact covers.mono fun _ meets => ⟨trivial, meets_phrase meets⟩

theorem Indexed.phraseCandidates_covers (index : Indexed bt rows) (elems : List TsQuery)
    (stable : ∀ word ∈ elementInitials elems, Stable word) {acc : CandSet} {before : TsVector → Prop}
    (covers : Covers rows acc before) :
    Covers rows (phraseCandidates bt acc elems) fun v => before v ∧ ∀ e ∈ elems, Meets e v := by
  cases elems with
  | nil =>
    rw [phraseCandidates]
    exact covers.mono fun _ holds => holds.1
  | cons e rest =>
    rw [elementInitials, List.forall_mem_append] at stable
    rw [phraseCandidates]
    have here := covers.inter (index.evalCandidates_covers e stable.1)
    refine (index.phraseCandidates_covers rest stable.2 here).mono fun v holds => ?_
    rw [List.forall_mem_cons] at holds
    exact ⟨⟨holds.1, holds.2.1⟩, holds.2.2⟩

end

theorem Indexed.complete (index : Indexed bt rows) {q : TsQuery}
    (stable : ∀ word ∈ q.initials, Stable word) : Complete bt rows q := by
  intro rowids found
  have covers := index.evalCandidates_covers q stable
  rw [invertedCandidates] at found
  cases candidates : evalCandidates bt q with
  | all => simp [candidates] at found
  | rows listed =>
    rw [candidates] at found covers
    cases found
    obtain ⟨ascending, mem⟩ := covers rowids rfl
    exact ⟨ascending, fun row member whole => mem row member (.inl whole)⟩

end

/-- The one row whose lexeme is the term itself. -/
def ownRow (word : List UInt8) : Rows := [(1, ⟨[(word, [])], by simp⟩)]

def ownIndex (word : List UInt8) : List Entry := [(termKey word, 1)]

theorem ownIndex_indexed (word : List UInt8) : Indexed (ownIndex word) (ownRow word) where
  sorted := List.pairwise_singleton _ _
  holds := List.Perm.refl _
  distinct := by simp [ownRow]

/-- A prefix term of another kind misses the row that is the term. -/
theorem stable_of_complete {word : List UInt8}
    (complete : Complete (ownIndex word) (ownRow word) (.lex word true)) : Stable word := by
  have found := (complete (postingsPrefix (ownIndex word) word) rfl).2 _ (List.mem_singleton_self _)
    (by simp [tsMatch, TsVector.hasPrefix])
  obtain ⟨key, member, part⟩ := (ownIndex_indexed word).mem_postingsPrefix.mp found
  cases List.mem_singleton.mp member
  exact stable_of_own_key part

/-- Over any stock of prefix terms: scans miss nothing exactly if all the terms are stable. -/
theorem inverted_scan_complete (terms : List UInt8 → Prop) :
    (∀ q : TsQuery, (∀ word ∈ q.initials, terms word) →
        ∀ bt rows, Indexed bt rows → Complete bt rows q) ↔
      ∀ word, terms word → Stable word := by
  constructor
  · intro complete word allowed
    exact stable_of_complete (complete (.lex word true) (by simpa [TsQuery.initials] using allowed) _ _
      (ownIndex_indexed word))
  · intro stable q drawn bt rows index
    exact index.complete fun word read => stable word (drawn word read)

/-- A row with the lexeme `a`, NUL, `b` is not found by the lexeme itself as a prefix. -/
theorem nul_prefix_missed :
    Indexed (ownIndex [0x61, 0x00, 0x62]) (ownRow [0x61, 0x00, 0x62]) ∧
      ¬ Complete (ownIndex [0x61, 0x00, 0x62]) (ownRow [0x61, 0x00, 0x62]) (.lex [0x61, 0x00, 0x62] true) :=
  ⟨ownIndex_indexed _, fun complete => absurd (stable_of_complete complete) (by decide)⟩

end RustSql.Executor.Fts
