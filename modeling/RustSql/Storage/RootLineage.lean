import RustSql.Foundation.AssocMap
import RustSql.Foundation.GuardedRun
import Mathlib.Data.List.Nodup
import Mathlib.Data.List.Pairwise

/-! Root lineage: the splits of a transaction are entries (new root, old root), walked in
the order of a hash map, and folded into a map from roots to origins and one from origins to
current roots. -/

namespace RustSql.Storage.RootLineage

open RustSql.Foundation

structure Roots where
  live : AssocMap Nat Nat
  origin : AssocMap Nat Nat
  moved : Nat

def Roots.empty : Roots := ⟨∅, ∅, 0⟩

def Roots.originOf (roots : Roots) (root : Nat) : Nat := (roots.origin.lookup root).getD root

def Roots.currentRootOf (roots : Roots) (origin : Nat) : Nat := (roots.live.lookup origin).getD origin

/-- The bounded loop back through the entries of the batch. -/
def chase (lineage : List (Nat × Nat)) : Nat → Nat → Nat
  | 0, o => o
  | steps + 1, o => match lineage.lookup o with
    | some older => if older ≠ o then chase lineage steps older else o
    | none => o

def Roots.installEntry (lineage : List (Nat × Nat)) (roots : Roots) (entry : Nat × Nat) : Roots :=
  let ultimate := roots.originOf (chase lineage 64 entry.2)
  { roots with
    origin := ((roots.origin.insert entry.1 ultimate).insert entry.2 ultimate).insert ultimate ultimate
    live := roots.live.insert ultimate entry.1 }

def Roots.installLineage (roots : Roots) (lineage : List (Nat × Nat)) : Roots :=
  if lineage.isEmpty then roots
  else
    let folded := lineage.foldl (Roots.installEntry lineage) roots
    { folded with moved := folded.live.entries.length }

/-- The splits of one tree in one transaction: its roots, the newest first, down to the one
the transaction found. -/
structure Chain where
  tops : List Nat
  bottom : Nat
  split : tops ≠ []

namespace Chain

def roots (chain : Chain) : List Nat := chain.tops ++ [chain.bottom]

def newest (chain : Chain) : Nat := chain.tops.head chain.split

/-- The entries (new root, old root). -/
def links (chain : Chain) : List (Nat × Nat) := chain.roots.zip chain.roots.tail

end Chain

/-- The batch holds the splits of these chains, in any order. New roots are new pages, and
each tree has one chain. -/
structure Splits (roots : Roots) (chains : List Chain) (lineage : List (Nat × Nat)) : Prop where
  entries : lineage.Perm (chains.flatMap Chain.links)
  distinct : (chains.flatMap Chain.roots).Nodup
  fresh : ∀ chain ∈ chains, ∀ top ∈ chain.tops, roots.origin.lookup top = none ∧
    ∀ root, roots.origin.lookup root ≠ some top
  separate : chains.Pairwise fun one two => roots.originOf one.bottom ≠ roots.originOf two.bottom

/-- The newest split of the chain is walked last. -/
def NewestLast (lineage : List (Nat × Nat)) (chain : Chain) : Prop :=
  (lineage.filter (· ∈ chain.links)).getLast?.map Prod.fst = some chain.newest

/-- A split with more than 64 others below it is walked after one that has the root 64 steps
further down. -/
def InOrder (chains : List Chain) (lineage : List (Nat × Nat)) : Prop :=
  ∀ chain ∈ chains, ∀ above new old below, chain.roots = above ++ new :: old :: below →
    64 < below.length → ∀ done rest, lineage = done ++ (new, old) :: rest →
      ∀ root, below[63]? = some root → ∃ entry ∈ done, entry.1 = root ∨ entry.2 = root

variable {lineage : List (Nat × Nat)}

/-- Chains of at most 65 splits need no order. -/
theorem inOrder_of_short {chains : List Chain} (short : ∀ chain ∈ chains, chain.tops.length ≤ 65) :
    InOrder chains lineage := by
  intro chain member above new old below shape long
  have length := congrArg List.length shape
  have bound := short chain member
  simp only [Chain.roots, List.length_append, List.length_cons, List.length_nil] at length
  omega

/-- Where every root comes from, and what the root of every origin is now. -/
structure Trees where
  fold : Nat → Nat
  current : Nat → Nat

/-- No root has moved. -/
def Trees.start : Trees := ⟨id, id⟩

/-- Each root of a chain belongs to the tree of its bottom, whose root is the newest. -/
def Trees.install (trees : Trees) (chains : List Chain) : Trees where
  fold root := match chains.find? fun chain => root ∈ chain.roots with
    | some chain => trees.fold chain.bottom
    | none => trees.fold root
  current origin := match chains.find? fun chain => trees.fold chain.bottom = origin with
    | some chain => chain.newest
    | none => trees.current origin

/-- The maps answer as the trees do. -/
structure Agrees (roots : Roots) (trees : Trees) : Prop where
  origin : ∀ root, roots.originOf root = trees.fold root
  current : ∀ origin, roots.currentRootOf origin = trees.current origin
  settled : ∀ root origin, roots.origin.lookup root = some origin → roots.origin.lookup origin = some origin

/-- The entries lead down this list and no further. -/
def Follows (lineage : List (Nat × Nat)) : List Nat → Prop
  | [] => True
  | [bottom] => lineage.lookup bottom = none
  | new :: old :: below => lineage.lookup new = some old ∧ old ≠ new ∧ Follows lineage (old :: below)

theorem Follows.drop (above : List Nat) {below : List Nat}
    (follows : Follows lineage (above ++ below)) : Follows lineage below := by
  induction above with
  | nil => exact follows
  | cons root rest ih =>
    apply ih
    cases shape : rest ++ below with
    | nil => exact trivial
    | cons next others =>
      rw [List.cons_append, shape] at follows
      exact follows.2.2

theorem chase_follows {root : Nat} {below : List Nat} (follows : Follows lineage (root :: below))
    (steps : Nat) :
    chase lineage steps root = ((root :: below)[steps]?).getD ((root :: below).getLast (List.cons_ne_nil _ _)) := by
  induction below generalizing root steps with
  | nil =>
    have ends : lineage.lookup root = none := follows
    cases steps with
    | zero => rfl
    | succ steps => rw [chase, ends]; rfl
  | cons next below ih =>
    obtain ⟨found, differ, later⟩ := follows
    cases steps with
    | zero => rfl
    | succ steps =>
      rw [chase, found]
      dsimp only
      rw [if_pos differ, ih later, List.getLast_cons (List.cons_ne_nil _ _)]
      rfl

theorem Chain.mem_links {chain : Chain} {entry : Nat × Nat} :
    entry ∈ chain.links ↔ ∃ above below, chain.roots = above ++ entry.1 :: entry.2 :: below := by
  have pairs (roots : List Nat) : entry ∈ roots.zip roots.tail ↔
      ∃ above below, roots = above ++ entry.1 :: entry.2 :: below := by
    induction roots with
    | nil => simp
    | cons new rest ih =>
      cases rest with
      | nil =>
        simp only [List.tail_cons, List.zip_nil_right, List.not_mem_nil, false_iff, not_exists]
        intro above below shape
        have length := congrArg List.length shape
        simp at length
        omega
      | cons old below =>
        rw [List.tail_cons, List.zip_cons_cons, List.mem_cons]
        rw [List.tail_cons] at ih
        constructor
        · rintro (rfl | later)
          · exact ⟨[], below, rfl⟩
          · obtain ⟨above, below', shape⟩ := ih.mp later
            exact ⟨new :: above, below', by rw [shape]; rfl⟩
        · rintro ⟨above, below', shape⟩
          cases above with
          | nil =>
            rw [List.nil_append] at shape
            cases shape
            exact .inl rfl
          | cons first above =>
            rw [List.cons_append, List.cons.injEq] at shape
            exact .inr (ih.mpr ⟨above, below', shape.2⟩)
  exact pairs chain.roots

/-- Every root of a chain is in one of its splits. -/
theorem Chain.linked {chain : Chain} {root : Nat} (member : root ∈ chain.roots) :
    ∃ entry ∈ chain.links, root = entry.1 ∨ root = entry.2 := by
  obtain ⟨above, below, shape⟩ := List.append_of_mem member
  cases below with
  | cons old below => exact ⟨(root, old), Chain.mem_links.mpr ⟨above, below, shape⟩, .inl rfl⟩
  | nil =>
    -- the bottom: the root above it is there since the chain has a split
    rcases List.eq_nil_or_concat above with rfl | ⟨above, new, rfl⟩
    · have length := congrArg List.length shape
      have some := List.length_pos_iff.mpr chain.split
      simp only [Chain.roots, List.length_append, List.length_cons, List.length_nil] at length
      omega
    · rw [List.concat_eq_append, List.append_assoc] at shape
      exact ⟨(new, root), Chain.mem_links.mpr ⟨above, [], shape⟩, .inr rfl⟩

theorem Chain.top_of_link {chain : Chain} {entry : Nat × Nat} (member : entry ∈ chain.links) :
    entry.1 ∈ chain.tops ∧ entry.2 ∈ chain.roots := by
  obtain ⟨above, below, shape⟩ := Chain.mem_links.mp member
  refine ⟨?_, by rw [shape]; simp⟩
  have dropped := congrArg List.dropLast shape
  rw [Chain.roots, List.dropLast_concat, List.dropLast_append_cons, List.dropLast_cons_cons] at dropped
  rw [dropped]
  simp

theorem Chain.keys (chain : Chain) : chain.links.map Prod.fst = chain.tops := by
  have keys (roots : List Nat) : (roots.zip roots.tail).map Prod.fst = roots.dropLast := by
    induction roots with
    | nil => rfl
    | cons new rest ih =>
      cases rest with
      | nil => rfl
      | cons old below => rw [List.tail_cons, List.zip_cons_cons, List.map_cons, List.dropLast_cons_cons, ← ih]; rfl
  exact (keys chain.roots).trans List.dropLast_concat

theorem eq_of_pairwise {α : Type} {R : α → α → Prop} (symm : ∀ a b, R a b → R b a) {l : List α}
    (apart : l.Pairwise R) {a b : α} (first : a ∈ l) (second : b ∈ l) (meet : ¬ R a b) : a = b := by
  have : Std.Symm R := ⟨symm⟩
  by_contra differ
  exact meet (apart.forall first second differ)

namespace Splits

variable {start : Roots} {chains : List Chain} {lineage : List (Nat × Nat)}

theorem eq_of_root (splits : Splits start chains lineage) {one two : Chain} (first : one ∈ chains)
    (second : two ∈ chains) {root : Nat} (here : root ∈ one.roots) (there : root ∈ two.roots) : one = two := by
  have apart := (List.nodup_flatMap.mp splits.distinct).2
  exact eq_of_pairwise (fun _ _ disjoint => show List.Disjoint _ _ from fun _ one two => disjoint two one) apart
    first second fun disjoint => disjoint here there

theorem eq_of_origin (splits : Splits start chains lineage) {one two : Chain} (first : one ∈ chains)
    (second : two ∈ chains) (same : start.originOf one.bottom = start.originOf two.bottom) : one = two := by
  exact eq_of_pairwise (fun _ _ => Ne.symm) splits.separate first second (· same)

theorem mem_lineage (splits : Splits start chains lineage) {entry : Nat × Nat} :
    entry ∈ lineage ↔ ∃ chain ∈ chains, entry ∈ chain.links := by
  rw [splits.entries.mem_iff, List.mem_flatMap]

theorem keys_nodup (splits : Splits start chains lineage) : (lineage.map Prod.fst).Nodup := by
  obtain ⟨each, apart⟩ := List.nodup_flatMap.mp splits.distinct
  rw [(splits.entries.map Prod.fst).nodup_iff, List.map_flatMap, List.nodup_flatMap]
  constructor
  · intro chain member
    rw [chain.keys]
    exact (each chain member).sublist (List.sublist_append_left _ _)
  · refine apart.imp fun {one two} disjoint root here there => ?_
    simp only [Chain.keys] at here there
    exact disjoint (List.mem_append_left _ here) (List.mem_append_left _ there)

theorem lookup (splits : Splits start chains lineage) {chain : Chain} (member : chain ∈ chains)
    {new old : Nat} (link : (new, old) ∈ chain.links) : lineage.lookup new = some old := by
  have inside := splits.mem_lineage.mpr ⟨chain, member, link⟩
  have distinct := splits.keys_nodup
  clear splits
  induction lineage with
  | nil => cases inside
  | cons entry rest ih =>
    obtain ⟨fresh, distinct⟩ := List.nodup_cons.mp distinct
    rcases List.mem_cons.mp inside with rfl | later
    · exact List.lookup_cons_self
    · rw [List.lookup_cons, show (new == entry.1) = false from beq_false_of_ne ?_]
      · exact ih later distinct
      · rintro rfl
        exact fresh (List.mem_map.mpr ⟨_, later, rfl⟩)

theorem follows (splits : Splits start chains lineage) {chain : Chain} (member : chain ∈ chains) :
    Follows lineage chain.roots := by
  have part (above below : List Nat) (shape : chain.roots = above ++ below) : Follows lineage below := by
    induction below generalizing above with
    | nil => exact trivial
    | cons new rest ih =>
      have later := ih (above ++ [new]) (by rw [shape, List.append_assoc]; rfl)
      cases rest with
      | cons old below =>
        have nodup := (List.nodup_flatMap.mp splits.distinct).1 chain member
        rw [shape] at nodup
        refine ⟨splits.lookup member (Chain.mem_links.mpr ⟨above, below, shape⟩), ?_, later⟩
        rintro rfl
        exact (List.nodup_cons.mp (List.nodup_append.mp nodup).2.1).1 List.mem_cons_self
      | nil =>
        -- the bottom is no new root
        have last : new = chain.bottom := (List.append_inj' shape.symm rfl).2 |> List.cons.inj |>.1
        refine List.lookup_eq_none_iff.mpr fun entry inside => ?_
        obtain ⟨other, listed, link⟩ := splits.mem_lineage.mp inside
        have top := (Chain.top_of_link link).1
        refine bne_iff_ne.mpr ?_
        rintro rfl
        have root : entry.1 ∈ chain.roots := by rw [shape]; simp
        obtain rfl := splits.eq_of_root listed member (List.mem_append_left _ top) root
        have nodup := (List.nodup_flatMap.mp splits.distinct).1 other member
        exact (List.nodup_append.mp nodup).2.2 _ top _ (List.mem_singleton_self _) last
  exact part [] chain.roots rfl

end Splits

/-- A page that the chain's splits concern: a root of it or its origin. -/
def Chain.Owns (start : Roots) (chain : Chain) (root : Nat) : Prop :=
  root ∈ chain.roots ∨ root = start.originOf chain.bottom

/-- What the walk has done so far: the pages of the entries passed lead to the origins of
their chains, the others as before. -/
structure Walked (start : Roots) (chains : List Chain) (done : List (Nat × Nat)) (roots : Roots) : Prop where
  touched : ∀ chain ∈ chains, ∀ entry ∈ done, entry ∈ chain.links → ∀ root,
    root = entry.1 ∨ root = entry.2 ∨ root = start.originOf chain.bottom →
      roots.origin.lookup root = some (start.originOf chain.bottom)
  untouched : ∀ root, (∀ chain ∈ chains, ∀ entry ∈ done, entry ∈ chain.links →
    ¬ (root = entry.1 ∨ root = entry.2 ∨ root = start.originOf chain.bottom)) →
      roots.origin.lookup root = start.origin.lookup root
  live : ∀ chain ∈ chains, roots.live.lookup (start.originOf chain.bottom) =
    ((done.filter (· ∈ chain.links)).getLast?.map Prod.fst).or
      (start.live.lookup (start.originOf chain.bottom))
  others : ∀ origin, (∀ chain ∈ chains, origin ≠ start.originOf chain.bottom) →
    roots.live.lookup origin = start.live.lookup origin

/-- The origins found by lookups are their own origins. -/
def Settled (roots : Roots) : Prop :=
  ∀ root origin, roots.origin.lookup root = some origin → roots.origin.lookup origin = some origin

section Walk

variable {start : Roots} {chains : List Chain} {lineage : List (Nat × Nat)}

theorem originOf_cases (roots : Roots) (root : Nat) :
    roots.origin.lookup root = none ∧ roots.originOf root = root ∨
      roots.origin.lookup root = some (roots.originOf root) := by
  unfold Roots.originOf
  cases roots.origin.lookup root with
  | none => exact .inl ⟨rfl, rfl⟩
  | some origin => exact .inr rfl

/-- No page belongs to two trees. -/
theorem Splits.owner (splits : Splits start chains lineage) (settled : Settled start) {one two : Chain}
    (first : one ∈ chains) (second : two ∈ chains) {root : Nat} (here : one.Owns start root)
    (there : two.Owns start root) : one = two := by
  -- the origin of a chain that is a root of another chain is its bottom
  have crossing {one two : Chain} (first : one ∈ chains) (second : two ∈ chains)
      (here : start.originOf one.bottom ∈ two.roots) : one = two := by
    rcases originOf_cases start one.bottom with ⟨_, self⟩ | found
    · rw [self] at here
      exact splits.eq_of_root first second (List.mem_append_right _ (List.mem_singleton_self _)) here
    · rcases List.mem_append.mp here with top | bottom
      · exact absurd found ((splits.fresh two second _ top).2 one.bottom)
      · have is : start.originOf one.bottom = two.bottom := List.mem_singleton.mp bottom
        have own := settled _ _ found
        rw [is] at own found
        refine splits.eq_of_origin first second ?_
        rw [is, Roots.originOf, own, Option.getD_some]
  rcases here with here | rfl <;> rcases there with there | there
  · exact splits.eq_of_root first second here there
  · rw [there] at here
    exact (crossing second first here).symm
  · exact crossing first second there
  · exact splits.eq_of_origin first second there

theorem Chain.owns_link (start : Roots) {chain : Chain} {entry : Nat × Nat} (link : entry ∈ chain.links)
    {root : Nat} (is : root = entry.1 ∨ root = entry.2 ∨ root = start.originOf chain.bottom) :
    chain.Owns start root := by
  obtain ⟨top, old⟩ := Chain.top_of_link link
  rcases is with rfl | rfl | rfl
  · exact .inl (List.mem_append_left _ top)
  · exact .inl old
  · exact .inr rfl

/-- A page of a chain answers with its origin once an entry has named it. -/
theorem Walked.originOf_bottom {done : List (Nat × Nat)} {roots : Roots}
    (splits : Splits start chains lineage) (settled : Settled start)
    (walked : Walked start chains done roots) {chain : Chain} (member : chain ∈ chains) :
    roots.originOf chain.bottom = start.originOf chain.bottom := by
  by_cases named : ∃ other ∈ chains, ∃ entry ∈ done, entry ∈ other.links ∧
      (chain.bottom = entry.1 ∨ chain.bottom = entry.2 ∨ chain.bottom = start.originOf other.bottom)
  · obtain ⟨other, listed, entry, passed, link, is⟩ := named
    obtain rfl := splits.owner settled listed member (Chain.owns_link start link is)
      (.inl (List.mem_append_right _ (List.mem_singleton_self _)))
    rw [Roots.originOf, walked.touched other listed entry passed link _ is, Option.getD_some]
  · rw [Roots.originOf, walked.untouched chain.bottom fun other listed entry passed link is =>
      named ⟨other, listed, entry, passed, link, is⟩]
    rfl

/-- The walk finds the origin of the chain of every entry. -/
theorem Walked.ultimate {done rest : List (Nat × Nat)} {roots : Roots} {entry : Nat × Nat}
    (splits : Splits start chains lineage) (settled : Settled start) (ordered : InOrder chains lineage)
    (walked : Walked start chains done roots) (walk : lineage = done ++ entry :: rest) {chain : Chain}
    (member : chain ∈ chains) (link : entry ∈ chain.links) :
    roots.originOf (chase lineage 64 entry.2) = start.originOf chain.bottom := by
  obtain ⟨above, below, shape⟩ := Chain.mem_links.mp link
  have follows : Follows lineage (entry.2 :: below) := by
    have all := splits.follows member
    rw [shape] at all
    exact (all.drop above).2.2
  have last : (entry.2 :: below).getLast (List.cons_ne_nil _ _) = chain.bottom := by
    have ends : chain.roots.getLast? = some chain.bottom := List.getLast?_concat
    rw [shape, List.getLast?_append_cons, List.getLast?_cons_cons, List.getLast?_eq_some_getLast (List.cons_ne_nil _ _)] at ends
    exact Option.some.inj ends
  rw [chase_follows follows, last]
  rcases Nat.lt_or_ge 64 below.length with long | short
  · rw [List.getElem?_cons_succ, List.getElem?_eq_getElem (by omega), Option.getD_some]
    obtain ⟨other, passed, is⟩ := ordered chain member above entry.1 entry.2 below shape long done rest walk _
      (List.getElem?_eq_getElem (by omega))
    obtain ⟨tree, listed, linked⟩ := splits.mem_lineage.mp
      (show other ∈ lineage by rw [walk]; exact List.mem_append_left _ passed)
    have inside : below[63] ∈ chain.roots := by
      rw [shape]
      simp
    have names : below[63] = other.1 ∨ below[63] = other.2 ∨ below[63] = start.originOf tree.bottom :=
      is.elim (fun same => .inl same.symm) fun same => .inr (.inl same.symm)
    obtain rfl := splits.owner settled listed member (Chain.owns_link start linked names) (.inl inside)
    rw [Roots.originOf, walked.touched tree listed other passed linked _ names, Option.getD_some]
  · have bottom : ((entry.2 :: below)[64]?).getD chain.bottom = chain.bottom := by
      rcases Nat.lt_or_ge below.length 64 with few | _
      · rw [List.getElem?_eq_none (by simp; omega), Option.getD_none]
      · rw [← last, List.getLast_eq_getElem, List.getElem?_eq_getElem (by simp; omega), Option.getD_some]
        congr 1
        simp
        omega
    rw [bottom]
    exact walked.originOf_bottom splits settled member

theorem Roots.lookup_installEntry (roots : Roots) (entry : Nat × Nat) (root : Nat) :
    let ultimate := roots.originOf (chase lineage 64 entry.2)
    (roots.installEntry lineage entry).origin.lookup root =
      if root = entry.1 ∨ root = entry.2 ∨ root = ultimate then some ultimate
      else roots.origin.lookup root := by
  simp only [Roots.installEntry, AssocMap.lookup_insert_eq]
  split_ifs <;> simp_all

theorem Walked.step {done rest : List (Nat × Nat)} {roots : Roots} {entry : Nat × Nat}
    (splits : Splits start chains lineage) (settled : Settled start) (ordered : InOrder chains lineage)
    (walked : Walked start chains done roots) (walk : lineage = done ++ entry :: rest) :
    Walked start chains (done ++ [entry]) (roots.installEntry lineage entry) := by
  obtain ⟨chain, member, link⟩ := splits.mem_lineage.mp (show entry ∈ lineage by rw [walk]; simp)
  have ultimate := walked.ultimate splits settled ordered walk member link
  have found := @Roots.lookup_installEntry lineage roots entry
  simp only [ultimate] at found
  have own {other : Chain} (listed : other ∈ chains) (linked : entry ∈ other.links) : other = chain :=
    splits.eq_of_root listed member (List.mem_append_left _ (Chain.top_of_link linked).1)
      (List.mem_append_left _ (Chain.top_of_link link).1)
  refine ⟨?_, ?_, ?_, ?_⟩
  · intro other listed passed inside linked root is
    rw [found]
    split
    next named =>
      obtain rfl := splits.owner settled listed member (Chain.owns_link start linked is)
        (Chain.owns_link start link named)
      rfl
    next unnamed =>
      rcases List.mem_append.mp inside with before | now
      · exact walked.touched other listed passed before linked root is
      · obtain rfl := List.mem_singleton.mp now
        obtain rfl := own listed linked
        exact absurd is unnamed
  · intro root unnamed
    rw [found, if_neg (unnamed chain member entry (by simp) link)]
    exact walked.untouched root fun other listed passed before =>
      unnamed other listed passed (List.mem_append_left _ before)
  · intro other listed
    rw [Roots.installEntry, ultimate, AssocMap.lookup_insert_eq, List.filter_append]
    by_cases same : other = chain
    · subst same
      rw [if_pos rfl, List.filter_cons_of_pos (by simpa using link)]
      simp
    · rw [if_neg fun alike => same (splits.eq_of_origin listed member alike),
        List.filter_cons_of_neg (by simpa using fun linked => same (own listed linked)), List.filter_nil,
        List.append_nil]
      exact walked.live other listed
  · intro origin apart
    rw [Roots.installEntry, ultimate, AssocMap.lookup_insert_eq, if_neg (apart chain member)]
    exact walked.others origin apart

theorem walked_all (splits : Splits start chains lineage) (settled : Settled start)
    (ordered : InOrder chains lineage) :
    Walked start chains lineage (lineage.foldl (Roots.installEntry lineage) start) := by
  have every (rest done : List (Nat × Nat)) (roots : Roots) (walk : lineage = done ++ rest)
      (walked : Walked start chains done roots) :
      Walked start chains lineage (rest.foldl (Roots.installEntry lineage) roots) := by
    induction rest generalizing done roots with
    | nil =>
      rw [List.append_nil] at walk
      exact walk ▸ walked
    | cons entry rest ih =>
      exact ih (done ++ [entry]) _ (by rw [walk, List.append_assoc]; rfl)
        (walked.step splits settled ordered walk)
  refine every lineage [] start rfl ⟨nofun, fun _ _ => rfl, fun _ _ => ?_, fun _ _ => rfl⟩
  rw [List.filter_nil, List.getLast?_nil, Option.map_none, Option.none_or]

end Walk

section Batches

variable {start : Roots} {chains : List Chain} {lineage : List (Nat × Nat)}

/-- The moved count aside, an install is the walk. -/
theorem walked_install (splits : Splits start chains lineage) (settled : Settled start)
    (ordered : InOrder chains lineage) : Walked start chains lineage (start.installLineage lineage) := by
  have walked := walked_all splits settled ordered
  unfold Roots.installLineage
  split
  next empty =>
    obtain rfl := List.isEmpty_iff.mp empty
    exact walked
  next => exact ⟨walked.touched, walked.untouched, walked.live, walked.others⟩

theorem origin_installed (splits : Splits start chains lineage)
    (walked : Walked start chains lineage (start.installLineage lineage)) {chain : Chain}
    (member : chain ∈ chains) {root : Nat} (inside : root ∈ chain.roots) :
    (start.installLineage lineage).originOf root = start.originOf chain.bottom := by
  obtain ⟨entry, link, is⟩ := Chain.linked inside
  have found := walked.touched chain member entry (splits.mem_lineage.mpr ⟨chain, member, link⟩) link root
    (is.imp_right .inl)
  rw [Roots.originOf, found, Option.getD_some]

/-- Some split of a chain is walked last. -/
theorem last_some (splits : Splits start chains lineage) {chain : Chain} (member : chain ∈ chains) :
    ∃ newest, (lineage.filter (· ∈ chain.links)).getLast?.map Prod.fst = some newest := by
  cases last : (lineage.filter (· ∈ chain.links)).getLast? with
  | some entry => exact ⟨entry.1, rfl⟩
  | none =>
    obtain ⟨entry, link, _⟩ := Chain.linked (show chain.bottom ∈ chain.roots by simp [Chain.roots])
    have inside := splits.mem_lineage.mpr ⟨chain, member, link⟩
    have none := List.filter_eq_nil_iff.mp (List.getLast?_eq_none_iff.mp last) entry inside
    exact absurd link (by simpa using none)

theorem current_installed (splits : Splits start chains lineage)
    (walked : Walked start chains lineage (start.installLineage lineage)) {chain : Chain}
    (member : chain ∈ chains) :
    (start.installLineage lineage).currentRootOf (start.originOf chain.bottom) = chain.newest ↔
      NewestLast lineage chain := by
  obtain ⟨newest, last⟩ := last_some splits member
  rw [Roots.currentRootOf, walked.live chain member, NewestLast, last, Option.some_or, Option.getD_some,
    Option.some.injEq]

theorem originOf_originOf (settled : Settled start) (root : Nat) :
    start.originOf (start.originOf root) = start.originOf root := by
  rcases originOf_cases start root with ⟨_, self⟩ | found
  · rw [self]
    exact self
  · rw [Roots.originOf, settled _ _ found, Option.getD_some]

theorem Agrees.install {trees : Trees} (agrees : Agrees start trees) (splits : Splits start chains lineage)
    (ordered : InOrder chains lineage) (newest : ∀ chain ∈ chains, NewestLast lineage chain) :
    Agrees (start.installLineage lineage) (trees.install chains) := by
  have walked := walked_install splits agrees.settled ordered
  have named {chain : Chain} (member : chain ∈ chains) {root : Nat} (own : chain.Owns start root) :
      (start.installLineage lineage).origin.lookup root = some (start.originOf chain.bottom) := by
    rcases own with inside | is
    · obtain ⟨entry, link, is⟩ := Chain.linked inside
      exact walked.touched chain member entry (splits.mem_lineage.mpr ⟨chain, member, link⟩) link root
        (is.imp_right .inl)
    · obtain ⟨entry, link, _⟩ := Chain.linked (show chain.bottom ∈ chain.roots by simp [Chain.roots])
      exact walked.touched chain member entry (splits.mem_lineage.mpr ⟨chain, member, link⟩) link root
        (.inr (.inr is))
  have unnamed {root : Nat} (free : ∀ chain ∈ chains, ¬ chain.Owns start root) :
      (start.installLineage lineage).origin.lookup root = start.origin.lookup root :=
    walked.untouched root fun chain member _ _ link is =>
      free chain member (Chain.owns_link start link is)
  refine ⟨fun root => ?_, fun origin => ?_, fun root origin found => ?_⟩
  · simp only [Trees.install]
    cases chosen : chains.find? fun chain => decide (root ∈ chain.roots) with
    | some chain =>
      have inside : root ∈ chain.roots := by simpa using List.find?_some chosen
      rw [Roots.originOf, named (List.mem_of_find?_eq_some chosen) (.inl inside), Option.getD_some]
      exact agrees.origin chain.bottom
    | none =>
      have outside : ∀ chain ∈ chains, root ∉ chain.roots := fun chain member =>
        of_decide_eq_false (Bool.eq_false_iff.mpr (List.find?_eq_none.mp chosen chain member))
      rw [← agrees.origin root]
      by_cases owned : ∃ chain ∈ chains, chain.Owns start root
      · obtain ⟨chain, member, own⟩ := owned
        rw [Roots.originOf, named member own, Option.getD_some, own.resolve_left (outside chain member),
          originOf_originOf agrees.settled]
      · rw [Roots.originOf, unnamed fun chain member own => owned ⟨chain, member, own⟩]
        rfl
  · simp only [Trees.install]
    cases chosen : chains.find? fun chain => decide (trees.fold chain.bottom = origin) with
    | some chain =>
      have member := List.mem_of_find?_eq_some chosen
      have is : trees.fold chain.bottom = origin := by simpa using List.find?_some chosen
      rw [← is, ← agrees.origin chain.bottom]
      exact (current_installed splits walked member).mpr (newest chain member)
    | none =>
      have apart : ∀ chain ∈ chains, origin ≠ start.originOf chain.bottom := fun chain member same =>
        of_decide_eq_false (Bool.eq_false_iff.mpr (List.find?_eq_none.mp chosen chain member))
          (by rw [same, agrees.origin])
      rw [Roots.currentRootOf, walked.others origin apart, ← agrees.current origin]
      rfl
  · by_cases owned : ∃ chain ∈ chains, chain.Owns start root
    · obtain ⟨chain, member, own⟩ := owned
      rw [named member own] at found
      cases found
      exact named member (.inr rfl)
    · rw [unnamed fun chain member own => owned ⟨chain, member, own⟩] at found
      have self := agrees.settled root origin found
      by_cases taken : ∃ chain ∈ chains, chain.Owns start origin
      · obtain ⟨chain, member, own⟩ := taken
        rw [named member own]
        rcases own with inside | is
        · rcases List.mem_append.mp inside with top | bottom
          · exact absurd found ((splits.fresh chain member origin top).2 root)
          · have is := List.mem_singleton.mp bottom
            rw [← is, Roots.originOf, self, Option.getD_some]
        · rw [← is]
      · rw [unnamed fun chain member own => taken ⟨chain, member, own⟩]
        exact self

end Batches

/-- The splits of a transaction that commits, in the order its hash map is walked. -/
structure Batch where
  chains : List Chain
  lineage : List (Nat × Nat)

/-- Every chain's newest split is walked last. -/
structure Orderly (roots : Roots) (batch : Batch) : Prop where
  splits : Splits roots batch.chains batch.lineage
  ordered : InOrder batch.chains batch.lineage
  newest : ∀ chain ∈ batch.chains, NewestLast batch.lineage chain

def installBatch (roots : Roots) (batch : Batch) : Roots := roots.installLineage batch.lineage

/-- After every run of orderly batches the maps answer as the trees do, and a further batch
is folded right exactly when it is orderly too. -/
theorem lineage_folds (batches : List Batch) (along : Run.Along Orderly installBatch .empty batches) :
    let roots := batches.foldl installBatch .empty
    Agrees roots (batches.foldl (fun trees batch => trees.install batch.chains) .start) ∧
    ∀ chains lineage, Splits roots chains lineage → InOrder chains lineage →
      ((∀ chain ∈ chains,
          (∀ root ∈ chain.roots,
            (roots.installLineage lineage).originOf root = roots.originOf chain.bottom) ∧
          (roots.installLineage lineage).currentRootOf (roots.originOf chain.bottom) = chain.newest) ↔
        ∀ chain ∈ chains, NewestLast lineage chain) := by
  have every (batches : List Batch) (roots : Roots) (trees : Trees) (agrees : Agrees roots trees)
      (along : Run.Along Orderly installBatch roots batches) :
      Agrees (batches.foldl installBatch roots)
        (batches.foldl (fun trees batch => trees.install batch.chains) trees) := by
    induction batches generalizing roots trees with
    | nil => exact agrees
    | cons batch rest ih =>
      obtain ⟨orderly, later⟩ := along
      exact ih _ _ (agrees.install orderly.splits orderly.ordered orderly.newest) later
  have agrees := every batches .empty .start ⟨fun _ => rfl, fun _ => rfl, nofun⟩ along
  refine ⟨agrees, fun chains lineage splits ordered => ?_⟩
  have walked := walked_install splits agrees.settled ordered
  exact forall₂_congr fun chain member => ⟨fun both => (current_installed splits walked member).mp both.2,
    fun newest => ⟨fun root inside => origin_installed splits walked member inside,
      (current_installed splits walked member).mpr newest⟩⟩

/-- Root 5 splits twice. -/
def twice : Chain := ⟨[9, 7], 5, by decide⟩

theorem splits_twice (entries : lineage.Perm [(9, 7), (7, 5)]) :
    Splits .empty [twice] lineage :=
  ⟨entries, by decide, fun _ _ _ _ => ⟨rfl, nofun⟩, List.pairwise_singleton _ _⟩

theorem lineage_folds_twice :
    let roots := [(⟨[twice], [(7, 5), (9, 7)]⟩ : Batch)].foldl installBatch .empty
    Agrees roots (Trees.start.install [twice]) ∧
    ∀ chains lineage, Splits roots chains lineage → InOrder chains lineage →
      ((∀ chain ∈ chains,
          (∀ root ∈ chain.roots,
            (roots.installLineage lineage).originOf root = roots.originOf chain.bottom) ∧
          (roots.installLineage lineage).currentRootOf (roots.originOf chain.bottom) = chain.newest) ↔
        ∀ chain ∈ chains, NewestLast lineage chain) :=
  lineage_folds [⟨[twice], [(7, 5), (9, 7)]⟩]
    ⟨⟨splits_twice (by decide), inOrder_of_short (by decide), List.forall_mem_singleton.mpr rfl⟩,
      trivial⟩

/-- When the map gives the second split first, the root in between is current. -/
theorem older_root_current :
    Splits .empty [twice] [(9, 7), (7, 5)] ∧
      (Roots.empty.installLineage [(9, 7), (7, 5)]).originOf 9 = 5 ∧
      (Roots.empty.installLineage [(9, 7), (7, 5)]).currentRootOf 5 = 7 ∧ twice.newest = 9 :=
  ⟨splits_twice (by decide), by decide⟩

end RustSql.Storage.RootLineage
