import Mathlib.Data.List.TakeWhile
import RustSql.Jsonb.Parser

/-! What the scanners go over: every one of them takes a run of bytes off the front of
the input, and numbers and strings are described by what they are made of. -/

namespace RustSql.Jsonb

/-- The parser has gone over these bytes between two positions. -/
def Took (p : JParser) (taken : List UInt8) (q : JParser) : Prop :=
  p.rest = taken ++ q.rest ∧ q.pos = p.pos + taken.length

section Positions

variable {p q r : JParser} {xs ys : List UInt8}

theorem took_nil (p : JParser) : Took p [] p := ⟨rfl, rfl⟩

theorem took_append (first : Took p xs q) (second : Took q ys r) : Took p (xs ++ ys) r := by
  obtain ⟨rest, pos⟩ := first
  obtain ⟨rest', pos'⟩ := second
  refine ⟨?_, ?_⟩
  · rw [rest, rest', List.append_assoc]
  · rw [pos', pos, List.length_append, Nat.add_assoc]

theorem took_advance {n : Nat} (room : n ≤ p.rest.length) :
    Took p (p.rest.take n) (p.advance n) := by
  refine ⟨(List.take_append_drop n p.rest).symm, ?_⟩
  rw [List.length_take, Nat.min_eq_left room]
  rfl

theorem took_peek {c : UInt8} (next : p.peek = some c) : Took p [c] (p.advance 1) := by
  obtain ⟨rest, pos⟩ := p
  cases rest with
  | nil => cases next
  | cons b rest =>
    cases next
    exact ⟨rfl, rfl⟩

theorem span_of_took (took : Took p xs q) : p.span q = xs := by
  obtain ⟨rest, pos⟩ := took
  rw [JParser.span, pos, Nat.add_sub_cancel_left, rest, List.take_left]

theorem took_shorter (took : Took p xs q) : p.rest.length = xs.length + q.rest.length := by
  rw [took.1, List.length_append]

theorem took_takeWhile (f : UInt8 → Bool) (p : JParser) :
    Took p (p.rest.takeWhile f) (p.advance (p.rest.takeWhile f).length) := by
  have front := List.takeWhile_prefix (l := p.rest) f
  have took := took_advance (p := p) front.length_le
  rwa [← List.prefix_iff_eq_take.mp front] at took

theorem took_mk (taken rest : List UInt8) (pos : Nat) :
    Took ⟨taken ++ rest, pos⟩ taken ⟨rest, pos + taken.length⟩ := ⟨rfl, rfl⟩

theorem advance_mk (taken rest : List UInt8) (pos : Nat) :
    (⟨taken ++ rest, pos⟩ : JParser).advance taken.length = ⟨rest, pos + taken.length⟩ := by
  simp [JParser.advance]

/-- Where a run of bytes of one kind ends. -/
theorem takeWhile_run {f : UInt8 → Bool} {run rest : List UInt8} (all : ∀ b ∈ run, f b = true)
    (stop : ∀ b ∈ rest.head?, f b = false) : (run ++ rest).takeWhile f = run := by
  rw [List.takeWhile_append_of_pos all]
  cases rest with
  | nil => simp
  | cons b rest => simp [stop b rfl]

/-- The longest run of bytes of one kind. -/
theorem run_took (f : UInt8 → Bool) (p : JParser) :
    ∃ run, (∀ b ∈ run, f b = true) ∧ Took p run (p.advance (p.rest.takeWhile f).length) ∧
      ∀ b ∈ (p.advance (p.rest.takeWhile f).length).rest.head?, f b = false := by
  have behind : (p.advance (p.rest.takeWhile f).length).rest = p.rest.dropWhile f := by
    have whole := List.takeWhile_append_dropWhile (p := f) (l := p.rest)
    calc p.rest.drop (p.rest.takeWhile f).length
        = (p.rest.takeWhile f ++ p.rest.dropWhile f).drop (p.rest.takeWhile f).length := by rw [whole]
      _ = p.rest.dropWhile f := List.drop_left
  refine ⟨p.rest.takeWhile f, fun b member => List.mem_takeWhile_imp member,
    took_takeWhile f p, ?_⟩
  intro b first
  rw [behind] at first
  have stop := List.head?_dropWhile_not f p.rest
  rw [Option.mem_def.mp first] at stop
  simpa using stop

end Positions

theorem blockCommentEnd_le {b : List UInt8} {n : Nat} (found : blockCommentEnd b = some n) :
    n + 2 ≤ b.length := by
  induction b generalizing n with
  | nil => cases found
  | cons head rest ih =>
    rw [blockCommentEnd] at found
    split at found
    · rename_i here
      cases found
      cases rest with
      | nil => exact absurd here.2 (by simp)
      | cons => simp
    · cases behind : blockCommentEnd rest with
      | none => simp [behind] at found
      | some m =>
        rw [behind, Option.map_some] at found
        have := ih behind
        have := Option.some.inj found
        rw [List.length_cons]
        omega

theorem lineCommentLen_le (b : List UInt8) : lineCommentLen b ≤ b.length := by
  induction b with
  | nil => exact Nat.le_refl _
  | cons head rest ih =>
    rw [lineCommentLen]
    split
    · simp
    · split
      · rename_i separator
        have room : 2 ≤ rest.length := by
          rcases rest with _ | ⟨x, _ | ⟨y, rest⟩⟩
          · simp [isLineSeparator] at separator
          · simp [isLineSeparator] at separator
          · simp
        rw [List.length_cons]
        omega
      · rw [List.length_cons]
        omega

theorem json5WsLen_le (b : List UInt8) : json5WsLen b ≤ b.length := by
  unfold json5WsLen
  split <;> first | exact Nat.zero_le _ | (simp only [List.length_cons]; omega) | skip
  · rename_i rest
    cases found : blockCommentEnd rest with
    | none => simp
    | some n =>
      have := blockCommentEnd_le found
      simp only [Option.map_some, Option.getD_some, List.length_cons]
      omega
  · rename_i rest
    have := lineCommentLen_le rest
    simp only [List.length_cons]
    omega
  · split <;> simp only [List.length_cons] <;> omega

theorem took_skipWsFrom (strict : Bool) (fuel : Nat) (p : JParser) :
    ∃ taken, Took p taken (skipWsFrom strict fuel p) := by
  induction fuel generalizing p with
  | zero => exact ⟨_, took_takeWhile isWs p⟩
  | succ fuel ih =>
    rw [skipWsFrom]
    split
    · exact ⟨_, took_takeWhile isWs p⟩
    · split
      · exact ⟨_, took_takeWhile isWs p⟩
      · obtain ⟨taken, took⟩ := ih (p.skipSpaces.advance (json5WsLen p.skipSpaces.rest))
        exact ⟨_, took_append (took_append (took_takeWhile isWs p)
          (took_advance (json5WsLen_le _))) took⟩

theorem took_skipWs (strict : Bool) (p : JParser) : ∃ taken, Took p taken (p.skipWs strict) :=
  took_skipWsFrom strict _ p

/-- Under strict rules whitespace is spaces, tabs and line ends. -/
theorem skipWs_strict (p : JParser) : p.skipWs true = p.skipSpaces := by
  unfold JParser.skipWs
  cases p.rest.length with
  | zero => rfl
  | succ fuel => rw [skipWsFrom, if_pos rfl]

end RustSql.Jsonb
