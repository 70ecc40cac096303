import RustSql.Jsonb.EscapePieces

/-! When the decoder gives what a string denotes: its surrogates are in pairs. What goes
wrong otherwise is never made up for by what follows. -/

namespace RustSql.Jsonb

open RustSql.Foundation RustSql.Types

/-- A word in front moves behind what both texts begin with. -/
theorem append_shift {P : UInt8 → Prop} {o V X Y : List UInt8} (filled : V ≠ []) (all : ∀ b ∈ V, P b)
    (same : o ++ X = V ++ (o ++ Y)) : ∃ W : List UInt8, W ≠ [] ∧ (∀ b ∈ W, P b) ∧ X = W ++ Y := by
  induction o generalizing V with
  | nil => exact ⟨V, filled, all, same⟩
  | cons b o ih =>
    obtain ⟨v, V, rfl⟩ := List.exists_cons_of_ne_nil filled
    obtain ⟨rfl, inner⟩ := List.cons.inj same
    have moved : o ++ X = (V ++ [b]) ++ (o ++ Y) := by
      rw [List.append_assoc]
      exact inner
    refine ih (by simp) ?_ moved
    obtain ⟨first, others⟩ := List.forall_mem_cons.mp all
    exact List.forall_mem_append.mpr ⟨others, by simpa using first⟩

/-- What the decoder makes and what is denoted, with the ways in which they come apart:
digits too many, one character for two, and two characters too few. -/
inductive Drift : Bool → List UInt8 → List UInt8 → Prop
  | nil : Drift true [] []
  | same {g X Y} (o : List UInt8) (rest : Drift g X Y) : Drift g (o ++ X) (o ++ Y)
  | digits {g X Y} {w : List UInt8} (filled : w ≠ []) (small : ∀ b ∈ w, b < 0x80) (rest : Drift g X Y) :
      Drift false (replacement ++ (w ++ X)) (replacement ++ Y)
  | swapped {g X Y f} {tail u : List UInt8} (first : f ≠ 0xEF) (large : 0x80 ≤ f)
      (continued : ∀ b ∈ tail, b ≠ 0xEF) (second : ∀ b ∈ u, 0x80 ≤ b) (rest : Drift g X Y) :
      Drift false (f :: tail ++ X) (replacement ++ (u ++ Y))
  | dropped {g X Y} {u : List UInt8} (second : ∀ b ∈ u, 0x80 ≤ b) (rest : Drift g X Y) :
      Drift false X (replacement ++ (u ++ Y))

section Drifting

variable {g : Bool} {X Y : List UInt8}

theorem replacement_eq : replacement = [0xEF, 0xBF, 0xBD] := rfl

theorem replacement_large {u : List UInt8} (second : ∀ b ∈ u, 0x80 ≤ b) :
    ∀ b ∈ replacement ++ u, 0x80 ≤ b :=
  List.forall_mem_append.mpr ⟨by decide +kernel, second⟩

/-- The decoder never makes the denoted text with bytes beyond ASCII in front. -/
theorem Drift.not_over (drift : Drift g X Y) : ∀ V : List UInt8, V ≠ [] → (∀ b ∈ V, 0x80 ≤ b) →
    X ≠ V ++ Y := by
  induction drift with
  | nil =>
    intro V filled _ same
    exact filled (List.append_eq_nil_iff.mp same.symm).1
  | same o _ ih =>
    intro V filled all same
    obtain ⟨W, some_, large, is⟩ := append_shift filled all same
    exact ih W some_ large is
  | @digits g X Y w someDigit small _ ih =>
    intro V filled all same
    obtain ⟨W, some_, large, is⟩ := append_shift filled all same
    obtain ⟨d, w, rfl⟩ := List.exists_cons_of_ne_nil someDigit
    obtain ⟨c, W, rfl⟩ := List.exists_cons_of_ne_nil some_
    obtain ⟨rfl, _⟩ := List.cons.inj is
    exact absurd (small d List.mem_cons_self) (UInt8.not_lt.mpr (large d List.mem_cons_self))
  | @swapped g X Y f tail u first large continued second _ ih =>
    intro V filled all same
    rcases List.append_eq_append_iff.mp same with ⟨a, is, behind⟩ | ⟨c, is, behind⟩
    · have large' : ∀ b ∈ a, 0x80 ≤ b := fun b member => all b (by rw [is]; simp [member])
      refine ih (a ++ (replacement ++ u)) (by simp [replacement_eq]) ?_ (by simp [behind])
      exact List.forall_mem_append.mpr ⟨large', replacement_large second⟩
    · obtain ⟨v, V, rfl⟩ := List.exists_cons_of_ne_nil filled
      obtain ⟨rfl, tailIs⟩ := List.cons.inj is
      cases c with
      | nil =>
        refine ih (replacement ++ u) (by simp [replacement_eq]) (replacement_large second) ?_
        rw [List.append_assoc]
        exact behind.symm
      | cons c cs =>
        have head : (0xEF : UInt8) = c := (List.cons.inj behind).1
        exact continued c (by rw [tailIs]; simp) head.symm
  | @dropped g X Y u second _ ih =>
    intro V filled all same
    refine ih (V ++ (replacement ++ u)) (by simp [replacement_eq]) ?_ (by simp [same])
    exact List.forall_mem_append.mpr ⟨all, replacement_large second⟩

/-- What is denoted never is what the decoder makes with ASCII in front. -/
theorem Drift.not_under (drift : Drift g X Y) : ∀ w : List UInt8, w ≠ [] → (∀ b ∈ w, b < 0x80) →
    Y ≠ w ++ X := by
  -- a text that begins with U+FFFD begins with no ASCII
  have head {w Z T : List UInt8} (filled : w ≠ []) (all : ∀ b ∈ w, b < 0x80) : replacement ++ Z ≠ w ++ T := by
    intro same
    obtain ⟨d, w, rfl⟩ := List.exists_cons_of_ne_nil filled
    have is : (0xEF : UInt8) = d := (List.cons.inj same).1
    exact absurd (all d List.mem_cons_self) (by rw [← is]; decide)
  induction drift with
  | nil =>
    intro w filled _ same
    exact filled (List.append_eq_nil_iff.mp same.symm).1
  | same o _ ih =>
    intro w filled all same
    obtain ⟨W, some_, small, is⟩ := append_shift filled all same
    exact ih W some_ small is
  | digits | swapped | dropped => exact fun w filled all => head filled all

theorem Drift.eq_iff (drift : Drift g X Y) : X = Y ↔ g = true := by
  induction drift with
  | nil => simp
  | same o _ ih => rw [List.append_cancel_left_eq, ih]
  | @digits g X Y w filled small rest _ =>
    refine iff_of_false (fun same => ?_) nofun
    exact rest.not_under w filled small (List.append_cancel_left same).symm
  | swapped first =>
    refine iff_of_false (fun same => ?_) nofun
    exact first (List.cons.inj same).1
  | @dropped g X Y u second rest _ =>
    refine iff_of_false (fun same => ?_) nofun
    refine rest.not_over (replacement ++ u) (by simp [replacement_eq]) (replacement_large second) ?_
    rw [same, List.append_assoc]

end Drifting

section Pieces

variable {strict : Bool} {quote : UInt8}

theorem ofNat_large {n : Nat} (low : 0x80 ≤ n) (small : n < 0x100) : 0x80 ≤ UInt8.ofNat n := by
  rw [UInt8.le_iff_toNat_le, UInt8.toNat_ofNat', Nat.mod_eq_of_lt small]
  exact low

theorem ofNat_ne {n : Nat} (small : n < 0x100) (other : n ≠ 0xEF) : UInt8.ofNat n ≠ 0xEF := by
  intro is
  have := congrArg UInt8.toNat is
  rw [UInt8.toNat_ofNat', Nat.mod_eq_of_lt small] at this
  exact other this

/-- The bytes of a character beyond ASCII. -/
theorem utf8Bytes_large {c : Nat} (beyond : 0x80 ≤ c) (scalar : c < 0x110000) :
    ∀ b ∈ utf8Bytes c, 0x80 ≤ b := by
  unfold utf8Bytes
  rw [if_neg (by omega)]
  split
  · simp only [List.forall_mem_cons, List.not_mem_nil, false_implies, implies_true, and_true]
    exact ⟨ofNat_large (by omega) (by omega), ofNat_large (by omega) (by omega)⟩
  split
  · simp only [List.forall_mem_cons, List.not_mem_nil, false_implies, implies_true, and_true]
    exact ⟨ofNat_large (by omega) (by omega), ofNat_large (by omega) (by omega),
      ofNat_large (by omega) (by omega)⟩
  · simp only [List.forall_mem_cons, List.not_mem_nil, false_implies, implies_true, and_true]
    exact ⟨ofNat_large (by omega) (by omega), ofNat_large (by omega) (by omega),
      ofNat_large (by omega) (by omega), ofNat_large (by omega) (by omega)⟩

/-- A character beyond the first plane has no byte that U+FFFD begins with. -/
theorem utf8Bytes_supplementary {c : Nat} (beyond : 0x10000 ≤ c) (scalar : c < 0x110000) :
    ∃ f tail, utf8Bytes c = f :: tail ∧ f ≠ 0xEF ∧ 0x80 ≤ f ∧ ∀ b ∈ tail, b ≠ 0xEF := by
  unfold utf8Bytes
  rw [if_neg (by omega), if_neg (by omega), if_neg (by omega)]
  refine ⟨_, _, rfl, ofNat_ne (by omega) (by omega), ofNat_large (by omega) (by omega), ?_⟩
  simp only [List.forall_mem_cons, List.not_mem_nil, false_implies, implies_true, and_true]
  exact ⟨ofNat_ne (by omega) (by omega), ofNat_ne (by omega) (by omega),
    ofNat_ne (by omega) (by omega)⟩

theorem fromU32_scalar {c : Nat} (scalar : IsScalar c) : fromU32 c = some (utf8Bytes c) := if_pos scalar

theorem isHigh_iff {cp : Nat} : isHigh cp = true ↔ 0xD800 ≤ cp ∧ cp < 0xDC00 := by
  simp [isHigh]

theorem isLow_iff {cp : Nat} : isLow cp = true ↔ 0xDC00 ≤ cp ∧ cp < 0xE000 := by
  simp [isLow]

theorem contentBytes_unicode {ds : List UInt8} {rest : List Piece} (notHigh : isHigh (hexNumber ds) = false) :
    contentBytes (.unicode ds :: rest) = (Piece.unicode ds).bytes ++ contentBytes rest := by
  by_cases next : ∃ ds' more, rest = .unicode ds' :: more
  · obtain ⟨ds', more, rfl⟩ := next
    rw [contentBytes, if_neg (by simp [notHigh])]
  · rw [contentBytes]
    exact fun _ ds' more _ is => next ⟨ds', more, is⟩

theorem surrogate_bytes {ds : List UInt8} (surrogate : isHigh (hexNumber ds) = true ∨ isLow (hexNumber ds) = true) :
    (Piece.unicode ds).bytes = replacement := by
  have none : fromU32 (hexNumber ds) = none := by
    rw [isHigh_iff, isLow_iff] at surrogate
    exact if_neg (by unfold IsScalar; omega)
  rw [Piece.bytes, none]
  rfl

theorem hexNumber_four {ds : List UInt8} (good : (Piece.unicode ds).Good strict quote) :
    hexNumber ds < 0x10000 := by
  have := hexNumber_lt good.2
  rw [good.1] at this
  exact this

theorem digits_ascii {ds : List UInt8} (good : (Piece.unicode ds).Good strict quote) :
    ds ≠ [] ∧ ∀ b ∈ ds, b < 0x80 := by
  refine ⟨?_, fun b member => isHexDigit_ascii (good.2 b member)⟩
  rintro rfl
  cases good.1

/-- The decoder's bytes and the denoted ones drift apart unless the surrogates are paired. -/
theorem decodePieces_drift {ps : List Piece} (spelled : Spelled strict quote ps) {X : List UInt8}
    (done : decodePieces ps = .ok X) : Drift (Paired ps) X (contentBytes ps) := by
  have mapped {r : Checked Unit (List UInt8)} {o X : List UInt8} (done : r.map (o ++ ·) = .ok X) :
      ∃ X', r = .ok X' ∧ o ++ X' = X := by
    cases r with
    | error fault => cases done
    | ok X' => exact ⟨X', rfl, Except.ok.inj done⟩
  induction ps using decodePieces.induct generalizing X with
  | case1 =>
    cases done
    exact .nil
  | case2 ds ds' rest high below =>
    rw [decodePieces, if_pos high, if_pos below] at done
    cases done
  | case3 ds ds' rest high above ih =>
    obtain ⟨good, _, good', _, others⟩ := spelled
    have range := isHigh_iff.mp high
    have short := hexNumber_four good'
    rw [decodePieces, if_pos high, if_neg above] at done
    obtain ⟨X', inner, rfl⟩ := mapped done
    have drift := ih others inner
    rw [Paired, if_pos high]
    by_cases low : isLow (hexNumber ds') = true
    · have bound := isLow_iff.mp low
      have scalar : IsScalar (pairOf (hexNumber ds) (hexNumber ds')) := by
        unfold IsScalar pairOf
        omega
      rw [contentBytes, if_pos ⟨high, low⟩, low, Bool.true_and, fromU32_scalar scalar,
        Option.getD_some]
      exact .same _ drift
    · -- the second escape is a character of its own
      have notLow : isLow (hexNumber ds') = false := Bool.eq_false_iff.mpr low
      have beyond : 0xE000 ≤ hexNumber ds' := by
        rw [isLow_iff] at low
        omega
      have notHigh : isHigh (hexNumber ds') = false := by
        rw [Bool.eq_false_iff, ne_eq, isHigh_iff]
        omega
      have scalar : IsScalar (hexNumber ds') := .inr ⟨beyond, by omega⟩
      have second : (Piece.unicode ds').bytes = utf8Bytes (hexNumber ds') := by
        rw [Piece.bytes, fromU32_scalar scalar]
        rfl
      have large := utf8Bytes_large (c := hexNumber ds') (by omega) (by omega)
      rw [contentBytes, if_neg (fun both => low both.2), surrogate_bytes (.inl high),
        contentBytes_unicode notHigh, second, notLow, Bool.false_and]
      by_cases inside : pairOf (hexNumber ds) (hexNumber ds') < 0x110000
      · have high' : 0x10000 ≤ pairOf (hexNumber ds) (hexNumber ds') := by
          unfold pairOf
          omega
        obtain ⟨f, tail, is, first, head, continued⟩ := utf8Bytes_supplementary high' inside
        rw [fromU32_scalar (.inr ⟨by omega, inside⟩), Option.getD_some, is]
        exact .swapped first head continued large drift
      · have none : fromU32 (pairOf (hexNumber ds) (hexNumber ds')) = none :=
          if_neg (by unfold IsScalar; omega)
        rw [none, Option.getD_none, List.nil_append]
        exact .dropped large drift
  | case4 ds ds' rest notHigh ih =>
    obtain ⟨good, _, others⟩ := spelled
    have notHigh := Bool.eq_false_iff.mpr notHigh
    rw [decodePieces, if_neg (by simp [notHigh])] at done
    obtain ⟨X', inner, rfl⟩ := mapped done
    have drift := ih others inner
    rw [Paired, if_neg (by simp [notHigh]), contentBytes_unicode notHigh, Piece.decoded]
    by_cases low : isLow (hexNumber ds) = true
    · obtain ⟨filled, small⟩ := digits_ascii good
      rw [if_pos low, low, surrogate_bytes (.inr low), List.append_assoc]
      exact .digits filled small drift
    · rw [if_neg low, Bool.eq_false_iff.mpr low]
      exact .same _ drift
  | case5 p rest other ih =>
    obtain ⟨good, _, others⟩ := spelled
    have step : decodePieces (p :: rest) = (decodePieces rest).map (p.decoded ++ ·) := by
      rw [decodePieces]
      exact other
    have content : contentBytes (p :: rest) = p.bytes ++ contentBytes rest := by
      rw [contentBytes]
      exact other
    rw [step] at done
    obtain ⟨X', inner, rfl⟩ := mapped done
    have drift := ih others inner
    rw [content]
    by_cases isUnicode : ∃ ds, p = .unicode ds
    · obtain ⟨ds, rfl⟩ := isUnicode
      have paired : Paired (.unicode ds :: rest) = (!isLow (hexNumber ds) && Paired rest) := by
        rw [Paired]
        exact fun ds' more is => other ds ds' more rfl is
      rw [paired, Piece.decoded]
      by_cases low : isLow (hexNumber ds) = true
      · obtain ⟨filled, small⟩ := digits_ascii good
        rw [if_pos low, low, surrogate_bytes (.inr low), List.append_assoc]
        exact .digits filled small drift
      · rw [if_neg low, Bool.eq_false_iff.mpr low]
        exact .same _ drift
    · have notUnicode : ∀ ds, p ≠ .unicode ds := fun ds is => isUnicode ⟨ds, is⟩
      have paired : Paired (p :: rest) = Paired rest := by
        rw [Paired]
        · exact fun ds _ _ is => absurd is (notUnicode ds)
        · exact fun ds is => absurd is (notUnicode ds)
      rw [paired, decoded_eq_bytes notUnicode]
      exact .same _ drift

/-- With the surrogates in pairs nothing overflows. -/
theorem decodePieces_paired {ps : List Piece} (paired : Paired ps = true) :
    ∃ X, decodePieces ps = .ok X := by
  induction ps using decodePieces.induct with
  | case1 => exact ⟨[], rfl⟩
  | case2 ds ds' rest high below =>
    rw [Paired, if_pos high, Bool.and_eq_true, isLow_iff] at paired
    omega
  | case3 ds ds' rest high above ih =>
    rw [Paired, if_pos high] at paired
    obtain ⟨X, done⟩ := ih (Bool.and_eq_true_iff.mp paired).2
    rw [decodePieces, if_pos high, if_neg above, done]
    exact ⟨_, rfl⟩
  | case4 ds ds' rest notHigh ih =>
    rw [Paired, if_neg notHigh] at paired
    obtain ⟨X, done⟩ := ih (Bool.and_eq_true_iff.mp paired).2
    rw [decodePieces, if_neg notHigh, done]
    exact ⟨_, rfl⟩
  | case5 p rest other ih =>
    have inner : Paired rest = true := by
      by_cases isUnicode : ∃ ds, p = .unicode ds
      · obtain ⟨ds, rfl⟩ := isUnicode
        rw [Paired] at paired
        · exact (Bool.and_eq_true_iff.mp paired).2
        · exact fun ds' more is => other ds ds' more rfl is
      · have notUnicode : ∀ ds, p ≠ .unicode ds := fun ds is => isUnicode ⟨ds, is⟩
        rw [Paired] at paired
        · exact paired
        · exact fun ds _ _ is => absurd is (notUnicode ds)
        · exact fun ds is => absurd is (notUnicode ds)
    obtain ⟨X, done⟩ := ih inner
    rw [decodePieces, done]
    · exact ⟨_, rfl⟩
    · exact other

/-- The decoder gives what the string denotes exactly when its surrogates are paired. -/
theorem decodePieces_eq_iff {ps : List Piece} (spelled : Spelled strict quote ps) :
    decodePieces ps = .ok (contentBytes ps) ↔ Paired ps = true := by
  constructor
  · exact fun done => (decodePieces_drift spelled done).eq_iff.mp rfl
  · intro paired
    obtain ⟨X, done⟩ := decodePieces_paired paired
    rw [done, (decodePieces_drift spelled done).eq_iff.mpr paired]

end Pieces

end RustSql.Jsonb
