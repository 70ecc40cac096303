import RustSql.Executor.LikeWalk
import RustSql.Executor.PatternMeaning
import RustSql.Storage.ProbedColumns

/-! The shapes of ASCII patterns and the languages they stand for, and LIKE over values and in
compiled predicates: the byte matchers, the pre-classified substring search and the raw probe of a
payload, against the matcher over characters. -/

namespace RustSql.Executor

open RustSql.Foundation

variable {caseSensitive : Bool} {needle s p : List UInt8}

theorem map_literals (plain : needle.any wild = false) :
    needle.map (byteItem caseSensitive) = literals caseSensitive needle := by
  rw [List.any_eq_false] at plain
  exact List.map_congr_left fun b member =>
    byteItem_literal (Bool.not_eq_true _ ▸ plain b member) caseSensitive

theorem front_iff (fold : UInt8 → UInt8) :
    (∃ front rest, s = front ++ rest ∧ front.map fold = needle.map fold) ↔
      needle.map fold <+: s.map fold := by
  constructor
  · rintro ⟨front, rest, rfl, same⟩
    exact ⟨rest.map fold, by rw [← same, List.map_append]⟩
  · rintro ⟨tail, same⟩
    obtain ⟨front, rest, split, folded, -⟩ := List.map_eq_append_iff.mp same.symm
    exact ⟨front, rest, split, folded⟩

theorem language_initial (ascii : isAscii needle = true) :
    Language (literals caseSensitive needle ++ [.many]) (characters s) ↔
      needle.map (foldAscii caseSensitive) <+: s.map (foldAscii caseSensitive) := by
  rw [language_literals ascii, ← front_iff]
  refine exists_congr fun front => exists_congr fun rest => and_congr_right fun _ => ?_
  exact and_iff_left (language_everything _)

theorem language_exact (ascii : isAscii needle = true) :
    Language (literals caseSensitive needle) (characters s) ↔
      s.map (foldAscii caseSensitive) = needle.map (foldAscii caseSensitive) := by
  rw [← List.append_nil (literals caseSensitive needle), language_literals ascii]
  constructor
  · rintro ⟨front, rest, rfl, same, ends⟩
    rw [characters_eq_nil.mp ends, List.append_nil]
    exact same
  · exact fun same => ⟨s, [], (List.append_nil s).symm, same, characters_nil⟩

theorem language_contains (nonempty : needle ≠ []) (ascii : isAscii needle = true) :
    Language (.many :: (literals caseSensitive needle ++ [.many])) (characters s) ↔
      bytesContainsFold s needle caseSensitive = true := by
  obtain ⟨x, rest, rfl⟩ := List.exists_cons_of_ne_nil nonempty
  rw [language_many_literals ascii, bytesContainsFold_iff nonempty]
  exact exists_congr fun t => and_congr_right fun _ => language_initial ascii

theorem language_ends (ascii : isAscii needle = true) :
    Language (.many :: literals caseSensitive needle) (characters s) ↔
      ∃ t, t <:+ s ∧ t.map (foldAscii caseSensitive) = needle.map (foldAscii caseSensitive) := by
  cases needle with
  | nil => exact iff_of_true (language_everything _) ⟨[], List.nil_suffix, rfl⟩
  | cons x needle =>
    have placed := language_many_literals ascii caseSensitive [] s
    rw [List.append_nil] at placed
    rw [placed]
    exact exists_congr fun t => and_congr_right fun _ => language_exact ascii

theorem split_lead (lead : (p.head? == some percent) = true) : ∃ rest, p = percent :: rest := by
  cases p with
  | nil => cases lead
  | cons b rest =>
    rw [List.head?_cons, beq_iff_eq] at lead
    exact ⟨rest, congrArg (· :: rest) (Option.some.inj lead)⟩

theorem split_trail (trail : (p.getLast? == some percent) = true) :
    ∃ front, p = front ++ [percent] := by
  rw [beq_iff_eq, List.getLast?_eq_some_iff] at trail
  exact trail

/-- Between a `%` at the front and one at the end. -/
theorem needle_both (lead : (p.head? == some percent) = true)
    (trail : (p.getLast? == some percent) = true)
    (nonempty : (p.take (max (p.length - 1) 1)).drop 1 ≠ []) :
    p = percent :: ((p.take (max (p.length - 1) 1)).drop 1 ++ [percent]) := by
  obtain ⟨rest, rfl⟩ := split_lead lead
  cases rest using List.reverseRecOn with
  | nil => exact absurd rfl nonempty
  | append_singleton front last _ =>
    rw [← List.cons_append, beq_iff_eq, List.getLast?_concat, Option.some.injEq] at trail
    subst trail
    simp

theorem needle_trail (trail : (p.getLast? == some percent) = true) :
    p = (p.take (max (p.length - 1) 0)).drop 0 ++ [percent] := by
  obtain ⟨front, rfl⟩ := split_trail trail
  simp

theorem needle_lead (lead : (p.head? == some percent) = true) :
    p = percent :: (p.take (max (p.length - 0) 1)).drop 1 := by
  obtain ⟨rest, rfl⟩ := split_lead lead
  simp

theorem language_starts (ascii : isAscii needle = true) :
    (decide (needle.length ≤ s.length) &&
        bytesEqFold (s.take needle.length) needle caseSensitive) = true ↔
      Language (literals caseSensitive needle ++ [.many]) (characters s) := by
  rw [language_initial ascii, Bool.and_eq_true, decide_eq_true_iff, bytesEqFold_iff,
    List.prefix_iff_eq_take, List.length_map, ← List.map_take]
  refine ⟨fun both => both.2.symm, fun same => ⟨?_, same.symm⟩⟩
  have lengths := congrArg List.length same
  rw [List.length_map, List.length_map, List.length_take] at lengths
  omega

theorem language_suffix (ascii : isAscii needle = true) :
    (decide (needle.length ≤ s.length) &&
        bytesEqFold (s.drop (s.length - needle.length)) needle caseSensitive) = true ↔
      Language (.many :: literals caseSensitive needle) (characters s) := by
  rw [language_ends ascii, Bool.and_eq_true, decide_eq_true_iff, bytesEqFold_iff]
  constructor
  · exact fun both => ⟨_, List.drop_suffix _ s, both.2⟩
  · rintro ⟨t, within, same⟩
    have lengths := congrArg List.length same
    rw [List.length_map, List.length_map] at lengths
    have bound := within.length_le
    refine ⟨by omega, ?_⟩
    rw [← same, ← lengths, ← List.suffix_iff_eq_drop.mp within]

theorem likeMatchBytes_iff (ascii : isAscii s = true) (patAscii : isAscii p = true)
    (caseSensitive : Bool) :
    ∃ hit, likeMatchBytes s p caseSensitive = some hit ∧
      (hit = true ↔ Language (p.map (byteItem caseSensitive)) (characters s)) := by
  have general : ∃ hit, (if (!isAscii s) = true then none
      else some (likeGeneralBytes s p caseSensitive)) = some hit ∧
        (hit = true ↔ Language (p.map (byteItem caseSensitive)) (characters s)) := by
    rw [if_neg (by rw [ascii]; exact Bool.false_ne_true)]
    exact ⟨_, rfl, likeGeneralBytes_iff ascii patAscii caseSensitive⟩
  have part {needle : List UInt8} (within : needle <:+: p) : isAscii needle = true := by
    rw [isAscii, List.all_eq_true] at patAscii ⊢
    exact fun b member => patAscii b (within.subset member)
  have literal {needle : List UInt8} (shape : (!needle.any wild && !needle.isEmpty) = true) :
      needle.any wild = false ∧ needle ≠ [] := by
    rw [Bool.and_eq_true, Bool.not_eq_true', Bool.not_eq_true', List.isEmpty_eq_false_iff] at shape
    exact shape
  rw [likeMatchBytes]
  dsimp only
  cases lead : p.head? == some percent with
  | true =>
    cases trail : p.getLast? == some percent with
    | true =>
      simp only [Bool.true_or, Bool.true_and, Bool.not_true, Bool.false_and, Bool.false_eq_true,
        ↓reduceIte]
      by_cases shape : (!((p.take (max (p.length - 1) 1)).drop 1).any wild &&
          !((p.take (max (p.length - 1) 1)).drop 1).isEmpty) = true
      · have whole := needle_both lead trail (literal shape).2
        rw [if_pos shape]
        generalize (p.take (max (p.length - 1) 1)).drop 1 = needle at shape whole
        have items : p.map (byteItem caseSensitive) =
            .many :: (literals caseSensitive needle ++ [.many]) := by
          rw [whole, List.map_cons, List.map_append, map_literals (literal shape).1]
          rfl
        rw [items, language_contains (literal shape).2 (part ⟨[percent], [percent], whole.symm⟩)]
        exact ⟨_, rfl, Iff.rfl⟩
      · rw [if_neg shape]
        exact general
    | false =>
      have whole := needle_lead lead
      simp only [Bool.true_or, Bool.true_and, Bool.not_true, Bool.false_and, Bool.not_false,
        Bool.false_eq_true, ↓reduceIte]
      generalize (p.take (max (p.length - 0) 1)).drop 1 = needle at whole ⊢
      by_cases shape : (!needle.any wild && !needle.isEmpty) = true
      · have items : p.map (byteItem caseSensitive) =
            .many :: literals caseSensitive needle := by
          rw [whole, List.map_cons, map_literals (literal shape).1]
          rfl
        rw [if_pos shape, items, ← language_suffix (part ⟨[percent], [], by simp [whole]⟩)]
        exact ⟨_, rfl, Iff.rfl⟩
      · rw [if_neg shape]
        exact general
  | false =>
    cases trail : p.getLast? == some percent with
    | true =>
      have whole := needle_trail trail
      simp only [Bool.or_true, Bool.true_or, Bool.true_and, Bool.not_true, Bool.false_and,
        Bool.not_false, Bool.false_eq_true, ↓reduceIte]
      generalize (p.take (max (p.length - 1) 0)).drop 0 = needle at whole ⊢
      by_cases shape : (!needle.any wild && !needle.isEmpty) = true
      · have items : p.map (byteItem caseSensitive) =
            literals caseSensitive needle ++ [.many] := by
          rw [whole, List.map_append, map_literals (literal shape).1]
          rfl
        rw [if_pos shape, items, ← language_starts (part ⟨[], [percent], whole.symm⟩)]
        exact ⟨_, rfl, Iff.rfl⟩
      · rw [if_neg shape]
        exact general
    | false =>
      simp only [Bool.or_self, Bool.false_or, Bool.false_and, Bool.and_false, Bool.not_false,
        Bool.false_eq_true, ↓reduceIte]
      by_cases special : p.any wild = true
      · rw [if_pos special]
        exact general
      · rw [if_neg special, map_literals (Bool.not_eq_true _ ▸ special), language_exact patAscii,
          ← bytesEqFold_iff]
        exact ⟨_, rfl, Iff.rfl⟩

end RustSql.Executor

namespace RustSql.Executor

open RustSql.Foundation RustSql.Types RustSql.Storage RustSql.Storage.RowCodec

/-- What LIKE and GLOB see of an operand; `asText` renders a number. -/
def likeOperandBytes (asText : Value → List UInt8) : Value → List UInt8
  | .text bytes => cString bytes
  | .blob bytes => cString bytes
  | .null => []
  | number => cString (asText number)

/-- The general path of `like_match`, without an ESCAPE clause. -/
def likeGeneral (asText : Value → List UInt8) (value pattern : Value) (caseSensitive : Bool) :
    Bool :=
  patternCompare (likeInfo 0 caseSensitive) 0 (likeOperandBytes asText pattern)
    (likeOperandBytes asText value) == .matched

/-- `like_match` without an ESCAPE clause. -/
def likeMatch (asText : Value → List UInt8) (value pattern : Value) (caseSensitive : Bool) : Bool :=
  match value, pattern with
  | .text sv, .text pv =>
    if isAscii pv && isAscii sv then
      match likeMatchBytes (cString sv) (cString pv) caseSensitive with
      | some hit => hit
      | none => likeGeneral asText value pattern caseSensitive
    else likeGeneral asText value pattern caseSensitive
  | _, _ => likeGeneral asText value pattern caseSensitive

def globMatch (asText : Value → List UInt8) (value pattern : Value) : Bool :=
  patternCompare globInfo 0x5b (likeOperandBytes asText pattern) (likeOperandBytes asText value) ==
    .matched

inductive PredValue where
  | literal (value : Value)
  | param (i : Nat)

def PredValue.eval (params : List Value) : PredValue → Value
  | literal value => value
  | param i => (params[i]?).getD .null

abbrev Row := Nat → Value

/-- Predicates with their LIKE leaves; the other leaves give their truth, and whether it is
`NULL`. -/
inductive CompiledPredicate where
  | and (a b : CompiledPredicate)
  | or (a b : CompiledPredicate)
  | not (a : CompiledPredicate)
  | like (col : Nat) (pattern : PredValue) (negated glob : Bool)
  | likeSubstr (col : Nat) (needle : List UInt8)
  | other (holds missing : Row → List Value → Bool)

/-- `classify_contains`: the lowered needle of a plain `%needle%`. -/
def classifyContains (p : List UInt8) : Option (List UInt8) :=
  if p.length < 3 ∨ p.head? ≠ some percent ∨ p.getLast? ≠ some percent then none
  else
    let needle := (p.take (p.length - 1)).drop 1
    if needle.isEmpty || !isAscii needle then none
    else if needle.any wild then none
    else some (needle.map lowerByte)

/-- The LIKE leaf of `compile_predicate_at`. -/
def compileLike (caseSensitiveLike : Bool) (col : Nat) (pattern : PredValue) (negated glob : Bool) :
    CompiledPredicate :=
  if !glob && !negated && !caseSensitiveLike then
    match pattern with
    | .literal (.text t) =>
      match classifyContains t with
      | some needle => .likeSubstr col needle
      | none => .like col pattern negated glob
    | _ => .like col pattern negated glob
  else .like col pattern negated glob

namespace CompiledPredicate

def bindParams (caseSensitiveLike : Bool) (params : List Value) :
    CompiledPredicate → CompiledPredicate
  | and a b => and (bindParams caseSensitiveLike params a) (bindParams caseSensitiveLike params b)
  | or a b => or (bindParams caseSensitiveLike params a) (bindParams caseSensitiveLike params b)
  | not a => not (bindParams caseSensitiveLike params a)
  | like col (.param i) false false =>
    match params[i]? with
    | some (.text t) =>
      if caseSensitiveLike then like col (.param i) false false
      else
        match classifyContains t with
        | some needle => likeSubstr col needle
        | none => like col (.param i) false false
    | _ => like col (.param i) false false
  | p => p

section

variable (asText : Value → List UInt8) (caseSensitiveLike : Bool) (row : Row) (params : List Value)

mutual

/-- Whether the value of the predicate is `NULL`. -/
def evalNull : CompiledPredicate → Bool
  | and a b =>
    if !evalNull a && !eval a then false
    else if !evalNull b && !eval b then false
    else evalNull a || evalNull b
  | or a b => if eval a || eval b then false else evalNull a || evalNull b
  | not a => evalNull a
  | like col pattern _ _ => (row col).isNull || (pattern.eval params).isNull
  | likeSubstr col _ => (row col).isNull
  | other _ missing => missing row params

def eval : CompiledPredicate → Bool
  | and a b => eval a && eval b
  | or a b => eval a || eval b
  | not a => if evalNull a then false else !eval a
  | like col pattern negated glob =>
    let v := row col
    let p := pattern.eval params
    if v.isNull || p.isNull then false
    else
      (if glob then globMatch asText v p else likeMatch asText v p caseSensitiveLike) != negated
  | likeSubstr col needle =>
    match row col with
    | .text t => likeContainsBytes (cString t) needle
    | v => likeMatch asText v (.text (percent :: (needle ++ [percent]))) false
  | other holds _ => holds row params

end

end

/-- `raw_eval`: an answer without decoding the row. -/
def rawEval (payload : List UInt8) (rowidAlias : Option Nat) :
    CompiledPredicate → Checked Unit (Option Bool)
  | likeSubstr col needle => do
    let found ← Checked.attempt (probeTextColumn payload col rowidAlias)
    return found.map fun b => likeContainsBytes (cString b) needle
  | and a b => do
    match ← rawEval payload rowidAlias a with
    | some false => return some false
    | ra =>
      let rb ← rawEval payload rowidAlias b
      match ra, rb with
      | _, some false => return some false
      | some true, some true => return some true
      | _, _ => return none
  | _ => return none

end CompiledPredicate

end RustSql.Executor
