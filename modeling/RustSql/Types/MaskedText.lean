import Mathlib.Data.List.Basic
import Mathlib.Tactic.SplitIfs

/-! Texts that are no UTF-8, as strings of the same length. -/

namespace RustSql.Types

/-- The length of the sequence at the front: well formed, or what is rejected as one error. -/
inductive Utf8Front where
  | valid (length : Nat)
  | invalid (length : Nat)
deriving DecidableEq, Repr

def isContinuation (b : UInt8) : Bool := 0x80 ≤ b && b ≤ 0xBF

/-- What may follow the first byte of a sequence of three. -/
def secondOfThree (first second : UInt8) : Bool :=
  if first = 0xE0 then 0xA0 ≤ second && second ≤ 0xBF
  else if first = 0xED then 0x80 ≤ second && second ≤ 0x9F
  else isContinuation second

/-- What may follow the first byte of a sequence of four. -/
def secondOfFour (first second : UInt8) : Bool :=
  if first = 0xF0 then 0x90 ≤ second && second ≤ 0xBF
  else if first = 0xF4 then 0x80 ≤ second && second ≤ 0x8F
  else isContinuation second

/-- One step of `from_utf8`; a sequence cut short by the end takes all that is left. -/
def utf8Front (bytes : List UInt8) : Utf8Front :=
  let first := bytes.headD 0
  if first < 0x80 then .valid 1
  else if 0xC2 ≤ first && first ≤ 0xDF then
    match bytes[1]? with
    | none => .invalid bytes.length
    | some b => if isContinuation b then .valid 2 else .invalid 1
  else if 0xE0 ≤ first && first ≤ 0xEF then
    match bytes[1]? with
    | none => .invalid bytes.length
    | some b =>
      if secondOfThree first b then
        match bytes[2]? with
        | none => .invalid bytes.length
        | some c => if isContinuation c then .valid 3 else .invalid 2
      else .invalid 1
  else if 0xF0 ≤ first && first ≤ 0xF4 then
    match bytes[1]? with
    | none => .invalid bytes.length
    | some b =>
      if secondOfFour first b then
        match bytes[2]? with
        | none => .invalid bytes.length
        | some c =>
          if isContinuation c then
            match bytes[3]? with
            | none => .invalid bytes.length
            | some d => if isContinuation d then .valid 4 else .invalid 3
          else .invalid 2
      else .invalid 1
  else .invalid 1

/-- `from_utf8` takes the bytes, with at most so many sequences left to see. -/
def validUtf8From : Nat → List UInt8 → Bool
  | 0, bytes => bytes.isEmpty
  | _, [] => true
  | fuel + 1, bytes =>
    match utf8Front bytes with
    | .valid length => validUtf8From fuel (bytes.drop length)
    | .invalid _ => false

def validUtf8 (bytes : List UInt8) : Bool := validUtf8From bytes.length bytes

/-- `RAW_MASK`. -/
def rawMask : UInt8 := 0x1A

/-- The masked copy, with at most so many sequences left to see. -/
def maskedFrom : Nat → List UInt8 → List UInt8
  | 0, bytes => bytes
  | _, [] => []
  | fuel + 1, bytes =>
    match utf8Front bytes with
    | .valid length => bytes.take length ++ maskedFrom fuel (bytes.drop length)
    | .invalid length =>
      List.replicate (bytes.take length).length rawMask ++ maskedFrom fuel (bytes.drop length)

/-- `as_str`: the text itself, or its masked copy. -/
def asStr (bytes : List UInt8) : List UInt8 := maskedFrom bytes.length bytes

theorem maskedFrom_length (fuel : Nat) (bytes : List UInt8) :
    (maskedFrom fuel bytes).length = bytes.length := by
  induction fuel generalizing bytes with
  | zero => rfl
  | succ fuel ih =>
    cases bytes with
    | nil => rfl
    | cons b rest =>
      rw [maskedFrom.eq_def]
      dsimp only
      split <;> simp only [List.length_append, List.length_replicate, ih, List.length_take,
        List.length_drop] <;> omega

@[simp] theorem asStr_length (bytes : List UInt8) : (asStr bytes).length = bytes.length :=
  maskedFrom_length _ _

example : asStr [0x61, 0xC3, 0xA9, 0xC3, 0x62] = [0x61, 0xC3, 0xA9, 0x1A, 0x62] := by decide

/-- A well-formed sequence is one whatever follows it. -/
theorem utf8Front_valid {b : UInt8} {rest : List UInt8} {length : Nat}
    (front : utf8Front (b :: rest) = .valid length) :
    0 < length ∧ length ≤ (b :: rest).length ∧
      ∀ after, utf8Front ((b :: rest).take length ++ after) = .valid length := by
  have first (more : List UInt8) : (b :: more).headD 0 = b := rfl
  unfold utf8Front at front ⊢
  simp only [first] at front
  by_cases ascii : b < 0x80
  · rw [if_pos ascii] at front
    cases front
    exact ⟨Nat.one_pos, by simp, fun after => if_pos ascii⟩
  rw [if_neg ascii] at front
  rcases rest with _ | ⟨c, _ | ⟨d, _ | ⟨e, rest⟩⟩⟩
  all_goals
    simp only [List.getElem?_cons_zero, List.getElem?_cons_succ, List.getElem?_nil] at front
    split_ifs at front
  all_goals cases front
  all_goals exact ⟨by decide, by simp, fun after => by simp [*]⟩

theorem utf8Front_invalid {b : UInt8} {rest : List UInt8} {length : Nat}
    (front : utf8Front (b :: rest) = .invalid length) : 0 < length := by
  unfold utf8Front at front
  by_cases ascii : b < 0x80
  · rw [show (b :: rest).headD 0 = b from rfl, if_pos ascii] at front
    cases front
  rw [show (b :: rest).headD 0 = b from rfl, if_neg ascii] at front
  rcases rest with _ | ⟨c, _ | ⟨d, _ | ⟨e, rest⟩⟩⟩
  all_goals
    simp only [List.getElem?_cons_zero, List.getElem?_cons_succ, List.getElem?_nil] at front
    split_ifs at front
  all_goals cases front
  all_goals simp

theorem validUtf8From_cons (fuel : Nat) (b : UInt8) (rest : List UInt8) :
    validUtf8From (fuel + 1) (b :: rest) = match utf8Front (b :: rest) with
      | .valid length => validUtf8From fuel ((b :: rest).drop length)
      | .invalid _ => false := rfl

theorem maskedFrom_cons (fuel : Nat) (b : UInt8) (rest : List UInt8) :
    maskedFrom (fuel + 1) (b :: rest) = match utf8Front (b :: rest) with
      | .valid length => (b :: rest).take length ++ maskedFrom fuel ((b :: rest).drop length)
      | .invalid length => List.replicate ((b :: rest).take length).length rawMask ++
          maskedFrom fuel ((b :: rest).drop length) := rfl

/-- A well-formed sequence in front of a valid text. -/
theorem validUtf8From_front {b : UInt8} {rest after : List UInt8} {length fuel : Nat}
    (front : utf8Front (b :: rest) = .valid length) (valid : validUtf8From fuel after = true) :
    validUtf8From (fuel + 1) ((b :: rest).take length ++ after) = true := by
  obtain ⟨positive, inside, alone⟩ := utf8Front_valid front
  obtain ⟨length, rfl⟩ : ∃ n, length = n + 1 := ⟨length - 1, by omega⟩
  have again := alone after
  rw [List.take_succ_cons, List.cons_append] at again ⊢
  rw [validUtf8From_cons, again]
  simp only
  rw [List.length_cons] at inside
  have taken : (rest.take length).length = length := List.length_take_of_le (by omega)
  rw [List.drop_succ_cons, List.drop_left' taken]
  exact valid

variable {bytes : List UInt8}

theorem validUtf8From_succ {fuel : Nat} (valid : validUtf8From fuel bytes = true) :
    validUtf8From (fuel + 1) bytes = true := by
  induction fuel generalizing bytes with
  | zero =>
    rw [List.isEmpty_iff.mp valid]
    rfl
  | succ fuel ih =>
    cases bytes with
    | nil => rfl
    | cons b rest =>
      rw [validUtf8From_cons] at valid ⊢
      split at valid
      next length front => exact ih valid
      next => cases valid

/-- The mask is a sequence of its own. -/
theorem validUtf8From_mask {fuel : Nat} {after : List UInt8}
    (valid : validUtf8From fuel after = true) (count : Nat) :
    validUtf8From (fuel + count) (List.replicate count rawMask ++ after) = true := by
  induction count with
  | zero => exact valid
  | succ count ih =>
    rw [List.replicate_succ, List.cons_append]
    exact @validUtf8From_front rawMask [] _ 1 _ rfl ih

theorem validUtf8From_le {fuel more : Nat} (enough : fuel ≤ more)
    (valid : validUtf8From fuel bytes = true) : validUtf8From more bytes = true := by
  induction enough with
  | refl => exact valid
  | step _ ih => exact validUtf8From_succ ih

theorem validUtf8From_masked {fuel : Nat} (enough : bytes.length ≤ fuel) :
    validUtf8From bytes.length (maskedFrom fuel bytes) = true := by
  induction fuel generalizing bytes with
  | zero =>
    rw [List.length_eq_zero_iff.mp (Nat.le_zero.mp enough)]
    rfl
  | succ fuel ih =>
    cases bytes with
    | nil => rfl
    | cons b rest =>
      rw [List.length_cons] at enough
      rw [maskedFrom_cons]
      split
      next length front =>
        obtain ⟨positive, inside, _⟩ := utf8Front_valid front
        have behind : ((b :: rest).drop length).length ≤ fuel := by
          rw [List.length_drop, List.length_cons]
          omega
        refine validUtf8From_le ?_ (validUtf8From_front front (ih behind))
        rw [List.length_drop]
        omega
      next length front =>
        have positive := utf8Front_invalid front
        have behind : ((b :: rest).drop length).length ≤ fuel := by
          rw [List.length_drop, List.length_cons]
          omega
        have masked := validUtf8From_mask (ih behind) ((b :: rest).take length).length
        have parts : ((b :: rest).drop length).length + ((b :: rest).take length).length =
            (b :: rest).length := by
          rw [Nat.add_comm, ← List.length_append, List.take_append_drop]
        rwa [parts] at masked

/-- What `as_str` shows is a string. -/
theorem validUtf8_asStr (bytes : List UInt8) : validUtf8 (asStr bytes) = true := by
  rw [validUtf8, asStr_length]
  exact validUtf8From_masked (Nat.le_refl _)

theorem maskedFrom_of_valid {fuel : Nat} (valid : validUtf8From fuel bytes = true) :
    maskedFrom fuel bytes = bytes := by
  induction fuel generalizing bytes with
  | zero => rfl
  | succ fuel ih =>
    cases bytes with
    | nil => rfl
    | cons b rest =>
      rw [validUtf8From_cons] at valid
      rw [maskedFrom_cons]
      split at valid
      next length front =>
        rw [ih valid, List.take_append_drop]
      next => cases valid

/-- A text that is no string does not show itself. -/
theorem asStr_eq_self : asStr bytes = bytes ↔ validUtf8 bytes = true := by
  constructor
  · intro same
    rw [← same]
    exact validUtf8_asStr bytes
  · exact maskedFrom_of_valid

end RustSql.Types
