import Mathlib.Data.List.Basic
import Mathlib.Tactic.Ring

/-! Varints of B+tree cells: one to nine bytes, seven bits each with the high ones first, and
all eight in a ninth. -/

namespace RustSql.Storage.Varint

/-- The groups of seven bits that `v` needs, from `n` groups up to `max` on. Eight are the
most for a `v` below `2 ^ 56`. -/
def groups (v : Nat) : Nat → Nat → Nat → Nat
  | 0, n, _ => n
  | fuel + 1, n, max => if max < v then groups v fuel (n + 1) (max * 128 + 127) else n

/-- The bytes that `encode` leaves at the front of its buffer. -/
def encode (v : UInt64) : List UInt8 :=
  let v := v.toNat
  if v = 0 then [0]
  else if v ≤ 0x7F then [UInt8.ofNat v]
  else if v ≤ 0x3FFF then [UInt8.ofNat (v / 128 + 128), UInt8.ofNat (v % 128)]
  else if v < 2 ^ 56 then
    let n := groups v 7 1 0x7F
    (List.range n).map fun i =>
      let byte := v / 2 ^ ((n - 1 - i) * 7) % 128
      UInt8.ofNat (if i < n - 1 then byte + 128 else byte)
  else
    let high := v / 256
    ((List.range 8).map fun i => UInt8.ofNat (high / 2 ^ ((7 - i) * 7) % 128 + 128)) ++
      [UInt8.ofNat (v % 256)]

/-- The loop of `decode_slow` behind `i` bytes. -/
def decodeLoop (i v : Nat) : List UInt8 → Option (UInt64 × Nat)
  | [] => none
  | b :: rest =>
    if i = 8 then some (UInt64.ofNat (v * 256 + b.toNat), 9)
    else
      let v := v * 128 + b.toNat % 128
      if b.toNat < 128 then some (UInt64.ofNat v, i + 1) else decodeLoop (i + 1) v rest

def decodeSlow (buf : List UInt8) : Option (UInt64 × Nat) := decodeLoop 0 0 buf

def decode (buf : List UInt8) : Option (UInt64 × Nat) :=
  match buf with
  | b0 :: rest =>
    if b0 < 0x80 then some (b0.toUInt64, 1)
    else
      match rest with
      | b1 :: rest =>
        if b1 < 0x80 then some (UInt64.ofNat (b0.toNat % 128 * 128 + b1.toNat), 2)
        else
          match rest with
          | b2 :: _ =>
            if b2 < 0x80 then
              some (UInt64.ofNat (b0.toNat % 128 * 128 ^ 2 + b1.toNat % 128 * 128 + b2.toNat), 3)
            else decodeSlow buf
          | [] => decodeSlow buf
      | [] => decodeSlow buf
  | [] => decodeSlow buf

def encodeSigned (v : Int64) : List UInt8 := encode v.toUInt64

def decodeSigned (buf : List UInt8) : Option (Int64 × Nat) :=
  (decode buf).map fun (v, n) => (v.toInt64, n)

def lenOf (v : UInt64) : Nat :=
  let v := v.toNat
  if v ≤ 0x7F then 1 else if v < 2 ^ 56 then groups v 7 1 0x7F else 9

theorem toNat_lt_128 {b : UInt8} : b < 0x80 ↔ b.toNat < 128 := UInt8.lt_iff_toNat_lt

/-- The fast path matches the general loop. -/
theorem decode_eq (buf : List UInt8) : decode buf = decodeSlow buf := by
  match buf with
  | [] => rfl
  | b0 :: rest =>
    by_cases first : b0.toNat < 128
    · have value : b0.toUInt64 = UInt64.ofNat (b0.toNat % 128) := by
        rw [Nat.mod_eq_of_lt first]
        exact UInt64.toNat_inj.mp (by simp)
      simp [decode, toNat_lt_128, first, decodeSlow, decodeLoop, value]
    · match rest with
      | [] => simp [decode, toNat_lt_128, first]
      | b1 :: rest =>
        by_cases second : b1.toNat < 128
        · simp [decode, toNat_lt_128, first, second, decodeSlow, decodeLoop,
            Nat.mod_eq_of_lt second]
        · match rest with
          | [] => simp [decode, toNat_lt_128, first, second]
          | b2 :: rest =>
            by_cases third : b2.toNat < 128
            · have joined : (b0.toNat % 128 * 128 + b1.toNat % 128) * 128 =
                  b0.toNat % 128 * 128 ^ 2 + b1.toNat % 128 * 128 := by ring
              simp only [decode, toNat_lt_128, if_neg first, if_neg second, if_pos third,
                decodeSlow, decodeLoop, Nat.zero_mul, Nat.zero_add, Nat.mod_eq_of_lt third, joined]
              rfl
            · simp [decode, toNat_lt_128, first, second, third]

/-- `n` groups of `v`, the highest first, each marked as continued. -/
def continued (v : Nat) : Nat → List UInt8
  | 0 => []
  | n + 1 => UInt8.ofNat (v / 128 ^ n % 128 + 128) :: continued v n

theorem continued_length (v n : Nat) : (continued v n).length = n := by
  induction n with
  | zero => rfl
  | succ n ih => simp [continued, ih]

theorem map_continued (v n : Nat) :
    (List.range n).map (fun i => UInt8.ofNat (v / 2 ^ ((n - 1 - i) * 7) % 128 + 128)) =
      continued v n := by
  induction n with
  | zero => rfl
  | succ n ih =>
    have power : 2 ^ (n * 7) = 128 ^ n := by rw [Nat.mul_comm, Nat.pow_mul]
    rw [List.range_succ_eq_map, List.map_cons, List.map_map, continued, ← ih]
    congr 1
    · simp [power]
    · apply List.map_congr_left
      intro i _
      simp only [Function.comp_apply, Nat.succ_eq_add_one]
      congr 5
      omega

/-- The loop takes in continued groups. -/
theorem decodeLoop_continued (v : Nat) {i n : Nat} (room : i + n ≤ 8) (acc : Nat)
    (rest : List UInt8) :
    decodeLoop i acc (continued v n ++ rest) =
      decodeLoop (i + n) (acc * 128 ^ n + v % 128 ^ n) rest := by
  induction n generalizing i acc with
  | zero => simp [continued, Nat.mod_one]
  | succ n ih =>
    have byte : (UInt8.ofNat (v / 128 ^ n % 128 + 128)).toNat = v / 128 ^ n % 128 + 128 := by
      rw [UInt8.toNat_ofNat']
      omega
    have early : i ≠ 8 := by omega
    have marked : ¬ v / 128 ^ n % 128 + 128 < 128 := by omega
    rw [continued, List.cons_append, decodeLoop, if_neg early]
    simp only [byte, if_neg marked]
    rw [ih (by omega), Nat.add_mod_right, Nat.mod_mod, Nat.mod_pow_succ]
    congr 1
    · omega
    · ring

/-- The bytes of a value that fits groups of seven bits. -/
theorem map_groups (v n : Nat) :
    ((List.range (n + 1)).map fun i =>
      UInt8.ofNat (if i < n + 1 - 1 then v / 2 ^ ((n + 1 - 1 - i) * 7) % 128 + 128
        else v / 2 ^ ((n + 1 - 1 - i) * 7) % 128)) =
      continued (v / 128) n ++ [UInt8.ofNat (v % 128)] := by
  rw [List.range_succ, List.map_append, ← map_continued]
  congr 1
  · apply List.map_congr_left
    intro i member
    have inside := List.mem_range.mp member
    have power : 2 ^ ((n - i) * 7) = 128 * 2 ^ ((n - 1 - i) * 7) := by
      have step : n - i = n - 1 - i + 1 := by omega
      rw [step, Nat.add_mul, Nat.pow_add, Nat.mul_comm]
    rw [Nat.add_sub_cancel, if_pos inside, power, Nat.div_div_eq_div_mul]
  · simp

/-- As many groups as the value needs. -/
theorem groups_spec {v fuel n : Nat} (room : v < 128 ^ (n + 1 + fuel)) :
    ∃ more ≤ fuel, groups v fuel (n + 1) (128 ^ (n + 1) - 1) = n + 1 + more ∧
      v < 128 ^ (n + 1 + more) := by
  induction fuel generalizing n with
  | zero => exact ⟨0, Nat.le_refl 0, rfl, room⟩
  | succ fuel ih =>
    have positive : 0 < 128 ^ (n + 1) := Nat.pow_pos (by decide)
    rw [groups]
    split
    · have next : (128 ^ (n + 1) - 1) * 128 + 127 = 128 ^ (n + 1 + 1) - 1 := by
        rw [Nat.pow_succ 128 (n + 1)]
        omega
      obtain ⟨more, small, count, fits⟩ := @ih (n + 1) (by rwa [Nat.add_assoc, Nat.add_comm 1])
      exact ⟨more + 1, by omega, by rw [next, count]; omega, by
        rwa [Nat.add_right_comm] at fits⟩
    · exact ⟨0, Nat.zero_le _, rfl, by
        rw [Nat.add_zero]
        omega⟩

/-- What `encode` writes: continued groups and a last byte, which takes eight bits in ninth
place. -/
theorem encode_cases (v : UInt64) :
    (∃ n, n ≤ 7 ∧ v.toNat < 128 ^ (n + 1) ∧ lenOf v = n + 1 ∧
        encode v = continued (v.toNat / 128) n ++ [UInt8.ofNat (v.toNat % 128)]) ∨
      (lenOf v = 9 ∧
        encode v = continued (v.toNat / 256) 8 ++ [UInt8.ofNat (v.toNat % 256)]) := by
  by_cases tiny : v.toNat ≤ 0x7F
  · left
    refine ⟨0, by decide, by omega, by simp [lenOf, tiny], ?_⟩
    rw [Nat.mod_eq_of_lt (by omega)]
    by_cases zero : v.toNat = 0
    · simp [encode, zero, continued]
    · simp [encode, zero, tiny, continued]
  · have nonzero : v.toNat ≠ 0 := by omega
    by_cases small : v.toNat < 2 ^ 56
    · left
      obtain ⟨more, few, count, fits⟩ := @groups_spec v.toNat 7 0 small
      have counted : groups v.toNat 7 1 0x7F = more + 1 := by
        rw [Nat.add_comm]
        exact count
      rw [Nat.zero_add, Nat.add_comm] at fits
      refine ⟨more, few, fits, by simp only [lenOf, if_neg tiny, if_pos small, counted], ?_⟩
      by_cases two : v.toNat ≤ 0x3FFF
      · have single : more = 1 := by
          have first : groups v.toNat 7 1 0x7F = groups v.toNat 6 2 0x3FFF := by
            rw [groups, if_pos (by omega)]
          rw [first, groups, if_neg (by omega)] at counted
          omega
        subst single
        have high : v.toNat / 128 % 128 = v.toNat / 128 := Nat.mod_eq_of_lt (by omega)
        simp [encode, nonzero, tiny, two, continued, high]
      · rw [← map_groups]
        simp only [encode, if_neg nonzero, if_neg tiny, if_neg two, if_pos small, counted]
    · right
      have large : ¬ v.toNat ≤ 0x3FFF := by omega
      refine ⟨by simp only [lenOf, if_neg tiny, if_neg small], ?_⟩
      rw [← map_continued]
      simp only [encode, if_neg nonzero, if_neg tiny, if_neg large, if_neg small]

@[simp] theorem encode_length (v : UInt64) : (encode v).length = lenOf v := by
  rcases encode_cases v with ⟨n, -, -, count, written⟩ | ⟨count, written⟩
  · rw [written, count, List.length_append, continued_length]
    rfl
  · rw [written, count, List.length_append, continued_length]
    rfl

/-- Every value survives, whatever follows it. -/
theorem decode_encode (v : UInt64) (rest : List UInt8) :
    decode (encode v ++ rest) = some (v, lenOf v) := by
  rw [decode_eq, decodeSlow]
  rcases encode_cases v with ⟨n, few, fits, count, written⟩ | ⟨count, written⟩
  · have early : n ≠ 8 := by omega
    have last : (UInt8.ofNat (v.toNat % 128)).toNat = v.toNat % 128 := by
      rw [UInt8.toNat_ofNat']
      omega
    have short : v.toNat % 128 < 128 := Nat.mod_lt _ (by decide)
    have high : v.toNat / 128 < 128 ^ n := by
      rw [Nat.div_lt_iff_lt_mul (by decide), ← Nat.pow_succ]
      exact fits
    have joined : v.toNat / 128 * 128 + v.toNat % 128 = v.toNat := by omega
    rw [written, count, List.append_assoc, decodeLoop_continued _ (by omega),
      Nat.mod_eq_of_lt high]
    simp [decodeLoop, early, last, short, joined]
  · have last : (UInt8.ofNat (v.toNat % 256)).toNat = v.toNat % 256 := by
      rw [UInt8.toNat_ofNat']
      omega
    have high : v.toNat / 256 < 128 ^ 8 := by
      have bound := v.toNat_lt
      omega
    have joined : v.toNat / 256 * 256 + v.toNat % 256 = v.toNat := by omega
    rw [written, count, List.append_assoc, decodeLoop_continued _ (by omega),
      Nat.mod_eq_of_lt high]
    simp [decodeLoop, last, joined]

theorem decodeSigned_encodeSigned (v : Int64) (rest : List UInt8) :
    decodeSigned (encodeSigned v ++ rest) = some (v, lenOf v.toUInt64) := by
  rw [decodeSigned, encodeSigned, decode_encode]
  simp

theorem groups_le {v fuel n k : Nat} (small : v < 128 ^ k) (start : n + 1 ≤ k) :
    groups v fuel (n + 1) (128 ^ (n + 1) - 1) ≤ k := by
  induction fuel generalizing n with
  | zero => exact start
  | succ fuel ih =>
    have positive : 0 < 128 ^ (n + 1) := Nat.pow_pos (by decide)
    rw [groups]
    split
    · next larger =>
      have next : (128 ^ (n + 1) - 1) * 128 + 127 = 128 ^ (n + 1 + 1) - 1 := by
        rw [Nat.pow_succ 128 (n + 1)]
        omega
      have below : 128 ^ (n + 1) < 128 ^ k := by omega
      rw [next]
      exact ih ((Nat.pow_lt_pow_iff_right (by decide)).mp below)
    · exact start

theorem lenOf_le (v : UInt64) : lenOf v ≤ 9 := by
  rcases encode_cases v with ⟨n, few, _, count, _⟩ | ⟨count, _⟩ <;> omega

/-- Small values take few bytes. -/
theorem lenOf_le_of_lt {v : UInt64} {k : Nat} (positive : 0 < k) (short : k ≤ 8)
    (small : v.toNat < 128 ^ k) : lenOf v ≤ k := by
  have below : v.toNat < 2 ^ 56 :=
    Nat.lt_of_lt_of_le small (Nat.pow_le_pow_right (by decide) short)
  rw [lenOf, if_pos below]
  split
  · exact positive
  · exact @groups_le v.toNat 7 0 k small positive

example : encode 300 = [0x82, 0x2C] := by decide

end RustSql.Storage.Varint
