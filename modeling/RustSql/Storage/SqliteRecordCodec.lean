import RustSql.Storage.SqliteRecord
import RustSql.Storage.ProbedColumns

/-! A record of the SQLite file format reads back as the values it stores. -/

namespace RustSql.Storage.Sqlitefmt

open RustSql.Foundation RustSql.Types

theorem groups_eq {v fuel n : Nat} (room : v < 128 ^ (n + 1 + fuel)) :
    Varint.groups v fuel (n + 1) (128 ^ (n + 1) - 1) = n + varintLen (v / 128 ^ n) := by
  induction fuel generalizing n with
  | zero =>
    have last : v / 128 ^ n / 128 = 0 := by
      rw [Nat.div_div_eq_div_mul, ← Nat.pow_succ]
      exact Nat.div_eq_of_lt room
    rw [Varint.groups, varintLen, if_pos last]
  | succ fuel ih =>
    have positive : 0 < 128 ^ (n + 1) := Nat.pow_pos (by decide)
    rw [Varint.groups, varintLen, Nat.div_div_eq_div_mul, ← Nat.pow_succ]
    by_cases more : 128 ^ (n + 1) - 1 < v
    · have next : (128 ^ (n + 1) - 1) * 128 + 127 = 128 ^ (n + 1 + 1) - 1 := by
        rw [Nat.pow_succ 128 (n + 1)]
        omega
      have left : v / 128 ^ (n + 1) ≠ 0 := by
        rw [ne_eq, Nat.div_eq_zero_iff_lt positive]
        omega
      rw [if_pos more, if_neg left, next, ih (by rwa [Nat.add_right_comm (n + 1)])]
      exact Nat.add_right_comm n 1 _
    · rw [if_neg more, if_pos (Nat.div_eq_of_lt (by omega))]

theorem lenOf_eq {v : UInt64} (small : v.toNat < 2 ^ 56) : Varint.lenOf v = varintLen v.toNat := by
  have counted := @groups_eq v.toNat 7 0 small
  rw [Nat.pow_zero, Nat.div_one] at counted
  rw [Varint.lenOf, if_pos small]
  by_cases tiny : v.toNat ≤ 0x7F
  · rw [if_pos tiny, varintLen, if_pos (by omega)]
  · rw [if_neg tiny]
    exact counted.trans (Nat.zero_add _)

/-- The two's complement of an integer. -/
theorem toInt_eq_toUInt64 (v : Int64) :
    v.toInt = if 2 * v.toUInt64.toNat < 2 ^ 64 then (v.toUInt64.toNat : Int)
      else v.toUInt64.toNat - 2 ^ 64 := by
  rw [← Int64.toInt_toBitVec, BitVec.toInt_eq_toNat_cond]
  rfl

theorem toUInt64_of_neg {v : Int64} (negative : v < 0) : 2 ^ 63 ≤ v.toUInt64.toNat := by
  rw [Int64.lt_iff_toInt_lt, toInt_eq_toUInt64 v] at negative
  split_ifs at negative with small
  · exact absurd negative (Int.not_lt.mpr (Int.natCast_nonneg _))
  · omega

/-- The varints of the file format are the native ones. -/
theorem writeVarint_eq (v : Int64) : writeVarint v = Varint.encode v.toUInt64 := by
  rw [writeVarint]
  dsimp only
  by_cases large : 2 ^ 56 ≤ v.toUInt64.toNat
  · rcases Varint.encode_cases v.toUInt64 with ⟨n, few, fits, -, -⟩ | ⟨-, written⟩
    · have bound : 128 ^ (n + 1) ≤ 128 ^ 8 := Nat.pow_le_pow_right (by decide) (by omega)
      omega
    · rw [if_neg (by omega), if_pos (Or.inr large), written, ← Varint.map_continued]
  have plain : ¬ (v < 0 ∨ 2 ^ 56 ≤ v.toUInt64.toNat) := by
    rintro (negative | beyond)
    · have bound := toUInt64_of_neg negative
      omega
    · exact large beyond
  have counted := lenOf_eq (Nat.lt_of_not_le large)
  rcases Varint.encode_cases v.toUInt64 with ⟨n, few, fits, count, written⟩ | ⟨count, -⟩
  · rw [counted] at count
    by_cases tiny : v.toUInt64.toNat ≤ 0x7f
    · rw [varintLen, if_pos (by omega)] at count
      obtain rfl : n = 0 := by omega
      rw [if_pos tiny, written, Nat.mod_eq_of_lt (by omega)]
      rfl
    · rw [if_neg tiny, if_neg plain, written, count, ← Varint.map_groups]
  · have short := Varint.lenOf_le_of_lt (v := v.toUInt64) (k := 8) (by decide) (by decide)
      (Nat.lt_of_not_le large)
    omega

theorem readVarint_writeVarint (v : Int64) (front rest : List UInt8) :
    readVarint (front ++ (writeVarint v ++ rest)) front.length =
      some (v, (writeVarint v).length) := by
  have read := Varint.decode_encode v.toUInt64 rest
  rw [Varint.decode_eq] at read
  rw [readVarint, List.drop_left, writeVarint_eq, Varint.encode_length]
  refine (congrArg (Option.map _) read).trans ?_
  simp

theorem varintLen_pos (v : Nat) : 0 < varintLen v := by
  rw [varintLen]
  split_ifs
  · exact Nat.one_pos
  · exact Nat.succ_pos _

theorem varintLen_of_bounds {v k : Nat} (low : 128 ^ k ≤ v) (high : v < 128 ^ (k + 1)) :
    varintLen v = k + 1 := by
  induction k generalizing v with
  | zero =>
    rw [varintLen, if_pos]
    exact Nat.div_eq_of_lt high
  | succ k ih =>
    have more : v / 128 ≠ 0 := by
      have enough : 128 ^ 1 ≤ 128 ^ (k + 1) := Nat.pow_le_pow_right (by decide) (by omega)
      omega
    rw [varintLen, if_neg more, ih]
    · rw [Nat.le_div_iff_mul_le (by decide), ← Nat.pow_succ]
      exact low
    · rw [Nat.div_lt_iff_lt_mul (by decide), ← Nat.pow_succ]
      exact high

theorem varintLen_mono {v w : Nat} (le : v ≤ w) : varintLen v ≤ varintLen w := by
  induction w using Nat.strong_induction_on generalizing v with
  | _ w ih =>
    rw [varintLen]
    by_cases last : v / 128 = 0
    · rw [if_pos last]
      exact varintLen_pos w
    · have further : w / 128 ≠ 0 := by
        have quotients := Nat.div_le_div_right (c := 128) le
        omega
      rw [if_neg last, varintLen.eq_def w, if_neg further]
      exact Nat.succ_le_succ (ih _ (by omega) (Nat.div_le_div_right le))

theorem varintLen_le {v : Nat} (small : v < 2 ^ 63) : varintLen v ≤ 9 := by
  refine (varintLen_mono (Nat.le_pred_of_lt small)).trans ?_
  rw [varintLen_of_bounds (k := 8) (by decide) (by decide)]

theorem writeVarint_length {n : Nat} (small : n < 2 ^ 63) :
    (writeVarint (Int64.ofNat n)).length = varintLen n := by
  have word : (Int64.ofNat n).toUInt64.toNat = n := by
    rw [Int64.toUInt64_ofNat', UInt64.toNat_ofNat']
    exact Nat.mod_eq_of_lt (small.trans (by decide))
  rw [writeVarint_eq, Varint.encode_length]
  by_cases short : n < 2 ^ 56
  · rw [lenOf_eq (by rw [word]; exact short), word]
  · rw [varintLen_of_bounds (k := 8) (Nat.le_of_not_lt short) (small.trans_le (by decide)),
      Varint.lenOf, word, if_neg (by omega), if_neg short]

/-- The length of the header counts its own varint. -/
theorem sizePrefix_fixed {header size fuel : Nat} (start : size ≤ varintLen (size + header))
    (small : header < 2 ^ 62) (few : size ≤ 9) (enough : 10 ≤ size + fuel) :
    varintLen (sizePrefix header size fuel + header) = sizePrefix header size fuel ∧
      sizePrefix header size fuel ≤ 9 := by
  induction fuel generalizing size with
  | zero => omega
  | succ fuel ih =>
    rw [sizePrefix]
    by_cases fits : varintLen (size + header) ≤ size
    · rw [if_pos fits]
      exact ⟨Nat.le_antisymm fits start, few⟩
    · rw [if_neg fits]
      refine ih (varintLen_mono (by omega)) (varintLen_le (by omega)) (by omega)

theorem fromBeBytes_append (front back : List UInt8) :
    fromBeBytes (front ++ back) = fromBeBytes front * 256 ^ back.length + fromBeBytes back := by
  induction back using List.reverseRecOn with
  | nil => simp [fromBeBytes]
  | append_singleton back b ih =>
    rw [fromBeBytes] at ih ⊢
    rw [← List.append_assoc, List.foldl_append, ih, List.length_append, List.length_singleton]
    simp only [fromBeBytes, List.foldl_append, List.foldl_cons, List.foldl_nil]
    ring

theorem fromBeBytes_bigEndian (width n : Nat) : fromBeBytes (bigEndian width n) = n % 256 ^ width := by
  induction width with
  | zero => simp [bigEndian, fromBeBytes, Nat.mod_one]
  | succ width ih =>
    rw [bigEndian, ← List.singleton_append, fromBeBytes_append, ih, bigEndian_length]
    simp only [fromBeBytes, List.foldl_cons, List.foldl_nil, Nat.zero_mul, Nat.zero_add,
      UInt8.toNat_ofNat']
    rw [Nat.mod_pow_succ (b := 256) (k := width), Nat.add_comm, Nat.mul_comm]

theorem bigEndian_drop (skipped width n : Nat) :
    (bigEndian (skipped + width) n).drop skipped = bigEndian width n := by
  induction skipped with
  | zero => rw [Nat.zero_add, List.drop_zero]
  | succ skipped ih => rw [Nat.add_right_comm, bigEndian, List.drop_succ_cons, ih]

theorem high_bit (b : UInt8) : b &&& 0x80 ≠ 0 ↔ 128 ≤ b.toNat :=
  forall_byte (by decide +kernel) b

/-- The bytes that sign-extend an integer. -/
theorem fill_value (negative : Prop) [Decidable negative] (k : Nat) :
    fromBeBytes (List.replicate k (if negative then (0xff : UInt8) else 0)) =
      if negative then 256 ^ k - 1 else 0 := by
  induction k with
  | zero => split_ifs <;> rfl
  | succ k ih =>
    have positive : 0 < 256 ^ k := Nat.pow_pos (by decide)
    rw [List.replicate_succ', fromBeBytes_append, ih]
    by_cases sign : negative
    · simp only [if_pos sign, fromBeBytes, List.foldl_cons, List.foldl_nil, List.length_singleton,
        Nat.pow_succ 256 k]
      rw [show UInt8.toNat 0xff = 255 from rfl]
      omega
    · simp only [if_neg sign]
      rfl

/-- An integer survives its low bytes where those hold its sign. -/
theorem beInt_writeBeInt {v : Int64} {n : Nat} (width : n ∈ [1, 2, 3, 4, 6, 8])
    (low : -2 ^ (8 * n - 1) ≤ v.toInt) (high : v.toInt < 2 ^ (8 * n - 1)) :
    beInt n (writeBeInt v n) = v := by
  have value := toInt_eq_toUInt64 v
  have word := v.toUInt64.toNat_lt
  have back (m : Nat) (same : m = v.toUInt64.toNat) : (UInt64.ofNat m).toInt64 = v := by
    rw [same, UInt64.ofNat_toNat]
    rfl
  have read (m skipped : Nat) (whole : skipped + (m + 1) = 8) : beInt (m + 1) (writeBeInt v (m + 1)) =
      (UInt64.ofNat ((if m + 1 < 8 ∧ 128 ≤ v.toUInt64.toNat / 256 ^ m % 256 then
          256 ^ skipped - 1 else 0) * 256 ^ (m + 1) +
        v.toUInt64.toNat % 256 ^ (m + 1))).toInt64 := by
    have bytes : writeBeInt v (m + 1) = bigEndian (m + 1) v.toUInt64.toNat := by
      rw [writeBeInt, ← whole, Nat.add_sub_cancel, bigEndian_drop]
    have head : (bigEndian (m + 1) v.toUInt64.toNat).headD 0 &&& 0x80 ≠ 0 ↔
        128 ≤ v.toUInt64.toNat / 256 ^ m % 256 := by
      rw [bigEndian, List.headD_cons, high_bit, UInt8.toNat_ofNat']
    rw [beInt, bytes, show 8 - (m + 1) = skipped by omega]
    simp only [head, fromBeBytes_append, fill_value, fromBeBytes_bigEndian, bigEndian_length]
  simp only [List.mem_cons, List.not_mem_nil, or_false] at width
  generalize v.toUInt64.toNat = u at *
  rcases width with rfl | rfl | rfl | rfl | rfl | rfl
  · rw [read 0 7 rfl]
    refine back _ ?_
    split_ifs at value ⊢ <;> omega
  · rw [read 1 6 rfl]
    refine back _ ?_
    split_ifs at value ⊢ <;> omega
  · rw [read 2 5 rfl]
    refine back _ ?_
    split_ifs at value ⊢ <;> omega
  · rw [read 3 4 rfl]
    refine back _ ?_
    split_ifs at value ⊢ <;> omega
  · rw [read 5 2 rfl]
    refine back _ ?_
    split_ifs at value ⊢ <;> omega
  · rw [read 7 0 rfl]
    refine back _ ?_
    split_ifs at value ⊢ <;> omega

theorem writeBeInt_length (v : Int64) {n : Nat} (narrow : n ≤ 8) : (writeBeInt v n).length = n := by
  rw [writeBeInt, List.length_drop, bigEndian_length]
  omega

/-- What a value is read back as: an integral double up to `2 ^ 53`, but for `-0.0`, as the integer
it equals, and a text as the encoding of the file shows it. -/
inductive Stored (enc : TextEnc) : Value → Value → Prop
  | null : Stored enc .null .null
  | integer (i : Int64) : Stored enc (.integer i) (.integer i)
  | integral {f : Binary64} {i : Int64} (number : f.isNaN = false) (same : exact i = f.scaled)
    (small : i.toInt.natAbs ≤ 2 ^ 53) (signless : ¬ (f.magnitude = 0 ∧ f.sign = true)) :
    Stored enc (.real f) (.integer i)
  | real {f : Binary64} (wide : ¬ ∃ i : Int64, f.isNaN = false ∧ exact i = f.scaled ∧
      i.toInt.natAbs ≤ 2 ^ 53 ∧ ¬ (f.magnitude = 0 ∧ f.sign = true)) :
    Stored enc (.real f) (.real f)
  | text (bytes : List UInt8) :
    Stored enc (.text bytes) (.text (match enc with | .utf8 => bytes | _ => asStr bytes))
  | blob (bytes : List UInt8) : Stored enc (.blob bytes) (.blob bytes)

theorem compact_exact {f : Binary64} (compact : realIsStorableAsInt f = true) :
    f.isNaN = false ∧ exact (storedInt f) = f.scaled := by
  have value := RowCodec.exact_of_compact compact
  rwa [unzigzag_zigzag] at value

theorem large_weight {e : Nat} (large : 1078 ≤ e) :
    2 ^ 53 * Binary64.unit < Binary64.weight (e * 2 ^ 52) := by
  have normal := Binary64.weight_normal e (2 ^ 52) (by omega) (Nat.le_refl _) (by decide)
  rw [Nat.sub_self, Nat.add_zero] at normal
  have bound (k : Nat) (small : k ≤ 1074) : 2 ^ 53 * 2 ^ k < 2 ^ 52 * 2 ^ (e - 1) := by
    rw [← Nat.pow_add, ← Nat.pow_add]
    exact Nat.pow_lt_pow_right (by decide) (by omega)
  rw [normal, Binary64.unit]
  exact bound 1074 (Nat.le_refl _)

theorem compact_iff {f : Binary64} : realIsStorableAsInt f = true ↔
    ∃ i : Int64, f.isNaN = false ∧ exact i = f.scaled ∧ i.toInt.natAbs ≤ 2 ^ 53 ∧
      ¬ (f.magnitude = 0 ∧ f.sign = true) := by
  have unit : 0 < Binary64.unit := by exact_mod_cast Binary64.unit_pos
  have size := Binary64.natAbs_scaled f
  constructor
  · intro compact
    obtain ⟨number, same⟩ := compact_exact compact
    simp only [realIsStorableAsInt, isCompact, Bool.and_eq_true, decide_eq_true_iff,
      Bool.not_eq_true', Bool.and_eq_false_iff, decide_eq_false_iff_not] at compact
    obtain ⟨⟨-, bounded⟩, signless⟩ := compact
    refine ⟨storedInt f, number, same, ?_, fun both => ?_⟩
    · rw [← same, exact, Int.natAbs_mul, Int.natAbs_natCast] at size
      rw [← size] at bounded
      exact Nat.le_of_mul_le_mul_right bounded unit
    · rcases signless with nonzero | positive
      · exact nonzero both.1
      · rw [both.2] at positive
        cases positive
  · rintro ⟨i, -, same, small, signless⟩
    rw [← same, exact, Int.natAbs_mul, Int.natAbs_natCast] at size
    have bounded : Binary64.weight f.magnitude ≤ 2 ^ 53 * Binary64.unit := by
      rw [← size]
      exact Nat.mul_le_mul_right _ small
    simp only [realIsStorableAsInt, isCompact, Bool.and_eq_true, decide_eq_true_iff,
      Bool.not_eq_true', Bool.and_eq_false_iff, decide_eq_false_iff_not]
    refine ⟨⟨⟨?_, ⟨i.toInt.natAbs, by rw [← size, Nat.mul_comm]⟩⟩, bounded⟩, ?_⟩
    · by_contra infinite
      have order := Binary64.weight_strictMono.monotone (Nat.le_of_not_lt infinite)
      exact absurd (order.trans bounded) (Nat.not_le_of_lt (large_weight (by decide)))
    · by_cases zero : f.magnitude = 0
      · exact Or.inr (Bool.not_eq_true _ ▸ fun sign => signless ⟨zero, sign⟩)
      · exact Or.inl zero

theorem stored_real (f : Binary64) (enc : TextEnc) :
    Stored enc (.real f)
      (if realIsStorableAsInt f then .integer (storedInt f) else .real f) := by
  by_cases compact : realIsStorableAsInt f = true
  · obtain ⟨number, same⟩ := compact_exact compact
    obtain ⟨i, -, again, small, signless⟩ := compact_iff.mp compact
    have unit : (Binary64.unit : Int) ≠ 0 := Binary64.unit_pos.ne'
    have equal : i = storedInt f :=
      Int64.toInt_inj.mp (Int.eq_of_mul_eq_mul_right unit (again.trans same.symm))
    rw [if_pos compact]
    exact .integral number same (equal ▸ small) signless
  · rw [if_neg compact]
    exact .real fun exists_ => compact (compact_iff.mpr exists_)

theorem takeBody_written (front rest : List UInt8) {body : List UInt8} {n : Nat}
    (size : body.length = n) (truncated : String) (build : List UInt8 → Value) :
    takeBody (front ++ (body ++ rest)) front.length n truncated build =
      .ok (build body, front.length + body.length) := by
  subst size
  rw [takeBody, if_neg, List.drop_left, List.take_left]
  rw [List.length_append, List.length_append]
  omega

theorem decodeValue_integer (i : Int64) (enc : TextEnc) (front rest : List UInt8) :
    decodeValue (front ++ (writeBeInt i (integerSerial i).2 ++ rest)) front.length
        (integerSerial i).1 enc =
      .ok (.integer i, front.length + (writeBeInt i (integerSerial i).2).length) := by
  have body (n : Nat) (width : n ∈ [1, 2, 3, 4, 6, 8]) (low : -2 ^ (8 * n - 1) ≤ i.toInt)
      (high : i.toInt < 2 ^ (8 * n - 1)) :
      takeBody (front ++ (writeBeInt i n ++ rest)) front.length n "truncated integer body"
          (fun bytes => .integer (beInt n bytes)) =
        .ok (.integer i, front.length + (writeBeInt i n).length) := by
    have narrow : n ≤ 8 := by
      simp only [List.mem_cons, List.not_mem_nil, or_false] at width
      omega
    rw [takeBody_written front rest (writeBeInt_length i narrow), beInt_writeBeInt width low high]
  unfold integerSerial
  dsimp only
  split_ifs with zero one tiny small middle word wide
  · obtain rfl : i = 0 := Int64.toInt_inj.mp zero
    rfl
  · obtain rfl : i = 1 := Int64.toInt_inj.mp one
    rfl
  · exact body 1 (by decide) tiny.1 tiny.2
  · exact body 2 (by decide) small.1 small.2
  · exact body 3 (by decide) middle.1 middle.2
  · exact body 4 (by decide) word.1 word.2
  · exact body 6 (by decide) wide.1 wide.2
  · exact body 8 (by decide) i.le_toInt i.toInt_lt

/-- The serial type of a text or a blob. -/
theorem decodeValue_long {payload : List UInt8} {body : Nat} {st : UInt64} (enc : TextEnc) {k : Nat}
    (long : st.toNat = k + 12) :
    decodeValue payload body st enc =
      if (k + 12) % 2 = 0 then takeBody payload body (k / 2) "truncated blob body" .blob
      else
        takeBody payload body ((k + 12 - 13) / 2) "truncated text body" fun bytes =>
          .text (match enc with
            | .utf8 => bytes
            | _ => decodeTextBytes bytes enc) := by
  rw [decodeValue, long]
  split_ifs with even
  · exact if_pos ⟨by omega, even⟩
  · refine (if_neg fun both => even both.2).trans (if_pos ?_)
    omega

theorem flatMap_unitBytes_length (enc : TextEnc) (units : List Nat) :
    (units.flatMap (unitBytes enc)).length = units.length * 2 := by
  induction units with
  | nil => rfl
  | cons u rest ih =>
    rw [List.flatMap_cons, List.length_append, ih, List.length_cons]
    cases enc <;> simp only [unitBytes, List.length_cons, List.length_nil] <;> omega

/-- The serial type of a text counts the bytes of its body. -/
theorem textSerial (bytes : List UInt8) (enc : TextEnc) :
    serialTypeAndSize (.text bytes) enc =
      (UInt64.ofNat (13 + 2 * (textBody enc bytes).length), (textBody enc bytes).length) := by
  cases enc with
  | utf8 => rfl
  | utf16le | utf16be =>
    simp only [serialTypeAndSize, textBody, encodeTextBytes, flatMap_unitBytes_length]

theorem integerSerial_plain (i : Int64) :
    ¬ ((integerSerial i).1 = 10 ∨ (integerSerial i).1 = 11) := by
  unfold integerSerial
  dsimp only
  split_ifs <;> decide

/-- A text that went through the encoding of the file. -/
theorem text_shown (bytes : List UInt8) (enc : TextEnc) :
    (match enc with
      | .utf8 => textBody enc bytes
      | _ => decodeTextBytes (textBody enc bytes) enc) =
      match enc with
      | .utf8 => bytes
      | _ => asStr bytes := by
  cases enc with
  | utf8 => rfl
  | utf16le => exact decodeTextBytes_encode (validUtf8_asStr bytes) .utf16le nofun
  | utf16be => exact decodeTextBytes_encode (validUtf8_asStr bytes) .utf16be nofun

/-- A written value is read back, whatever is around it. -/
theorem nextValue_written (v : Value) (enc : TextEnc) (front rest : List UInt8)
    (fits : (writeBody v enc).length < 2 ^ 62) :
    ∃ w, Stored enc v w ∧
      nextValue (front ++ (writeBody v enc ++ rest)) front.length (serialTypeAndSize v enc).1 enc =
        .ok (w, front.length + (writeBody v enc).length) := by
  have wide : (7 : UInt64) ≠ 10 ∧ (7 : UInt64) ≠ 11 := by decide
  have large {n : Nat} (high : 12 ≤ n) (word : n < 2 ^ 64) :
      (UInt64.ofNat n).toNat = n ∧ ¬ (UInt64.ofNat n = 10 ∨ UInt64.ofNat n = 11) := by
    have value : (UInt64.ofNat n).toNat = n := by
      rw [UInt64.toNat_ofNat']
      exact Nat.mod_eq_of_lt word
    refine ⟨value, ?_⟩
    rintro (same | same)
    · have ten := congrArg UInt64.toNat same
      rw [value] at ten
      exact absurd (high.trans_eq ten) (by decide)
    · have eleven := congrArg UInt64.toNat same
      rw [value] at eleven
      exact absurd (high.trans_eq eleven) (by decide)
  cases v with
  | null => exact ⟨.null, .null, rfl⟩
  | integer i =>
    refine ⟨.integer i, .integer i, ?_⟩
    exact (if_neg (integerSerial_plain i)).trans (decodeValue_integer i enc front rest)
  | real f =>
    refine ⟨_, stored_real f enc, ?_⟩
    by_cases compact : realIsStorableAsInt f = true
    · rw [serialTypeAndSize, (compact_exact compact).1, if_neg Bool.false_ne_true, if_pos compact,
        if_pos compact, writeBody, if_pos compact]
      exact (if_neg (integerSerial_plain _)).trans (decodeValue_integer _ enc front rest)
    · have serial : serialTypeAndSize (.real f) enc = (7, 8) := by
        rw [serialTypeAndSize, if_neg compact]
        split_ifs <;> rfl
      have bits : UInt64.ofNat (fromBeBytes (bigEndian 8 f.bits.toNat)) = f.bits := by
        rw [fromBeBytes_bigEndian, Nat.mod_eq_of_lt (show _ < 256 ^ 8 from f.bits.toNat_lt),
          UInt64.ofNat_toNat]
      rw [serial, writeBody, if_neg compact, if_neg compact]
      have taken := takeBody_written front rest (bigEndian_length 8 f.bits.toNat)
        "truncated float body" fun bytes => .real ⟨UInt64.ofNat (fromBeBytes bytes)⟩
      rw [bits] at taken
      exact taken
  | text bytes =>
    refine ⟨_, .text bytes, ?_⟩
    have body : writeBody (.text bytes) enc = textBody enc bytes := rfl
    rw [body] at fits ⊢
    obtain ⟨value, plain⟩ := @large (13 + 2 * (textBody enc bytes).length) (by omega) (by omega)
    rw [textSerial, nextValue, if_neg plain,
      decodeValue_long enc (k := 2 * (textBody enc bytes).length + 1) (value.trans (by omega)),
      if_neg (by omega), takeBody_written front rest (by omega), text_shown]
  | blob bytes =>
    refine ⟨_, .blob bytes, ?_⟩
    have body : writeBody (.blob bytes) enc = bytes := rfl
    rw [body] at fits ⊢
    obtain ⟨value, plain⟩ := @large (12 + 2 * bytes.length) (by omega) (by omega)
    rw [serialTypeAndSize, nextValue, if_neg plain,
      decodeValue_long enc (k := 2 * bytes.length) (value.trans (by omega)),
      if_pos (by omega), takeBody_written front rest (by omega)]

theorem writeVarint_pos (v : Int64) : 0 < (writeVarint v).length :=
  readVarint_used (readVarint_writeVarint v [] [])

theorem readSerials_written (values : List Value) (enc : TextEnc) (front rest : List UInt8) :
    readSerials (front ++ (headerTypes values enc ++ rest))
        (front.length + (headerTypes values enc).length) front.length =
      .ok (values.map fun v => (serialTypeAndSize v enc).1,
        front.length + (headerTypes values enc).length) := by
  induction values generalizing front with
  | nil =>
    rw [readSerials, if_neg (by simp [headerTypes])]
    rfl
  | cons v values ih =>
    have split : headerTypes (v :: values) enc =
        writeVarint (serialTypeAndSize v enc).1.toInt64 ++ headerTypes values enc :=
      List.flatMap_cons
    have positive := writeVarint_pos (serialTypeAndSize v enc).1.toInt64
    have later := ih (front ++ writeVarint (serialTypeAndSize v enc).1.toInt64)
    rw [List.length_append, List.append_assoc, Nat.add_assoc] at later
    rw [split, List.length_append, List.append_assoc, readSerials, if_pos (by omega)]
    split
    · rename_i missing
      rw [readVarint_writeVarint] at missing
      cases missing
    · rename_i st used read
      rw [readVarint_writeVarint] at read
      cases read
      rw [later]
      rfl

theorem readHeader_written (values : List Value) (enc : TextEnc)
    (fits : (encodeRecordEnc values enc).length < 2 ^ 62) :
    ∃ header, encodeRecordEnc values enc =
        header ++ values.flatMap (fun v => writeBody v enc) ∧
      header = writeVarint (Int64.ofNat header.length) ++ headerTypes values enc ∧
      readHeader (encodeRecordEnc values enc) =
        .ok (values.map fun v => (serialTypeAndSize v enc).1, header.length) := by
  have parts : encodeRecordEnc values enc =
      (writeVarint (Int64.ofNat (sizePrefix (headerTypes values enc).length 1 10 +
        (headerTypes values enc).length)) ++ headerTypes values enc) ++
        values.flatMap fun v => writeBody v enc := rfl
  have within : (headerTypes values enc).length < 2 ^ 62 := by
    rw [parts, List.length_append, List.length_append] at fits
    omega
  obtain ⟨fixed, few⟩ := @sizePrefix_fixed (headerTypes values enc).length 1 10 (varintLen_pos _)
      within (by decide) (by decide)
  generalize sizePrefix (headerTypes values enc).length 1 10 = size at parts fixed few
  have taken := writeVarint_length (n := size + (headerTypes values enc).length) (by omega)
  rw [fixed] at taken
  generalize bodies : values.flatMap (fun v => writeBody v enc) = rest at parts ⊢
  have word : (Int64.ofNat (size + (headerTypes values enc).length)).toUInt64.toNat =
      size + (headerTypes values enc).length := by
    rw [Int64.toUInt64_ofNat', UInt64.toNat_ofNat']
    exact Nat.mod_eq_of_lt (by omega)
  have positive := writeVarint_pos (Int64.ofNat (size + (headerTypes values enc).length))
  generalize same : Int64.ofNat (size + (headerTypes values enc).length) = total
    at parts taken word positive
  have first := readVarint_writeVarint total [] (headerTypes values enc ++ rest)
  have serials := readSerials_written values enc (writeVarint total) rest
  rw [List.nil_append, List.length_nil, ← List.append_assoc, ← parts, taken] at first
  rw [← List.append_assoc, ← parts, taken] at serials
  have whole : (writeVarint total ++ headerTypes values enc).length =
      size + (headerTypes values enc).length := by rw [List.length_append, taken]
  refine ⟨writeVarint total ++ headerTypes values enc, parts, ?_, ?_⟩
  · rw [whole, same]
  · have long : size + (headerTypes values enc).length ≤ (encodeRecordEnc values enc).length := by
      rw [parts, List.length_append, whole]
      omega
    rw [readHeader, first, whole]
    dsimp only
    rw [word, if_neg (by omega)]
    refine (congrArg (· >>= _) serials).trans ?_
    exact if_neg (not_not_intro rfl)

theorem decodeAll_written (values : List Value) (enc : TextEnc) (front : List UInt8)
    (fits : (values.flatMap fun v => writeBody v enc).length < 2 ^ 62) :
    ∃ out, List.Forall₂ (Stored enc) values out ∧
      decodeAll (front ++ values.flatMap fun v => writeBody v enc) enc front.length
        (values.map fun v => (serialTypeAndSize v enc).1) = .ok out := by
  induction values generalizing front with
  | nil => exact ⟨[], .nil, rfl⟩
  | cons v values ih =>
    rw [List.flatMap_cons, List.length_append] at fits
    obtain ⟨w, stored, read⟩ := nextValue_written v enc front
      (values.flatMap fun v => writeBody v enc) (by omega)
    obtain ⟨out, others, later⟩ := ih (front ++ writeBody v enc) (by omega)
    refine ⟨w :: out, .cons stored others, ?_⟩
    rw [List.length_append, List.append_assoc] at later
    rw [List.flatMap_cons, List.map_cons, decodeAll, read]
    refine (congrArg (· >>= fun values => Except.ok (w :: values)) later).trans ?_
    rfl

/-- The loop that stops at a number of columns. -/
theorem decodeColumns_eq {payload : List UInt8} {enc : TextEnc} {body : Nat}
    {serials : List UInt64} {out : List Value}
    (read : decodeAll payload enc body serials = .ok out) (nCols : Nat) (values : List Value) :
    decodeColumns payload nCols enc body values serials =
      .ok (values ++ if values.length < nCols then out.take (nCols - values.length) else out) := by
  induction serials generalizing body values out with
  | nil =>
    cases read
    simp [decodeColumns]
  | cons st serials ih =>
    rw [decodeAll] at read
    rw [decodeColumns]
    cases here : nextValue payload body st enc with
    | error message =>
      rw [here] at read
      cases read
    | ok found =>
      obtain ⟨value, next⟩ := found
      rw [here] at read
      change (decodeAll payload enc next serials >>= fun values => Except.ok (value :: values)) =
        .ok out at read
      cases rest : decodeAll payload enc next serials with
      | error message =>
        rw [rest] at read
        cases read
      | ok tail =>
        rw [rest] at read
        cases read
        change (if (values ++ [value]).length = nCols then Except.ok (values ++ [value])
          else decodeColumns payload nCols enc next (values ++ [value]) serials) = _
        have count : (values ++ [value]).length = values.length + 1 := by simp
        rw [ih rest, count]
        by_cases last : values.length + 1 = nCols
        · rw [if_pos last, if_pos (by omega), ← last, Nat.add_sub_cancel_left]
          rfl
        · rw [if_neg last, List.append_assoc]
          by_cases more : values.length + 1 < nCols
          · rw [if_pos more, if_pos (by omega),
              show nCols - values.length = nCols - (values.length + 1) + 1 by omega,
              List.take_succ_cons]
            rfl
          · rw [if_neg more, if_neg (by omega)]
            rfl

/-- A row whose record stays below a bound that keeps serial types in a `u64`; no allocation comes
near it. -/
abbrev SqliteRow (enc : TextEnc) :=
  { values : List Value // (encodeRecordEnc values enc).length < 2 ^ 62 }

/-- The record of a row reads back as its values, as they are stored, behind a header that counts
itself. -/
theorem record_read (enc : TextEnc) (row : SqliteRow enc) :
    ∃ header out, encodeRecordEnc row.1 enc =
        header ++ row.1.flatMap (fun v => writeBody v enc) ∧
      header = writeVarint (Int64.ofNat header.length) ++ headerTypes row.1 enc ∧
      List.Forall₂ (Stored enc) row.1 out ∧
      decodeRecordAllEnc (encodeRecordEnc row.1 enc) enc = .ok out ∧
      ∀ valueSize n, decodeRecordEnc valueSize (encodeRecordEnc row.1 enc) n enc =
        if 2 ^ 63 ≤ n * valueSize then .error .overflow
        else .ok ((if 0 < n then out.take n else out) ++
          List.replicate (n - out.length) .null) := by
  obtain ⟨values, fits⟩ := row
  obtain ⟨header, parts, counted, read⟩ := readHeader_written values enc fits
  have bodies : (values.flatMap fun v => writeBody v enc).length < 2 ^ 62 := by
    rw [parts, List.length_append] at fits
    omega
  obtain ⟨out, stored, all⟩ := decodeAll_written values enc header bodies
  refine ⟨header, out, parts, counted, stored, ?_, fun valueSize n => ?_⟩
  · rw [decodeRecordAllEnc, read]
    exact parts ▸ all
  · have columns := decodeColumns_eq (parts ▸ all) n []
    rw [decodeRecordEnc, read]
    dsimp only
    rw [columns]
    by_cases some_ : 0 < n
    · simp only [List.nil_append, List.length_nil, some_, if_true, Nat.sub_zero, List.length_take]
      rw [show n - min n out.length = n - out.length by omega]
    · simp only [List.nil_append, List.length_nil, some_, if_false]

/-- Every record round trip holds, but for the columns of a reader that asks for none of them. -/
theorem record_round_trip_iff (enc : TextEnc) (row : SqliteRow enc) (valueSize n : Nat) :
    ((∃ header out, encodeRecordEnc row.1 enc =
          header ++ row.1.flatMap (fun v => writeBody v enc) ∧
        header = writeVarint (Int64.ofNat header.length) ++ headerTypes row.1 enc ∧
        List.Forall₂ (Stored enc) row.1 out ∧
        decodeRecordAllEnc (encodeRecordEnc row.1 enc) enc = .ok out ∧
        decodeRecordEnc valueSize (encodeRecordEnc row.1 enc) n enc =
          .ok (out.take n ++ List.replicate (n - out.length) .null)) ∧
      ∀ (v : Int64) (front rest : List UInt8),
        readVarint (front ++ (writeVarint v ++ rest)) front.length =
          some (v, (writeVarint v).length)) ↔
      (n ≠ 0 ∨ row.1 = []) ∧ n * valueSize < 2 ^ 63 := by
  obtain ⟨header, out, parts, counted, stored, all, columns⟩ := record_read enc row
  have read := columns valueSize n
  constructor
  · rintro ⟨⟨_, again, -, -, -, same, claimed⟩, -⟩
    cases all.symm.trans same
    rw [read] at claimed
    split_ifs at claimed with large some_
    · exact ⟨Or.inl (Nat.pos_iff_ne_zero.mp some_), Nat.lt_of_not_le large⟩
    · obtain rfl : n = 0 := Nat.eq_zero_of_not_pos some_
      have empty : out = [] := by simpa using claimed
      rw [empty] at stored
      exact ⟨Or.inr (List.forall₂_nil_right_iff.mp stored), Nat.lt_of_not_le large⟩
  · rintro ⟨condition, small⟩
    refine ⟨⟨header, out, parts, counted, stored, all, ?_⟩, readVarint_writeVarint⟩
    rw [read, if_neg (Nat.not_le_of_lt small)]
    rcases condition with some_ | empty
    · rw [if_pos (Nat.pos_iff_ne_zero.mpr some_)]
    · rw [empty, List.forall₂_nil_left_iff] at stored
      rw [stored]
      simp

/-- A reader that asks for no column gets them all. -/
theorem no_column_reads_all :
    ¬ ∀ (enc : TextEnc) (row : SqliteRow enc) (n : Nat) (out : List Value),
      decodeRecordAllEnc (encodeRecordEnc row.1 enc) enc = .ok out →
        decodeRecordEnc 32 (encodeRecordEnc row.1 enc) n enc =
          .ok (out.take n ++ List.replicate (n - out.length) .null) := by
  intro claimed
  have record : encodeRecordEnc [.integer 7] .utf8 = [2, 1, 7] := by decide +kernel
  have short : (encodeRecordEnc [.integer 7] .utf8).length < 2 ^ 62 := by
    rw [record]
    decide
  obtain ⟨header, out, -, -, stored, all, columns⟩ := record_read .utf8 ⟨[.integer 7], short⟩
  have empty := (claimed .utf8 ⟨[.integer 7], short⟩ 0 out all).symm.trans (columns 32 0)
  simp only [Nat.zero_mul, List.take_zero, Nat.zero_sub, List.replicate_zero, List.append_nil,
    lt_irrefl, if_false] at empty
  rw [if_neg (by decide)] at empty
  have missing : out = [] := (Except.ok.inj empty).symm
  rw [missing] at stored
  exact absurd (List.forall₂_nil_right_iff.mp stored) (List.cons_ne_nil _ _)

end RustSql.Storage.Sqlitefmt
