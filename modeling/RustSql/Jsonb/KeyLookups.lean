import RustSql.Jsonb.EscapeLimits
import RustSql.Jsonb.TreeEdits

/-! Looking up keys with escapes: the text a key is compared by, and when that is what the
key decodes to. -/

namespace RustSql.Jsonb

open RustSql.Foundation RustSql.Types

theorem latin1_byte (c : UInt8) :
    (c < 0x80 → utf8Bytes c.toNat = [c]) ∧ (¬ c < 0x80 → (utf8Bytes c.toNat).length = 2) :=
  forall_byte (by decide +kernel) c

/-- Bytes beyond ASCII become longer. -/
theorem latin1_eq_self {b : List UInt8} : latin1 b = b ↔ ∀ c ∈ b, c < 0x80 := by
  have longer (b : List UInt8) : b.length ≤ (latin1 b).length := by
    induction b with
    | nil => exact Nat.le_refl _
    | cons c b ih =>
      obtain ⟨small, large⟩ := latin1_byte c
      have some_ : 0 < (utf8Bytes c.toNat).length := by
        by_cases ascii : c < 0x80
        · simp [small ascii]
        · simp [large ascii]
      rw [latin1, List.flatMap_cons, List.length_append, List.length_cons]
      rw [latin1] at ih
      omega
  induction b with
  | nil => exact ⟨fun _ _ inside => (List.not_mem_nil inside).elim, fun _ => rfl⟩
  | cons c b ih =>
    obtain ⟨small, large⟩ := latin1_byte c
    rw [List.forall_mem_cons]
    by_cases ascii : c < 0x80
    · have step : latin1 (c :: b) = c :: latin1 b := by
        rw [latin1, List.flatMap_cons, small ascii]
        rfl
      rw [step]
      exact ⟨fun same => ⟨ascii, ih.mp (List.cons.inj same).2⟩, fun ⟨_, all⟩ => by rw [ih.mpr all]⟩
    · refine ⟨fun same => ?_, fun both => absurd both.1 ascii⟩
      have length := congrArg List.length same
      have rest := longer b
      rw [latin1, List.flatMap_cons, List.length_append, large ascii, List.length_cons] at length
      rw [latin1] at rest
      omega

/-- Of a text with escapes only the ASCII ones show what they decode to. -/
def Plain (kind : StrKind) (bytes : List UInt8) : Prop :=
  match kind with
  | .text | .textRaw => validUtf8 bytes = true
  | .textJ | .text5 => ∀ c ∈ bytes, c < 0x80

/-- The characters a string of these bytes shows. -/
def shown (kind : StrKind) (bytes : List UInt8) : List UInt8 :=
  match kind with
  | .text | .textRaw => asStr bytes
  | .textJ | .text5 => latin1 bytes

section Shown

variable {kind : StrKind} {s bytes : List UInt8}

theorem stringValue_shown (decoded : stringBytes kind s = .ok bytes) :
    stringValue kind s = .ok (shown kind bytes) := by
  cases kind with
  | text | textRaw =>
    cases decoded
    rfl
  | textJ | text5 =>
    rw [stringValue, decoded]
    rfl

theorem shown_eq_iff : shown kind bytes = bytes ↔ Plain kind bytes := by
  cases kind with
  | text | textRaw => exact asStr_eq_self
  | textJ | text5 => exact latin1_eq_self

end Shown

/-- Two keys find the same first item for every wanted one, exactly when an item whose keys differ
stands behind items with both keys equal to either of its own. -/
theorem findIdx?_agree_iff {α κ : Type} [DecidableEq κ] {f g : α → κ} {wanted : κ → Prop} {xs : List α} :
    (∀ k, wanted k → xs.findIdx? (fun a => decide (f a = k)) = xs.findIdx? fun a => decide (g a = k)) ↔
      ∀ before a after, xs = before ++ a :: after → f a ≠ g a → ∀ k, wanted k → k = f a ∨ k = g a →
        ∃ b ∈ before, f b = k ∧ g b = k := by
  constructor
  · rintro agree before a after rfl differ k want own
    have agree := agree k want
    have here : (before ++ a :: after)[before.length]? = some a := by simp
    obtain ⟨i, found⟩ : ∃ i, (before ++ a :: after).findIdx? (fun a => decide (f a = k)) = some i := by
      rw [← Option.isSome_iff_exists]
      rcases own with rfl | rfl
      · simp
      · rw [agree]
        simp
    have found' := agree ▸ found
    obtain ⟨inside, is, first⟩ := List.findIdx?_eq_some_iff_getElem.mp found
    obtain ⟨_, is', first'⟩ := List.findIdx?_eq_some_iff_getElem.mp found'
    rw [decide_eq_true_eq] at is is'
    have early : i < before.length := by
      rcases Nat.lt_trichotomy i before.length with early | rfl | late
      · exact early
      · rw [List.getElem?_eq_getElem inside, Option.some.injEq] at here
        rw [here] at is is'
        exact absurd (is.trans is'.symm) differ
      · have there := first before.length late
        have there' := first' before.length late
        simp only [List.getElem_append_right (Nat.le_refl _), Nat.sub_self, List.getElem_cons_zero,
          decide_eq_true_eq] at there there'
        rcases own with rfl | rfl
        · exact absurd rfl there
        · exact absurd rfl there'
    refine ⟨before[i], List.getElem_mem early, ?_, ?_⟩
    · rwa [List.getElem_append_left early] at is
    · rwa [List.getElem_append_left early] at is'
  · intro hidden k want
    -- an item with one key and not the other comes behind one with both
    have behind {i : Nat} (inside : i < xs.length) (differ : f xs[i] ≠ g xs[i])
        (own : k = f xs[i] ∨ k = g xs[i]) : ∃ j, ∃ early : j < i, f xs[j] = k ∧ g xs[j] = k := by
      have split : xs = xs.take i ++ xs[i] :: xs.drop (i + 1) := by
        rw [List.getElem_cons_drop, List.take_append_drop]
      obtain ⟨b, member, both⟩ := hidden _ _ _ split differ k want own
      obtain ⟨j, there, rfl⟩ := List.getElem_of_mem member
      rw [List.length_take] at there
      rw [List.getElem_take] at both
      exact ⟨j, by omega, both⟩
    cases found : xs.findIdx? fun a => decide (f a = k) with
    | none =>
      rw [List.findIdx?_eq_none_iff] at found
      refine (List.findIdx?_eq_none_iff.mpr fun a member => ?_).symm
      obtain ⟨i, inside, rfl⟩ := List.getElem_of_mem member
      refine decide_eq_false fun own => ?_
      have other := of_decide_eq_false (found _ member)
      obtain ⟨j, early, both, _⟩ := behind inside (fun same => other (same.trans own)) (.inr own.symm)
      exact of_decide_eq_false (found _ (List.getElem_mem (early.trans inside))) both
    | some i =>
      obtain ⟨inside, is, first⟩ := List.findIdx?_eq_some_iff_getElem.mp found
      rw [decide_eq_true_eq] at is
      refine (List.findIdx?_eq_some_iff_getElem.mpr ⟨inside, ?_, fun j early => ?_⟩).symm
      · refine decide_eq_true (by_contra fun other => ?_)
        obtain ⟨j, early, both, _⟩ := behind inside (fun same => other (same.symm.trans is)) (.inl is.symm)
        exact first j early (decide_eq_true both)
      · intro own
        rw [decide_eq_true_eq] at own
        have other : f xs[j] ≠ k := fun both => first j early (decide_eq_true both)
        obtain ⟨i', early', both, _⟩ := behind (early.trans inside) (fun same => other (same.trans own))
          (.inr own.symm)
        exact first i' (early'.trans early) (decide_eq_true both)

/-- The text a member's key decodes to. -/
def decodedKey (member : Jb × Jb) : Option (List UInt8) :=
  match member.1 with
  | .string kind s => (stringBytes kind s).toOption
  | _ => none

/-- The first member whose key decodes to `k`. -/
def memberKeyed (k : List UInt8) (pairs : List (Jb × Jb)) : Option Nat :=
  pairs.findIdx? fun member => decide (decodedKey member = some k)

/-- What a path selects below that member. -/
def belowMember (k : List UInt8) (pairs : List (Jb × Jb)) (segs : List PathSeg) : Checked Unit (Option Jb) :=
  match (memberKeyed k pairs).bind (pairs[·]?) with
  | some (_, v) => jbResolve v segs
  | none => .ok none

/-- The object with that member set, or with a member more. -/
def setMember (new : Jb) (create insertOnly : Bool) (k : List UInt8) (pairs : List (Jb × Jb))
    (segs : List PathSeg) : Checked Unit Jb :=
  match memberKeyed k pairs with
  | some pos =>
    match pairs[pos]? with
    | some (key, child) => do
      let child ← jbSetAt new create insertOnly child segs
      .ok (.object (pairs.set pos (key, child)))
    | none => .error .slice
  | none =>
    match if create then createSub new segs else none with
    | some child => .ok (.object (pairs ++ [(.string .textRaw k, child)]))
    | none => .ok (.object pairs)

/-- The span located for a path holds this. -/
def SpanHolds (b : List UInt8) (path : List PathSeg) : Checked Unit (Option Jb) → Prop
  | .error fault => jsonbLocate b path = .error fault
  | .ok none => jsonbLocate b path = .ok none
  | .ok (some found) => ∃ start stop, jsonbLocate b path = .ok (some (start, stop)) ∧
      jbFromBytes (slice b start stop) = some found

/-- Wherever the object stands in a document, the three lookups go on at the first member whose key
decodes to the wanted text. -/
structure Finds (pairs : List (Jb × Jb)) : Prop where
  resolve : ∀ k, validUtf8 k = true → ∀ doc pre segs, jbResolve doc pre = .ok (some (.object pairs)) →
    jbResolve doc (pre ++ .key k :: segs) = belowMember k pairs segs
  set : ∀ k, validUtf8 k = true → ∀ doc pre segs new create insertOnly,
    jbResolve doc pre = .ok (some (.object pairs)) →
      jbSetAt new create insertOnly doc (pre ++ .key k :: segs) =
        setMember new create insertOnly k pairs segs >>= fun edited => jbSetAt edited false false doc pre
  locate : ∀ k, validUtf8 k = true → ∀ b doc pre segs, jbFromBytes b = some doc →
    jbResolve doc pre = .ok (some (.object pairs)) →
      SpanHolds b (pre ++ .key k :: segs) (belowMember k pairs segs)

/-- The key shows what it decodes to. -/
def PlainKey (k : List UInt8) (member : Jb × Jb) : Prop :=
  ∃ kind s, member.1 = .string kind s ∧ stringBytes kind s = .ok k ∧ Plain kind k

/-- A key that is not plain stands behind plain keys of the text it decodes to and of the text it
shows. -/
def Lookable (pairs : List (Jb × Jb)) : Prop :=
  ∀ before kind s v after bytes, pairs = before ++ (.string kind s, v) :: after →
    stringBytes kind s = .ok bytes → ¬ Plain kind bytes →
      ∀ k, validUtf8 k = true → k = bytes ∨ k = shown kind bytes → ∃ member ∈ before, PlainKey k member

section Lookups

variable {pairs : List (Jb × Jb)}

/-- The text a member's key shows. -/
def shownKey (member : Jb × Jb) : Option (List UInt8) :=
  match member.1 with
  | .string kind s => (Jsonb.stringValue kind s).toOption
  | _ => none

theorem decodedKey_string {kind : StrKind} {s bytes : List UInt8} {v : Jb}
    (decoded : stringBytes kind s = .ok bytes) : decodedKey (.string kind s, v) = some bytes := by
  simp only [decodedKey, decoded]
  rfl

theorem shownKey_string {kind : StrKind} {s bytes : List UInt8} {v : Jb}
    (decoded : stringBytes kind s = .ok bytes) :
    shownKey (.string kind s, v) = some (shown kind bytes) := by
  simp only [shownKey, stringValue_shown decoded]
  rfl

theorem decodedKey_isSome {member : Jb × Jb} (decodes : (decodedKey member).isSome) :
    ∃ kind s bytes, member.1 = .string kind s ∧ stringBytes kind s = .ok bytes ∧
      decodedKey member = some bytes ∧ shownKey member = some (shown kind bytes) := by
  obtain ⟨key, v⟩ := member
  cases key with
  | string kind s =>
    cases decoded : stringBytes kind s with
    | error fault =>
      simp only [decodedKey, decoded] at decodes
      cases decodes
    | ok bytes => exact ⟨kind, s, bytes, rfl, decoded, decodedKey_string decoded, shownKey_string decoded⟩
  | null | truth | number | array | object => cases decodes

/-- The code compares what the keys show. -/
theorem findMember_shown (decodes : ∀ member ∈ pairs, (decodedKey member).isSome) (k : List UInt8) :
    findMember k pairs = .ok (pairs.findIdx? fun member => decide (shownKey member = some k)) := by
  induction pairs with
  | nil => rfl
  | cons member rest ih =>
    obtain ⟨key, v⟩ := member
    obtain ⟨kind, s, bytes, rfl, decoded, _, shows⟩ := decodedKey_isSome (decodes _ List.mem_cons_self)
    rw [findMember, Jb.stringValue, stringValue_shown decoded, List.findIdx?_cons, shows,
      ih fun other member => decodes other (List.mem_cons_of_mem _ member)]
    simp only [Except.map, Checked.ok_bind, Option.some.injEq, decide_eq_true_eq]
    split <;> rfl

/-- A path goes on where its front has led. -/
theorem jbResolve_append {doc t : Jb} {pre : List PathSeg} (selected : jbResolve doc pre = .ok (some t))
    (segs : List PathSeg) : jbResolve doc (pre ++ segs) = jbResolve t segs := by
  induction pre generalizing doc with
  | nil =>
    cases selected
    rfl
  | cons seg pre ih =>
    unfold jbResolve at selected
    split at selected
    · obtain ⟨found, looked, selected⟩ := Checked.bind_ok_iff.mp selected
      split at selected
      · next member => simp only [List.cons_append, jbResolve, looked, Checked.ok_bind, member, ih selected]
      · cases selected
    · dsimp only at selected
      split at selected
      · cases selected
      · next inside =>
        split at selected
        · next there => simp only [List.cons_append, jbResolve, if_neg inside, there, ih selected]
        · cases selected
    · cases selected

/-- To set below a path is to set what its front selects to the edited tree. -/
theorem jbSetAt_append {doc t : Jb} {pre : List PathSeg} (selected : jbResolve doc pre = .ok (some t))
    (new : Jb) (create insertOnly : Bool) (segs : List PathSeg) :
    jbSetAt new create insertOnly doc (pre ++ segs) =
      jbSetAt new create insertOnly t segs >>= fun edited => jbSetAt edited false false doc pre := by
  induction pre generalizing doc with
  | nil =>
    cases selected
    exact (bind_pure _).symm
  | cons seg pre ih =>
    unfold jbResolve at selected
    split at selected
    · obtain ⟨found, looked, selected⟩ := Checked.bind_ok_iff.mp selected
      split at selected
      · next member =>
        obtain ⟨pos, rfl, there⟩ := Option.bind_eq_some_iff.mp member
        simp only [List.cons_append, jbSetAt, looked, Checked.ok_bind, there, ih selected, bind_assoc]
      · cases selected
    · next i items =>
      dsimp only at selected
      split at selected
      · cases selected
      · next inside =>
        split at selected
        · next there =>
          have slot : 0 ≤ PathSeg.slot items.length (.index i) ∧
              PathSeg.slot items.length (.index i) < items.length := ⟨by omega, by omega⟩
          simp only [List.cons_append, jbSetAt, there, ih selected, bind_assoc, if_pos slot]
        · cases selected
    · cases selected

/-- The list with the member at a position set. -/
def placed (new : Jb) (pairs : List (Jb × Jb)) (found : Option Nat) : List (Jb × Jb) :=
  match found.bind fun pos => (pairs[pos]?).map fun member => (pos, member.1) with
  | some (pos, key) => pairs.set pos (key, new)
  | none => pairs

/-- A new value tells where it was placed. -/
theorem placed_iff {new : Jb} (fresh : ∀ member ∈ pairs, member.2 ≠ new) {found : Option Nat}
    (inside : ∀ pos ∈ found, pos < pairs.length) (i : Nat) :
    (∃ key, (placed new pairs found)[i]? = some (key, new)) ↔ found = some i := by
  have old (key : Jb) : pairs[i]? ≠ some (key, new) := fun there =>
    fresh _ (List.mem_of_getElem? there) rfl
  cases found with
  | none => simpa [placed] using old
  | some pos =>
    have bound := inside pos rfl
    simp only [placed, Option.bind_some, List.getElem?_eq_getElem bound, Option.map_some,
      List.getElem?_set, bound, if_true, Option.some.injEq]
    by_cases same : pos = i
    · simp [same]
    · simpa [same] using old

theorem findIdx?_inside {α : Type} {p : α → Bool} {xs : List α} : ∀ pos ∈ xs.findIdx? p, pos < xs.length :=
  fun _ found => (List.findIdx?_eq_some_iff_getElem.mp found).1

theorem jbSetAt_placed {k : List UInt8} {found : Option Nat} (looked : findMember k pairs = .ok found)
    (inside : ∀ pos ∈ found, pos < pairs.length) (new : Jb) :
    jbSetAt new false false (.object pairs) [.key k] = .ok (.object (placed new pairs found)) := by
  rw [jbSetAt, looked, Checked.ok_bind]
  cases found with
  | none => rfl
  | some pos => simp [placed, List.getElem?_eq_getElem (inside pos rfl), jbSetAt, Checked.ok_bind]

theorem setMember_placed (k : List UInt8) (new : Jb) :
    setMember new false false k pairs [] = .ok (.object (placed new pairs (memberKeyed k pairs))) := by
  have inside : ∀ pos ∈ memberKeyed k pairs, pos < pairs.length := findIdx?_inside
  rw [setMember]
  cases found : memberKeyed k pairs with
  | none => rfl
  | some pos =>
    simp [placed, List.getElem?_eq_getElem (inside pos found), jbSetAt, Checked.ok_bind]

/-- The lookups find what they should when the code's first member is the wanted one. -/
theorem finds_iff_agree (decodes : ∀ member ∈ pairs, (decodedKey member).isSome) :
    Finds pairs ↔ ∀ k, validUtf8 k = true →
      memberKeyed k pairs = pairs.findIdx? fun member => decide (shownKey member = some k) := by
  constructor
  · intro finds k valid
    have fresh : ∀ member ∈ pairs, member.2 ≠ .array (pairs.map Prod.snd) := by
      intro member there same
      have smaller := List.sizeOf_lt_of_mem (List.mem_map_of_mem (f := Prod.snd) there)
      rw [same] at smaller
      simp only [Jb.array.sizeOf_spec] at smaller
      omega
    have set := finds.set k valid (.object pairs) [] [] (.array (pairs.map Prod.snd)) false false rfl
    rw [List.nil_append, jbSetAt_placed (findMember_shown decodes k) findIdx?_inside, setMember_placed,
      Checked.ok_bind] at set
    have same := Jb.object.inj (Except.ok.inj set)
    refine Option.ext fun i => ?_
    have one := @placed_iff pairs _ fresh (memberKeyed k pairs) findIdx?_inside i
    have two := @placed_iff pairs _ fresh (pairs.findIdx? fun member => decide (shownKey member = some k))
      findIdx?_inside i
    rw [← one, ← two, same]
  · intro agree
    have looked (k : List UInt8) (valid : validUtf8 k = true) :
        findMember k pairs = .ok (memberKeyed k pairs) := by rw [findMember_shown decodes, agree k valid]
    have resolve : ∀ k, validUtf8 k = true → ∀ doc pre segs,
        jbResolve doc pre = .ok (some (.object pairs)) →
          jbResolve doc (pre ++ .key k :: segs) = belowMember k pairs segs := by
      intro k valid doc pre segs selected
      rw [jbResolve_append selected, jbResolve, looked k valid]
      rfl
    refine ⟨resolve, fun k valid doc pre segs new create insertOnly selected => ?_,
      fun k valid b doc pre segs read selected => ?_⟩
    · have step : jbSetAt new create insertOnly (.object pairs) (.key k :: segs) =
          setMember new create insertOnly k pairs segs := by
        simp only [jbSetAt, looked k valid, Checked.ok_bind]
        rfl
      rw [jbSetAt_append selected, step]
    · have located := locate_agrees read (pre ++ .key k :: segs)
      rw [LocateAgrees, resolve k valid doc pre segs selected] at located
      exact located

theorem finds_iff (decodes : ∀ member ∈ pairs, (decodedKey member).isSome) :
    Finds pairs ↔ Lookable pairs := by
  rw [finds_iff_agree decodes]
  have agree := @findIdx?_agree_iff _ _ _ decodedKey shownKey
    (fun k => ∃ text, k = some text ∧ validUtf8 text = true) pairs
  constructor
  · rintro same before kind s v after bytes rfl decoded unplain k valid own
    have key := @decodedKey_string _ _ _ v decoded
    have shows := @shownKey_string _ _ _ v decoded
    obtain ⟨other, member, is, is'⟩ := agree.mp (by
      rintro _ ⟨text, rfl, valid⟩
      exact same text valid) before _ after rfl (by
        rw [key, shows, ne_eq, Option.some.injEq, eq_comm, shown_eq_iff]
        exact unplain) (some k) ⟨k, rfl, valid⟩ (by
        rw [key, shows, Option.some.injEq, Option.some.injEq]
        exact own)
    obtain ⟨kind', s', bytes', named, decoded', key', shows'⟩ :=
      decodedKey_isSome (decodes other (List.mem_append_left _ member))
    obtain rfl := Option.some.inj (key'.symm.trans is)
    exact ⟨other, member, kind', s', named, decoded',
      shown_eq_iff.mp (Option.some.inj (shows'.symm.trans is'))⟩
  · intro lookable k valid
    refine agree.mpr ?_ (some k) ⟨k, rfl, valid⟩
    rintro before ⟨key, v⟩ after rfl differ _ ⟨text, rfl, valid⟩ own
    obtain ⟨kind, s, bytes, rfl, decoded, key, shows⟩ := decodedKey_isSome
      (decodes (key, v) (List.mem_append_right _ List.mem_cons_self))
    rw [key, shows, ne_eq, Option.some.injEq, eq_comm, shown_eq_iff] at differ
    rw [key, shows, Option.some.injEq, Option.some.injEq] at own
    obtain ⟨other, member, kind', s', named, decoded', plain⟩ :=
      lookable before kind s v after bytes rfl decoded differ text valid own
    refine ⟨other, member, ?_, ?_⟩
    · rw [decodedKey, named]
      simp only [decoded']
      rfl
    · rw [shownKey, named]
      simp only [stringValue_shown decoded', shown_eq_iff.mpr plain]
      rfl

end Lookups

/-- A text the scanners accept is spelled in pieces, and the decoder gives what they denote exactly
when their surrogates are paired; no word of any text overflows exactly when it comes to no escape
that does; the members of an object are found by what their keys decode to exactly when keys that
are not plain stand behind plain ones; what is written with escapes decodes to itself. -/
theorem escapes_decode_iff (strict json5 : Bool) (quote : UInt8) (p q : JParser) (kind : StrKind)
    (text s bytes : List UInt8) (ps : List Piece) (pairs : List (Jb × Jb)) :
    (scanString strict quote p = .ok (kind, text, q) ∨ scanIdentKey p = .ok (kind, text, q) →
      ∃ delimiter pieces, Spelled false delimiter pieces ∧ text = piecesText pieces ∧
        kind = stringKind (pieces.any Piece.escaped) (pieces.any Piece.json5)) ∧
    (Spelled false quote ps → (ps.any Piece.json5 = true → json5 = true) →
      (decodeEscapes json5 (piecesText ps) = .ok (contentBytes ps) ↔ Paired ps = true)) ∧
    (Checked.Safe (decodeEscapes json5 text) ↔ ¬ Overflows json5 text) ∧
    (stringBytes kind s = .ok bytes → (stringValue kind s = .ok bytes ↔ Plain kind bytes)) ∧
    ((∀ member ∈ pairs, (decodedKey member).isSome) → (Finds pairs ↔ Lookable pairs)) ∧
    decodeEscapes json5 (writeEscapedString s) = .ok s := by
  refine ⟨fun scanned => ?_, fun spelled flag => ?_, decodeEscapes_safe_iff, fun decoded => ?_,
    finds_iff, decodeEscapes_writeEscapedString json5 s⟩
  · rcases scanned with scanned | scanned
    · obtain ⟨pieces, spelled, is, same, _⟩ := scanString_took scanned
      exact ⟨quote, pieces, spelled.lenient, same, is⟩
    · obtain ⟨⟨delimiter, _, pieces, spelled, is, same⟩, _⟩ := scanIdentKey_took scanned
      exact ⟨delimiter, pieces, spelled, same, is⟩
  · rw [decodeEscapes_pieces spelled flag]
    exact decodePieces_eq_iff spelled
  · rw [stringValue_shown decoded, Except.ok.injEq]
    exact shown_eq_iff

/-- A low surrogate alone leaves its digits, a high one before an escape of another
character overflows, and a key with an escaped letter beyond ASCII is not found. -/
theorem escapes_decode_low :
    (decodeEscapes false (ascii "\\uDC00") = .ok (replacement ++ ascii "DC00") ∧
      contentBytes [.unicode (ascii "DC00")] = replacement ∧
      piecesText [.unicode (ascii "DC00")] = ascii "\\uDC00") ∧
    ¬ Checked.Safe (decodeEscapes false (ascii "\\uD800\\u0041")) ∧
    (stringBytes .textJ (ascii "\\u00e9") = .ok [0xC3, 0xA9] ∧
      jbResolve (.object [(.string .textJ (ascii "\\u00e9"), .null)]) [.key [0xC3, 0xA9]] = .ok none) := by
  have fault : decodeEscapes false (ascii "\\uD800\\u0041") = .error .overflow := rfl
  refine ⟨⟨rfl, rfl, rfl⟩, ?_, rfl, rfl⟩
  rw [fault]
  exact Checked.not_safe_overflow

end RustSql.Jsonb
