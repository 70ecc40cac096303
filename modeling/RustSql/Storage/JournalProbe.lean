import RustSql.Storage.RollbackJournal

/-! What the replay of a rollback journal reads, and when the probe for a hot journal agrees
with it. -/

namespace RustSql.Storage.Sqlitefmt.Rj

open RustSql.Foundation

/-- A whole record whose checksum is right. -/
def Intact (bytes : List UInt8) (hdr : JournalHeader) (off : Nat) : Prop :=
  off + hdr.recLen ≤ bytes.length ∧
    UInt32.ofNat (wordAt bytes (off + 4 + hdr.pageSize)) =
      pageChecksum ((bytes.drop (off + 4)).take hdr.pageSize) hdr.nonce

/-- A record that a replay writes back. -/
def Restorable (bytes : List UInt8) (hdr : JournalHeader) (off : Nat) : Prop :=
  Intact bytes hdr off ∧ wordAt bytes off ≠ 0 ∧ wordAt bytes off ≤ maxPages

instance (bytes : List UInt8) (hdr : JournalHeader) (off : Nat) : Decidable (Intact bytes hdr off) :=
  inferInstanceAs (Decidable (_ ∧ _))

instance (bytes : List UInt8) (hdr : JournalHeader) (off : Nat) :
    Decidable (Restorable bytes hdr off) :=
  inferInstanceAs (Decidable (_ ∧ _ ∧ _))

section Records

variable {bytes : List UInt8} {hdr : JournalHeader}

theorem recordAt_eq {pageSize off : Nat} (inside : off + (4 + pageSize + 4) ≤ bytes.length) :
    recordAt bytes pageSize off = .ok (wordAt bytes off, (bytes.drop (off + 4)).take pageSize,
      UInt32.ofNat (wordAt bytes (off + 4 + pageSize))) := by
  have number := @Checked.sliceRange_ok String _ bytes off (off + 4) (by omega) (by omega)
  have page := @Checked.sliceRange_ok String _ bytes (off + 4) (off + 4 + pageSize) (by omega)
    (by omega)
  have cksum := @Checked.sliceRange_ok String _ bytes (off + 4 + pageSize) (off + 8 + pageSize)
    (by omega) (by omega)
  rw [Nat.add_sub_cancel_left] at number page
  rw [show off + 8 + pageSize - (off + 4 + pageSize) = 4 by omega] at cksum
  rw [recordAt, number, page, cksum]
  rfl

theorem takeRecords_stop {limit off : Nat} (bad : ¬ Restorable bytes hdr off) :
    takeRecords bytes hdr (limit + 1) off = .ok ([], off, false) := by
  rw [takeRecords]
  split_ifs with short
  · rfl
  · have inside := Nat.le_of_not_lt short
    rw [recordAt_eq inside, Checked.ok_bind]
    dsimp only
    by_cases torn : UInt32.ofNat (wordAt bytes (off + 4 + hdr.pageSize)) ≠
        pageChecksum ((bytes.drop (off + 4)).take hdr.pageSize) hdr.nonce
    · rw [if_pos torn]
    · rw [if_neg torn, if_pos]
      by_contra number
      push Not at torn number
      exact bad ⟨⟨inside, torn⟩, number⟩

theorem takeRecords_next {limit off : Nat} (good : Restorable bytes hdr off) :
    takeRecords bytes hdr (limit + 1) off = (do
      let (more, stop, whole) ← takeRecords bytes hdr limit (off + hdr.recLen)
      .ok ((wordAt bytes off, (bytes.drop (off + 4)).take hdr.pageSize) :: more, stop, whole)) := by
  obtain ⟨⟨inside, same⟩, number⟩ := good
  rw [takeRecords, if_neg (Nat.not_lt_of_le inside), recordAt_eq inside, Checked.ok_bind]
  dsimp only
  rw [if_neg (not_not_intro same), if_neg (by omega)]

/-- The records of a segment, up to the first one that is torn. -/
theorem takeRecords_spec (bytes : List UInt8) (hdr : JournalHeader) (limit off : Nat) :
    ∃ more stop whole, takeRecords bytes hdr limit off = .ok (more, stop, whole) ∧
      (more ≠ [] ↔ 0 < limit ∧ Restorable bytes hdr off) ∧
      (whole = true → stop = off + limit * hdr.recLen) ∧
      (whole = true ↔ ∀ k < limit, Restorable bytes hdr (off + k * hdr.recLen)) := by
  induction limit generalizing off with
  | zero =>
    refine ⟨[], off, true, rfl, by simp, fun _ => ?_, by simp⟩
    rw [Nat.zero_mul, Nat.add_zero]
  | succ limit ih =>
    by_cases good : Restorable bytes hdr off
    · obtain ⟨more, stop, whole, taken, -, where_, all⟩ := ih (off + hdr.recLen)
      refine ⟨_, stop, whole, (takeRecords_next good).trans (by rw [taken]; rfl), ?_, fun done => ?_,
        ?_⟩
      · exact ⟨fun _ => ⟨Nat.succ_pos _, good⟩, fun _ => List.cons_ne_nil _ _⟩
      · rw [where_ done, Nat.succ_mul]
        omega
      · rw [all]
        constructor
        · intro later k inside
          rcases k with _ | k
          · rwa [Nat.zero_mul, Nat.add_zero]
          · have there := later k (Nat.lt_of_succ_lt_succ inside)
            rwa [Nat.add_assoc, Nat.add_comm hdr.recLen, ← Nat.succ_mul] at there
        · intro every k inside
          have there := every (k + 1) (Nat.succ_lt_succ inside)
          rwa [Nat.succ_mul, Nat.add_comm (k * hdr.recLen), ← Nat.add_assoc] at there
    · refine ⟨[], off, false, takeRecords_stop good, ?_, nofun, ?_⟩
      · exact ⟨fun some_ => absurd rfl some_, fun both => absurd both.2 good⟩
      · refine ⟨nofun, fun every => absurd ?_ good⟩
        have first := every 0 (Nat.succ_pos _)
        rwa [Nat.zero_mul, Nat.add_zero] at first

end Records

/-- The header that a replay finds at an offset. -/
def headerAt (bytes : List UInt8) (off : Nat) : Option JournalHeader :=
  if off + 28 ≤ bytes.length then JournalHeader.fromBytes ((bytes.drop off).take 28) else none

/-- From `start` on, a replay comes to the header at an offset: all the records before it
are written back. -/
inductive Reaches (bytes : List UInt8) : (start off : Nat) → JournalHeader → Prop
  | here {off : Nat} {hdr : JournalHeader} (header : headerAt bytes off = some hdr) :
      Reaches bytes off off hdr
  | later {start off limit : Nat} {hdr last : JournalHeader}
      (header : headerAt bytes start = some hdr)
      (count : declared bytes hdr (start + hdr.sector) = .ok limit)
      (all : ∀ k < limit, Restorable bytes hdr (start + hdr.sector + k * hdr.recLen))
      (more : Reaches bytes
        (roundUp (start + hdr.sector + limit * hdr.recLen) hdr.sector) off last) :
      Reaches bytes start off last

/-- Some segment that a replay comes to from `start` on has a first record to write back. -/
def Hot (bytes : List UInt8) (start : Nat) : Prop :=
  ∃ off hdr limit, Reaches bytes start off hdr ∧
    declared bytes hdr (off + hdr.sector) = .ok (limit + 1) ∧
    Restorable bytes hdr (off + hdr.sector)

/-- No header with a negative count that a replay comes to has its records past the end. -/
def Sized (bytes : List UInt8) (start : Nat) : Prop :=
  ∀ off hdr, Reaches bytes start off hdr → hdr.nRec < 0 → off + hdr.sector ≤ bytes.length

section Segments

variable {bytes : List UInt8} {hdr : JournalHeader} {restored more : List PageImage}
  {truncateTo start limit stop : Nat}

theorem segmentAt_none (inside : start + 28 ≤ bytes.length) (header : headerAt bytes start = none) :
    segmentAt bytes start = .ok none := by
  rw [headerAt, if_pos inside] at header
  rw [segmentAt, Checked.sliceRange_ok (Nat.le_add_right _ _) inside, Checked.ok_bind,
    Nat.add_sub_cancel_left, header]

theorem headerAt_inside (header : headerAt bytes start = some hdr) : start + 28 ≤ bytes.length := by
  by_contra short
  rw [headerAt, if_neg short] at header
  cases header

theorem segmentAt_some (header : headerAt bytes start = some hdr) :
    segmentAt bytes start = (do
      let limit ← declared bytes hdr (start + hdr.sector)
      let (more, stop, whole) ← takeRecords bytes hdr limit (start + hdr.sector)
      .ok (some (hdr, more, stop, whole))) := by
  have inside := headerAt_inside header
  rw [headerAt, if_pos inside] at header
  rw [segmentAt, Checked.sliceRange_ok (Nat.le_add_right _ _) inside, Checked.ok_bind,
    Nat.add_sub_cancel_left, header]

theorem segments_none (header : headerAt bytes start = none) :
    segments bytes restored truncateTo start = .ok (restored, truncateTo) := by
  rw [segments]
  split_ifs with inside
  · split
    next fault read => cases (segmentAt_none inside header).symm.trans read
    next read => rfl
    next read => cases (segmentAt_none inside header).symm.trans read
  · rfl

theorem segments_fault {fault : Fault String} (header : headerAt bytes start = some hdr)
    (count : declared bytes hdr (start + hdr.sector) = .error fault) :
    segments bytes restored truncateTo start = .error fault := by
  have this := segmentAt_some header
  rw [count] at this
  rw [segments, if_pos (headerAt_inside header)]
  split
  next other read =>
    cases this.symm.trans read
    rfl
  next read => cases this.symm.trans read
  next read => cases this.symm.trans read

theorem segments_some {whole : Bool} (header : headerAt bytes start = some hdr)
    (count : declared bytes hdr (start + hdr.sector) = .ok limit)
    (taken : takeRecords bytes hdr limit (start + hdr.sector) = .ok (more, stop, whole)) :
    segments bytes restored truncateTo start =
      if whole then segments bytes (restored ++ more) (hdr.initialDbPages * hdr.pageSize)
        (roundUp stop hdr.sector)
      else .ok (restored ++ more, truncateTo) := by
  have this := segmentAt_some header
  rw [count, Checked.ok_bind, taken, Checked.ok_bind] at this
  rw [segments, if_pos (headerAt_inside header)]
  split
  next other read => cases this.symm.trans read
  next read => cases this.symm.trans read
  next read =>
    cases this.symm.trans read
    rfl

theorem declared_ok (inside : hdr.nRec < 0 → start ≤ bytes.length) :
    ∃ limit, declared bytes hdr start = .ok limit := by
  rw [declared]
  split_ifs with negative short
  · exact ⟨_, rfl⟩
  · exact absurd (inside negative) short
  · exact ⟨_, rfl⟩

theorem declared_fault (negative : hdr.nRec < 0) (beyond : bytes.length < start) :
    declared bytes hdr start = .error .overflow := by
  rw [declared, if_pos negative, if_neg (Nat.not_le_of_lt beyond)]

theorem Reaches.cases_some {off : Nat} {last : JournalHeader}
    (header : headerAt bytes start = some hdr)
    (count : declared bytes hdr (start + hdr.sector) = .ok limit)
    (reaches : Reaches bytes start off last) :
    (off = start ∧ last = hdr) ∨
      (∀ k < limit, Restorable bytes hdr (start + hdr.sector + k * hdr.recLen)) ∧
        Reaches bytes (roundUp (start + hdr.sector + limit * hdr.recLen) hdr.sector) off last := by
  cases reaches with
  | here again => exact Or.inl ⟨rfl, Option.some.inj (again.symm.trans header)⟩
  | later again same all more =>
    cases again.symm.trans header
    cases same.symm.trans count
    exact Or.inr ⟨all, more⟩

theorem not_reaches_none {off : Nat} {last : JournalHeader} (header : headerAt bytes start = none) :
    ¬ Reaches bytes start off last := by
  intro reaches
  cases reaches with
  | here again => cases header.symm.trans again
  | later again => cases header.symm.trans again

end Segments

/-- A replay reads a journal without a fault exactly when it comes to no header whose records
lie past the end, and then it has pages to write back exactly when the journal is hot. -/
theorem segments_spec (bytes : List UInt8) (restored : List PageImage) (truncateTo start : Nat) :
    (Sized bytes start → ∃ more length,
      segments bytes restored truncateTo start = .ok (restored ++ more, length) ∧
        (more ≠ [] ↔ Hot bytes start)) ∧
    (¬ Sized bytes start → segments bytes restored truncateTo start = .error .overflow) := by
  induction room : bytes.length - start using Nat.strong_induction_on
    generalizing restored truncateTo start with
  | _ remaining ih =>
    cases header : headerAt bytes start with
    | none =>
      have sized : Sized bytes start := fun _ _ reaches => absurd reaches (not_reaches_none header)
      refine ⟨fun _ => ⟨[], truncateTo, ?_, ?_⟩, fun unsized => absurd sized unsized⟩
      · rw [segments_none header, List.append_nil]
      · refine ⟨fun some_ => absurd rfl some_, ?_⟩
        rintro ⟨_, _, _, reaches, -⟩
        exact absurd reaches (not_reaches_none header)
    | some hdr =>
      by_cases inside : hdr.nRec < 0 → start + hdr.sector ≤ bytes.length
      · obtain ⟨limit, count⟩ := declared_ok inside
        obtain ⟨more, stop, whole, taken, first, where_, all⟩ :=
          takeRecords_spec bytes hdr limit (start + hdr.sector)
        have step := @segments_some _ _ restored _ truncateTo _ _ _ _ header count taken
        cases whole with
        | false =>
          have only : ∀ off last, Reaches bytes start off last → off = start ∧ last = hdr := by
            intro off last reaches
            rcases reaches.cases_some header count with here | ⟨every, -⟩
            · exact here
            · exact nomatch all.mpr every
          have sized : Sized bytes start := by
            intro off last reaches negative
            obtain ⟨rfl, rfl⟩ := only off last reaches
            exact inside negative
          refine ⟨fun _ => ⟨more, truncateTo, step, first.trans ⟨?_, ?_⟩⟩,
            fun unsized => absurd sized unsized⟩
          · rintro ⟨positive, good⟩
            refine ⟨start, hdr, limit - 1, .here header, ?_, good⟩
            rw [Nat.sub_add_cancel positive]
            exact count
          · rintro ⟨off, last, n, reaches, counted, good⟩
            obtain ⟨rfl, rfl⟩ := only off last reaches
            cases count.symm.trans counted
            exact ⟨Nat.succ_pos _, good⟩
        | true =>
          have every := all.mp rfl
          have position := where_ rfl
          have legal := hdr.legalSector.1.1
          have up := le_roundUp stop (Nat.lt_of_lt_of_le (by decide) legal)
          have smaller : bytes.length - roundUp stop hdr.sector < remaining := by
            have inside := headerAt_inside header
            omega
          obtain ⟨good, bad⟩ := ih _ smaller (restored ++ more)
            (hdr.initialDbPages * hdr.pageSize) (roundUp stop hdr.sector) rfl
          rw [if_pos rfl] at step
          have sizes : Sized bytes start ↔ Sized bytes (roundUp stop hdr.sector) := by
            constructor
            · intro sized off last reaches
              exact sized off last (.later header count every (position ▸ reaches))
            · intro sized off last reaches negative
              rcases reaches.cases_some header count with ⟨rfl, rfl⟩ | ⟨-, later⟩
              · exact inside negative
              · exact sized off last (position ▸ later) negative
          refine ⟨fun sized => ?_, fun unsized => step.trans (bad (mt sizes.mpr unsized))⟩
          obtain ⟨rest, length, read, hot⟩ := good (sizes.mp sized)
          refine ⟨more ++ rest, length, ?_, ?_⟩
          · rw [step, read, List.append_assoc]
          · rw [ne_eq, List.append_eq_nil_iff, not_and_or, ← ne_eq, ← ne_eq, first, hot]
            constructor
            · rintro (⟨positive, restorable⟩ | ⟨off, last, n, reaches, found⟩)
              · refine ⟨start, hdr, limit - 1, .here header, ?_, restorable⟩
                rw [Nat.sub_add_cancel positive]
                exact count
              · exact ⟨off, last, n, .later header count every (position ▸ reaches), found⟩
            · rintro ⟨off, last, n, reaches, counted, restorable⟩
              rcases reaches.cases_some header count with ⟨rfl, rfl⟩ | ⟨-, later⟩
              · cases count.symm.trans counted
                exact Or.inl ⟨Nat.succ_pos _, restorable⟩
              · exact Or.inr ⟨off, last, n, position ▸ later, counted, restorable⟩
      · push Not at inside
        have beyond := declared_fault inside.1 inside.2
        refine ⟨fun sized => ?_, fun _ => segments_fault header beyond⟩
        exact absurd (sized start hdr (.here header) inside.1) (Nat.not_le_of_lt inside.2)

theorem hasHotJournal_spec (db : Option (List UInt8)) (bytes : List UInt8) :
    ∃ hot, hasHotJournal ⟨db, some bytes⟩ = .ok hot ∧
      (hot = true ↔
        ∃ hdr, headerAt bytes 0 = some hdr ∧ hdr.nRec ≠ 0 ∧ Intact bytes hdr 512) := by
  rw [hasHotJournal]
  dsimp only
  split_ifs with short
  · refine ⟨false, rfl, nofun, ?_⟩
    rintro ⟨hdr, -, -, whole, -⟩
    have legal := hdr.legalPage.1.1
    rw [JournalHeader.recLen] at whole
    omega
  · have inside : 0 + 28 ≤ bytes.length := by omega
    rw [Checked.sliceRange_ok (Nat.zero_le _) (by omega), Checked.ok_bind, headerAt,
      if_pos inside]
    cases header : JournalHeader.fromBytes ((bytes.drop 0).take (28 - 0)) with
    | none =>
      refine ⟨false, rfl, nofun, ?_⟩
      rintro ⟨hdr, found, -⟩
      cases found
    | some hdr =>
      dsimp only
      split_ifs with invalidated truncated
      · refine ⟨false, rfl, nofun, ?_⟩
        rintro ⟨other, same, declared, -⟩
        cases same
        exact absurd invalidated declared
      · refine ⟨false, rfl, nofun, ?_⟩
        rintro ⟨other, same, -, whole, -⟩
        cases same
        exact absurd whole (Nat.not_le_of_lt truncated)
      · have whole := Nat.le_of_not_lt truncated
        rw [JournalHeader.recLen] at whole
        rw [Checked.sliceRange_ok (by omega) (by omega), Checked.ok_bind,
          Checked.sliceRange_ok (by omega) (by omega), Checked.ok_bind,
          show 512 + 4 + hdr.pageSize - (512 + 4) = hdr.pageSize by omega,
          show 512 + 8 + hdr.pageSize - (512 + 4 + hdr.pageSize) = 4 by omega]
        refine ⟨_, rfl, ?_⟩
        rw [decide_eq_true_iff]
        constructor
        · intro same
          exact ⟨hdr, rfl, invalidated, Nat.le_of_not_lt truncated, same⟩
        · rintro ⟨other, again, -, -, same⟩
          cases again
          exact same

theorem not_hot_short {bytes : List UInt8} (short : bytes.length < 28) :
    Sized bytes 0 ∧ ¬ Hot bytes 0 := by
  have header : headerAt bytes 0 = none := if_neg (by omega)
  constructor
  · exact fun _ _ reaches => absurd reaches (not_reaches_none header)
  · rintro ⟨_, _, _, reaches, -⟩
    exact not_reaches_none header reaches

/-- A replay next to a database panics, or says whether the journal was hot. -/
theorem replayIfHot_spec (db bytes : List UInt8) :
    (Sized bytes 0 → ∃ restored length hot after,
      segments bytes [] 0 0 = .ok (restored, length) ∧ (restored ≠ [] ↔ Hot bytes 0) ∧
        replayIfHot ⟨some db, some bytes⟩ = .ok (hot, after) ∧ (hot = true ↔ Hot bytes 0)) ∧
    (¬ Sized bytes 0 → replayIfHot ⟨some db, some bytes⟩ = .error .overflow) := by
  obtain ⟨good, bad⟩ := segments_spec bytes [] 0 0
  constructor
  · intro sized
    obtain ⟨restored, length, read, hot⟩ := good sized
    rw [List.nil_append] at read
    rw [replayIfHot]
    dsimp only
    split_ifs with short
    · exact ⟨restored, length, _, _, read, hot, rfl, nofun,
        fun some_ => absurd some_ (not_hot_short short).2⟩
    · rw [read, Checked.ok_bind]
      cases restored with
      | nil => exact ⟨_, _, _, _, rfl, hot, rfl, nofun, fun some_ => absurd rfl (hot.mpr some_)⟩
      | cons image rest =>
        exact ⟨_, _, _, _, rfl, hot, rfl, fun _ => hot.mp (List.cons_ne_nil _ _), fun _ => rfl⟩
  · intro unsized
    rw [replayIfHot]
    dsimp only
    split_ifs with short
    · exact absurd (not_hot_short short).1 unsized
    · rw [bad unsized]
      rfl

/-- The probe says what a replay would do, and neither of them panics. -/
def ProbeAgrees (db bytes : List UInt8) : Prop :=
  Checked.Safe (hasHotJournal ⟨some db, some bytes⟩) ∧
    Checked.Safe (replayIfHot ⟨some db, some bytes⟩) ∧
    (hasHotJournal ⟨some db, some bytes⟩ = .ok true ↔
      ∃ restored length after, segments bytes [] 0 0 = .ok (restored, length) ∧ restored ≠ [] ∧
        replayIfHot ⟨some db, some bytes⟩ = .ok (true, after))

/-- What the bytes at 512 must be for the header at the start: the first record of its segment
where that has one, and nothing where no segment behind it has one either. -/
def ProbeFits (bytes : List UInt8) (hdr : JournalHeader) : Prop :=
  if hdr.nRec = 0 then ¬ Hot bytes hdr.sector
  else if hdr.nRec < 0 ∧ bytes.length < hdr.sector + hdr.recLen then
    (Intact bytes hdr 512 ↔ Hot bytes hdr.sector)
  else (Intact bytes hdr 512 ↔ Restorable bytes hdr hdr.sector)

theorem roundUp_self {stride : Nat} (positive : 0 < stride) : roundUp stride stride = stride := by
  have one : (stride + stride - 1) / stride = 1 := by
    rw [Nat.add_sub_assoc positive, Nat.add_div_left _ positive,
      Nat.div_eq_of_lt (Nat.sub_lt positive Nat.one_pos)]
  rw [roundUp, one, Nat.one_mul]

theorem hot_first {bytes : List UInt8} {hdr : JournalHeader} {limit : Nat}
    (header : headerAt bytes 0 = some hdr) (count : declared bytes hdr hdr.sector = .ok limit)
    (positive : 0 < limit) : Hot bytes 0 ↔ Restorable bytes hdr hdr.sector := by
  have here : declared bytes hdr (0 + hdr.sector) = .ok limit := by rwa [Nat.zero_add]
  constructor
  · rintro ⟨off, last, n, reaches, counted, good⟩
    rcases reaches.cases_some header here with ⟨rfl, rfl⟩ | ⟨every, -⟩
    · rwa [Nat.zero_add] at good
    · have first := every 0 positive
      rwa [Nat.zero_add, Nat.zero_mul, Nat.add_zero] at first
  · intro good
    refine ⟨0, hdr, limit - 1, .here header, ?_, ?_⟩
    · rw [Nat.sub_add_cancel positive]
      exact here
    · rwa [Nat.zero_add]

theorem hot_behind {bytes : List UInt8} {hdr : JournalHeader}
    (header : headerAt bytes 0 = some hdr) (count : declared bytes hdr hdr.sector = .ok 0) :
    Hot bytes 0 ↔ Hot bytes hdr.sector := by
  have here : declared bytes hdr (0 + hdr.sector) = .ok 0 := by rwa [Nat.zero_add]
  have legal := hdr.legalSector.1.1
  have next : roundUp (0 + hdr.sector + 0 * hdr.recLen) hdr.sector = hdr.sector := by
    rw [Nat.zero_add, Nat.zero_mul, Nat.add_zero, roundUp_self (by omega)]
  constructor
  · rintro ⟨off, last, n, reaches, counted, good⟩
    rcases reaches.cases_some header here with ⟨rfl, rfl⟩ | ⟨-, later⟩
    · cases here.symm.trans counted
    · exact ⟨off, last, n, next ▸ later, counted, good⟩
  · rintro ⟨off, last, n, reaches, found⟩
    exact ⟨off, last, n, .later header here (fun k inside => nomatch inside) (next.symm ▸ reaches),
      found⟩

theorem declared_eq {bytes : List UInt8} {hdr : JournalHeader}
    (inside : hdr.nRec < 0 → hdr.sector ≤ bytes.length) :
    ∃ limit, declared bytes hdr hdr.sector = .ok limit ∧
      (limit = 0 ↔ hdr.nRec = 0 ∨ hdr.nRec < 0 ∧ bytes.length < hdr.sector + hdr.recLen) := by
  have size : 0 < hdr.recLen := Nat.succ_pos _
  by_cases negative : hdr.nRec < 0
  · refine ⟨(bytes.length - hdr.sector) / hdr.recLen, ?_, ?_⟩
    · rw [declared, if_pos negative, if_pos (inside negative)]
    · have nonzero : hdr.nRec ≠ 0 := by
        intro zero
        rw [zero] at negative
        exact absurd negative (by decide)
      have fits := inside negative
      rw [Nat.div_eq_zero_iff_lt size]
      constructor
      · exact fun room => Or.inr ⟨negative, by omega⟩
      · rintro (zero | ⟨-, short⟩)
        · exact absurd zero nonzero
        · omega
  · refine ⟨hdr.nRec.toInt.toNat, ?_, ?_⟩
    · rw [declared, if_neg negative]
    · have nonneg : 0 ≤ hdr.nRec.toInt := by
        rw [Int32.lt_iff_toInt_lt] at negative
        exact Int.le_of_not_gt negative
      rw [← Int32.toInt_inj]
      constructor
      · intro zero
        exact Or.inl (Int.le_antisymm (Int.toNat_eq_zero.mp zero) nonneg)
      · rintro (zero | ⟨minus, -⟩)
        · rw [zero]
          rfl
        · exact absurd minus negative

/-- The probe agrees with a replay exactly when no header that the replay comes to has its
records past the end of the journal, and the bytes at 512 fit the first header. -/
theorem probe_agrees_iff (db bytes : List UInt8) :
    ProbeAgrees db bytes ↔
      (∀ off hdr, Reaches bytes 0 off hdr → hdr.nRec < 0 → off + hdr.sector ≤ bytes.length) ∧
        ∀ hdr, headerAt bytes 0 = some hdr → ProbeFits bytes hdr := by
  obtain ⟨good, bad⟩ := replayIfHot_spec db bytes
  obtain ⟨probed, probe, shaped⟩ := hasHotJournal_spec (some db) bytes
  change _ ↔ Sized bytes 0 ∧ _
  by_cases sized : Sized bytes 0
  · obtain ⟨restored, length, hot, after, read, some_, done, replayed⟩ := good sized
    have means : ProbeAgrees db bytes ↔ (probed = true ↔ Hot bytes 0) := by
      rw [ProbeAgrees, probe, done, read]
      simp only [Checked.safe_ok, true_and, Except.ok.injEq, Prod.mk.injEq]
      refine iff_congr Iff.rfl ⟨?_, fun is => ?_⟩
      · rintro ⟨_, _, _, -, -, same, -⟩
        exact replayed.mp same
      · exact ⟨restored, length, after, ⟨rfl, rfl⟩, some_.mpr is, replayed.mpr is, rfl⟩
    rw [means, shaped]
    refine Iff.trans ?_ ⟨fun fits => ⟨sized, fits⟩, fun both => both.2⟩
    cases header : headerAt bytes 0 with
    | none =>
      have cold : ¬ Hot bytes 0 := by
        rintro ⟨_, _, _, reaches, -⟩
        exact not_reaches_none header reaches
      exact ⟨by simp, fun _ => ⟨by simp, fun is => absurd is cold⟩⟩
    | some hdr =>
      have inside := sized 0 hdr (.here header)
      rw [Nat.zero_add] at inside
      obtain ⟨limit, count, empty⟩ := declared_eq inside
      have first : (∃ other, some hdr = some other ∧ other.nRec ≠ 0 ∧ Intact bytes other 512) ↔
          hdr.nRec ≠ 0 ∧ Intact bytes hdr 512 := by
        constructor
        · rintro ⟨other, same, both⟩
          cases same
          exact both
        · exact fun both => ⟨hdr, rfl, both⟩
      have only : (∀ other, some hdr = some other → ProbeFits bytes other) ↔
          ProbeFits bytes hdr := ⟨fun all => all hdr rfl, fun fits other same => by
            cases same
            exact fits⟩
      rw [first, only, ProbeFits]
      split_ifs with invalidated full
      · rw [hot_behind header (empty.mpr (Or.inl invalidated) ▸ count)]
        exact ⟨fun same is => absurd invalidated (same.mpr is).1,
          fun cold => ⟨fun both => absurd invalidated both.1, fun is => absurd is cold⟩⟩
      · rw [hot_behind header (empty.mpr (Or.inr full) ▸ count)]
        exact iff_congr (and_iff_right invalidated) Iff.rfl
      · have positive : 0 < limit := Nat.pos_of_ne_zero fun zero =>
          (empty.mp zero).elim invalidated full
        rw [hot_first header count positive]
        exact iff_congr (and_iff_right invalidated) Iff.rfl
  · refine ⟨fun agrees => ?_, fun both => absurd both.1 sized⟩
    have safe := agrees.2.1
    rw [bad sized] at safe
    exact absurd safe Checked.not_safe_overflow

/-- A journal of one record whose writer assumed sectors of 1024 bytes. -/
def wideSectors : List UInt8 :=
  journalMagic ++ toBeBytes 1 ++ toBeBytes 1 ++ toBeBytes 1 ++ toBeBytes 1024 ++ toBeBytes 512 ++
    List.replicate 996 0 ++ (toBeBytes 1 ++ List.replicate 512 0 ++ toBeBytes 1)

/-- The probe does not see it. -/
theorem probe_misses_wide_sectors : ¬ ∀ db bytes, ProbeAgrees db bytes := by
  intro claimed
  obtain ⟨-, fits⟩ := (probe_agrees_iff [] wideSectors).mp (claimed [] wideSectors)
  have there : (headerAt wideSectors 0).isSome = true := by decide +kernel
  have facts : (headerAt wideSectors 0).all (fun hdr => decide (hdr.nRec = 1 ∧
      ¬ Intact wideSectors hdr 512 ∧ Restorable wideSectors hdr hdr.sector)) = true := by
    decide +kernel
  obtain ⟨hdr, header⟩ := Option.isSome_iff_exists.mp there
  rw [header, Option.all_some, decide_eq_true_iff] at facts
  obtain ⟨one, absent, good⟩ := facts
  have same := fits hdr header
  rw [ProbeFits, one, if_neg (by decide), if_neg (fun both => absurd both.1 (by decide))] at same
  exact absent (same.mpr good)

end RustSql.Storage.Sqlitefmt.Rj
