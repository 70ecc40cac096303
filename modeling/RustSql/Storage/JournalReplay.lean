import RustSql.Storage.JournalProbe
import Mathlib.Data.List.Perm.Subperm

/-! A commit with a rollback journal: whatever a crash leaves of it, replays included, the next
replay brings the file back. -/

namespace RustSql.Storage.Sqlitefmt.Rj

open RustSql.Foundation FileImage

/-- A file of whole pages, the pages that a commit changes and their images before it. -/
structure Transaction where
  pageSize : UInt32
  initialDbPages : UInt32
  db : List UInt8
  oldPages : List (UInt32 × List UInt8)
  pages : List (UInt32 × List UInt8)
  legal : LegalSize pageSize.toNat
  sized : db.length = initialDbPages.toNat * pageSize.toNat
  images : ∀ page ∈ oldPages, page.1 ≠ 0 ∧ page.1.toNat ≤ initialDbPages.toNat ∧
    page.2 = (db.drop ((page.1.toNat - 1) * pageSize.toNat)).take pageSize.toNat
  distinct : (oldPages.map Prod.fst).Nodup
  changed : ∀ page ∈ pages, page.1 ≠ 0 ∧ page.2.length = pageSize.toNat ∧
    (page.1.toNat ≤ initialDbPages.toNat → page.1 ∈ oldPages.map Prod.fst)
  existing : 1 ≤ initialDbPages.toNat
  first : 1 ∈ pages.map Prod.fst

/-- What an interrupted replay leaves of the database file; the journal is removed last. -/
inductive ReplayCut (journal db : List UInt8) : List UInt8 → Prop
  | restoring {restored : List PageImage} {length : Nat} {after : List UInt8}
      (read : segments journal [] 0 0 = .ok (restored, length))
      (cut : CutShort 0 (restored.map PageImage.place) db after) : ReplayCut journal db after
  | truncating {restored : List PageImage} {length : Nat}
      (read : segments journal [] 0 0 = .ok (restored, length)) (some_ : restored ≠ []) :
      ReplayCut journal db
        (truncated (writeAll 0 (restored.map PageImage.place) db) length)

/-- What is left of the file after a crash and any number of interrupted replays. -/
inductive Crashed (journal : List UInt8) (crash : List UInt8 → Prop) : List UInt8 → Prop
  | crash {db : List UInt8} (left : crash db) : Crashed journal crash db
  | replay {db after : List UInt8} (before : Crashed journal crash db)
      (cut : ReplayCut journal db after) : Crashed journal crash after

section Written

variable {nonce : UInt32}

/-- The header that the writer writes. -/
def headerBytes (count : Nat) (nonce pageSize initialDbPages : UInt32) : List UInt8 :=
  journalMagic ++ (toBeBytes count ++ (toBeBytes nonce.toNat ++
    (toBeBytes initialDbPages.toNat ++ (toBeBytes sectorSize.toNat ++ toBeBytes pageSize.toNat))))

theorem length_headerBytes {count : Nat} {pageSize initialDbPages : UInt32} :
    (headerBytes count nonce pageSize initialDbPages).length = 28 := rfl

/-- The bytes of a record. -/
def recordBytes (nonce : UInt32) (image : PageImage) : List UInt8 :=
  toBeBytes image.1 ++ (image.2 ++ toBeBytes (pageChecksum image.2 nonce).toNat)

/-- The image of a page as a replay reads it. -/
def asImage (page : UInt32 × List UInt8) : PageImage := (page.1.toNat, page.2)

theorem writeJournal_eq {oldPages : List (UInt32 × List UInt8)} {pageSize initialDbPages : UInt32}
    (numbered : ∀ page ∈ oldPages, page.1 ≠ 0) :
    writeJournal nonce oldPages pageSize initialDbPages =
      .ok ((headerBytes oldPages.length nonce pageSize initialDbPages ++ List.replicate 484 0) ++
        (oldPages.map asImage).flatMap (recordBytes nonce)) := by
  have legal : (oldPages.any fun page => page.1 == 0) = false := by
    rw [List.any_eq_false]
    intro page member zero
    exact numbered page member (eq_of_beq zero)
  rw [writeJournal, legal, if_neg Bool.false_ne_true, List.flatMap_map, List.append_assoc]
  rfl

theorem wordAt_append {front : List UInt8} (rest : List UInt8) (off : Nat) :
    wordAt (front ++ rest) (front.length + off) = wordAt rest off := by
  rw [wordAt, List.drop_length_add_append, wordAt]

theorem wordAt_written {value : Nat} (small : value < 2 ^ 32) (front rest : List UInt8) :
    wordAt (front ++ (toBeBytes value ++ rest)) front.length = value := by
  have there := @wordAt_append front (toBeBytes value ++ rest) 0
  rwa [Nat.add_zero, wordAt_head small] at there

theorem fromBytes_headerBytes {count : Nat} {pageSize initialDbPages : UInt32}
    (small : count < 2 ^ 32) (legal : LegalSize pageSize.toNat) :
    (initialDbPages.toNat ≤ maxPages → ∃ hdr,
      JournalHeader.fromBytes (headerBytes count nonce pageSize initialDbPages) = some hdr ∧
        hdr.nRec = (UInt32.ofNat count).toInt32 ∧ hdr.nonce = nonce ∧
        hdr.initialDbPages = initialDbPages.toNat ∧ hdr.sector = 512 ∧
        hdr.pageSize = pageSize.toNat) ∧
    (maxPages < initialDbPages.toNat →
      JournalHeader.fromBytes (headerBytes count nonce pageSize initialDbPages) = none) := by
  have counted : wordAt (headerBytes count nonce pageSize initialDbPages) 8 = count :=
    wordAt_written small journalMagic _
  have seeded : wordAt (headerBytes count nonce pageSize initialDbPages) 12 = nonce.toNat :=
    wordAt_written nonce.toNat_lt (journalMagic ++ toBeBytes count) _
  have initial : wordAt (headerBytes count nonce pageSize initialDbPages) 16 =
      initialDbPages.toNat :=
    wordAt_written initialDbPages.toNat_lt
      (journalMagic ++ toBeBytes count ++ toBeBytes nonce.toNat) _
  have sectors : wordAt (headerBytes count nonce pageSize initialDbPages) 20 = 512 :=
    wordAt_written (by decide) (journalMagic ++ toBeBytes count ++ toBeBytes nonce.toNat ++
      toBeBytes initialDbPages.toNat) _
  have paged : wordAt (headerBytes count nonce pageSize initialDbPages) 24 = pageSize.toNat := by
    have last := wordAt_written pageSize.toNat_lt (journalMagic ++ toBeBytes count ++
      toBeBytes nonce.toNat ++ toBeBytes initialDbPages.toNat ++ toBeBytes sectorSize.toNat) []
    rw [List.append_nil] at last
    exact last
  have magic : (headerBytes count nonce pageSize initialDbPages).take 8 = journalMagic := rfl
  rw [JournalHeader.fromBytes, if_neg (not_not_intro magic)]
  have sector : LegalSize 512 := by decide
  constructor
  · intro few
    rw [dif_pos (paged.symm ▸ legal), dif_pos (sectors.symm ▸ sector), dif_pos (initial.symm ▸ few)]
    refine ⟨_, rfl, ?_, ?_, initial, sectors, paged⟩
    · dsimp only
      rw [counted]
    · dsimp only
      rw [seeded, UInt32.ofNat_toNat]
  · intro many
    rw [dif_pos (paged.symm ▸ legal), dif_pos (sectors.symm ▸ sector), dif_neg]
    rw [initial]
    exact Nat.not_le_of_lt many

theorem length_recordBytes {image : PageImage} :
    (recordBytes nonce image).length = 4 + image.2.length + 4 := by
  simp only [recordBytes, List.length_append, length_toBeBytes]
  omega

/-- A record that was written whole is read back. -/
theorem restorable_written {hdr : JournalHeader} {front rest : List UInt8} {image : PageImage}
    (seed : hdr.nonce = nonce) (sized : image.2.length = hdr.pageSize) (numbered : image.1 ≠ 0)
    (few : image.1 ≤ maxPages) :
    Restorable (front ++ (recordBytes nonce image ++ rest)) hdr front.length ∧
      wordAt (front ++ (recordBytes nonce image ++ rest)) front.length = image.1 ∧
      ((front ++ (recordBytes nonce image ++ rest)).drop (front.length + 4)).take hdr.pageSize =
        image.2 := by
  have small : image.1 < 2 ^ 32 := by
    rw [maxPages] at few
    omega
  have number : wordAt (front ++ (recordBytes nonce image ++ rest)) front.length = image.1 := by
    rw [recordBytes, List.append_assoc]
    exact wordAt_written small front _
  have page : ((front ++ (recordBytes nonce image ++ rest)).drop (front.length + 4)).take
      hdr.pageSize = image.2 := by
    rw [List.drop_length_add_append, recordBytes, List.append_assoc, ← length_toBeBytes image.1,
      List.drop_left, List.append_assoc, ← sized, List.take_left]
  have cksum : wordAt (front ++ (recordBytes nonce image ++ rest))
      (front.length + 4 + hdr.pageSize) = (pageChecksum image.2 nonce).toNat := by
    have there := wordAt_written (pageChecksum image.2 nonce).toNat_lt
      (front ++ (toBeBytes image.1 ++ image.2)) rest
    have place : (front ++ (toBeBytes image.1 ++ image.2)).length =
        front.length + 4 + hdr.pageSize := by
      rw [List.length_append, List.length_append, length_toBeBytes, sized, Nat.add_assoc]
    rw [place] at there
    rw [recordBytes]
    simp only [List.append_assoc] at there ⊢
    exact there
  refine ⟨⟨⟨?_, ?_⟩, ?_, ?_⟩, number, page⟩
  · rw [List.length_append, List.length_append, length_recordBytes, sized, JournalHeader.recLen]
    omega
  · rw [cksum, page, seed, UInt32.ofNat_toNat]
  · rw [number]
    exact numbered
  · rw [number]
    exact few

/-- The records of a segment that was cut off somewhere are read up to the cut. -/
theorem takeRecords_written {hdr : JournalHeader} (seed : hdr.nonce = nonce)
    (images : List PageImage) (fit : ∀ image ∈ images, image.2.length = hdr.pageSize ∧
      image.1 ≠ 0 ∧ image.1 ≤ maxPages) (front : List UInt8) (m : Nat) :
    ∃ j stop whole,
      takeRecords (front ++ (images.flatMap (recordBytes nonce)).take m) hdr images.length
        front.length = .ok (images.take j, stop, whole) ∧
      (whole = true ↔ (images.flatMap (recordBytes nonce)).length ≤ m) ∧
      (whole = true → j = images.length ∧
        stop = front.length + (images.flatMap (recordBytes nonce)).length) := by
  induction images generalizing front m with
  | nil => exact ⟨0, front.length, true, rfl, by simp, fun _ => ⟨rfl, rfl⟩⟩
  | cons image rest ih =>
    obtain ⟨sized, numbered, few⟩ := fit image (List.mem_cons_self ..)
    have size : (recordBytes nonce image).length = hdr.recLen := by
      rw [length_recordBytes, sized, JournalHeader.recLen]
    rw [List.flatMap_cons]
    rcases Nat.lt_or_ge m hdr.recLen with short | enough
    · refine ⟨0, front.length, false, takeRecords_stop ?_, ?_, by simp⟩
      · rintro ⟨⟨inside, -⟩, -⟩
        rw [List.length_append, List.length_take] at inside
        omega
      · rw [List.length_append, size]
        exact ⟨by simp, fun all => absurd all (by omega)⟩
    · obtain ⟨j, stop, whole, taken, all, done⟩ := ih
        (fun other member => fit other (List.mem_cons_of_mem _ member))
        (front ++ recordBytes nonce image) (m - hdr.recLen)
      have cut : (recordBytes nonce image ++ rest.flatMap (recordBytes nonce)).take m =
          recordBytes nonce image ++ (rest.flatMap (recordBytes nonce)).take (m - hdr.recLen) := by
        rw [List.take_append, size, List.take_of_length_le (by omega)]
      obtain ⟨good, number, page⟩ := @restorable_written nonce hdr front
        ((rest.flatMap (recordBytes nonce)).take (m - hdr.recLen)) image seed sized numbered few
      rw [List.append_assoc, List.length_append, size] at taken
      refine ⟨j + 1, stop, whole, ?_, ?_, fun is => ?_⟩
      · rw [cut, List.length_cons, takeRecords_next good, taken, number, page]
        rfl
      · rw [all, List.length_append, size]
        omega
      · obtain ⟨count, position⟩ := done is
        rw [List.length_append, size] at position
        exact ⟨congrArg (· + 1) count, by rw [position, List.length_append, size]; omega⟩

end Written

namespace Transaction

variable (t : Transaction) (nonce : UInt32)

/-- The images in the journal. -/
def restored : List PageImage := t.oldPages.map asImage

/-- The bytes of the journal. -/
def journal : List UInt8 :=
  (headerBytes t.oldPages.length nonce t.pageSize t.initialDbPages ++ List.replicate 484 0) ++
    t.restored.flatMap (recordBytes nonce)

variable {t nonce}

theorem written : writeJournal nonce t.oldPages t.pageSize t.initialDbPages = .ok (t.journal nonce) :=
  writeJournal_eq fun page member => (t.images page member).1

theorem pageSize_pos : 0 < t.pageSize.toNat := Nat.lt_of_lt_of_le (by decide) t.legal.1.1

/-- The first page is in the journal. -/
theorem restored_ne_nil : t.restored ≠ [] := by
  obtain ⟨page, member, one⟩ := List.mem_map.mp t.first
  have listed := (t.changed page member).2.2 (by rw [one]; exact t.existing)
  obtain ⟨old, inside, -⟩ := List.mem_map.mp listed
  exact List.ne_nil_of_mem (List.mem_map_of_mem inside)

theorem page_inside {n : Nat} (positive : n ≠ 0) (inside : n ≤ t.initialDbPages.toNat) :
    (n - 1) * t.pageSize.toNat + t.pageSize.toNat ≤ t.db.length := by
  rw [t.sized, ← Nat.succ_mul, Nat.succ_eq_add_one, Nat.sub_add_cancel (Nat.pos_of_ne_zero positive)]
  exact Nat.mul_le_mul_right _ inside

theorem restored_fit {image : PageImage} (member : image ∈ t.restored) :
    image.2.length = t.pageSize.toNat ∧ image.1 ≠ 0 ∧ image.1 ≤ t.initialDbPages.toNat ∧
      image.place.Of t.db := by
  obtain ⟨page, inside, rfl⟩ := List.mem_map.mp member
  obtain ⟨nonzero, few, content⟩ := t.images page inside
  have numbered : page.1.toNat ≠ 0 := fun zero => nonzero (UInt32.toNat_inj.mp zero)
  have room := @page_inside t _ numbered few
  have size : page.2.length = t.pageSize.toNat := by
    rw [content, List.length_take, List.length_drop]
    omega
  refine ⟨size, numbered, few, ?_⟩
  change (page.1.toNat - 1) * page.2.length + page.2.length ≤ _ ∧ ∀ j < page.2.length,
    page.2[j]? = t.db[(page.1.toNat - 1) * page.2.length + j]?
  rw [size]
  refine ⟨room, fun j small => ?_⟩
  rw [content, List.getElem?_take_of_lt small, List.getElem?_drop]

/-- The changed positions of the file. -/
def Part (t : Transaction) (i : Nat) : Prop := Covered (t.restored.map PageImage.place) i

theorem places_of {image : Image UInt8} (member : image ∈ t.restored.map PageImage.place) :
    image.Of t.db := by
  obtain ⟨page, inside, rfl⟩ := List.mem_map.mp member
  exact (restored_fit inside).2.2.2

/-- The writes of the commit inside the file go where the journal has images. -/
theorem writes_allowed {image : Image UInt8} (member : image ∈ writePages t.pageSize t.pages)
    {i : Nat} (there : i < t.db.length) (covers : image.Covers i) : t.Part i := by
  obtain ⟨page, inside, rfl⟩ := List.mem_map.mp member
  obtain ⟨nonzero, size, listed⟩ := t.changed page inside
  have numbered : page.1.toNat ≠ 0 := fun zero => nonzero (UInt32.toNat_inj.mp zero)
  have covers' : (page.1.toNat - 1) * t.pageSize.toNat ≤ i ∧
      i < (page.1.toNat - 1) * t.pageSize.toNat + page.2.length := covers
  have few : page.1.toNat ≤ t.initialDbPages.toNat := by
    rw [t.sized] at there
    have below := Nat.lt_of_mul_lt_mul_right (Nat.lt_of_le_of_lt covers'.1 there)
    omega
  obtain ⟨old, member, same⟩ := List.mem_map.mp (listed few)
  have listed := List.mem_map_of_mem member (f := asImage)
  obtain ⟨oldSize, -⟩ := @restored_fit t _ listed
  refine ⟨(asImage old).place, List.mem_map_of_mem listed, ?_⟩
  change (old.1.toNat - 1) * old.2.length ≤ i ∧ i < (old.1.toNat - 1) * old.2.length + old.2.length
  have oldSize : old.2.length = t.pageSize.toNat := oldSize
  rw [oldSize, same]
  rwa [size] at covers'

theorem length_le : t.oldPages.length ≤ t.initialDbPages.toNat := by
  have small : (t.oldPages.map fun page => page.1.toNat).Nodup := by
    have distinct := t.distinct.map (f := UInt32.toNat) fun _ _ same => UInt32.toNat_inj.mp same
    rwa [List.map_map] at distinct
  have inside : (t.oldPages.map fun page => page.1.toNat) ⊆
      List.range' 1 t.initialDbPages.toNat := by
    intro n member
    obtain ⟨page, listed, rfl⟩ := List.mem_map.mp member
    obtain ⟨nonzero, few, -⟩ := t.images page listed
    rw [List.mem_range'_1]
    have numbered : page.1.toNat ≠ 0 := fun zero => nonzero (UInt32.toNat_inj.mp zero)
    omega
  have bound := (List.subperm_of_subset small inside).length_le
  rwa [List.length_map, List.length_range'] at bound

theorem length_wide : t.oldPages.length < 2 ^ 32 :=
  Nat.lt_of_le_of_lt length_le t.initialDbPages.toNat_lt

/-- The header and its padding. -/
def sectorBytes (t : Transaction) (nonce : UInt32) : List UInt8 :=
  headerBytes t.oldPages.length nonce t.pageSize t.initialDbPages ++ List.replicate 484 0

theorem length_sectorBytes : (t.sectorBytes nonce).length = 512 := by
  rw [sectorBytes, List.length_append, List.length_replicate, length_headerBytes]

theorem journal_eq :
    t.journal nonce = t.sectorBytes nonce ++ t.restored.flatMap (recordBytes nonce) := by
  rw [journal, sectorBytes]

theorem headerAt_cut {k : Nat} (enough : 28 ≤ k) :
    headerAt ((t.journal nonce).take k) 0 = JournalHeader.fromBytes
      (headerBytes t.oldPages.length nonce t.pageSize t.initialDbPages) := by
  have total : 28 ≤ (t.journal nonce).length := by
    rw [journal_eq, List.length_append, length_sectorBytes]
    omega
  rw [headerAt, if_pos (by rw [List.length_take]; omega), List.drop_zero, List.take_take,
    Nat.min_eq_left enough, journal, List.append_assoc]
  exact congrArg _ (List.take_left' length_headerBytes)

/-- What a replay reads from a journal that was cut off somewhere. -/
theorem segments_cut (few : t.initialDbPages.toNat ≤ maxPages) (k : Nat) :
    ∃ j n, segments ((t.journal nonce).take k) [] 0 0 = .ok (t.restored.take j, n) ∧
      ((t.journal nonce).length ≤ k → j = t.restored.length ∧ n = t.db.length) ∧
      (k < (t.journal nonce).length → n = 0) := by
  have total : (t.journal nonce).length = 512 + (t.restored.flatMap (recordBytes nonce)).length := by
    rw [journal_eq, List.length_append, length_sectorBytes]
  rcases Nat.lt_or_ge k 28 with short | enough
  · refine ⟨0, 0, segments_none (if_neg ?_), fun all => by omega, fun _ => rfl⟩
    rw [List.length_take]
    omega
  · have wide := @length_wide t
    have count : t.oldPages.length < 2 ^ 31 := by
      have listed := @length_le t
      rw [maxPages] at few
      omega
    obtain ⟨hdr, header, counted, seed, initial, sector, size⟩ :=
      (@fromBytes_headerBytes nonce _ t.pageSize t.initialDbPages wide t.legal).1 few
    have found := (headerAt_cut enough).trans header
    have value : hdr.nRec.toInt = t.oldPages.length := by
      rw [counted, UInt32.toInt32_ofNat', Int32.toInt_ofNat_of_lt count]
    have limit : ∀ start, declared ((t.journal nonce).take k) hdr start =
        .ok t.restored.length := by
      intro start
      have positive : ¬ hdr.nRec < 0 := by
        rw [Int32.lt_iff_toInt_lt, value]
        exact Int.not_lt.mpr (Int.natCast_nonneg _)
      rw [declared, if_neg positive, value, Int.toNat_natCast, restored, List.length_map]
    rcases Nat.lt_or_ge k 512 with padding | records
    · obtain ⟨n, more⟩ := Nat.exists_eq_succ_of_ne_zero
        fun zero => restored_ne_nil (List.length_eq_zero_iff.mp zero) (t := t)
      have torn : takeRecords ((t.journal nonce).take k) hdr t.restored.length (0 + hdr.sector) =
          .ok ([], 0 + hdr.sector, false) := by
        rw [more]
        refine takeRecords_stop ?_
        rintro ⟨⟨inside, -⟩, -⟩
        rw [List.length_take, sector] at inside
        omega
      refine ⟨0, 0, ?_, fun all => by omega, fun _ => rfl⟩
      rw [segments_some found (limit _) torn]
      rfl
    · have cut : (t.journal nonce).take k = t.sectorBytes nonce ++
          (t.restored.flatMap (recordBytes nonce)).take (k - 512) := by
        have front : (t.sectorBytes nonce).take k = t.sectorBytes nonce :=
          List.take_of_length_le (by rw [length_sectorBytes]; exact records)
        rw [journal_eq, List.take_append, length_sectorBytes, front]
      obtain ⟨j, stop, whole, taken, all, done⟩ := @takeRecords_written nonce hdr seed t.restored
        (fun image member => by
          obtain ⟨fit, numbered, inside, -⟩ := restored_fit member
          exact ⟨fit.trans size.symm, numbered, Nat.le_trans inside few⟩)
        (t.sectorBytes nonce) (k - 512)
      have taken' : takeRecords ((t.journal nonce).take k) hdr t.restored.length
          (0 + hdr.sector) = .ok (t.restored.take j, stop, whole) := by
        rw [cut, sector, Nat.zero_add]
        rwa [length_sectorBytes] at taken
      have read := @segments_some _ _ [] _ 0 _ _ _ _ found (limit _) taken'
      rw [List.nil_append] at read
      cases whole with
      | false =>
        have missing : ¬ (t.restored.flatMap (recordBytes nonce)).length ≤ k - 512 :=
          fun inside => by cases all.mpr inside
        exact ⟨j, 0, read, fun complete => by omega, fun _ => rfl⟩
      | true =>
        obtain ⟨full, position⟩ := done rfl
        have complete := all.mp rfl
        refine ⟨j, t.db.length, ?_, fun _ => ⟨full, rfl⟩, fun short => by omega⟩
        rw [read, if_pos rfl, initial, size, ← t.sized]
        refine segments_none (if_neg ?_)
        have up := le_roundUp stop (show 0 < hdr.sector by omega)
        rw [length_sectorBytes] at position
        rw [List.length_take]
        omega

/-- A journal for more pages than a header may declare is no journal to a replay. -/
theorem segments_many (many : maxPages < t.initialDbPages.toNat) (k : Nat) :
    segments ((t.journal nonce).take k) [] 0 0 = .ok ([], 0) := by
  refine segments_none ?_
  rcases Nat.lt_or_ge k 28 with short | enough
  · refine if_neg ?_
    rw [List.length_take]
    omega
  · rw [headerAt_cut enough]
    exact (fromBytes_headerBytes length_wide t.legal).2 many

end Transaction

section Crashes

variable {t : Transaction} {nonce : UInt32} {bytes db : List UInt8} {images : List PageImage}
  {n : Nat}

theorem truncated_eq_take (positive : 0 < t.db.length) :
    truncated db t.db.length = db.take t.db.length := by
  rw [truncated]
  split_ifs with longer
  · rfl
  · rw [List.take_of_length_le]
    omega

theorem truncated_zero : truncated db 0 = db := if_neg fun both => Nat.lt_irrefl 0 both.1

theorem Transaction.length_pos : 0 < t.db.length := by
  rw [t.sized]
  exact Nat.mul_pos t.existing Transaction.pageSize_pos

/-- The images of a replay are images of the file. -/
def Images (t : Transaction) (images : List PageImage) : Prop :=
  ∀ image ∈ images.map PageImage.place, image.Of t.db

theorem images_take (t : Transaction) (j : Nat) : Images t (t.restored.take j) := by
  intro image member
  obtain ⟨page, inside, rfl⟩ := List.mem_map.mp member
  exact Transaction.places_of (List.mem_map_of_mem (List.mem_of_mem_take inside))

/-- A replay that is interrupted disturbs only what a replay restores. -/
theorem ReplayCut.disturbed {after : List UInt8} (cut : ReplayCut bytes db after)
    (read : segments bytes [] 0 0 = .ok (images, n)) (of : Images t images)
    (length : n = 0 ∨ n = t.db.length)
    (disturbed : Disturbed (Covered (images.map PageImage.place)) t.db db) :
    Disturbed (Covered (images.map PageImage.place)) t.db after ∧
      (db.length = t.db.length → after.length = t.db.length) := by
  cases cut with
  | restoring again cut =>
    cases read.symm.trans again
    refine ⟨disturbed.cutShort cut fun image member i _ covers => ⟨image, member, covers⟩, ?_⟩
    intro same
    rw [cut.length_eq fun image member => same.symm ▸ (of image member).1, same]
  | truncating again =>
    cases read.symm.trans again
    have all := @Disturbed.writeAll _ _ _ _ 0 _ of disturbed
    have weaker : Disturbed (Covered (images.map PageImage.place)) t.db
        (writeAll 0 (images.map PageImage.place) db) :=
      ⟨all.longer, fun i there outside => all.kept i there fun both => outside both.1⟩
    have sizes : db.length = t.db.length →
        (writeAll 0 (images.map PageImage.place) db).length = t.db.length := fun same => by
      rw [length_writeAll fun image member => same.symm ▸ (of image member).1, same]
    rcases length with rfl | rfl
    · rw [truncated_zero]
      exact ⟨weaker, sizes⟩
    · rw [truncated_eq_take Transaction.length_pos]
      refine ⟨weaker.take (Nat.le_refl _), fun same => ?_⟩
      rw [List.length_take, sizes same, Nat.min_self]

/-- A replay that runs to its end settles what was disturbed. -/
theorem replay_settles (of : Images t images)
    (length : n = t.db.length ∨ n = 0 ∧ db.length = t.db.length)
    (disturbed : Disturbed (Covered (images.map PageImage.place)) t.db db) :
    truncated (writeAll 0 (images.map PageImage.place) db) n = t.db := by
  have settled := @Disturbed.undo _ _ _ _ 0 _ of (fun i part => part) disturbed
  have all := @Disturbed.writeAll _ _ _ _ 0 _ of disturbed
  rcases length with rfl | ⟨rfl, same⟩
  · rw [truncated_eq_take Transaction.length_pos, settled]
  · have size := @length_writeAll _ db 0 (images.map PageImage.place)
      fun image member => same.symm ▸ (of image member).1
    rw [truncated_zero]
    rwa [List.take_of_length_le (by rw [size, same])] at settled

theorem replayIfHot_eq (read : segments bytes [] 0 0 = .ok (images, n)) :
    replayIfHot ⟨some db, some bytes⟩ = .ok (decide (images ≠ []),
      ⟨some (if images = [] then db
        else truncated (writeAll 0 (images.map PageImage.place) db) n), none⟩) := by
  rw [replayIfHot]
  dsimp only
  split_ifs with short empty empty
  · rw [empty]
    rfl
  · have none_ : segments bytes [] 0 0 = .ok ([], 0) := segments_none (if_neg (by omega))
    cases none_.symm.trans read
    exact absurd rfl empty
  · rw [read, Checked.ok_bind, empty]
    rfl
  · rw [read, Checked.ok_bind]
    cases images with
    | nil => exact absurd rfl empty
    | cons image rest => rfl

/-- Whatever is left of the database, a replay of the whole journal brings it back. -/
theorem replay_whole (few : t.initialDbPages.toNat ≤ maxPages)
    (crashed : Crashed (t.journal nonce) (CutShort 0 (writePages t.pageSize t.pages) t.db) db) :
    replayIfHot ⟨some db, some (t.journal nonce)⟩ = .ok (true, ⟨some t.db, none⟩) := by
  obtain ⟨j, n, read, whole, -⟩ := @Transaction.segments_cut t nonce few (t.journal nonce).length
  obtain ⟨rfl, rfl⟩ := whole (Nat.le_refl _)
  rw [List.take_length, List.take_length] at read
  have of : Images t t.restored := fun image member => Transaction.places_of member
  have disturbed : Disturbed (Covered (t.restored.map PageImage.place)) t.db db := by
    induction crashed with
    | crash left =>
      exact (Disturbed.refl _ _).cutShort left fun image member i there covers =>
        Transaction.writes_allowed member there covers
    | replay before cut ih => exact (cut.disturbed read of (Or.inr rfl) ih).1
  rw [replayIfHot_eq read, if_neg Transaction.restored_ne_nil,
    replay_settles of (Or.inl rfl) disturbed, decide_eq_true Transaction.restored_ne_nil]

/-- A journal that was torn leaves the database as it was. -/
theorem replay_torn {k : Nat} (torn : k < (t.journal nonce).length)
    (crashed : Crashed ((t.journal nonce).take k) (· = t.db) db) :
    ∃ hot, replayIfHot ⟨some db, some ((t.journal nonce).take k)⟩ =
      .ok (hot, ⟨some t.db, none⟩) := by
  have cut : ∃ j, segments ((t.journal nonce).take k) [] 0 0 = .ok (t.restored.take j, 0) := by
    rcases Nat.lt_or_ge maxPages t.initialDbPages.toNat with many | few
    · exact ⟨0, Transaction.segments_many many k⟩
    · obtain ⟨j, n, read, -, short⟩ := @Transaction.segments_cut t nonce few k
      exact ⟨j, short torn ▸ read⟩
  obtain ⟨j, read⟩ := cut
  have of := images_take t j
  have kept : Disturbed (Covered ((t.restored.take j).map PageImage.place)) t.db db ∧
      db.length = t.db.length := by
    induction crashed with
    | crash left =>
      rw [left]
      exact ⟨Disturbed.refl _ _, rfl⟩
    | replay before cut ih =>
      obtain ⟨disturbed, same⟩ := cut.disturbed read of (Or.inl rfl) ih.1
      exact ⟨disturbed, same ih.2⟩
  have settled := replay_settles of (Or.inr ⟨rfl, kept.2⟩) kept.1
  refine ⟨decide (t.restored.take j ≠ []), ?_⟩
  rw [replayIfHot_eq read]
  split_ifs with empty
  · rw [empty, List.map_nil, truncated_zero] at settled
    rw [← settled]
    rfl
  · rw [settled]

/-- A commit whose header a replay rejects can be left half done. -/
theorem replay_rejected (many : maxPages < t.initialDbPages.toNat) :
    ∃ db, CutShort 0 (writePages t.pageSize t.pages) t.db db ∧
      ∀ hot, replayIfHot ⟨some db, some (t.journal nonce)⟩ ≠ .ok (hot, ⟨some t.db, none⟩) := by
  obtain ⟨page, member, one⟩ := List.mem_map.mp t.first
  have covered : Covered (writePages t.pageSize t.pages) 0 := by
    refine ⟨_, List.mem_map_of_mem member, ?_⟩
    change (page.1.toNat - 1) * t.pageSize.toNat ≤ 0 ∧
      0 < (page.1.toNat - 1) * t.pageSize.toNat + page.2.length
    have size := (t.changed page member).2.1
    have positive := @Transaction.pageSize_pos t
    rw [one, size]
    exact ⟨Nat.le_of_eq (Nat.zero_mul _), by omega⟩
  have : Nontrivial UInt8 := ⟨0, 1, by decide⟩
  obtain ⟨db, cut, differ⟩ :=
    @CutShort.exists_ne _ _ _ 0 _ _ covered Transaction.length_pos t.db
  refine ⟨db, cut, fun hot restored => differ ?_⟩
  have cold := @Transaction.segments_many t nonce many (t.journal nonce).length
  rw [List.take_length] at cold
  rw [replayIfHot_eq cold, if_pos rfl] at restored
  cases restored
  rfl

end Crashes

/-- A change of the first of some pages of zeros. -/
def zeroCommit (count : UInt32) (existing : 1 ≤ count.toNat) : Transaction where
  pageSize := 512
  initialDbPages := count
  db := List.replicate (count.toNat * 512) 0
  oldPages := [(1, List.replicate 512 0)]
  pages := [(1, List.replicate 512 1)]
  legal := by decide
  sized := List.length_replicate
  images := by
    intro page member
    obtain rfl := List.mem_singleton.mp member
    refine ⟨by decide, existing, ?_⟩
    rw [List.drop_replicate, List.take_replicate]
    refine congrArg (List.replicate · 0) ?_
    change 512 = min 512 (count.toNat * 512 - (1 - 1) * 512)
    omega
  distinct := by decide
  changed := by
    intro page member
    obtain rfl := List.mem_singleton.mp member
    exact ⟨by decide, List.length_replicate, fun _ => List.mem_singleton.mpr rfl⟩
  existing := existing
  first := List.mem_singleton.mpr rfl

instance : Inhabited Transaction := ⟨zeroCommit 2 (by decide)⟩

def largeCommit : Transaction := zeroCommit 1073741824 (by decide)

end RustSql.Storage.Sqlitefmt.Rj
