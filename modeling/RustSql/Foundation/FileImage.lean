import Mathlib.Data.List.Basic
import Mathlib.Logic.Nontrivial.Basic

/-! Positioned writes on a file, writes that a crash tears, and images of the file that undo
them. -/

namespace RustSql.Foundation.FileImage

universe u

variable {α : Type u}

/-- The file after data were written at an offset; a gap is filled. -/
def writeAt (pad : α) (file : List α) (start : Nat) (data : List α) : List α :=
  file.take start ++ (List.replicate (start - file.length) pad ++
    (data ++ file.drop (start + data.length)))

/-- Bytes and where they belong. -/
abbrev Image (α : Type u) := Nat × List α

/-- The positions an image is about. -/
def Image.Covers (image : Image α) (i : Nat) : Prop :=
  image.1 ≤ i ∧ i < image.1 + image.2.length

/-- The positions a list of images is about. -/
def Covered (images : List (Image α)) (i : Nat) : Prop := ∃ image ∈ images, image.Covers i

def writeAll (pad : α) (images : List (Image α)) (file : List α) : List α :=
  images.foldl (fun file image => writeAt pad file image.1 image.2) file

/-- What a crash can leave of a write: anything where the write goes, all else as it was. -/
structure Torn (image : Image α) (before after : List α) : Prop where
  longer : before.length ≤ after.length
  shorter : after.length ≤ max before.length (image.1 + image.2.length)
  kept : ∀ i < before.length, ¬ image.Covers i → after[i]? = before[i]?

/-- What a crash can leave of a list of writes: some of them done, the next one torn. -/
inductive CutShort (pad : α) : List (Image α) → List α → List α → Prop
  | stop (images : List (Image α)) (file : List α) : CutShort pad images file file
  | tear {image : Image α} {rest : List (Image α)} {file after : List α}
      (torn : Torn image file after) : CutShort pad (image :: rest) file after
  | write {image : Image α} {rest : List (Image α)} {file after : List α}
      (later : CutShort pad rest (writeAt pad file image.1 image.2) after) :
      CutShort pad (image :: rest) file after

/-- A file that holds `original`, but for some of its positions and what was appended. -/
structure Disturbed (parts : Nat → Prop) (original file : List α) : Prop where
  longer : original.length ≤ file.length
  kept : ∀ i < original.length, ¬ parts i → file[i]? = original[i]?

/-- The image is a part of the file. -/
def Image.Of (original : List α) (image : Image α) : Prop :=
  image.1 + image.2.length ≤ original.length ∧ ∀ j < image.2.length,
    image.2[j]? = original[image.1 + j]?

section Writes

variable {pad : α} {file data : List α} {start : Nat}

theorem length_writeAt :
    (writeAt pad file start data).length = max file.length (start + data.length) := by
  simp only [writeAt, List.length_append, List.length_take, List.length_replicate,
    List.length_drop]
  omega

private theorem length_front : (file.take start).length + (start - file.length) = start := by
  rw [List.length_take]
  omega

theorem getElem?_writeAt_inside {j : Nat} (inside : j < data.length) :
    (writeAt pad file start data)[start + j]? = data[j]? := by
  have front := @length_front _ file start
  rw [writeAt, List.getElem?_append_right (by omega),
    List.getElem?_append_right (by rw [List.length_replicate]; omega),
    List.getElem?_append_left (by rw [List.length_replicate]; omega), List.length_replicate]
  congr 1
  omega

theorem getElem?_writeAt_outside {i : Nat} (there : i < file.length)
    (outside : ¬ (start ≤ i ∧ i < start + data.length)) :
    (writeAt pad file start data)[i]? = file[i]? := by
  rw [writeAt]
  rcases Nat.lt_or_ge i start with before | after
  · rw [List.getElem?_append_left (by rw [List.length_take]; omega),
      List.getElem?_take_of_lt before]
  · have behind : start + data.length ≤ i := Nat.le_of_not_lt fun inside =>
      outside ⟨after, inside⟩
    have taken : (file.take start).length = start := List.length_take_of_le (by omega)
    rw [show start - file.length = 0 by omega, List.replicate_zero, List.nil_append,
      List.getElem?_append_right (by omega), List.getElem?_append_right (by omega),
      List.getElem?_drop]
    congr 1
    omega

/-- A write that was completed is one of the outcomes of a crash. -/
theorem torn_writeAt (pad : α) (file : List α) (image : Image α) :
    Torn image file (writeAt pad file image.1 image.2) :=
  ⟨Nat.le_trans (Nat.le_max_left _ _) (Nat.le_of_eq length_writeAt.symm),
    Nat.le_of_eq length_writeAt, fun _ there outside => getElem?_writeAt_outside there outside⟩

/-- A write inside the file leaves its length. -/
theorem Torn.length_eq {image : Image α} {before after : List α} (torn : Torn image before after)
    (inside : image.1 + image.2.length ≤ before.length) : after.length = before.length :=
  Nat.le_antisymm (Nat.le_trans torn.shorter (Nat.max_le.mpr ⟨Nat.le_refl _, inside⟩)) torn.longer

end Writes

section Recovery

variable {parts : Nat → Prop} {original file : List α}

theorem Disturbed.refl (parts : Nat → Prop) (original : List α) : Disturbed parts original original :=
  ⟨Nat.le_refl _, fun _ _ _ => rfl⟩

/-- A write goes on disturbing a file only inside the parts. -/
theorem Disturbed.torn {image : Image α} {after : List α} (disturbed : Disturbed parts original file)
    (torn : Torn image file after)
    (allowed : ∀ i < original.length, image.Covers i → parts i) :
    Disturbed parts original after := by
  refine ⟨Nat.le_trans disturbed.longer torn.longer, fun i there outside => ?_⟩
  rw [torn.kept i (Nat.lt_of_lt_of_le there disturbed.longer) fun covers =>
    outside (allowed i there covers)]
  exact disturbed.kept i there outside

theorem Disturbed.cutShort {pad : α} {images : List (Image α)} {after : List α}
    (cut : CutShort pad images file after) (disturbed : Disturbed parts original file)
    (allowed : ∀ image ∈ images, ∀ i < original.length, image.Covers i → parts i) :
    Disturbed parts original after := by
  induction cut with
  | stop images file => exact disturbed
  | tear torn => exact disturbed.torn torn (allowed _ (List.mem_cons_self ..))
  | write later ih =>
    exact ih (disturbed.torn (torn_writeAt pad _ _) (allowed _ (List.mem_cons_self ..)))
      fun image member => allowed image (List.mem_cons_of_mem _ member)

/-- Cutting off what was appended disturbs nothing. -/
theorem Disturbed.take {n : Nat} (disturbed : Disturbed parts original file)
    (enough : original.length ≤ n) : Disturbed parts original (file.take n) := by
  refine ⟨?_, fun i there outside => ?_⟩
  · rw [List.length_take]
    exact Nat.le_min.mpr ⟨enough, disturbed.longer⟩
  · rw [List.getElem?_take_of_lt (Nat.lt_of_lt_of_le there enough)]
    exact disturbed.kept i there outside

/-- An image of the file, written back, settles its own positions. -/
theorem Disturbed.writeBack {pad : α} {image : Image α} (of : image.Of original)
    (disturbed : Disturbed parts original file) :
    Disturbed (fun i => parts i ∧ ¬ image.Covers i) original
      (writeAt pad file image.1 image.2) := by
  refine ⟨?_, fun i there outside => ?_⟩
  · rw [length_writeAt]
    exact Nat.le_trans disturbed.longer (Nat.le_max_left _ _)
  · by_cases covers : image.Covers i
    · obtain ⟨j, rfl⟩ := Nat.exists_eq_add_of_le covers.1
      have inside : j < image.2.length := Nat.lt_of_add_lt_add_left covers.2
      rw [getElem?_writeAt_inside inside]
      exact of.2 j inside
    · rw [getElem?_writeAt_outside (Nat.lt_of_lt_of_le there disturbed.longer) covers]
      exact disturbed.kept i there fun part => outside ⟨part, covers⟩

theorem Disturbed.writeAll {pad : α} {images : List (Image α)}
    (of : ∀ image ∈ images, image.Of original) (disturbed : Disturbed parts original file) :
    Disturbed (fun i => parts i ∧ ¬ Covered images i) original (writeAll pad images file) := by
  induction images generalizing parts file with
  | nil =>
    exact ⟨disturbed.longer, fun i there outside => disturbed.kept i there fun part =>
      outside ⟨part, fun ⟨_, member, _⟩ => nomatch member⟩⟩
  | cons image rest ih =>
    have first := @Disturbed.writeBack _ _ _ _ pad _ (of image (List.mem_cons_self ..)) disturbed
    have all := ih (fun other member => of other (List.mem_cons_of_mem _ member)) first
    refine ⟨all.longer, fun i there outside => all.kept i there ?_⟩
    rintro ⟨⟨part, free⟩, later⟩
    refine outside ⟨part, ?_⟩
    rintro ⟨other, member, covers⟩
    rcases List.mem_cons.mp member with rfl | member
    · exact free covers
    · exact later ⟨other, member, covers⟩

/-- A file that is disturbed nowhere starts with the original. -/
theorem Disturbed.take_eq (settled : ∀ i, ¬ parts i) (disturbed : Disturbed parts original file) :
    file.take original.length = original := by
  refine List.ext_getElem? fun i => ?_
  rcases Nat.lt_or_ge i original.length with there | past
  · rw [List.getElem?_take_of_lt there]
    exact disturbed.kept i there (settled i)
  · rw [List.getElem?_eq_none past, List.getElem?_eq_none]
    rw [List.length_take]
    exact Nat.le_trans (Nat.min_le_left _ _) past

/-- The images of all the disturbed positions bring the original back. -/
theorem Disturbed.undo {pad : α} {images : List (Image α)}
    (of : ∀ image ∈ images, image.Of original) (all : ∀ i, parts i → Covered images i)
    (disturbed : Disturbed parts original file) :
    (FileImage.writeAll pad images file).take original.length = original :=
  Disturbed.take_eq (fun i left => left.2 (all i left.1)) (disturbed.writeAll of)

/-- Writes inside the file leave its length. -/
theorem length_writeAll {pad : α} {images : List (Image α)}
    (inside : ∀ image ∈ images, image.1 + image.2.length ≤ file.length) :
    (writeAll pad images file).length = file.length := by
  induction images generalizing file with
  | nil => rfl
  | cons image rest ih =>
    have same : (writeAt pad file image.1 image.2).length = file.length := by
      rw [length_writeAt]
      exact Nat.max_eq_left (inside image (List.mem_cons_self ..))
    have later := @ih (writeAt pad file image.1 image.2) fun other member => by
      rw [same]
      exact inside other (List.mem_cons_of_mem _ member)
    exact later.trans same

/-- Writes to a position of the file can leave it different from what it should be. -/
theorem CutShort.exists_ne [Nontrivial α] {pad : α} {images : List (Image α)} {i : Nat}
    (covered : Covered images i) (there : i < file.length) (original : List α) :
    ∃ after, CutShort pad images file after ∧ after ≠ original := by
  induction images generalizing file with
  | nil => exact absurd covered fun ⟨_, member, _⟩ => nomatch member
  | cons image rest ih =>
    obtain ⟨other, member, covers⟩ := covered
    rcases List.mem_cons.mp member with rfl | member
    · obtain ⟨x, differ⟩ := exists_ne (file.get ⟨i, there⟩)
      by_cases same : file = original
      · refine ⟨file.set i x, .tear ⟨?_, ?_, fun j _ outside => ?_⟩, fun restored => differ ?_⟩
        · exact Nat.le_of_eq List.length_set.symm
        · exact Nat.le_trans (Nat.le_of_eq List.length_set) (Nat.le_max_left _ _)
        · refine List.getElem?_set_ne ?_
          rintro rfl
          exact outside covers
        · have changed : (file.set i x)[i]? = file[i]? := by rw [restored, same]
          rw [List.getElem?_set_self there, List.getElem?_eq_getElem there] at changed
          exact Option.some.inj changed
      · exact ⟨file, .stop _ _, same⟩
    · have longer : i < (writeAt pad file image.1 image.2).length := by
        rw [length_writeAt]
        exact Nat.lt_of_lt_of_le there (Nat.le_max_left _ _)
      obtain ⟨after, cut, differ⟩ := ih ⟨other, member, covers⟩ longer
      exact ⟨after, .write cut, differ⟩

/-- Interrupted writes inside the file leave its length too. -/
theorem CutShort.length_eq {pad : α} {images : List (Image α)} {after : List α}
    (cut : CutShort pad images file after)
    (inside : ∀ image ∈ images, image.1 + image.2.length ≤ file.length) :
    after.length = file.length := by
  induction cut with
  | stop images file => rfl
  | tear torn => exact torn.length_eq (inside _ (List.mem_cons_self ..))
  | @write image rest file after later ih =>
    have same : (writeAt pad file image.1 image.2).length = file.length := by
      rw [length_writeAt]
      exact Nat.max_eq_left (inside image (List.mem_cons_self ..))
    exact (ih fun other member => by
      rw [same]
      exact inside other (List.mem_cons_of_mem _ member)).trans same

end Recovery

end RustSql.Foundation.FileImage
