import RustSql.Jsonb.Paths

/-! The containers around an element, as frames around a hole, the innermost first. A splice
in the hole resizes every frame. -/

namespace RustSql.Jsonb

open RustSql.Foundation RustSql.Types

/-- A container around a hole: its header, and what its payload holds before and behind. -/
structure Frame where
  typ : Typ
  width : Width
  before : List UInt8
  behind : List UInt8

namespace Frame

def payload (f : Frame) (inner : List UInt8) : List UInt8 := f.before ++ inner ++ f.behind

def wrap (f : Frame) (inner : List UInt8) : List UInt8 :=
  f.width.header f.typ.code (f.payload inner).length ++ f.payload inner

/-- The header's width when the hole goes from holding `old` to holding `new`: only a change
of the size writes it anew, with the shortest. -/
def newWidth (f : Frame) (old new : List UInt8) : Width :=
  if new.length = old.length then f.width else .shortest (f.payload new).length

def withWidth (f : Frame) (w : Width) : Frame := ⟨f.typ, w, f.before, f.behind⟩

/-- The frame when its hole goes from holding `old` to holding `new`. -/
def resized (f : Frame) (old new : List UInt8) : Frame := f.withWidth (f.newWidth old new)

/-- The hole is spliced, but the header still tells of `old`. -/
def stale (f : Frame) (old new : List UInt8) : List UInt8 :=
  f.width.header f.typ.code (f.payload old).length ++ f.payload new

theorem length_payload (f : Frame) (inner : List UInt8) :
    (f.payload inner).length = f.before.length + inner.length + f.behind.length := by
  rw [payload, List.length_append, List.length_append]

theorem length_wrap (f : Frame) (inner : List UInt8) :
    (f.wrap inner).length = 1 + f.width.size + (f.payload inner).length := by
  rw [wrap, List.length_append, Width.length_header]

theorem stale_same (f : Frame) {old new : List UInt8} (same : new.length = old.length) :
    f.stale old new = (f.resized old new).wrap new := by
  have lengths : (f.payload old).length = (f.payload new).length := by
    rw [length_payload, length_payload, same]
  rw [stale, resized, newWidth, if_pos same, wrap, lengths]
  rfl

end Frame

/-- The blob with `inner` in the hole. -/
def plug : (frames : List Frame) → (inner : List UInt8) → List UInt8
  | [], inner => inner
  | f :: frames, inner => plug frames (f.wrap inner)

/-- The blob with `new` in the hole that held `old`. -/
def replug : (frames : List Frame) → (old new : List UInt8) → List UInt8
  | [], _, new => new
  | f :: frames, old, new => replug frames (f.wrap old) ((f.resized old new).wrap new)

/-- Where the hole starts. -/
def holeStart : (frames : List Frame) → Nat
  | [] => 0
  | f :: frames => holeStart frames + (1 + f.width.size) + f.before.length

/-- Where the headers of the frames stand. -/
def headerStarts : (frames : List Frame) → List Nat
  | [] => []
  | _ :: frames => holeStart frames :: headerStarts frames

/-- With `inner` in the hole every size fits its header. -/
def FramesFit : (frames : List Frame) → (inner : List UInt8) → Prop
  | [], _ => True
  | f :: frames, inner => f.width.Fits (f.payload inner).length ∧ FramesFit frames (f.wrap inner)

/-- The hole is spliced, but no header is written anew. -/
def stale : (frames : List Frame) → (old new : List UInt8) → List UInt8
  | [], _, new => new
  | f :: frames, old, new => stale frames (f.wrap old) (f.stale old new)

theorem plug_append (inner frames : List Frame) (x : List UInt8) :
    plug (inner ++ frames) x = plug frames (plug inner x) := by
  induction inner generalizing x with
  | nil => rfl
  | cons f inner ih => exact ih (f.wrap x)

theorem replug_append (inner frames : List Frame) (old new : List UInt8) :
    replug (inner ++ frames) old new = replug frames (plug inner old) (replug inner old new) := by
  induction inner generalizing old new with
  | nil => rfl
  | cons f inner ih => exact ih (f.wrap old) ((f.resized old new).wrap new)

section Splices

variable {frames : List Frame} {old new : List UInt8}

theorem stale_self (frames : List Frame) (old : List UInt8) : stale frames old old = plug frames old := by
  induction frames generalizing old with
  | nil => rfl
  | cons f frames ih => exact ih (f.wrap old)

theorem stale_split (frames : List Frame) (old : List UInt8) :
    ∃ before behind, before.length = holeStart frames ∧
      ∀ new, stale frames old new = before ++ new ++ behind := by
  induction frames generalizing old with
  | nil => exact ⟨[], [], rfl, fun new => (List.append_nil new).symm⟩
  | cons f frames ih =>
    obtain ⟨before, behind, start, split⟩ := ih (f.wrap old)
    refine ⟨before ++ (f.width.header f.typ.code (f.payload old).length ++ f.before),
      f.behind ++ behind, ?_, fun new => ?_⟩
    · rw [List.length_append, List.length_append, start, Width.length_header, holeStart]
      omega
    · rw [stale, split, Frame.stale]
      simp only [Frame.payload, List.append_assoc]

/-- A splice that keeps the length needs no new header. -/
theorem stale_same (frames : List Frame) {old new : List UInt8} (same : new.length = old.length) :
    stale frames old new = replug frames old new := by
  induction frames generalizing old new with
  | nil => rfl
  | cons f frames ih =>
    have lengths : ((f.resized old new).wrap new).length = (f.wrap old).length := by
      rw [← f.stale_same same, Frame.stale, Frame.wrap, List.length_append, List.length_append,
        Frame.length_payload, Frame.length_payload, same]
    rw [stale, f.stale_same same, ih lengths, replug]

theorem splice_middle (before old new behind : List UInt8) :
    splice (before ++ old ++ behind) before.length (before.length + old.length) new =
      .ok (before ++ new ++ behind) := by
  have taken : (before ++ old ++ behind).take before.length = before := by
    rw [List.append_assoc, List.take_left]
  have dropped : (before ++ old ++ behind).drop (before.length + old.length) = behind := by
    rw [← List.length_append, List.drop_left]
  rw [splice, if_pos (by simp only [List.length_append]; omega), taken, dropped]

/-- The loop writes the headers of the frames, each with the size its hole makes. -/
theorem resize_stale (fits : FramesFit frames old) :
    resize (stale frames old new) ((new.length : Int) - old.length) (headerStarts frames) =
      .ok (replug frames old new) := by
  induction frames generalizing old new with
  | nil => rfl
  | cons f frames ih =>
    obtain ⟨inside, outer⟩ := fits
    rw [headerStarts, resize]
    by_cases same : new.length = old.length
    · rw [if_pos (by omega), stale_same _ same]
    · obtain ⟨before, behind, start, split⟩ := stale_split frames (f.wrap old)
      have here : (f.width.header f.typ.code (f.payload old).length) <+:
          (stale (f :: frames) old new).drop (holeStart frames) := by
        rw [stale, split, Frame.stale, ← start, List.append_assoc, List.drop_left, List.append_assoc]
        exact List.prefix_append _ _
      have header := readHeader_header f.width f.typ.code_lt inside here
      have grown : (((f.payload old).length : Int) + ((new.length : Int) - old.length)).toNat =
          (f.payload new).length := by
        rw [Frame.length_payload, Frame.length_payload]
        omega
      have written : splice (stale (f :: frames) old new) (holeStart frames)
          (holeStart frames + (1 + f.width.size)) (pushHeader f.typ.code (f.payload new).length) =
            .ok (stale frames (f.wrap old) ((f.resized old new).wrap new)) := by
        have middle := splice_middle before (f.width.header f.typ.code (f.payload old).length)
          (pushHeader f.typ.code (f.payload new).length) (f.payload new ++ behind)
        rw [Width.length_header, start] at middle
        rw [stale, split, split, Frame.stale, Frame.resized, Frame.newWidth, if_neg same]
        simpa only [List.append_assoc, Frame.payload, Frame.wrap, Frame.withWidth,
          Width.pushHeader_eq] using middle
      have lengths : ((new.length : Int) - old.length) +
          (pushHeader f.typ.code (f.payload new).length).length - (1 + f.width.size : Nat) =
            ((f.resized old new).wrap new).length - ((f.wrap old).length : Int) := by
        rw [Frame.length_wrap, Frame.length_wrap, Frame.resized, Frame.newWidth, if_neg same,
          Width.pushHeader_eq, Width.length_header]
        simp only [Frame.length_payload, Frame.withWidth]
        push_cast
        ring
      rw [if_neg (by omega), header]
      dsimp only
      rw [grown, written, Checked.ok_bind, lengths, ih outer, replug]

theorem spliceAndResize_plug (fits : FramesFit frames old) (new : List UInt8) :
    spliceAndResize (plug frames old) (holeStart frames) (holeStart frames + old.length) new
      (headerStarts frames).reverse = .ok (replug frames old new) := by
  obtain ⟨before, behind, start, split⟩ := stale_split frames old
  have spliced : splice (plug frames old) (holeStart frames) (holeStart frames + old.length) new =
      .ok (stale frames old new) := by
    rw [← stale_self, split, split, ← start]
    exact splice_middle before old new behind
  rw [spliceAndResize, spliced, Checked.ok_bind, List.reverse_reverse, Nat.add_sub_cancel_left]
  exact resize_stale fits

/-- What is in the hole stands where the hole is. -/
theorem plug_laid (frames : List Frame) (inner : List UInt8) :
    Laid (plug frames inner) (holeStart frames) inner (holeStart frames + inner.length) := by
  obtain ⟨before, behind, start, split⟩ := stale_split frames inner
  refine ⟨?_, rfl⟩
  rw [← stale_self, split, ← start, List.append_assoc, List.drop_left]
  exact List.prefix_append _ _

end Splices

end RustSql.Jsonb
