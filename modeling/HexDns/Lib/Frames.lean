import Mathlib.Data.List.Basic
import Mathlib.Data.List.Infix

/-! # Messages with their length in front

A stream of messages, each after a header of fixed width that says how long it is. `split` takes the
complete messages off a stream and leaves what is not complete. It does not matter in which pieces the
stream comes (`split_append`), and what it gives is the only list of messages that fit with an incomplete
rest (`split_iff`). -/

namespace HexDns.Lib.Frames

variable {β : Type}

/-- How lengths are written: every header stands for a length, and is the header of it. -/
structure Format (β : Type) where
  width : ℕ
  pos : 0 < width
  /-- the header that is written for a length, also for one that is too large -/
  header : ℕ → List β
  /-- the length that a header says -/
  length : List β → ℕ
  length_header : ∀ n, (header n).length = width
  header_length : ∀ h, h.length = width → header (length h) = h

variable (f : Format β)

/-- A length that can be written. -/
def Format.Fits (n : ℕ) : Prop := f.length (f.header n) = n

instance (n : ℕ) : Decidable (f.Fits n) := inferInstanceAs (Decidable (_ = _))

def Format.frame (m : List β) : List β := f.header m.length ++ m

def Format.frames (ms : List (List β)) : List β := ms.flatMap f.frame

/-- The stream ends within a header, or within the message after it. -/
def Format.Incomplete (s : List β) : Prop :=
  s.length < f.width ∨ (s.drop f.width).length < f.length (s.take f.width)

instance (s : List β) : Decidable (f.Incomplete s) := inferInstanceAs (Decidable (_ ∨ _))

/-- The complete messages of a stream, and the rest. -/
def Format.split (s : List β) : List (List β) × List β :=
  if f.Incomplete s then ([], s)
  else
    let n := f.length (s.take f.width)
    let next := Format.split ((s.drop f.width).drop n)
    ((s.drop f.width).take n :: next.1, next.2)
termination_by s.length
decreasing_by
  have hwidth : f.width ≤ s.length := by
    by_contra h
    exact absurd (Or.inl (not_le.mp h)) ‹¬ f.Incomplete s›
  have hpos := f.pos
  rw [List.length_drop, List.length_drop]
  omega

variable {f} {m s t rest : List β} {ms : List (List β)}

theorem Format.Incomplete.split (h : f.Incomplete s) : f.split s = ([], s) := by
  rw [Format.split, if_pos h]

theorem Format.incomplete_nil : f.Incomplete [] := Or.inl f.pos

theorem Format.fits_length {h : List β} (hlen : h.length = f.width) : f.Fits (f.length h) := by
  unfold Format.Fits
  rw [f.header_length h hlen]

@[simp] theorem Format.frames_nil : f.frames [] = [] := rfl

@[simp] theorem Format.frames_cons : f.frames (m :: ms) = f.frame m ++ f.frames ms := rfl

@[simp] theorem Format.frames_append {ms' : List (List β)} : f.frames (ms ++ ms') = f.frames ms ++ f.frames ms' :=
  List.flatMap_append

theorem Format.frames_prefix {ms' : List (List β)} (h : ms <+: ms') : f.frames ms <+: f.frames ms' := by
  obtain ⟨l, rfl⟩ := h
  rw [Format.frames_append]
  exact List.prefix_append _ _

/-- A message that fits is the first one of the stream that it begins. -/
theorem Format.split_frame_append (hm : f.Fits m.length) :
    f.split (f.frame m ++ t) = (m :: (f.split t).1, (f.split t).2) := by
  have hheader := f.length_header m.length
  have htake : (f.frame m ++ t).take f.width = f.header m.length := by
    rw [Format.frame, List.append_assoc, ← hheader, List.take_left]
  have hdrop : (f.frame m ++ t).drop f.width = m ++ t := by
    rw [Format.frame, List.append_assoc, ← hheader, List.drop_left]
  have hcomplete : ¬ f.Incomplete (f.frame m ++ t) := by
    rintro (hshort | hshort)
    · rw [Format.frame, List.length_append, List.length_append, hheader] at hshort
      omega
    · rw [htake, hdrop, hm, List.length_append] at hshort
      omega
  rw [Format.split, if_neg hcomplete]
  dsimp only
  rw [htake, hdrop, hm, List.take_left, List.drop_left]

theorem Format.split_frames_append (hms : ∀ m ∈ ms, f.Fits m.length) :
    f.split (f.frames ms ++ t) = (ms ++ (f.split t).1, (f.split t).2) := by
  induction ms with
  | nil => rfl
  | cons m ms ih =>
    obtain ⟨hm, hms⟩ := List.forall_mem_cons.mp hms
    rw [Format.frames_cons, List.append_assoc, Format.split_frame_append hm, ih hms]
    rfl

/-- What `split` gives. -/
theorem Format.split_spec (s : List β) : s = f.frames (f.split s).1 ++ (f.split s).2 ∧
    (∀ m ∈ (f.split s).1, f.Fits m.length) ∧ f.Incomplete (f.split s).2 := by
  fun_induction Format.split f s with
  | case1 s h => exact ⟨rfl, by simp, h⟩
  | case2 s h n next ih =>
    have hwidth : f.width ≤ s.length := not_lt.mp fun hshort => h (Or.inl hshort)
    have hbody : n ≤ (s.drop f.width).length := not_lt.mp fun hshort => h (Or.inr hshort)
    have htake : (s.take f.width).length = f.width := List.length_take_of_le hwidth
    have hn : ((s.drop f.width).take n).length = n := List.length_take_of_le hbody
    obtain ⟨hs, hfits, hrest⟩ := ih
    refine ⟨?_, List.forall_mem_cons.mpr ⟨?_, hfits⟩, hrest⟩
    · calc s = s.take f.width ++ (s.drop f.width).take n ++ (s.drop f.width).drop n := by
            rw [List.append_assoc, List.take_append_drop, List.take_append_drop]
        _ = f.frame ((s.drop f.width).take n) ++ (f.frames next.1 ++ next.2) := by
            rw [← hs, Format.frame, hn, f.header_length _ htake]
        _ = _ := by rw [Format.frames_cons, List.append_assoc]
    · rw [hn]
      exact Format.fits_length htake

/-- **What `split` gives** is the only way to read the stream. -/
theorem Format.split_iff : f.split s = (ms, rest) ↔
    s = f.frames ms ++ rest ∧ (∀ m ∈ ms, f.Fits m.length) ∧ f.Incomplete rest := by
  constructor
  · intro h
    have hspec := f.split_spec s
    rwa [h] at hspec
  · rintro ⟨rfl, hfits, hrest⟩
    rw [Format.split_frames_append hfits, hrest.split, List.append_nil]

/-- **The pieces do not matter**: what has come after the first piece is read with what was left of it. -/
theorem Format.split_append (s t : List β) : f.split (s ++ t) =
    ((f.split s).1 ++ (f.split ((f.split s).2 ++ t)).1, (f.split ((f.split s).2 ++ t)).2) := by
  obtain ⟨hs, hfits, -⟩ := f.split_spec s
  conv_lhs => rw [hs, List.append_assoc]
  exact Format.split_frames_append hfits

theorem Format.split_prefix (s t : List β) : (f.split s).1 <+: (f.split (s ++ t)).1 := by
  rw [Format.split_append]
  exact List.prefix_append _ _

/-- Messages that fit at the start of a stream are the first ones that are read. -/
theorem Format.prefix_split (hms : ∀ m ∈ ms, f.Fits m.length) (h : f.frames ms <+: s) : ms <+: (f.split s).1 := by
  obtain ⟨t, rfl⟩ := h
  rw [Format.split_frames_append hms]
  exact List.prefix_append _ _

/-- **The round trip**: a stream of messages is read back if and only if their lengths can be written. -/
theorem Format.split_frames_iff : f.split (f.frames ms) = (ms, []) ↔ ∀ m ∈ ms, f.Fits m.length := by
  rw [Format.split_iff, List.append_nil]
  exact ⟨fun h => h.2.1, fun h => ⟨rfl, h, Format.incomplete_nil⟩⟩

end HexDns.Lib.Frames
