import Mathlib.Data.List.Basic

/-!
# Streams of Frames

A stream that is the concatenation of one frame for each item, and a reader that takes the
next item off a stream. If the reader reads every whole frame and rejects every frame that
is cut short, then on a stream that ends anywhere it reads exactly the items whose frames
are whole, and tells an end between two frames from one inside a frame
(`readStream_take`).
-/

namespace HotIndex.Lib

universe u

/-- How the reading of a stream ends. -/
inductive ReadEnd (ε : Type u) where
  /-- All calls that were asked for returned an item -/
  | limit
  /-- The reader found the end of the stream -/
  | finished
  | failed (error : ε)
  deriving DecidableEq, Repr

section Streams

variable {α β ε : Type*}

/-- Call a reader up to `calls` times, as long as it returns items. -/
def readStream (read : List β → Except ε (Option α × List β)) :
    Nat → List β → List α × ReadEnd ε
  | 0, _ => ([], .limit)
  | calls + 1, stream =>
    match read stream with
    | .error error => ([], .failed error)
    | .ok (none, _) => ([], .finished)
    | .ok (some item, rest) =>
      let (items, ending) := readStream read calls rest
      (item :: items, ending)

/-- The number of items whose frames lie within the first `n` elements of their stream. -/
def wholeFrames (frame : α → List β) : List α → Nat → Nat
  | [], _ => 0
  | item :: items, n =>
    if (frame item).length ≤ n then wholeFrames frame items (n - (frame item).length) + 1 else 0

/-- Where the frame of the last of the first `count` items ends. -/
def framesLength (frame : α → List β) (items : List α) (count : Nat) : Nat :=
  ((items.take count).flatMap frame).length

/-- The reader reads the frame of an item off any stream, and rejects what is left of the
frame where the stream ends inside it, with an error that says so. -/
structure ReadsFrame (read : List β → Except ε (Option α × List β)) (frame : α → List β)
    (SaysCut : ε → Prop) (item : α) : Prop where
  whole : ∀ rest, read (frame item ++ rest) = .ok (some item, rest)
  cut : ∀ m, 0 < m → m < (frame item).length →
    ∃ error, SaysCut error ∧ read ((frame item).take m) = .error error

/-! ## Whole frames -/

@[simp] theorem framesLength_zero (frame : α → List β) (items : List α) :
    framesLength frame items 0 = 0 := rfl

theorem framesLength_cons_succ (frame : α → List β) (item : α) (items : List α) (count : Nat) :
    framesLength frame (item :: items) (count + 1) =
      (frame item).length + framesLength frame items count := by
  simp [framesLength]

theorem wholeFrames_le_length (frame : α → List β) (items : List α) (n : Nat) :
    wholeFrames frame items n ≤ items.length := by
  induction items generalizing n with
  | nil => exact Nat.le_refl 0
  | cons item items ih =>
    rw [wholeFrames]
    split_ifs
    · exact Nat.succ_le_succ (ih _)
    · exact Nat.zero_le _

/-- The frame of an item lies within the first `n` elements if and only if the item is one of
the first `wholeFrames` many. -/
theorem lt_wholeFrames_iff (frame : α → List β) (items : List α) (n i : Nat) :
    i < wholeFrames frame items n ↔
      i < items.length ∧ framesLength frame items (i + 1) ≤ n := by
  induction items generalizing n i with
  | nil => simp [wholeFrames]
  | cons item items ih =>
    -- each item takes its frame off the `n` elements that are left
    rw [wholeFrames, framesLength_cons_succ, List.length_cons]
    split_ifs with hwhole
    · cases i with
      | zero => simp [hwhole]
      | succ i =>
        rw [Nat.succ_lt_succ_iff, Nat.succ_lt_succ_iff, ih]
        apply and_congr_right
        intro _
        omega
    · constructor
      · exact nofun
      · intro h
        omega

theorem framesLength_wholeFrames_le (frame : α → List β) (items : List α) (n : Nat) :
    framesLength frame items (wholeFrames frame items n) ≤ n := by
  cases hwhole : wholeFrames frame items n with
  | zero => simp
  | succ i => exact ((lt_wholeFrames_iff frame items n i).1 (by omega)).2

theorem framesLength_mono (frame : α → List β) (items : List α) {i j : Nat} (hij : i ≤ j) :
    framesLength frame items i ≤ framesLength frame items j := by
  obtain ⟨rest, hrest⟩ := List.take_prefix_take_left (l := items) hij
  unfold framesLength
  rw [← hrest, List.flatMap_append, List.length_append]
  exact Nat.le_add_right _ _

/-- A stream ends between two frames if and only if it ends behind its whole frames. -/
theorem exists_eq_framesLength_iff (frame : α → List β) (items : List α) (n : Nat) :
    (∃ count, n = framesLength frame items count) ↔
      n = framesLength frame items (wholeFrames frame items n) := by
  constructor
  · intro ⟨count, hcount⟩
    have hbehind := framesLength_wholeFrames_le frame items n
    have hlast := mt (lt_wholeFrames_iff frame items n (wholeFrames frame items n)).2
      (Nat.lt_irrefl _)
    by_cases hle : count ≤ wholeFrames frame items n
    · have hmono := framesLength_mono frame items hle
      omega
    · -- the next frame would end at `n` at the latest, so there is none
      have hnext := framesLength_mono frame items (Nat.succ_le_of_lt (Nat.lt_of_not_le hle))
      rw [Nat.succ_eq_add_one] at hnext
      have hall : items.length ≤ wholeFrames frame items n := by
        by_contra hlt
        exact hlast ⟨by omega, by omega⟩
      have hcounts : framesLength frame items count =
          framesLength frame items (wholeFrames frame items n) := by
        unfold framesLength
        rw [List.take_of_length_le hall, List.take_of_length_le (by omega)]
      rw [hcount] at hcounts ⊢
      exact hcounts
  · intro h
    exact ⟨_, h⟩

/-! ## Cut streams -/

/-- **Cut streams.** On the first `n` elements of its stream, a reader of frames returns the
items whose frames are whole. Behind them it finds the end if `n` lies between two frames,
and otherwise it fails. -/
theorem readStream_take {read : List β → Except ε (Option α × List β)} {frame : α → List β}
    {SaysCut : ε → Prop} (hnil : read [] = .ok (none, [])) {items : List α}
    (hframes : ∀ item ∈ items, ReadsFrame read frame SaysCut item) {n : Nat}
    (hn : n ≤ (items.flatMap frame).length) :
    ∃ ending,
      (n = framesLength frame items (wholeFrames frame items n) → ending = .finished) ∧
      (n ≠ framesLength frame items (wholeFrames frame items n) →
        ∃ error, SaysCut error ∧ ending = .failed error) ∧
      ∀ calls, readStream read calls ((items.flatMap frame).take n) =
        (items.take (min calls (wholeFrames frame items n)),
          if calls ≤ wholeFrames frame items n then .limit else ending) := by
  -- the induction is on the items: a cut behind the first frame is a cut of the rest
  induction items generalizing n with
  | nil =>
    have hzero : n = 0 := by simpa using hn
    subst hzero
    refine ⟨.finished, fun _ => rfl, fun h => absurd rfl h, fun calls => ?_⟩
    cases calls with
    | zero => rfl
    | succ calls => simp [readStream, hnil, wholeFrames]
  | cons item items ih =>
    have hitem := hframes item List.mem_cons_self
    rw [List.flatMap_cons] at hn ⊢
    rw [wholeFrames]
    split_ifs with hwhole
    · -- the first frame is whole: read it and go on behind it
      have hrest : n - (frame item).length ≤ (items.flatMap frame).length := by
        rw [List.length_append] at hn
        omega
      obtain ⟨ending, hfinished, hfailed, hread⟩ :=
        ih (fun item' h => hframes item' (List.mem_cons_of_mem _ h)) hrest
      rw [framesLength_cons_succ]
      refine ⟨ending, fun h => hfinished (by omega), fun h => hfailed (by omega),
        fun calls => ?_⟩
      cases calls with
      | zero => simp [readStream]
      | succ calls =>
        have hsplit : (frame item ++ items.flatMap frame).take n =
            frame item ++ (items.flatMap frame).take (n - (frame item).length) := by
          rw [List.take_append, List.take_of_length_le hwhole]
        rw [hsplit, readStream, hitem.whole]
        simp only [hread]
        rw [Nat.add_min_add_right, List.take_succ_cons]
        simp
    · -- the stream ends in the first frame, or before it
      have hcut : (frame item ++ items.flatMap frame).take n = (frame item).take n :=
        List.take_append_of_le_length (by omega)
      rw [hcut, framesLength_zero]
      by_cases hn0 : n = 0
      · subst hn0
        refine ⟨.finished, fun _ => rfl, fun h => absurd rfl h, fun calls => ?_⟩
        cases calls with
        | zero => rfl
        | succ calls => simp [readStream, hnil]
      · obtain ⟨error, hcutError, herror⟩ := hitem.cut n (by omega) (by omega)
        refine ⟨.failed error, fun h => absurd h hn0, fun _ => ⟨error, hcutError, rfl⟩,
          fun calls => ?_⟩
        cases calls with
        | zero => rfl
        | succ calls => simp [readStream, herror]

end Streams

end HotIndex.Lib
