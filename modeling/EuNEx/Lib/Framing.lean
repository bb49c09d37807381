import EuNEx.Lib.Machine
import Mathlib.Data.List.Infix

/-!
# Frames in a stream

A stream is cut into frames: a frame ends at the first `stop` that comes at or after the first
occurrence of a pattern, wherever that is. `frames` cuts off all frames that are complete, and what
is left waits for more. If the stream comes in segments that end with `stop`, a frame ends with the
first segment that contains the pattern.
-/

namespace Framing

variable {α : Type*}

/-- Without `stop` in it, the pattern occurs in a segment or after it. -/
lemma prefix_segment {pat seg t : List α} {stop : α} (hstop : stop ∉ pat) :
    pat <+: seg ++ stop :: t ↔ pat <+: seg := by
  constructor
  · intro h
    rcases List.prefix_or_prefix_of_prefix h (List.prefix_append seg (stop :: t)) with h' | h'
    · exact h'
    · obtain ⟨u, rfl⟩ := h'
      rw [List.prefix_append_right_inj] at h
      cases u with
      | nil => simp
      | cons c u =>
        obtain ⟨rfl, -⟩ := List.cons_prefix_cons.mp h
        simp at hstop
  · intro h
    exact h.trans (List.prefix_append _ _)

variable [DecidableEq α]

/-- The first position from `pos` on at which the pattern occurs. -/
def find (pat : List α) : List α → ℕ → Option ℕ
  | s, 0 =>
    if pat <+: s then some 0
    else match s with
      | [] => none
      | _ :: s => (find pat s 0).map (· + 1)
  | [], _ + 1 => none
  | _ :: s, pos + 1 => (find pat s pos).map (· + 1)

/-- Cut off the first frame: from the pattern go on to `stop`. -/
def cut (pat : List α) (stop : α) (s : List α) : Option (List α × List α) :=
  (find pat s 0).bind fun i =>
    (find [stop] s i).map fun j => (s.take (j + 1), s.drop (j + 1))

/-- Cut off at most `n` frames. -/
def framesUpTo (pat : List α) (stop : α) : ℕ → List α → List (List α) × List α
  | 0, s => ([], s)
  | n + 1, s =>
    match cut pat stop s with
    | none => ([], s)
    | some (frame, rest) =>
      (frame :: (framesUpTo pat stop n rest).1, (framesUpTo pat stop n rest).2)

/-- All frames, and what is left. -/
def frames (pat : List α) (stop : α) (s : List α) : List (List α) × List α :=
  framesUpTo pat stop s.length s

variable {pat : List α} {stop c : α} {s t f r seg : List α}

/-! ### One frame -/

lemma find_stop (hs : stop ∉ seg) : find [stop] (seg ++ stop :: t) 0 = some seg.length := by
  induction seg with
  | nil => simp [find]
  | cons c seg ih =>
    simp only [List.mem_cons, not_or] at hs
    rw [List.cons_append, find, if_neg (by simp [hs.1]), ih hs.2]
    rfl

lemma cut_starting (h : pat <+: s) :
    cut pat stop s = (find [stop] s 0).map fun j => (s.take (j + 1), s.drop (j + 1)) := by
  cases s <;> simp [cut, find, h]

lemma cut_cons (h : ¬pat <+: c :: s) :
    cut pat stop (c :: s) = (cut pat stop s).map (Prod.map (c :: ·) id) := by
  have hfind : find pat (c :: s) 0 = (find pat s 0).map (· + 1) := by
    rw [find, if_neg h]
  rw [cut, cut, hfind]
  cases find pat s 0 with
  | none => rfl
  | some i =>
    simp only [Option.map_some, Option.bind_some, find, Option.map_map]
    rfl

lemma cut_nil : cut pat stop [] = none := by
  cases pat <;> simp [cut, find]

/-- A frame is found at the first element, or behind it. -/
lemma cut_cons_cases (h : cut pat stop (c :: s) = some (f, r)) :
    (pat <+: c :: s ∧ ∃ j, find [stop] (c :: s) 0 = some j ∧
      f = (c :: s).take (j + 1) ∧ r = (c :: s).drop (j + 1)) ∨
    ¬pat <+: c :: s ∧ ∃ f', cut pat stop s = some (f', r) ∧ f = c :: f' := by
  by_cases hstart : pat <+: c :: s
  · rw [cut_starting hstart] at h
    obtain ⟨j, hj, heq⟩ := Option.map_eq_some_iff.mp h
    obtain ⟨rfl, rfl⟩ := Prod.mk.inj heq
    exact Or.inl ⟨hstart, j, hj, rfl, rfl⟩
  · rw [cut_cons hstart] at h
    obtain ⟨⟨f', r'⟩, hcut, heq⟩ := Option.map_eq_some_iff.mp h
    obtain ⟨rfl, rfl⟩ := Prod.mk.inj heq
    exact Or.inr ⟨hstart, f', hcut, rfl⟩

/-- The rule for segments: a frame ends with a segment that contains the pattern, and goes on over
one that does not. -/
theorem cut_segment (hpat : pat ≠ []) (hstop : stop ∉ pat) (hseg : stop ∉ seg) :
    cut pat stop (seg ++ stop :: t)
      = if pat <:+: seg then some (seg ++ [stop], t)
        else (cut pat stop t).map (Prod.map (seg ++ stop :: ·) id) := by
  induction seg with
  | nil =>
    have hnot : ¬pat <+: stop :: t := by
      rw [show stop :: t = [] ++ stop :: t from rfl, prefix_segment hstop]
      simpa using hpat
    rw [List.nil_append, cut_cons hnot, if_neg (by simpa using hpat)]
    rfl
  | cons c seg ih =>
    by_cases hstart : pat <+: c :: seg
    · rw [cut_starting ((prefix_segment hstop).mpr hstart), find_stop hseg,
        if_pos hstart.isInfix]
      simp [List.take_append]
    · have hnot : ¬pat <+: c :: (seg ++ stop :: t) := by
        rwa [← List.cons_append, prefix_segment hstop]
      rw [List.cons_append, cut_cons hnot, ih (List.not_mem_of_not_mem_cons hseg)]
      by_cases hin : pat <:+: seg
      · simp [hin, List.infix_cons_iff]
      · simp only [List.infix_cons_iff, hstart, hin, or_self, if_false, Option.map_map]
        rfl

lemma isInfix_of_cut (h : cut pat stop s = some (f, r)) : pat <:+: s := by
  induction s generalizing f r with
  | nil =>
    rw [cut_nil] at h
    cases h
  | cons c s ih =>
    rcases cut_cons_cases h with ⟨hstart, -⟩ | ⟨-, f', hcut, -⟩
    · exact hstart.isInfix
    · exact List.infix_cons (ih hcut)

lemma find_stop_append {j : ℕ} (h : find [stop] s 0 = some j) (t : List α) :
    find [stop] (s ++ t) 0 = some j ∧ j < s.length := by
  induction s generalizing j with
  | nil => simp [find] at h
  | cons c s ih =>
    by_cases hc : stop = c
    · simp only [find, List.cons_prefix_cons, hc, List.nil_prefix, and_self, if_true] at h
      cases h
      simp [find, hc]
    · simp only [find, List.cons_prefix_cons, hc, false_and, if_false] at h
      obtain ⟨i, hi, rfl⟩ := Option.map_eq_some_iff.mp h
      obtain ⟨hfind, hlt⟩ := ih hi
      simp [find, hc, hfind, hlt]

/-- Segments without the pattern are part of the frame that follows. -/
theorem cut_segments {segs : List (List α)} (hpat : pat ≠ []) (hstop : stop ∉ pat)
    (hsegs : ∀ seg ∈ segs, stop ∉ seg ∧ ¬pat <:+: seg) :
    cut pat stop (segs.flatMap (· ++ [stop]) ++ t)
      = (cut pat stop t).map (Prod.map (segs.flatMap (· ++ [stop]) ++ ·) id) := by
  induction segs with
  | nil => cases h : cut pat stop t <;> simp [h, Prod.map]
  | cons seg segs ih =>
    obtain ⟨hseg, hnot⟩ := hsegs seg (by simp)
    rw [List.flatMap_cons, List.append_assoc, List.append_assoc, List.singleton_append,
      cut_segment hpat hstop hseg, if_neg hnot, ih fun seg hmem => hsegs seg (by simp [hmem]),
      Option.map_map]
    congr 1
    ext p <;> simp

/-- The end of a frame is not moved by what comes after it. -/
theorem cut_append (h : cut pat stop s = some (f, r)) (t : List α) :
    cut pat stop (s ++ t) = some (f, r ++ t) := by
  induction s generalizing f r with
  | nil =>
    rw [cut_nil] at h
    cases h
  | cons c s ih =>
    rcases cut_cons_cases h with ⟨hstart, j, hj, rfl, rfl⟩ | ⟨hstart, f', hcut, rfl⟩
    · obtain ⟨hj', hlt⟩ := find_stop_append hj t
      rw [cut_starting (hstart.trans (List.prefix_append _ t)), hj', Option.map_some,
        List.take_append_of_le_length hlt, List.drop_append_of_le_length hlt]
    · have hnot : ¬pat <+: c :: (s ++ t) := by
        -- the pattern would reach beyond `s`, but it has room in `s`
        intro hlong
        rcases List.prefix_or_prefix_of_prefix hlong (List.prefix_append (c :: s) t) with h' | h'
        · exact hstart h'
        · have hroom := (isInfix_of_cut hcut).length_le
          have hlong := h'.length_le
          simp only [List.length_cons] at hlong
          omega
      rw [List.cons_append, cut_cons hnot, ih hcut]
      rfl

/-- A frame is not empty. -/
lemma length_of_cut (h : cut pat stop s = some (f, r)) : s = f ++ r ∧ r.length < s.length := by
  induction s generalizing f r with
  | nil =>
    rw [cut_nil] at h
    cases h
  | cons c s ih =>
    rcases cut_cons_cases h with ⟨-, j, -, rfl, rfl⟩ | ⟨-, f', hcut, rfl⟩
    · refine ⟨(List.take_append_drop _ _).symm, ?_⟩
      simp only [List.length_drop, List.length_cons]
      omega
    · obtain ⟨hsplit, hlt⟩ := ih hcut
      refine ⟨by rw [List.cons_append, ← hsplit], ?_⟩
      rw [List.length_cons]
      exact hlt.trans (Nat.lt_succ_self _)

/-! ### All frames -/

lemma framesUpTo_eq {n : ℕ} (hn : s.length ≤ n) :
    framesUpTo pat stop n s = frames pat stop s := by
  have hgen : ∀ m n (s : List α), s.length ≤ m → s.length ≤ n →
      framesUpTo pat stop m s = framesUpTo pat stop n s := by
    intro m
    induction m with
    | zero =>
      intro n s hm hn
      have hs : s = [] := List.length_eq_zero_iff.mp (Nat.le_zero.mp hm)
      have hcut : cut pat stop [] = none := by cases pat <;> simp [cut, find]
      cases n <;> simp [framesUpTo, hs, hcut]
    | succ m ih =>
      intro n s hm hn
      cases hcut : cut pat stop s with
      | none => cases n <;> simp [framesUpTo, hcut]
      | some p =>
        have hlt := (length_of_cut (f := p.1) (r := p.2) hcut).2
        cases n with
        | zero => omega
        | succ n => simp only [framesUpTo, hcut, ih n p.2 (by omega) (by omega)]
  exact hgen n s.length s hn le_rfl

lemma frames_of_none (h : cut pat stop s = none) : frames pat stop s = ([], s) := by
  rw [frames]
  cases s.length <;> simp [framesUpTo, h]

theorem frames_of_some (h : cut pat stop s = some (f, r)) :
    frames pat stop s = (f :: (frames pat stop r).1, (frames pat stop r).2) := by
  have hlt := (length_of_cut h).2
  rw [frames]
  cases hlen : s.length with
  | zero => omega
  | succ n =>
    simp only [framesUpTo, h]
    rw [framesUpTo_eq (by omega)]

/-- What is left after the frames has no frame in it. -/
lemma cut_left (s : List α) : cut pat stop (frames pat stop s).2 = none := by
  induction hn : s.length using Nat.strong_induction_on generalizing s with
  | _ n ih =>
    cases hcut : cut pat stop s with
    | none => rwa [frames_of_none hcut]
    | some p =>
      rw [frames_of_some (f := p.1) (r := p.2) hcut]
      exact ih _ (hn ▸ (length_of_cut (f := p.1) (r := p.2) hcut).2) p.2 rfl

/-- The frames of a stream that goes on: what was left is looked at again. -/
theorem frames_append (s t : List α) : frames pat stop (s ++ t)
    = ((frames pat stop s).1 ++ (frames pat stop ((frames pat stop s).2 ++ t)).1,
      (frames pat stop ((frames pat stop s).2 ++ t)).2) := by
  induction hn : s.length using Nat.strong_induction_on generalizing s with
  | _ n ih =>
    cases hcut : cut pat stop s with
    | none => simp [frames_of_none hcut]
    | some p =>
      rw [frames_of_some (f := p.1) (r := p.2) hcut, frames_of_some (cut_append hcut t),
        ih _ (hn ▸ (length_of_cut (f := p.1) (r := p.2) hcut).2) p.2 rfl]
      rfl

lemma flatten_frames (pat : List α) (stop : α) (s : List α) :
    (frames pat stop s).1.flatten ++ (frames pat stop s).2 = s := by
  induction hn : s.length using Nat.strong_induction_on generalizing s with
  | _ n ih =>
    cases hcut : cut pat stop s with
    | none => simp [frames_of_none hcut]
    | some p =>
      obtain ⟨hsplit, hlt⟩ := length_of_cut (f := p.1) (r := p.2) hcut
      rw [frames_of_some (f := p.1) (r := p.2) hcut, List.flatten_cons, List.append_assoc,
        ih _ (hn ▸ hlt) p.2 rfl]
      exact hsplit.symm

/-! ### Streams in chunks -/

/-- A reader takes a chunk: it puts it behind what was left and cuts off the frames. -/
def feed (pat : List α) (stop : α) (left chunk : List α) : List α × List (List α) :=
  ((frames pat stop (left ++ chunk)).2, (frames pat stop (left ++ chunk)).1)

/-- It does not matter in which chunks a stream comes. -/
theorem run_feed {left : List α} (hleft : cut pat stop left = none) (chunks : List (List α)) :
    Machine.run (feed pat stop) left chunks
      = ((frames pat stop (left ++ chunks.flatten)).2,
        (frames pat stop (left ++ chunks.flatten)).1) := by
  induction chunks generalizing left with
  | nil => simp [frames_of_none hleft]
  | cons chunk chunks ih =>
    rw [Machine.run_cons, feed, ih (cut_left _), List.flatten_cons, ← List.append_assoc left,
      frames_append (left ++ chunk)]

end Framing
