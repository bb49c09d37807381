import EuNEx.Clearing.Control

/-!
# One order of a member at a time

The switches of the AI trader keep it from the members that are active on the page, and with that
from spending the same capital twice: as long as there is one loop, and a member that logs in
waits for the loop to be done with it, no two orders of a member are under way at the same time.
-/

namespace EuNEx.Clearing

variable {ι M D : Type*}

/-- A thread is with a member as long as before, or begins. -/
lemma Desks.memberId_step [DecidableEq ι] [DecidableEq M] [DecidableEq D] {s : Desks ι M D}
    {symbols : List (ℕ × List Char)} {input : DeskInput ι M D} {i : ι} {m : M}
    (hm : ((s.step symbols input).1.jobs i).memberId = some m) :
    (s.jobs i).memberId = some m ∨ ∃ intent, input = .begin i m intent := by
  by_cases hi : input.thread = some i
  · cases input with
    | begin thread m' intent =>
      obtain rfl : thread = i := Option.some.inj hi
      rw [step] at hm
      split at hm
      · rw [goOn_self] at hm
        exact Or.inr ⟨intent, by rw [Option.some.inj hm]⟩
      · exact Or.inl hm
    | next thread tradingDate =>
      obtain rfl : thread = i := Option.some.inj hi
      have hbusy : (s.next symbols thread tradingDate).1.jobs thread ≠ .idle := by
        intro hidle
        rw [step, hidle] at hm
        cases hm
      exact Or.inl ((memberId_next hbusy).symm.trans hm)
    | fail thread =>
      obtain rfl : thread = i := Option.some.inj hi
      rw [step, goOn_self] at hm
      cases hm
    | other request => cases hi
  · rw [(step_of_ne symbols hi).1] at hm
    exact Or.inl hm

namespace ClearingHouse

/-- There is one loop at a time. A member orders on the page after its login and before its logout,
one order at a time, and not while a loop is still with it. What is ordered is fair. -/
def Orderly (s : ClearingHouse ι M D) : HouseInput ι M D → Prop
  | .start => ∀ loop ∈ s.loops, loop = .ended
  | .order _ m _ =>
    m ∈ s.humanActive ∧ (∀ page, (s.desks.jobs (.inr page)).memberId ≠ some m) ∧
      ∀ n < s.loops.length, m ∉ s.asked n ∧ (s.desks.jobs (.inl n)).memberId ≠ some m
  | .logout m => ∀ page, (s.desks.jobs (.inr page)).memberId ≠ some m
  | .turn n _ _ => (s.desks.jobs (.inl n)).Fair s.desks.db
  | .page page _ => (s.desks.jobs (.inr page)).Fair s.desks.db
  | .stop | .suspend | .resume | .login _ | .fail _ | .other _ => True

instance [Fintype ι] [DecidableEq M] (s : ClearingHouse ι M D) : DecidablePred s.Orderly
  | .start => inferInstanceAs (Decidable (∀ loop ∈ s.loops, loop = .ended))
  | .order _ m _ => inferInstanceAs (Decidable (m ∈ s.humanActive ∧
      (∀ page, (s.desks.jobs (.inr page)).memberId ≠ some m) ∧
      ∀ n < s.loops.length, m ∉ s.asked n ∧ (s.desks.jobs (.inl n)).memberId ≠ some m))
  | .logout m => inferInstanceAs (Decidable (∀ page, (s.desks.jobs (.inr page)).memberId ≠ some m))
  | .turn n _ _ => inferInstanceAs (Decidable ((s.desks.jobs (.inl n)).Fair s.desks.db))
  | .page page _ => inferInstanceAs (Decidable ((s.desks.jobs (.inr page)).Fair s.desks.db))
  | .stop | .suspend | .resume | .login _ | .fail _ | .other _ => inferInstanceAs (Decidable True)

/-- No two threads are with the same member. -/
structure Exclusive (s : ClearingHouse ι M D) : Prop where
  coherent : s.Coherent
  single : ∀ (a b : ℕ) (la lb : Loop M), s.loops[a]? = some la → s.loops[b]? = some lb →
    la ≠ .ended → lb ≠ .ended → a = b
  page : ∀ page m, (s.desks.jobs (.inr page)).memberId = some m →
    m ∈ s.humanActive ∧ ∀ n, m ∉ s.asked n

section

variable [DecidableEq ι] [DecidableEq M] [DecidableEq D] {s s' : ClearingHouse ι M D}
  {members : List M} {interval : ℕ} {symbols : List (ℕ × List Char)} {n : ℕ}
  {loop : Loop M} {intent : Intent} {tradingDate : D} {input : HouseInput ι M D}
  {opening : Table M ℚ}

variable (s members interval symbols n intent tradingDate loop) in
/-- What a loop does at its desk. -/
lemma desks_turn : (s.turn members interval symbols n intent tradingDate loop).1.desks = s.desks ∨
    (∃ m ms, loop = .asking m ms ∧
      (s.turn members interval symbols n intent tradingDate loop).1.desks
        = (s.desks.step symbols (.begin (.inl n) m intent)).1) ∨
    (s.turn members interval symbols n intent tradingDate loop).1.desks
      = (s.desks.step symbols (.next (.inl n) tradingDate)).1 := by
  cases loop with
  | checking | passing | ended => exact Or.inl rfl
  | visiting ms => cases ms <;> exact Or.inl rfl
  | asking m ms =>
    rw [turn]
    split
    · exact Or.inr (Or.inl ⟨m, ms, rfl, rfl⟩)
    · exact Or.inl rfl
  | trading m ms =>
    rw [turn]
    split
    · exact Or.inl rfl
    · exact Or.inr (Or.inr rfl)
  | waiting i => cases i <;> exact Or.inl rfl

/-- The desks of the page are left alone. -/
lemma jobs_turn (page : ι) :
    (s.turn members interval symbols n intent tradingDate loop).1.desks.jobs (.inr page)
      = s.desks.jobs (.inr page) := by
  rcases desks_turn s members interval symbols n loop intent tradingDate with
    h | ⟨m, ms, -, h⟩ | h
  · rw [h]
  · rw [h]
    exact (Desks.step_of_ne symbols (by simp [DeskInput.thread])).1
  · rw [h]
    exact (Desks.step_of_ne symbols (by simp [DeskInput.thread])).1

omit [DecidableEq ι] [DecidableEq M] [DecidableEq D] in
/-- A loop that asks for a member is the only thread that is with it. -/
lemma Exclusive.careful {m : M} {ms : List M} (h : s.Exclusive)
    (hloop : s.loops[n]? = some (.asking m ms)) :
    s.desks.Careful (.begin (.inl n) m intent) := by
  intro i hi
  cases i with
  | inl k =>
    have hbusy : s.desks.jobs (.inl k) ≠ .idle := by
      intro hidle
      rw [hidle] at hi
      cases hi
    obtain ⟨m', ms', hk, -⟩ := h.coherent k hbusy
    obtain rfl := h.single n k _ _ hloop hk (by simp) (by simp)
    rw [hloop] at hk
    cases hk
  | inr page =>
    refine (h.page page m hi).2 n ?_
    rw [asked_of_some hloop]
    exact List.mem_singleton_self m

omit [DecidableEq ι] [DecidableEq M] [DecidableEq D] in
/-- There are no loops but those that have been started. -/
lemma asked_of_le (hn : s.loops.length ≤ n) : s.asked n = [] := by
  rw [asked, List.getElem?_eq_none hn]
  rfl

omit [DecidableEq ι] [DecidableEq M] [DecidableEq D] in
/-- A member that orders on the page is with no other thread. -/
lemma Exclusive.careful_order {page : ι} {m : M} (h : s.Exclusive)
    (horderly : s.Orderly (.order page m intent)) :
    s.desks.Careful (.begin (.inr page) m intent) := by
  intro i hi
  cases i with
  | inl n =>
    have hbusy : s.desks.jobs (.inl n) ≠ .idle := by
      intro hidle
      rw [hidle] at hi
      cases hi
    obtain ⟨m', ms, hloop, -⟩ := h.coherent n hbusy
    have hn : n < s.loops.length := (List.getElem?_eq_some_iff.mp hloop).1
    exact (horderly.2.2 n hn).2 hi
  | inr page' => exact horderly.2.1 page' hi

lemma Exclusive.inv_turn (h : s.Exclusive) (hinv : s.desks.Inv opening)
    (hfair : (s.desks.jobs (.inl n)).Fair s.desks.db) (hloop : s.loops[n]? = some loop) :
    (s.turn members interval symbols n intent tradingDate loop).1.desks.Inv opening := by
  rcases desks_turn s members interval symbols n loop intent tradingDate with
    hd | ⟨m, ms, rfl, hd⟩ | hd
  · exact hd.symm ▸ hinv
  · rw [hd]
    exact hinv.step (h.careful hloop)
  · rw [hd]
    exact hinv.step hfair

/-- The step keeps the books of all members solvent. -/
lemma Exclusive.inv_step (h : s.Exclusive) (hinv : s.desks.Inv opening)
    (horderly : s.Orderly input) :
    (s.step members interval symbols input).1.desks.Inv opening := by
  cases input with
  | turn k intent tradingDate =>
    rw [step]
    split
    · exact h.inv_turn hinv horderly ‹_›
    · exact hinv
  | order page m intent => exact hinv.step (h.careful_order horderly)
  | page page tradingDate => exact hinv.step horderly
  | fail thread => exact hinv.step trivial
  | other request => exact hinv.step trivial
  | start | stop | suspend | resume | login | logout => exact hinv

/-- A loop asks only for members that are not active. -/
lemma asked_turn {m : M} (hloop : s.loops[n]? = some loop)
    (hm : m ∈ (s.turn members interval symbols n intent tradingDate loop).1.asked n) :
    m ∈ s.asked n ∨ m ∉ s.humanActive := by
  have hgo {loop' : Loop M} (hm : m ∈ (s.goTo n loop').asked n) : m ∈ loop'.asked := by
    rwa [asked_of_some (goTo_self hloop)] at hm
  cases loop with
  | checking =>
    have hnone := hgo hm
    split at hnone <;> cases hnone
  | passing =>
    have hnone := hgo hm
    split at hnone <;> cases hnone
  | visiting ms =>
    cases ms with
    | nil => cases hgo hm
    | cons m' ms =>
      have hasked := hgo hm
      split at hasked
      · cases hasked
      · rename_i hm'
        exact Or.inr (List.mem_singleton.mp hasked ▸ hm')
  | asking m' ms =>
    rw [turn] at hm
    split at hm
    · cases hgo hm
    · cases hgo hm
  | trading m' ms =>
    rw [turn] at hm
    split at hm
    · cases hgo hm
    · exact Or.inl hm
  | waiting i =>
    cases i with
    | zero => cases hgo hm
    | succ i =>
      have hnone := hgo hm
      split at hnone <;> cases hnone
  | ended => exact Or.inl hm

lemma Exclusive.turn (h : s.Exclusive) (hloop : s.loops[n]? = some loop)
    (hcoherent : (s.turn members interval symbols n intent tradingDate loop).1.Coherent) :
    (s.turn members interval symbols n intent tradingDate loop).1.Exclusive where
  coherent := hcoherent
  single a b la lb ha hb hla hlb := by
    by_cases hended : loop = .ended
    · subst hended
      exact h.single a b la lb ha hb hla hlb
    -- no other loop is going on
    have hother (k : ℕ) (lk : Loop M)
        (hk : (s.turn members interval symbols n intent tradingDate loop).1.loops[k]? = some lk)
        (hlk : lk ≠ .ended) : k = n := by
      by_contra hne
      rw [(turn_frame (Ne.symm hne)).loop] at hk
      exact hne (h.single k n lk loop hk hloop hlk hended)
    rw [hother a la ha hla, hother b lb hb hlb]
  page page m hm := by
    rw [jobs_turn] at hm
    obtain ⟨hactive, hasked⟩ := h.page page m hm
    refine ⟨?_, fun k hk => ?_⟩
    · rw [switches_turn.2.2]
      exact hactive
    · by_cases hkn : k = n
      · subst hkn
        rcases asked_turn hloop hk with hk | hk
        · exact hasked k hk
        · exact hk hactive
      · rw [asked, (turn_frame (Ne.symm hkn)).loop] at hk
        exact hasked k hk

omit [DecidableEq ι] [DecidableEq M] [DecidableEq D] in
/-- A step that leaves the loops as they are. -/
lemma Exclusive.of_jobs (h : s.Exclusive) (hcoherent : s'.Coherent) (hloops : s'.loops = s.loops)
    (hactive : s.humanActive ⊆ s'.humanActive)
    (hjobs : ∀ page m, (s'.desks.jobs (.inr page)).memberId = some m →
      (s.desks.jobs (.inr page)).memberId = some m ∨
        m ∈ s.humanActive ∧ ∀ n, m ∉ s.asked n) : s'.Exclusive where
  coherent := hcoherent
  single := hloops ▸ h.single
  page page m hm := by
    have hasked (n : ℕ) : s'.asked n = s.asked n := by
      rw [asked, asked, hloops]
    have hwas : m ∈ s.humanActive ∧ ∀ n, m ∉ s.asked n :=
      (hjobs page m hm).elim (h.page page m) id
    exact ⟨hactive hwas.1, fun n => hasked n ▸ hwas.2 n⟩

/-- The loop that is started is the only one that goes on. -/
lemma Exclusive.start (h : s.Exclusive) (hended : ∀ loop ∈ s.loops, loop = .ended)
    (hcoherent : (s.step members interval symbols .start).1.Coherent) :
    (s.step members interval symbols .start).1.Exclusive where
  coherent := hcoherent
  single a b la lb ha hb hla hlb := by
    have hnew (k : ℕ) (lk : Loop M) (hk : (s.loops ++ [.checking])[k]? = some lk)
        (hlk : lk ≠ .ended) : k = s.loops.length := by
      rw [List.getElem?_append] at hk
      split at hk
      · exact absurd (hended lk (List.mem_of_getElem? hk)) hlk
      · have hlt := (List.getElem?_eq_some_iff.mp hk).1
        rw [List.length_singleton] at hlt
        omega
    rw [hnew a la ha hla, hnew b lb hb hlb]
  page page m hm := by
    obtain ⟨hactive, hasked⟩ := h.page page m hm
    exact ⟨hactive, fun n hn => hasked n (asked_start (s := s) ▸ hn)⟩

lemma Exclusive.step (h : s.Exclusive) (horderly : s.Orderly input) :
    (s.step members interval symbols input).1.Exclusive := by
  have hcoherent : (s.step members interval symbols input).1.Coherent := h.coherent.step
  cases input with
  | start => exact h.start horderly hcoherent
  | turn k intent tradingDate =>
    cases hloop : s.loops[k]? with
    | none =>
      have hsame : s.step members interval symbols (.turn k intent tradingDate) = (s, []) := by
        rw [ClearingHouse.step, hloop]
      rw [hsame]
      exact h
    | some loop =>
      have hturn : s.step members interval symbols (.turn k intent tradingDate)
          = s.turn members interval symbols k intent tradingDate loop := by
        rw [ClearingHouse.step, hloop]
      rw [hturn] at hcoherent ⊢
      exact h.turn hloop hcoherent
  | login m =>
    exact h.of_jobs hcoherent rfl (Finset.subset_insert m _) fun _ _ => Or.inl
  | logout m =>
    refine ⟨hcoherent, h.single, fun page m' hm' => ?_⟩
    obtain ⟨hactive, hasked⟩ := h.page page m' hm'
    refine ⟨Finset.mem_erase.mpr ⟨?_, hactive⟩, hasked⟩
    rintro rfl
    exact horderly page hm'
  | order page m intent =>
    refine h.of_jobs hcoherent rfl (Finset.Subset.refl _) fun page' m' hm' => ?_
    rcases Desks.memberId_step hm' with hm' | ⟨intent', hbegin⟩
    · exact Or.inl hm'
    · obtain rfl : m = m' := (DeskInput.begin.inj hbegin).2.1
      refine Or.inr ⟨horderly.1, fun n => ?_⟩
      rcases lt_or_ge n s.loops.length with hn | hn
      · exact (horderly.2.2 n hn).1
      · rw [asked_of_le hn]
        exact List.not_mem_nil
  | page page tradingDate =>
    refine h.of_jobs hcoherent rfl (Finset.Subset.refl _) fun page' m' hm' => ?_
    exact Or.inl ((Desks.memberId_step hm').resolve_right (by simp))
  | fail thread =>
    refine h.of_jobs hcoherent rfl (Finset.Subset.refl _) fun page' m' hm' => ?_
    exact Or.inl ((Desks.memberId_step hm').resolve_right (by simp))
  | stop | suspend | resume | other => exact ⟨hcoherent, h.single, h.page⟩

end

end ClearingHouse

section

variable [DecidableEq ι] [DecidableEq M] [DecidableEq D]

end

/-- A member that has logged in buys on the page. The loop passes it by and buys for another. -/
def sideBySide : List (HouseInput Unit ℕ ℕ) :=
  let buys := .ai .random [(['X'], ⟨98, 100⟩)] [] ⟨0, 0, 0⟩ ['B']
  [.other (.submit 1 ⟨.sell, .limit, 100, 20, .day, []⟩), .login 0, .start,
    .order () 0 (.human ['X'] (some .buy) 8 100 ['A'])] ++
  (List.replicate 4 [.page () 0, .turn 0 buys 0]).flatten ++ List.replicate 6 (.turn 0 buys 0)

example :
    let s : ClearingHouse Unit ℕ ℕ := { desks := { db := Database.initDb [(0, 1000), (1, 10000)] } }
    let db := (Machine.run (ClearingHouse.step [0, 1] 60 [(1, ['X'])]) s sideBySide).1.desks.db
    db.members 0 = some 200 ∧ db.members 1 = some 8998 := by
  decide +kernel

end EuNEx.Clearing
