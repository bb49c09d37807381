import EuNEx.Recovery.RecoveryProxy
import Mathlib.Data.List.Range

/-!
# The log as a sequence

A cause takes its number from its own proxy before the operation, and its place in the store after
it. Where operations return and call no cause, each proxy therefore appends 1, 2, 3, … A mirror
processes the same events as its master and appends them too, under the same numbers, so the log
of both is no sequence; that of a single proxy is.
-/

namespace EuNEx

variable {ι : Type} [DecidableEq ι] {inside : List ℕ} {r : Recovery ι}

/-- The fragments have the numbers 1, 2, 3, … in the order in which they were appended. -/
def GapFree (store : FragmentStore) : Prop :=
  store.map (fun frag => frag.sequenceNumber.toNat) = List.range' 1 store.length

instance (store : FragmentStore) : Decidable (GapFree store) :=
  inferInstanceAs (Decidable (_ = _))

namespace RecoveryEvent

/-- The fragment that is appended. -/
def fragment? : RecoveryEvent ι → Option Fragment
  | appended _ _ frag => some frag
  | executed _ => none

/-- The fragment that a proxy appends. -/
def fragmentOf? (who : ι) : RecoveryEvent ι → Option Fragment
  | appended who' _ frag => if who' = who then some frag else none
  | executed _ => none

end RecoveryEvent

/-- The fragments that a proxy has appended. -/
def appendedBy (who : ι) (events : List (RecoveryEvent ι)) : FragmentStore :=
  events.filterMap (RecoveryEvent.fragmentOf? who)

/-- The operations of causes return, and call no cause. -/
def CauseOp.Flat : CauseOp ι → (inside : List ℕ) → Recovery ι → Prop
  | done _, _, _ => True
  | throw, _, _ => True
  | look k, inside, r => (k r.proxies r.store).Flat inside r
  | setMaster who v k, inside, r => k.Flat inside (r.setMaster who v)
  | cause who persistenceId payload op k, inside, r =>
    let frag := (r.proxies who).fragment persistenceId payload
    let op := op frag.chainId frag.sequenceNumber
    let outcome := op.run (r.causes :: inside) (r.number who)
    let (inner, returned) := outcome.append who r.causes frag
    inside = [] ∧ op.Flat (r.causes :: inside) (r.number who) ∧ outcome.result.isSome ∧
      (k returned).Flat inside inner.state
  | effect who fn k, inside, r =>
    if (r.proxies who).isMaster then
      let inner := fn.run inside r
      fn.Flat inside r ∧ (k inner.result.isSome).Flat inside inner.state
    else (k true).Flat inside r
  | recoveryEffect who fn k, inside, r =>
    if !(r.proxies who).isMaster then
      let inner := fn.run inside r
      fn.Flat inside r ∧ (k inner.result.isSome).Flat inside inner.state
    else (k true).Flat inside r

/-! ### What is appended -/

omit [DecidableEq ι] in
lemma RecoveryOutcome.store_append {inner : RecoveryOutcome ι} {who : ι} {cause : ℕ}
    {frag : Fragment} {store : FragmentStore}
    (h : inner.state.store = store ++ inner.events.filterMap RecoveryEvent.fragment?) :
    (inner.append who cause frag).1.state.store
      = store ++ (inner.append who cause frag).1.events.filterMap RecoveryEvent.fragment? := by
  rw [append]
  cases inner.result with
  | none => exact h
  | some nextCount =>
    simp only [Recovery.append, h, List.filterMap_append, List.append_assoc]
    rfl

/-- The store grows by the fragments that are appended. -/
lemma CauseOp.store_run (o : CauseOp ι) (inside : List ℕ) (r : Recovery ι) :
    (o.run inside r).state.store
      = r.store ++ (o.run inside r).events.filterMap RecoveryEvent.fragment? := by
  induction o generalizing inside r with
  | done nextCount => simp [run]
  | throw => simp [run]
  | look k ih => exact ih _ _ _ _
  | setMaster who v k ih => exact ih inside (r.setMaster who v)
  | cause who persistenceId payload op k ihop ihk =>
    simp only [run]
    rw [ihk, RecoveryOutcome.store_append (ihop _ _ _ _), List.filterMap_append, List.append_assoc]
    rfl
  | effect who fn k ihfn ihk =>
    rw [run]
    split
    · simp only [ihk, ihfn, List.cons_append, RecoveryEvent.fragment?, List.filterMap_cons,
        List.filterMap_append, List.append_assoc]
    · exact ihk _ _ _
  | recoveryEffect who fn k ihfn ihk =>
    rw [run]
    split
    · simp only [ihk, ihfn, List.filterMap_append, List.append_assoc]
    · exact ihk _ _ _

/-! ### The numbers of a proxy -/

/-- The fragments have the numbers after a number, modulo `2 ^ 64`. -/
def Consecutive (number : UInt64) (frags : FragmentStore) : Prop :=
  frags.map Fragment.sequenceNumber
    = (List.range' 1 frags.length).map fun n => number + UInt64.ofNat n

lemma Consecutive.append {number : UInt64} {frags frags' : FragmentStore}
    (h : Consecutive number frags) (h' : Consecutive (number + UInt64.ofNat frags.length) frags') :
    Consecutive number (frags ++ frags') := by
  have hrange : List.range' 1 (frags ++ frags').length
      = List.range' 1 frags.length ++ (List.range' 1 frags'.length).map (frags.length + ·) := by
    rw [List.length_append, List.map_add_range', Nat.add_comm _ 1, List.range'_append_1]
  rw [Consecutive, List.map_append, hrange, List.map_append, h, h', List.map_map]
  congr 1
  apply List.map_congr_left
  intro n _
  rw [Function.comp_apply, UInt64.ofNat_add, UInt64.add_assoc]

/-- Fewer than `2 ^ 64` numbers from 1 on do not wrap. -/
lemma Consecutive.gapFree {frags : FragmentStore} (h : Consecutive 0 frags)
    (hlt : frags.length < 2 ^ 64) : GapFree frags := by
  have hmap : frags.map (fun frag => frag.sequenceNumber.toNat)
      = (frags.map Fragment.sequenceNumber).map UInt64.toNat := by
    rw [List.map_map]
    rfl
  rw [GapFree, hmap, h, List.map_map]
  nth_rewrite 2 [← List.map_id (List.range' 1 frags.length)]
  apply List.map_congr_left
  intro n hn
  have hle := (List.mem_range'_1.mp hn).2
  rw [Function.comp_apply, UInt64.zero_add, UInt64.toNat_ofNat']
  exact Nat.mod_eq_of_lt (by omega)

/-- Each proxy has numbered what it has appended, from its number before on. -/
structure Numbered (r r' : Recovery ι) (events : List (RecoveryEvent ι)) : Prop where
  consecutive : ∀ who, Consecutive (r.proxies who).sequenceNumber (appendedBy who events)
  sequenceNumber : ∀ who, (r'.proxies who).sequenceNumber
    = (r.proxies who).sequenceNumber + UInt64.ofNat (appendedBy who events).length

namespace Numbered

variable {r' r'' : Recovery ι} {events events' : List (RecoveryEvent ι)}

/-- Nothing is appended. -/
lemma still (h : ∀ who, (r'.proxies who).sequenceNumber = (r.proxies who).sequenceNumber)
    (hevents : ∀ who, appendedBy who events = []) : Numbered r r' events where
  consecutive who := by
    rw [hevents who]
    rfl
  sequenceNumber who := by
    rw [hevents who, h who]
    exact (UInt64.add_zero _).symm

lemma trans (h : Numbered r r' events) (h' : Numbered r' r'' events') :
    Numbered r r'' (events ++ events') where
  consecutive who := by
    have hnext := h'.consecutive who
    rw [h.sequenceNumber who] at hnext
    rw [appendedBy, List.filterMap_append]
    exact (h.consecutive who).append hnext
  sequenceNumber who := by
    rw [h'.sequenceNumber who, h.sequenceNumber who, appendedBy, appendedBy, appendedBy,
      List.filterMap_append, List.length_append, UInt64.ofNat_add, UInt64.add_assoc]

lemma executed (h : Numbered r r' events) :
    Numbered r r' (.executed inside :: events) where
  consecutive := h.consecutive
  sequenceNumber := h.sequenceNumber

end Numbered

/-- Inside an operation, nothing is numbered and nothing is appended. -/
lemma CauseOp.Flat.still {o : CauseOp ι} (h : o.Flat inside r) (hinside : inside ≠ []) :
    (∀ who, ((o.run inside r).state.proxies who).sequenceNumber
      = (r.proxies who).sequenceNumber) ∧
    ∀ who, appendedBy who (o.run inside r).events = [] := by
  induction o generalizing r with
  | done nextCount => exact ⟨fun who => rfl, fun who => rfl⟩
  | throw => exact ⟨fun who => rfl, fun who => rfl⟩
  | look k ih => exact ih _ _ h
  | setMaster who v k ih =>
    obtain ⟨hnumber, hnone⟩ := ih h
    refine ⟨fun who' => ?_, hnone⟩
    rw [run, hnumber who', Recovery.sequenceNumber_setMaster]
  | cause who persistenceId payload op k ihop ihk => exact absurd h.1 hinside
  | effect who fn k ihfn ihk =>
    rw [Flat] at h
    rw [run]
    split at h
    · rw [if_pos ‹_›]
      obtain ⟨hnumber, hnone⟩ := ihfn h.1
      obtain ⟨hnumber', hnone'⟩ := ihk _ h.2
      refine ⟨fun who => (hnumber' who).trans (hnumber who), fun who => ?_⟩
      have hfn := hnone who
      have hk := hnone' who
      rw [appendedBy] at hfn hk
      simp only [appendedBy, List.cons_append, RecoveryEvent.fragmentOf?, List.filterMap_cons,
        List.filterMap_append, hfn, hk, List.append_nil]
    · rw [if_neg ‹_›]
      exact ihk _ h
  | recoveryEffect who fn k ihfn ihk =>
    rw [Flat] at h
    rw [run]
    split at h
    · rw [if_pos ‹_›]
      obtain ⟨hnumber, hnone⟩ := ihfn h.1
      obtain ⟨hnumber', hnone'⟩ := ihk _ h.2
      refine ⟨fun who => (hnumber' who).trans (hnumber who), fun who => ?_⟩
      have hfn := hnone who
      have hk := hnone' who
      rw [appendedBy] at hfn hk
      simp only [appendedBy, List.filterMap_append, hfn, hk, List.append_nil]
    · rw [if_neg ‹_›]
      exact ihk _ h

/-- A cause whose operation does neither. -/
lemma RecoveryOutcome.numbered_append {inner : RecoveryOutcome ι} {who : ι} {frag : Fragment}
    (cause : ℕ) (hfrag : frag.sequenceNumber = (r.proxies who).sequenceNumber + 1)
    (hnumber : ∀ who', (inner.state.proxies who').sequenceNumber
      = ((r.number who).proxies who').sequenceNumber)
    (hnone : ∀ who', appendedBy who' inner.events = []) (hresult : inner.result.isSome) :
    Numbered r (inner.append who cause frag).1.state (inner.append who cause frag).1.events := by
  obtain ⟨nextCount, hnext⟩ := Option.isSome_iff_exists.mp hresult
  have hfragments : ∀ who', appendedBy who' (inner.append who cause frag).1.events
      = if who = who' then [{ frag with nextCount }] else [] := by
    intro who'
    have hinner := hnone who'
    rw [appendedBy] at hinner
    rw [append, hnext, appendedBy, List.filterMap_append, hinner, List.nil_append]
    simp only [RecoveryEvent.fragmentOf?, List.filterMap_cons, List.filterMap_nil]
    split_ifs <;> rfl
  have hstate : (inner.append who cause frag).1.state.proxies = inner.state.proxies := by
    rw [append, hnext]
    rfl
  constructor
  · intro who'
    rw [hfragments who']
    split_ifs with hwho
    · subst hwho
      exact congrArg (fun number => [number]) hfrag
    · rfl
  · intro who'
    rw [hfragments who', hstate, hnumber who']
    split_ifs with hwho
    · subst hwho
      rw [Recovery.proxies_number]
      rfl
    · rw [Recovery.proxies_number_of_ne _ (Ne.symm hwho)]
      exact (UInt64.add_zero _).symm

lemma CauseOp.Flat.numbered_run {o : CauseOp ι} (h : o.Flat inside r) :
    Numbered r (o.run inside r).state (o.run inside r).events := by
  induction o generalizing inside r with
  | done nextCount => exact .still (fun who => rfl) fun who => rfl
  | throw => exact .still (fun who => rfl) fun who => rfl
  | look k ih => exact ih _ _ h
  | setMaster who v k ih =>
    have hset : Numbered r (r.setMaster who v) [] :=
      .still (fun who' => Recovery.sequenceNumber_setMaster v) fun who' => rfl
    exact hset.trans (ih h)
  | cause who persistenceId payload op k ihop ihk =>
    obtain ⟨hinside, hop, hresult, hk⟩ := h
    obtain ⟨hnumber, hnone⟩ := hop.still (List.cons_ne_nil _ _)
    exact (RecoveryOutcome.numbered_append _ rfl hnumber hnone hresult).trans (ihk _ hk)
  | effect who fn k ihfn ihk =>
    rw [Flat] at h
    rw [run]
    split at h
    · rw [if_pos ‹_›]
      exact (ihfn h.1).executed.trans (ihk _ h.2)
    · rw [if_neg ‹_›]
      exact ihk _ h
  | recoveryEffect who fn k ihfn ihk =>
    rw [Flat] at h
    rw [run]
    split at h
    · rw [if_pos ‹_›]
      exact (ihfn h.1).trans (ihk _ h.2)
    · rw [if_neg ‹_›]
      exact ihk _ h

/-- The log consists of what the proxies append, and each of them appends 1, 2, 3, … up to its
number; the log of one proxy has no gaps. -/
theorem CauseOp.run_gapFree (program : CauseOp ι) (originId : UInt16) (originKey : UInt32)
    (isMaster : ι → Bool) (h : program.Flat [] (.start originId originKey isMaster)) :
    let outcome := program.run [] (.start originId originKey isMaster)
    outcome.state.store = outcome.events.filterMap RecoveryEvent.fragment? ∧
    (∀ who, Consecutive 0 (appendedBy who outcome.events) ∧
      (outcome.state.proxies who).sequenceNumber
        = UInt64.ofNat (appendedBy who outcome.events).length ∧
      ((appendedBy who outcome.events).length < 2 ^ 64 →
        GapFree (appendedBy who outcome.events))) ∧
    ∀ who, (∀ who' cause frag, .appended who' cause frag ∈ outcome.events → who' = who) →
      appendedBy who outcome.events = outcome.state.store := by
  have hstore := program.store_run [] (.start originId originKey isMaster)
  have hnumbered := h.numbered_run
  refine ⟨hstore, fun who => ⟨hnumbered.consecutive who, ?_, ?_⟩, fun who hone => ?_⟩
  · rw [hnumbered.sequenceNumber who]
    exact UInt64.zero_add _
  · exact (hnumbered.consecutive who).gapFree
  · rw [hstore]
    refine List.filterMap_congr fun event hevent => ?_
    cases event with
    | appended who' cause frag => exact if_pos (hone who' cause frag hevent)
    | executed causes => rfl

/-- An event that a master and its mirror process. -/
def mirrored : CauseOp Bool :=
  .cause true 1 .empty (fun _ _ => .done 0) fun _ =>
    .cause false 1 .empty (fun _ _ => .done 0) fun _ => .done 0

/-- Each of the two appends the event as the first of its own. -/
theorem gapFree_mirrored :
    let outcome := mirrored.run [] (.start 1 1 id)
    outcome.state.store.length = 2 ∧
    ∀ who, GapFree (appendedBy who outcome.events) ∧
      (appendedBy who outcome.events).length = 1 := by
  have hflat : mirrored.Flat [] (.start 1 1 id) := ⟨rfl, trivial, rfl, rfl, trivial, rfl, trivial⟩
  have hlength : ∀ who, (appendedBy who (mirrored.run [] (.start 1 1 id)).events).length = 1 := by
    decide
  refine ⟨rfl, fun who => ⟨?_, hlength who⟩⟩
  exact ((CauseOp.run_gapFree mirrored 1 1 id hflat).2.1 who).2.2 (by rw [hlength who]; decide)

/-- So the log of both has the number twice. -/
theorem not_gapFree_mirrored : ¬GapFree (mirrored.run [] (.start 1 1 id)).state.store := by
  decide

end EuNEx
