import EuNEx.Recovery.RecoveryProxy

/-!
# Effects and the log

The fragment of a cause is appended when its operation has returned, so none of the effects that
are executed inside the operation finds it in the store. What is persisted before its effects are
released is therefore what issues none of them to a master from inside a cause.
-/

namespace EuNEx

variable {ι : Type} {inside : List ℕ} {r : Recovery ι}

/-- Every effect that executes finds the fragments of the causes it was issued in. -/
def PersistedFirst (events : List (RecoveryEvent ι)) : Prop :=
  ∀ pre inside post, events = pre ++ .executed inside :: post →
    ∀ cause ∈ inside, ∃ who frag, .appended who cause frag ∈ pre

/-- No effect is issued inside the operation of a cause while its proxy is master. -/
def CauseOp.Withholds [DecidableEq ι] : CauseOp ι → (inside : List ℕ) → Recovery ι → Prop
  | done _, _, _ => True
  | throw, _, _ => True
  | look k, inside, r => (k r.proxies r.store).Withholds inside r
  | setMaster who v k, inside, r => k.Withholds inside (r.setMaster who v)
  | cause who persistenceId payload op k, inside, r =>
    let frag := (r.proxies who).fragment persistenceId payload
    let op := op frag.chainId frag.sequenceNumber
    let (inner, returned) := (op.run (r.causes :: inside) (r.number who)).append who r.causes frag
    op.Withholds (r.causes :: inside) (r.number who) ∧ (k returned).Withholds inside inner.state
  | effect who fn k, inside, r =>
    if (r.proxies who).isMaster then
      let inner := fn.run inside r
      inside = [] ∧ fn.Withholds inside r ∧ (k inner.result.isSome).Withholds inside inner.state
    else (k true).Withholds inside r
  | recoveryEffect who fn k, inside, r =>
    if !(r.proxies who).isMaster then
      let inner := fn.run inside r
      fn.Withholds inside r ∧ (k inner.result.isSome).Withholds inside inner.state
    else (k true).Withholds inside r

/-! ### What a run emits -/

/-- What may be among the events of a run: it appends for causes of its own, and executes inside
these and the causes it runs in. -/
def RecoveryEvent.Of (inside : List ℕ) (first next : ℕ) : RecoveryEvent ι → Prop
  | .appended _ cause _ => first ≤ cause ∧ cause < next
  | .executed causes => ∀ cause ∈ causes, cause ∈ inside ∨ first ≤ cause ∧ cause < next

/-- No effect executes inside a cause whose fragment is appended before. -/
def Unfinished (events : List (RecoveryEvent ι)) : Prop :=
  ∀ pre inside post, events = pre ++ .executed inside :: post →
    ∀ cause ∈ inside, ∀ who frag, .appended who cause frag ∉ pre

lemma Unfinished.append {events events' : List (RecoveryEvent ι)} (h : Unfinished events)
    (h' : Unfinished events') (hnew : ∀ causes, .executed causes ∈ events' →
      ∀ cause ∈ causes, ∀ who frag, .appended who cause frag ∉ events) :
    Unfinished (events ++ events') := by
  intro pre inside post hsplit cause hcause who frag hmem
  rcases List.append_eq_append_iff.mp hsplit with ⟨mid, rfl, hmid⟩ | ⟨mid, hmid, hpost⟩
  · have hlater : .executed inside ∈ events' := hmid ▸ List.mem_append_right _ List.mem_cons_self
    rcases List.mem_append.mp hmem with hold | hold
    · exact hnew inside hlater cause hcause who frag hold
    · exact h' mid inside post hmid cause hcause who frag hold
  · rcases mid with - | ⟨e, mid⟩
    · have hlater : .executed inside ∈ events' := by
        rw [← List.nil_append events', ← hpost]
        exact List.mem_cons_self
      rw [List.append_nil] at hmid
      exact hnew inside hlater cause hcause who frag (hmid ▸ hmem)
    · obtain ⟨rfl, -⟩ := List.cons_eq_cons.mp hpost
      exact h pre inside mid hmid cause hcause who frag hmem

/-- The events of a run inside `inside`, in which the causes from `first` to `next` are called. -/
structure Within (inside : List ℕ) (first next : ℕ) (events : List (RecoveryEvent ι)) : Prop where
  le : first ≤ next
  of : ∀ e ∈ events, e.Of inside first next
  unfinished : Unfinished events

namespace Within

variable {first mid next : ℕ} {events events' : List (RecoveryEvent ι)}

lemma nil (inside : List ℕ) (first : ℕ) :
    Within inside first first ([] : List (RecoveryEvent ι)) where
  le := le_rfl
  of := by simp
  unfinished := by
    intro pre inside post hsplit
    simp at hsplit

lemma trans (hinside : ∀ cause ∈ inside, cause < first) (h : Within inside first mid events)
    (h' : Within inside mid next events') : Within inside first next (events ++ events') where
  le := h.le.trans h'.le
  of e he := by
    have hle := h.le
    have hle' := h'.le
    rcases List.mem_append.mp he with he | he
    · have hof := h.of e he
      cases e with
      | appended who cause frag => exact ⟨hof.1, hof.2.trans_le hle'⟩
      | executed causes =>
        exact fun cause hc => (hof cause hc).imp_right fun hb => ⟨hb.1, hb.2.trans_le hle'⟩
    · have hof := h'.of e he
      cases e with
      | appended who cause frag => exact ⟨hle.trans hof.1, hof.2⟩
      | executed causes =>
        exact fun cause hc => (hof cause hc).imp_right fun hb => ⟨hle.trans hb.1, hb.2⟩
  unfinished := by
    refine h.unfinished.append h'.unfinished fun causes hexec cause hcause who frag happ => ?_
    have hold : first ≤ cause ∧ cause < mid := h.of _ happ
    rcases h'.of _ hexec cause hcause with hin | hnew
    · exact absurd (hinside cause hin) hold.1.not_gt
    · exact absurd hold.2 hnew.1.not_gt

lemma executed (h : Within inside first next events) :
    Within inside first next (.executed inside :: events) where
  le := h.le
  of e he := by
    rcases List.mem_cons.mp he with rfl | he
    · exact fun cause hc => .inl hc
    · exact h.of e he
  unfinished := by
    have hone : Unfinished [(.executed inside : RecoveryEvent ι)] := by
      intro pre causes post hsplit cause hcause who frag hmem
      obtain ⟨rfl, -⟩ | ⟨rfl, -⟩ : pre = [] ∧ _ ∨ pre = [_] ∧ _ :=
        List.singleton_eq_append_iff.mp hsplit
      · cases hmem
      · simp at hsplit
    exact hone.append h.unfinished (by simp)

/-- Outside a cause, what runs inside it is a run of causes from its number on. -/
lemma leave (h : Within (first :: inside) (first + 1) next events) :
    Within inside first next events where
  le := (Nat.le_succ first).trans h.le
  of e he := by
    have hof := h.of e he
    cases e with
    | appended who cause frag => exact ⟨(Nat.le_succ first).trans hof.1, hof.2⟩
    | executed causes =>
      intro cause hc
      rcases hof cause hc with hin | hb
      · rcases List.mem_cons.mp hin with rfl | hin
        · exact .inr ⟨le_rfl, h.le⟩
        · exact .inl hin
      · exact .inr ⟨(Nat.le_succ first).trans hb.1, hb.2⟩
  unfinished := h.unfinished

lemma appended (h : Within inside first next events) (hlt : first < next) (who : ι)
    (frag : Fragment) : Within inside first next (events ++ [.appended who first frag]) where
  le := h.le
  of e he := by
    rcases List.mem_append.mp he with he | he
    · exact h.of e he
    · rw [List.mem_singleton.mp he]
      exact ⟨le_rfl, hlt⟩
  unfinished := by
    refine h.unfinished.append ?_ (by simp)
    intro pre causes post hsplit
    have hmem : RecoveryEvent.executed causes ∈ [.appended who first frag] := by
      rw [hsplit]
      simp
    simp at hmem

end Within

/-- The end of a cause, seen from outside. -/
lemma RecoveryOutcome.within_append {inner : RecoveryOutcome ι} {cause : ℕ} (who : ι)
    (frag : Fragment) (h : Within (cause :: inside) (cause + 1) inner.state.causes inner.events) :
    Within inside cause (inner.append who cause frag).1.state.causes
      (inner.append who cause frag).1.events := by
  rw [append]
  cases inner.result with
  | none => exact h.leave
  | some nextCount => exact h.leave.appended h.le _ _

lemma CauseOp.within_run [DecidableEq ι] (o : CauseOp ι)
    (hinside : ∀ cause ∈ inside, cause < r.causes) :
    Within inside r.causes (o.run inside r).state.causes (o.run inside r).events := by
  induction o generalizing inside r with
  | done nextCount => exact .nil inside r.causes
  | throw => exact .nil inside r.causes
  | look k ih => exact ih _ _ hinside
  | setMaster who v k ih =>
    rw [run]
    exact ih (r := r.setMaster who v) hinside
  | cause who persistenceId payload op k ihop ihk =>
    simp only [run]
    generalize (r.proxies who).fragment persistenceId payload = frag
    have hown : ∀ cause ∈ r.causes :: inside, cause < (r.number who).causes := by
      intro cause hc
      rcases List.mem_cons.mp hc with rfl | hc
      · exact Nat.lt_succ_self _
      · exact Nat.lt_succ_of_lt (hinside cause hc)
    have hinner := RecoveryOutcome.within_append who frag
      (ihop frag.chainId frag.sequenceNumber hown)
    exact hinner.trans hinside (ihk _ fun cause hc => (hinside cause hc).trans_le hinner.le)
  | effect who fn k ihfn ihk =>
    rw [run]
    split
    · have hinner := ihfn hinside
      exact hinner.executed.trans hinside
        (ihk _ fun cause hc => (hinside cause hc).trans_le hinner.le)
    · exact ihk _ hinside
  | recoveryEffect who fn k ihfn ihk =>
    rw [run]
    split
    · have hinner := ihfn hinside
      exact hinner.trans hinside (ihk _ fun cause hc => (hinside cause hc).trans_le hinner.le)
    · exact ihk _ hinside

/-! ### Persistence before effects -/

/-- Inside a cause, nothing is persisted first. -/
lemma Unfinished.persistedFirst_iff {events : List (RecoveryEvent ι)} (h : Unfinished events) :
    PersistedFirst events ↔ ∀ causes, .executed causes ∈ events → causes = [] := by
  constructor
  · intro hfirst causes hmem
    obtain ⟨pre, post, rfl⟩ := List.append_of_mem hmem
    refine List.eq_nil_iff_forall_not_mem.mpr fun cause hcause => ?_
    obtain ⟨who, frag, happ⟩ := hfirst pre causes post rfl cause hcause
    exact h pre causes post rfl cause hcause who frag happ
  · intro hnil pre causes post hsplit cause hcause
    rw [hnil causes (by simp [hsplit])] at hcause
    cases hcause

lemma RecoveryOutcome.executed_mem_append {inner : RecoveryOutcome ι} {who : ι} {cause : ℕ}
    {frag : Fragment} {causes : List ℕ} :
    .executed causes ∈ (inner.append who cause frag).1.events ↔
      .executed causes ∈ inner.events := by
  rw [append]
  cases inner.result with
  | none => rfl
  | some nextCount => simp

lemma CauseOp.withholds_iff [DecidableEq ι] (o : CauseOp ι) : o.Withholds inside r ↔
    ∀ causes, .executed causes ∈ (o.run inside r).events → causes = [] := by
  induction o generalizing inside r with
  | done nextCount => simp [run, Withholds]
  | throw => simp [run, Withholds]
  | look k ih => exact ih _ _
  | setMaster who v k ih => exact ih
  | cause who persistenceId payload op k ihop ihk =>
    simp only [run, Withholds, ihop, ihk, List.mem_append, RecoveryOutcome.executed_mem_append,
      or_imp, forall_and]
  | effect who fn k ihfn ihk =>
    rw [run, Withholds]
    split
    · simp only [ihfn, ihk, List.cons_append, List.mem_cons, List.mem_append, or_imp, forall_and,
        RecoveryEvent.executed.injEq, forall_eq]
    · exact ihk _
  | recoveryEffect who fn k ihfn ihk =>
    rw [run, Withholds]
    split
    · simp only [ihfn, ihk, List.mem_append, or_imp, forall_and]
    · exact ihk _

/-- Fragments are persisted before effects execute if and only if no effect is issued to a master
inside a cause. -/
theorem CauseOp.persistedFirst_iff_withholds [DecidableEq ι] (program : CauseOp ι)
    (r : Recovery ι) : PersistedFirst (program.run [] r).events ↔ program.Withholds [] r := by
  rw [withholds_iff]
  exact (program.within_run (by simp)).unfinished.persistedFirst_iff

/-- An event whose operation acknowledges it. -/
def acknowledged : CauseOp Unit :=
  .cause () 1 .empty (fun _ _ => .effect () (.done 0) fun _ => .done 0)
    fun _ => .done 0

/-- The acknowledgement is sent before the event is in the store. -/
theorem not_persistedFirst_acknowledged :
    ¬PersistedFirst (acknowledged.run [] (.start 1 1 fun _ => true)).events := by
  intro h
  obtain ⟨who, frag, hmem⟩ := h [] [0] _ rfl 0 (by simp)
  cases hmem

end EuNEx
