import EuNEx.Iaca.Aggregator

/-!
# When chains are completed

What has arrived of a chain is taken for all of it as soon as no child of it is missing. So a chain
is completed with its last fragment, and only then, if and only if each earlier part of it leaves
out a child of one of its fragments. Where fragments come after their parents, this is so: the next
fragment is such a child.
-/

namespace EuNEx

variable {α : Type*} {fragments fragments' pre post arrivals : List (IacaFragment α)}
  {f g : IacaFragment α} {chainId : UInt64}

/-! ### A part of a chain -/

lemma checkComplete_iff {chain : FragmentChain α} : chain.checkComplete = true ↔
    chain.fragments ≠ [] ∧ ∀ f ∈ chain.fragments,
      f.nextCount.toInt = childCount chain.fragments f := by
  simp only [FragmentChain.checkComplete, Bool.and_eq_true, List.all_eq_true, decide_eq_true_eq,
    Bool.not_eq_true', List.isEmpty_eq_false_iff]
  constructor
  · rintro ⟨hcount, hne⟩
    exact ⟨hne, fun f hf => (hcount f hf).symm⟩
  · rintro ⟨hne, hcount⟩
    exact ⟨fun f hf => (hcount f hf).symm, hne⟩

lemma childCount_append : childCount (fragments ++ fragments') f
    = childCount fragments f + childCount fragments' f := List.countP_append ..

lemma childCount_eq_zero : childCount fragments f = 0 ↔
    ∀ g ∈ fragments, g.previousOrigin ≠ f.origin := by
  rw [childCount, List.countP_eq_zero]
  simp

/-- A part of a tree passes for a whole if no child of it is missing. -/
lemma IsTree.checkComplete_part (htree : IsTree (fragments ++ fragments')) (hne : fragments ≠ [])
    (complete : Bool) : (⟨chainId, fragments, complete⟩ : FragmentChain α).checkComplete = true ↔
      ∀ f ∈ fragments, ∀ g ∈ fragments', g.previousOrigin ≠ f.origin := by
  rw [checkComplete_iff]
  simp only [ne_eq, hne, not_false_eq_true, true_and]
  refine forall₂_congr fun f hf => ?_
  have hcount := htree.nextCount f (List.mem_append_left _ hf)
  rw [childCount_append] at hcount
  rw [← childCount_eq_zero, hcount]
  omega

/-- Where fragments come after their parents, the next one is a child that is missing. -/
lemma ParentFirst.leavesChild (htree : IsTree fragments) (hfirst : ParentFirst fragments) :
    LeavesChild fragments := by
  rintro pre post rfl hpre hpost
  obtain ⟨r, hr, hroot, hunique⟩ := htree.root
  obtain ⟨f, pre, rfl⟩ := List.exists_cons_of_ne_nil hpre
  obtain ⟨g, post, rfl⟩ := List.exists_cons_of_ne_nil hpost
  -- the first to arrive has no parent, so it is the root, and what comes later is not
  have hf : f = r := by
    apply hunique f (by simp)
    intro hmem
    obtain ⟨p, hp, hporigin⟩ := List.mem_map.mp hmem
    simpa using hfirst [] f (pre ++ g :: post) rfl p hp hporigin
  have hg : g ≠ f := by
    have hnodup := List.Nodup.of_map _ htree.nodup
    rw [List.cons_append, List.nodup_cons] at hnodup
    rintro rfl
    exact hnodup.1 (by simp)
  have hparent : g.previousOrigin ∈ (f :: pre ++ g :: post).map IacaFragment.origin := by
    by_contra hnone
    exact hg ((hunique g (by simp) hnone).trans hf.symm)
  obtain ⟨p, hp, hporigin⟩ := List.mem_map.mp hparent
  exact ⟨p, hfirst (f :: pre) g post rfl p hp hporigin, g, by simp, hporigin.symm⟩

/-! ### The fragments of a chain -/

lemma fragmentsOf_append : fragmentsOf (pre ++ post) chainId
    = fragmentsOf pre chainId ++ fragmentsOf post chainId := List.filter_append ..

lemma fragmentsOf_singleton_self : fragmentsOf [f] f.chainId = [f] := by simp [fragmentsOf]

lemma fragmentsOf_singleton_of_ne (h : f.chainId ≠ chainId) : fragmentsOf [f] chainId = [] := by
  simp [fragmentsOf, h]

lemma fragmentsOf_eq_nil : fragmentsOf arrivals chainId = [] ↔
    chainId ∉ arrivals.map IacaFragment.chainId := by
  simp [fragmentsOf]

/-! ### One fragment -/

namespace IacaAggregator

variable {a a' : IacaAggregator α}

lemma completion_congr (h : a'.handlers = a.handlers) :
    a'.completion chainId fragments = a.completion chainId fragments := by
  simp [completion, process, h]

lemma handlers_addFragment (a : IacaAggregator α) (f : IacaFragment α) :
    (a.addFragment f).1.handlers = a.handlers := by
  rw [addFragment, tryComplete]
  split
  · rfl
  · simp only
    split <;> rfl

lemma completion_ne_nil : a.completion chainId fragments ≠ [] := List.cons_ne_nil _ _

/-- A fragment completes its chain, or the chain goes on waiting. -/
lemma addFragment_eq {old : List (IacaFragment α)}
    (h : a.chains.lookup f.chainId = if old = [] then none else some ⟨f.chainId, old, false⟩) :
    a.addFragment f =
      if (⟨f.chainId, old ++ [f], false⟩ : FragmentChain α).checkComplete = true then
        ({ a with
            completedCount := a.completedCount + 1
            chains := (a.chains.insert f.chainId ⟨f.chainId, old ++ [f], false⟩).erase f.chainId },
          a.completion f.chainId (old ++ [f]))
      else ({ a with chains := a.chains.insert f.chainId ⟨f.chainId, old ++ [f], false⟩ }, []) := by
  have hchain : { (a.chains.lookup f.chainId).getD {} with
      chainId := f.chainId
      fragments := ((a.chains.lookup f.chainId).getD {}).fragments ++ [f] }
      = (⟨f.chainId, old ++ [f], false⟩ : FragmentChain α) := by
    rw [h]
    split
    · rename_i hold
      rw [hold]
      rfl
    · rfl
  rw [addFragment]
  simp only [hchain]
  rw [tryComplete]
  simp only [Finmap.lookup_insert]
  rfl

/-- The aggregator after `pre`, when `post` is still to come: it keeps the chains of which something
has arrived and something is to come. `total` is the number of all chains. -/
structure Kept (handlers : List (FragmentHandler α)) (total : ℕ) (a : IacaAggregator α)
    (pre post : List (IacaFragment α)) : Prop where
  handlers : a.handlers = handlers
  chains : ∀ chainId, a.chains.lookup chainId =
    if fragmentsOf pre chainId ≠ [] ∧ fragmentsOf post chainId ≠ []
    then some ⟨chainId, fragmentsOf pre chainId, false⟩ else none
  count : a.completedCount + (post.map IacaFragment.chainId).dedup.length = total

variable {handlers : List (FragmentHandler α)} {total : ℕ}

lemma Kept.lookup (h : Kept handlers total a pre (f :: post)) : a.chains.lookup f.chainId =
    if fragmentsOf pre f.chainId = [] then none
    else some ⟨f.chainId, fragmentsOf pre f.chainId, false⟩ := by
  rw [h.chains]
  have hpost : fragmentsOf (f :: post) f.chainId ≠ [] := by simp [fragmentsOf]
  by_cases hpre : fragmentsOf pre f.chainId = [] <;> simp [hpre, hpost]

/-- What is to come of a step. -/
def Emits (a : IacaAggregator α) (pre : List (IacaFragment α)) (f : IacaFragment α)
    (post : List (IacaFragment α)) : Prop :=
  (a.addFragment f).2 = if f.chainId ∈ post.map IacaFragment.chainId then []
    else a.completion f.chainId (fragmentsOf (pre ++ [f]) f.chainId)

lemma Kept.emits_iff (h : Kept handlers total a pre (f :: post))
    (htree : IsTree (fragmentsOf (pre ++ f :: post) f.chainId)) :
    Emits a pre f post ↔ (fragmentsOf post f.chainId ≠ [] →
      ∃ x ∈ fragmentsOf (pre ++ [f]) f.chainId, ∃ g ∈ fragmentsOf post f.chainId,
        g.previousOrigin = x.origin) := by
  have hnow : fragmentsOf (pre ++ [f]) f.chainId = fragmentsOf pre f.chainId ++ [f] := by
    rw [fragmentsOf_append, fragmentsOf_singleton_self]
  have hall : fragmentsOf (pre ++ f :: post) f.chainId
      = fragmentsOf (pre ++ [f]) f.chainId ++ fragmentsOf post f.chainId := by
    rw [← fragmentsOf_append, List.append_assoc, List.singleton_append]
  rw [hall] at htree
  have hcomplete : (⟨f.chainId, fragmentsOf (pre ++ [f]) f.chainId, false⟩ :
      FragmentChain α).checkComplete = true ↔ _ := htree.checkComplete_part (by simp [hnow]) false
  rw [Emits, addFragment_eq h.lookup, ← hnow]
  by_cases hlast : fragmentsOf post f.chainId = []
  · have hmem := fragmentsOf_eq_nil.mp hlast
    rw [if_pos (hcomplete.mpr (by simp [hlast])), if_neg hmem]
    simp [hlast]
  · have hmem : f.chainId ∈ post.map IacaFragment.chainId := by
      by_contra hnone
      exact hlast (fragmentsOf_eq_nil.mpr hnone)
    rw [if_pos hmem]
    by_cases hpart : (⟨f.chainId, fragmentsOf (pre ++ [f]) f.chainId, false⟩ :
        FragmentChain α).checkComplete = true
    · rw [if_pos hpart]
      refine iff_of_false completion_ne_nil fun hopen => ?_
      obtain ⟨x, hx, g, hg, heq⟩ := hopen hlast
      exact hcomplete.mp hpart x hx g hg heq
    · rw [if_neg hpart]
      refine iff_of_true rfl fun _ => ?_
      by_contra hnone
      push Not at hnone
      exact hpart (hcomplete.mpr hnone)

lemma Kept.snoc (h : Kept handlers total a pre (f :: post)) (hemits : Emits a pre f post) :
    Kept handlers total (a.addFragment f).1 (pre ++ [f]) post := by
  have hother : ∀ chainId, chainId ≠ f.chainId →
      (a.chains.lookup chainId = if fragmentsOf (pre ++ [f]) chainId ≠ [] ∧
        fragmentsOf post chainId ≠ [] then some ⟨chainId, fragmentsOf (pre ++ [f]) chainId, false⟩
        else none) := by
    intro chainId hne
    have hpost : fragmentsOf (f :: post) chainId = fragmentsOf post chainId := by
      rw [← List.singleton_append, fragmentsOf_append, fragmentsOf_singleton_of_ne hne.symm]
      rfl
    rw [h.chains, fragmentsOf_append, fragmentsOf_singleton_of_ne hne.symm, List.append_nil, hpost]
  have hnow : fragmentsOf (pre ++ [f]) f.chainId = fragmentsOf pre f.chainId ++ [f] := by
    rw [fragmentsOf_append, fragmentsOf_singleton_self]
  have hcount := h.count
  rw [List.map_cons] at hcount
  rw [Emits, addFragment_eq h.lookup] at hemits
  rw [addFragment_eq h.lookup]
  by_cases hcomplete : (⟨f.chainId, fragmentsOf pre f.chainId ++ [f], false⟩ :
      FragmentChain α).checkComplete = true
  · rw [if_pos hcomplete] at hemits ⊢
    have hlast : f.chainId ∉ post.map IacaFragment.chainId := by
      intro hmem
      rw [if_pos hmem] at hemits
      exact completion_ne_nil hemits
    constructor
    · exact h.handlers
    · intro chainId
      by_cases hne : chainId = f.chainId
      · subst hne
        simp [fragmentsOf_eq_nil.mpr hlast]
      · rw [← hother chainId hne]
        simp [Finmap.lookup_erase_ne hne, Finmap.lookup_insert_of_ne _ hne]
    · rw [List.dedup_cons_of_notMem hlast, List.length_cons] at hcount
      show a.completedCount + 1 + _ = total
      omega
  · rw [if_neg hcomplete] at hemits ⊢
    have hmore : f.chainId ∈ post.map IacaFragment.chainId := by
      by_contra hlast
      rw [if_neg hlast] at hemits
      exact completion_ne_nil hemits.symm
    constructor
    · exact h.handlers
    · intro chainId
      by_cases hne : chainId = f.chainId
      · subst hne
        rw [Finmap.lookup_insert, if_pos, hnow]
        exact ⟨by simp [hnow], fun hnone => fragmentsOf_eq_nil.mp hnone hmore⟩
      · rw [← hother chainId hne]
        exact Finmap.lookup_insert_of_ne _ hne
    · rw [List.dedup_cons_of_mem hmore] at hcount
      exact hcount

/-! ### Runs -/

variable (handlers)

/-- An aggregator with its handlers. -/
def start : IacaAggregator α := { handlers := handlers }

/-- The steps of a run are as they are to be. -/
def Stepwise (arrivals : List (IacaFragment α)) : Prop :=
  ∀ pre f post, arrivals = pre ++ f :: post → Emits ((start handlers).run pre).1 pre f post

variable {handlers}

lemma Kept.start (arrivals : List (IacaFragment α)) : Kept handlers
    (arrivals.map IacaFragment.chainId).dedup.length (start handlers) [] arrivals where
  handlers := rfl
  chains chainId := by simp [IacaAggregator.start, fragmentsOf]
  count := Nat.zero_add _

lemma run_snoc : (a.run (pre ++ [f])).1 = ((a.run pre).1.addFragment f).1 := by
  rw [run, Machine.run_snoc]

lemma handlers_run (a : IacaAggregator α) (arrivals : List (IacaFragment α)) :
    (a.run arrivals).1.handlers = a.handlers := by
  induction arrivals using List.reverseRecOn with
  | nil => rfl
  | append_singleton arrivals f ih => rw [run_snoc, handlers_addFragment, ih]

/-- While the steps are as they are to be, the state is too. -/
lemma kept_run (pre post : List (IacaFragment α)) (hsteps : ∀ pre' f post',
      pre ++ post = pre' ++ f :: post' → pre'.length < pre.length →
      Emits ((IacaAggregator.start handlers).run pre').1 pre' f post') :
    Kept handlers ((pre ++ post).map IacaFragment.chainId).dedup.length
      ((IacaAggregator.start handlers).run pre).1 pre post := by
  induction pre using List.reverseRecOn generalizing post with
  | nil => exact .start post
  | append_singleton pre f ih =>
    rw [List.append_assoc, List.singleton_append] at hsteps ⊢
    have hk := ih (f :: post) fun pre' f' post' heq hlt =>
      hsteps pre' f' post' heq (hlt.trans (by simp))
    rw [run_snoc]
    exact hk.snoc (hsteps pre f post rfl (by simp))

lemma Stepwise.kept (h : Stepwise handlers arrivals) (hsplit : arrivals = pre ++ post) :
    Kept handlers (arrivals.map IacaFragment.chainId).dedup.length
      ((IacaAggregator.start handlers).run pre).1 pre post := by
  subst hsplit
  exact kept_run pre post fun pre' f post' heq _ => h pre' f post' heq

/-- Step by step, chains are completed in time if and only if each part leaves out a child. -/
lemma stepwise_iff (htree : ∀ chainId ∈ arrivals.map IacaFragment.chainId,
      IsTree (fragmentsOf arrivals chainId)) :
    Stepwise handlers arrivals ↔ ∀ chainId, LeavesChild (fragmentsOf arrivals chainId) := by
  constructor
  · intro h chainId p q hpq hp hq
    obtain ⟨p, f, rfl⟩ := (List.eq_nil_or_concat p).resolve_left hp
    rw [List.concat_eq_append] at hpq ⊢
    -- where the last fragment of the part arrives
    obtain ⟨mid, post, rfl, hmid, hpost⟩ := List.filter_eq_append_iff.mp hpq
    obtain ⟨pre, mid, rfl, hpre, hmid⟩ := List.filter_eq_append_iff.mp hmid
    obtain ⟨skip, rest, rfl, hskip, hf, hrest⟩ := List.filter_eq_cons_iff.mp hmid
    obtain rfl : f.chainId = chainId := by simpa using hf
    have hskip : fragmentsOf skip f.chainId = [] := List.filter_eq_nil_iff.mpr hskip
    have hnow : fragmentsOf (pre ++ skip ++ [f]) f.chainId = p ++ [f] := by
      rw [fragmentsOf_append, fragmentsOf_append, fragmentsOf_singleton_self, hskip,
        List.append_nil]
      exact congrArg (· ++ [f]) hpre
    have hlater : fragmentsOf (rest ++ post) f.chainId = q := by
      rw [fragmentsOf_append]
      exact congrArg₂ _ hrest hpost
    have hsplit : pre ++ (skip ++ f :: rest) ++ post = (pre ++ skip) ++ f :: (rest ++ post) := by
      simp
    have hk := h.kept hsplit
    rw [hsplit] at htree
    have hemits := (hk.emits_iff (htree f.chainId (by simp))).mp (h _ _ _ hsplit)
    rw [hnow, hlater] at hemits
    exact hemits hq
  · intro hopen pre
    induction hn : pre.length using Nat.strong_induction_on generalizing pre with
    | _ n ih =>
      intro f post hsplit
      have hk : Kept handlers _ ((IacaAggregator.start handlers).run pre).1 pre (f :: post) :=
        kept_run pre (f :: post) fun pre' f' post' heq hlt =>
          ih pre'.length (hn ▸ hlt) pre' rfl f' post' (hsplit.trans heq)
      subst hsplit
      refine (hk.emits_iff (htree f.chainId (by simp))).mpr fun hne => ?_
      refine hopen f.chainId _ _ ?_ ?_ hne
      · rw [← fragmentsOf_append, List.append_assoc, List.singleton_append]
      · rw [fragmentsOf_append, fragmentsOf_singleton_self]
        simp

/-- What the steps of the rest of a run emit. -/
lemma Stepwise.events (h : Stepwise handlers arrivals) (hsplit : arrivals = pre ++ post) :
    (((start handlers).run pre).1.run post).2
      = (post.map IacaFragment.chainId).dedup.flatMap fun chainId =>
        (start handlers).completion chainId (fragmentsOf arrivals chainId) := by
  induction post generalizing pre with
  | nil => rfl
  | cons f post ih =>
    have hemits := h pre f post hsplit
    have hnext : arrivals = (pre ++ [f]) ++ post := by simp [hsplit]
    have hrest := ih hnext
    rw [run_snoc] at hrest
    have hrun : (((start handlers).run pre).1.run (f :: post)).2
        = (((start handlers).run pre).1.addFragment f).2
          ++ ((((start handlers).run pre).1.addFragment f).1.run post).2 := rfl
    rw [hrun, hrest, hemits, List.map_cons]
    by_cases hmore : f.chainId ∈ post.map IacaFragment.chainId
    · rw [if_pos hmore, List.dedup_cons_of_mem hmore, List.nil_append]
    · rw [if_neg hmore, List.dedup_cons_of_notMem hmore, List.flatMap_cons,
        completion_congr (a := start handlers) (handlers_run _ _)]
      have hall : fragmentsOf arrivals f.chainId = fragmentsOf (pre ++ [f]) f.chainId := by
        rw [hnext, fragmentsOf_append, fragmentsOf_eq_nil.mpr hmore, List.append_nil]
      rw [hall]

/-- Chains are completed in time if and only if each part of one leaves out a child. -/
theorem completes_iff_leavesChild (htree : ∀ chainId ∈ arrivals.map IacaFragment.chainId,
      IsTree (fragmentsOf arrivals chainId)) :
    Completes (start handlers) arrivals ↔
      ∀ chainId, LeavesChild (fragmentsOf arrivals chainId) := by
  rw [← stepwise_iff htree]
  constructor
  · intro h pre f post hsplit
    rw [Emits, h.steps pre f post hsplit, completion_congr (a := start handlers) (handlers_run _ _)]
  · intro h
    have hk : Kept handlers _ ((start handlers).run arrivals).1 arrivals [] :=
      h.kept (List.append_nil _).symm
    constructor
    · intro pre f post hsplit
      rw [h pre f post hsplit, completion_congr (a := start handlers) (handlers_run _ _)]
    · exact h.events (List.nil_append _).symm
    · rw [pendingChainCount, Finset.card_eq_zero, Finset.eq_empty_iff_forall_notMem]
      intro chainId hmem
      obtain ⟨chain, hchain⟩ := Finmap.mem_iff.mp (Finmap.mem_keys.mp hmem)
      rw [hk.chains, if_neg (by simp [fragmentsOf])] at hchain
      cases hchain
    · exact hk.count

/-- A chain is completed with its last fragment, and only then, if and only if each earlier part of
it leaves out a child of one of its fragments. -/
theorem completes_iff_of_chain (handlers : List (FragmentHandler α))
    (arrivals : List (IacaFragment α)) (chainId : UInt64)
    (hchain : ∀ f ∈ arrivals, f.chainId = chainId) (htree : IsTree arrivals) :
    Completes (start handlers) arrivals ↔ LeavesChild arrivals := by
  have hall : fragmentsOf arrivals chainId = arrivals :=
    List.filter_eq_self.mpr fun f hf => decide_eq_true (hchain f hf)
  have hids : ∀ chainId' ∈ arrivals.map IacaFragment.chainId, chainId' = chainId := by
    intro chainId' hmem
    obtain ⟨f, hf, rfl⟩ := List.mem_map.mp hmem
    exact hchain f hf
  rw [completes_iff_leavesChild]
  · constructor
    · intro h
      exact hall ▸ h chainId
    · intro h chainId'
      by_cases hid : chainId' = chainId
      · rw [hid, hall]
        exact h
      · rw [fragmentsOf_eq_nil.mpr fun hmem => hid (hids chainId' hmem)]
        intro pre post hnil hpre
        exact absurd (List.append_eq_nil_iff.mp hnil.symm).1 hpre
  · intro chainId' hmem
    rw [hids chainId' hmem, hall]
    exact htree

/-- A root and its child. -/
structure IsPair (f g : IacaFragment α) : Prop where
  root : f.previousOrigin ≠ f.origin ∧ f.previousOrigin ≠ g.origin
  child : g.previousOrigin = f.origin
  ne : f.origin ≠ g.origin
  root_nextCount : f.nextCount.toInt = 1
  child_nextCount : g.nextCount.toInt = 0

lemma IsPair.isTree (h : IsPair f g) (hperm : arrivals.Perm [f, g]) : IsTree arrivals := by
  have hmap : (arrivals.map IacaFragment.origin).Perm [f.origin, g.origin] :=
    hperm.map IacaFragment.origin
  constructor
  · rw [hmap.nodup_iff]
    simp [h.ne]
  · refine ⟨f, hperm.mem_iff.mpr (by simp), ?_, fun x hx hroot => ?_⟩
    · rw [hmap.mem_iff]
      simp [h.root]
    · rw [hmap.mem_iff] at hroot
      rcases List.mem_pair.mp (hperm.mem_iff.mp hx) with rfl | rfl
      · rfl
      · exact absurd (by simp [h.child]) hroot
  · refine ⟨fun origin => if origin = f.origin then 0 else 1, fun x hx y hy hparent => ?_⟩
    rcases List.mem_pair.mp (hperm.mem_iff.mp hx) with rfl | rfl <;>
      rcases List.mem_pair.mp (hperm.mem_iff.mp hy) with rfl | rfl
    · exact absurd hparent h.root.1
    · exact absurd hparent h.root.2
    · simp [h.ne.symm]
    · exact absurd (h.child.symm.trans hparent) h.ne
  · intro x hx
    rw [childCount, hperm.countP_eq]
    rcases List.mem_pair.mp (hperm.mem_iff.mp hx) with rfl | rfl
    · simp [h.root, h.child, h.root_nextCount]
    · simp [h.root, h.child, h.ne, h.child_nextCount]

lemma IsPair.parentFirst (h : IsPair f g) : ParentFirst [f, g] := by
  intro pre x post hsplit p hp hparent
  rcases pre with - | ⟨y, - | ⟨z, pre⟩⟩
  · obtain ⟨rfl, -⟩ := List.cons_eq_cons.mp hsplit
    rcases List.mem_pair.mp hp with rfl | rfl
    · exact absurd hparent.symm h.root.1
    · exact absurd hparent.symm h.root.2
  · obtain ⟨hy, hsplit⟩ := List.cons_eq_cons.mp hsplit
    obtain ⟨hx, -⟩ := List.cons_eq_cons.mp hsplit
    rcases List.mem_pair.mp hp with hpf | hpg
    · exact List.mem_singleton.mpr (hpf.trans hy)
    · rw [hpg, ← hx, h.child] at hparent
      exact absurd hparent.symm h.ne
  · simp at hsplit

/-- The chain of a sell order that rests: the root, and the acknowledgement. -/
def sellRoot : IacaFragment Unit where
  chainId := 1
  origin := ⟨1, 1, 1⟩
  previousOrigin := .null
  nextCount := 1
  causeId := .newOrderSell
  payload := ()

def sellAck : IacaFragment Unit where
  chainId := 1
  origin := ⟨2, 1, 1⟩
  previousOrigin := ⟨1, 1, 1⟩
  nextCount := 0
  causeId := .ackData
  payload := ()

lemma isPair_sell : IsPair sellRoot sellAck := by
  constructor <;> decide

/-- The root first. -/
theorem completes_sell : Completes (start [NewOrderHandler]) [sellRoot, sellAck] := by
  refine (completes_iff_of_chain _ _ 1 (by decide) (isPair_sell.isTree (.refl _))).mpr ?_
  exact isPair_sell.parentFirst.leavesChild (isPair_sell.isTree (.refl _))

/-- The acknowledgement is sent while the root is being handled, and makes a chain of its own. -/
theorem not_completes_sell : IsTree [sellAck, sellRoot] ∧
    ¬Completes (start [NewOrderHandler]) [sellAck, sellRoot] := by
  refine ⟨isPair_sell.isTree (.swap _ _ _), fun h => ?_⟩
  have hfirst := h.steps [] sellAck [sellRoot] rfl
  exact absurd hfirst (by decide)

/-- Chains whose fragments come after their parents do not disturb each other. -/
theorem completes_of_parentFirst (handlers : List (FragmentHandler α))
    (arrivals : List (IacaFragment α))
    (htree : ∀ chainId ∈ arrivals.map IacaFragment.chainId, IsTree (fragmentsOf arrivals chainId))
    (hfirst : ∀ chainId, ParentFirst (fragmentsOf arrivals chainId)) :
    Completes (start handlers) arrivals := by
  refine (completes_iff_leavesChild htree).mpr fun chainId => ?_
  by_cases hmem : chainId ∈ arrivals.map IacaFragment.chainId
  · exact (hfirst chainId).leavesChild (htree chainId hmem)
  · rw [fragmentsOf_eq_nil.mpr hmem]
    intro pre post hnil hpre
    exact absurd (List.append_eq_nil_iff.mp hnil.symm).1 hpre

/-- A second sell order while the first is being acknowledged. -/
def nextRoot : IacaFragment Unit :=
  { sellRoot with chainId := 2, origin := ⟨1, 1, 2⟩ }

def nextAck : IacaFragment Unit :=
  { sellAck with chainId := 2, origin := ⟨2, 1, 2⟩, previousOrigin := ⟨1, 1, 2⟩ }

lemma isPair_next : IsPair nextRoot nextAck := by
  constructor <;> decide

theorem completes_interleaved :
    Completes (start [NewOrderHandler]) [sellRoot, nextRoot, sellAck, nextAck] := by
  have htwo : ∀ f ∈ [sellRoot, nextRoot, sellAck, nextAck], f.chainId = 1 ∨ f.chainId = 2 := by
    decide
  apply completes_of_parentFirst
  · intro chainId hmem
    obtain ⟨f, hf, rfl⟩ := List.mem_map.mp hmem
    rcases htwo f hf with h | h <;> rw [h]
    · exact isPair_sell.isTree (.refl _)
    · exact isPair_next.isTree (.refl _)
  · intro chainId
    by_cases hmem : chainId ∈ [sellRoot, nextRoot, sellAck, nextAck].map IacaFragment.chainId
    · obtain ⟨f, hf, rfl⟩ := List.mem_map.mp hmem
      rcases htwo f hf with h | h <;> rw [h]
      · exact isPair_sell.parentFirst
      · exact isPair_next.parentFirst
    · rw [fragmentsOf_eq_nil.mpr hmem]
      intro pre f post hsplit
      simp at hsplit

end IacaAggregator

end EuNEx
