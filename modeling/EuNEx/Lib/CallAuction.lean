import Mathlib.Algebra.BigOperators.Group.List.Basic
import Mathlib.Algebra.GroupWithZero.Nat
import Mathlib.Algebra.Order.BigOperators.Group.List
import Mathlib.Algebra.Order.Group.Nat
import Mathlib.Data.List.Basic
import Mathlib.Data.List.MinMax
import Mathlib.Order.Monotone.Defs
import Mathlib.Tactic.Common

/-!
# Call auctions

All orders of a call auction are executed at one price. What can be executed at a price is limited
by the demand at it and by the supply at it. The auction price has the greatest volume, then the
least surplus, and between prices with the same surplus it is the highest one at which buyers are
left over, or the lowest one if they are left over at none.
-/

namespace CallAuction

variable {P : Type*}

/-- What is asked for and what is on offer at each price. -/
structure Curves (P : Type*) where
  demand : P → ℕ
  supply : P → ℕ

namespace Curves

/-- What can be executed. -/
def volume (c : Curves P) (p : P) : ℕ := min (c.demand p) (c.supply p)

/-- What is left over, of one side. -/
def surplus (c : Curves P) (p : P) : ℕ :=
  (c.demand p - c.supply p) + (c.supply p - c.demand p)

/-- Buyers are left over. -/
def BuySurplus (c : Curves P) (p : P) : Prop := c.supply p < c.demand p

instance (c : Curves P) (p : P) : Decidable (c.BuySurplus p) :=
  inferInstanceAs (Decidable (_ < _))

variable [LinearOrder P]

/-- The price `p` is preferred to `q`. -/
def Beats (c : Curves P) (p q : P) : Prop :=
  c.volume q < c.volume p ∨ c.volume p = c.volume q ∧ (c.surplus p < c.surplus q ∨
    c.surplus p = c.surplus q ∧
      if c.BuySurplus p then c.BuySurplus q → q < p else ¬c.BuySurplus q ∧ p < q)

instance (c : Curves P) (p q : P) : Decidable (c.Beats p q) :=
  inferInstanceAs (Decidable (_ ∨ _ ∧ (_ ∨ _ ∧ ite _ _ _)))

variable {c : Curves P} {p q r : P} {prices : List P}

lemma not_beats_self (c : Curves P) (p : P) : ¬c.Beats p p := by
  intro h
  by_cases hp : c.BuySurplus p <;> simp [Beats, hp] at h

/-- The preference is transitive. -/
lemma Beats.trans (h : c.Beats p q) (h' : c.Beats q r) : c.Beats p r := by
  rcases h with h | ⟨hv, h⟩
  · rcases h' with h' | ⟨hv', -⟩
    · exact Or.inl (h'.trans h)
    · exact Or.inl (hv' ▸ h)
  · rcases h' with h' | ⟨hv', h'⟩
    · exact Or.inl (hv ▸ h')
    · refine Or.inr ⟨hv.trans hv', ?_⟩
      rcases h with h | ⟨hs, h⟩
      · rcases h' with h' | ⟨hs', -⟩
        · exact Or.inl (h.trans h')
        · exact Or.inl (hs' ▸ h)
      · rcases h' with h' | ⟨hs', h'⟩
        · exact Or.inl (hs ▸ h')
        · refine Or.inr ⟨hs.trans hs', ?_⟩
          by_cases hp : c.BuySurplus p <;> by_cases hq : c.BuySurplus q <;>
            by_cases hr : c.BuySurplus r <;> simp_all
          · exact h'.trans h
          · exact h.trans h'

/-- Of two prices one is preferred. -/
lemma beats_or_beats (hne : p ≠ q) : c.Beats p q ∨ c.Beats q p := by
  rcases lt_trichotomy (c.volume p) (c.volume q) with hv | hv | hv
  · exact Or.inr (Or.inl hv)
  · rcases lt_trichotomy (c.surplus p) (c.surplus q) with hs | hs | hs
    · exact Or.inl (Or.inr ⟨hv, Or.inl hs⟩)
    · rcases lt_or_gt_of_ne hne with hlt | hlt <;> by_cases hp : c.BuySurplus p <;>
        by_cases hq : c.BuySurplus q <;> simp [Beats, hv, hs, hp, hq, hlt]
    · exact Or.inr (Or.inr ⟨hv.symm, Or.inl hs⟩)
  · exact Or.inl (Or.inl hv)

/-- A price that is not preferred has no greater volume. -/
lemma volume_le (h : ¬c.Beats p q) : c.volume p ≤ c.volume q := by
  by_contra hlt
  exact h (Or.inl (not_le.mp hlt))

/-- At the same volume, it has no smaller surplus. -/
lemma surplus_le (h : ¬c.Beats p q) (hv : c.volume p = c.volume q) :
    c.surplus q ≤ c.surplus p := by
  by_contra hlt
  exact h (Or.inr ⟨hv, Or.inl (not_le.mp hlt)⟩)

/-- And at the same surplus, buyers are left over at the other price, too, and it is no lower. -/
lemma of_buySurplus (h : ¬c.Beats p q) (hv : c.volume p = c.volume q)
    (hs : c.surplus p = c.surplus q) (hp : c.BuySurplus p) : c.BuySurplus q ∧ p ≤ q := by
  have hlast : ¬(c.BuySurplus q → q < p) := fun hlast =>
    h (Or.inr ⟨hv, Or.inr ⟨hs, by rwa [if_pos hp]⟩⟩)
  push Not at hlast
  exact hlast

lemma of_not_buySurplus (h : ¬c.Beats p q) (hv : c.volume p = c.volume q)
    (hs : c.surplus p = c.surplus q) (hp : ¬c.BuySurplus p) (hq : ¬c.BuySurplus q) : q ≤ p := by
  by_contra hlt
  exact h (Or.inr ⟨hv, Or.inr ⟨hs, by rw [if_neg hp]; exact ⟨hq, not_le.mp hlt⟩⟩⟩)

/-! ### The best price -/

/-- The best price so far, if any has a volume, and the next one. -/
def pick (c : Curves P) : Option P → P → Option P
  | none, p => if 0 < c.volume p then some p else none
  | some q, p => if c.Beats p q then some p else some q

/-- What the best price of a list is. -/
structure IsBest (c : Curves P) (prices : List P) (q : P) : Prop where
  mem : q ∈ prices
  pos : 0 < c.volume q
  best : ∀ p ∈ prices, ¬c.Beats p q

/-- What a scan has found: no volume, or the best price. -/
def Found (c : Curves P) (prices : List P) : Option P → Prop
  | none => ∀ p ∈ prices, c.volume p = 0
  | some q => c.IsBest prices q

lemma Found.pick {best : Option P} (h : c.Found prices best) (p : P) :
    c.Found (prices ++ [p]) (c.pick best p) := by
  cases best with
  | none =>
    rw [Curves.pick]
    split
    · rename_i hpos
      refine ⟨by simp, hpos, fun r hr => ?_⟩
      rcases List.mem_append.mp hr with hr | hr
      · have hzero : c.volume r = 0 := h r hr
        rintro (hlt | ⟨heq, -⟩) <;> omega
      · rw [List.mem_singleton.mp hr]
        exact c.not_beats_self p
    · rename_i hpos
      intro r hr
      rcases List.mem_append.mp hr with hr | hr
      · exact h r hr
      · rw [List.mem_singleton.mp hr]
        exact Nat.eq_zero_of_not_pos hpos
  | some q =>
    obtain ⟨hmem, hpos, hbest⟩ := h
    rw [Curves.pick]
    split
    · rename_i hbeats
      have hle : c.volume q ≤ c.volume p := by
        rcases hbeats with hlt | ⟨heq, -⟩
        · exact hlt.le
        · exact heq.ge
      refine ⟨by simp, hpos.trans_le hle, fun r hr => ?_⟩
      rcases List.mem_append.mp hr with hr | hr
      · exact fun hrp => hbest r hr (hrp.trans hbeats)
      · rw [List.mem_singleton.mp hr]
        exact c.not_beats_self p
    · rename_i hnot
      refine ⟨by simp [hmem], hpos, fun r hr => ?_⟩
      rcases List.mem_append.mp hr with hr | hr
      · exact hbest r hr
      · rwa [List.mem_singleton.mp hr]

lemma Found.scan {seen : List P} {best : Option P} (h : c.Found seen best) (prices : List P) :
    c.Found (seen ++ prices) (prices.foldl c.pick best) := by
  induction prices generalizing seen best with
  | nil => rwa [List.append_nil]
  | cons p prices ih =>
    rw [List.foldl_cons, List.append_cons]
    exact ih (h.pick p)

/-- The scan finds the best price, in whatever order the prices come. -/
theorem found_scan (c : Curves P) (prices : List P) :
    c.Found prices (prices.foldl c.pick none) := by
  have hstart : c.Found [] none := fun p hp => absurd hp List.not_mem_nil
  exact hstart.scan prices

/-! ### Sloped curves -/

/-- Demand falls and supply rises with the price. -/
structure Sloped (c : Curves P) : Prop where
  demand : Antitone c.demand
  supply : Monotone c.supply

/-- At prices above the best one, there are no more buyers than can be served. -/
theorem Sloped.demand_le (hc : c.Sloped) (h : ¬c.Beats p q) (hlt : q < p) :
    c.demand p ≤ c.volume q := by
  by_contra hmore
  have hdemand := hc.demand hlt.le
  have hsupply := hc.supply hlt.le
  have hv := volume_le h
  have heq : c.volume p = c.volume q := by
    simp only [volume] at *
    omega
  have hs := surplus_le h heq
  have hp : c.BuySurplus p := by
    simp only [volume, BuySurplus] at *
    omega
  have hsame : c.surplus p = c.surplus q := by
    simp only [volume, surplus, BuySurplus] at *
    omega
  exact absurd (of_buySurplus h heq hsame hp).2 hlt.not_ge

/-- At prices below the best one, there are no more sellers than can be served. -/
theorem Sloped.supply_le (hc : c.Sloped) (h : ¬c.Beats p q) (hlt : p < q) :
    c.supply p ≤ c.volume q := by
  by_contra hmore
  have hdemand := hc.demand hlt.le
  have hsupply := hc.supply hlt.le
  have hv := volume_le h
  have heq : c.volume p = c.volume q := by
    simp only [volume] at *
    omega
  have hs := surplus_le h heq
  have hp : ¬c.BuySurplus p := by
    simp only [volume, BuySurplus] at *
    omega
  have hq : ¬c.BuySurplus q := by
    simp only [volume, surplus, BuySurplus] at *
    omega
  have hsame : c.surplus p = c.surplus q := by
    simp only [volume, surplus, BuySurplus] at *
    omega
  exact absurd (of_not_buySurplus h heq hsame hp hq) hlt.not_ge

/-! ### The curves of orders -/

section

variable {α : Type*} (price : α → P) (amount : α → ℕ) (bids asks : List α)

/-- The curves of two lists of orders. -/
def ofOrders : Curves P where
  demand p := ((bids.filter fun o => p ≤ price o).map amount).sum
  supply p := ((asks.filter fun o => price o ≤ p).map amount).sum

lemma sum_filter_mono {s t : α → Bool} (orders : List α) (h : ∀ o, s o = true → t o = true) :
    ((orders.filter s).map amount).sum ≤ ((orders.filter t).map amount).sum :=
  ((List.monotone_filter_right orders h).map amount).sum_le_sum fun _ _ => Nat.zero_le _

lemma ofOrders_sloped : (ofOrders price amount bids asks).Sloped where
  demand p q hle := by
    apply sum_filter_mono
    intro o ho
    rw [decide_eq_true_eq] at ho ⊢
    exact hle.trans ho
  supply p q hle := by
    apply sum_filter_mono
    intro o ho
    rw [decide_eq_true_eq] at ho ⊢
    exact ho.trans hle

/-- Every price with a volume is no better than the price of some seller. -/
lemma exists_volume_le {p : P} (h : 0 < (ofOrders price amount bids asks).volume p) :
    ∃ o ∈ asks, (ofOrders price amount bids asks).volume p
      ≤ (ofOrders price amount bids asks).volume (price o) := by
  have hne : asks.filter (fun o => price o ≤ p) ≠ [] := by
    intro hnil
    simp [volume, ofOrders, hnil] at h
  -- the highest of their prices
  obtain ⟨o, ho⟩ := Option.ne_none_iff_exists'.mp (mt List.argmax_eq_none.mp hne :
    (asks.filter fun o => price o ≤ p).argmax price ≠ none)
  obtain ⟨hmem, hle⟩ := List.mem_filter.mp (List.argmax_mem ho)
  rw [decide_eq_true_eq] at hle
  have hsame : asks.filter (fun o' => price o' ≤ price o)
      = asks.filter fun o' => price o' ≤ p := by
    apply List.filter_congr
    intro o' ho'
    rw [decide_eq_decide]
    constructor
    · exact fun h' => h'.trans hle
    · exact fun h' => List.le_of_mem_argmax (List.mem_filter.mpr ⟨ho', decide_eq_true h'⟩) ho
  have hsupply : (ofOrders price amount bids asks).supply (price o)
      = (ofOrders price amount bids asks).supply p := by
    simp only [ofOrders, hsame]
  have hdemand := (ofOrders_sloped price amount bids asks).demand hle
  refine ⟨o, hmem, ?_⟩
  rw [volume, volume, hsupply]
  exact min_le_min_right _ hdemand

end

end Curves

end CallAuction
