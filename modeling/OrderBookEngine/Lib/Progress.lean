import Mathlib.Algebra.Order.BigOperators.Group.Finset
import Mathlib.Logic.Relation
import Mathlib.Order.WellFounded

/-!
# Runs that end

A step relation settles from a state when no run from there goes on for ever, and a run that cannot go on
has reached what was wanted (`Settles`). A measure that every step lowers, and a next step wherever the aim
has not been reached, are enough (`Settles.of_measure`); both may use an invariant.
-/

namespace OrderBookEngine

variable {σ : Type*} {step : σ → σ → Prop} {Aim Inv : σ → Prop} {s t : σ}

/-- Every run from a state ends, and where it ends the aim has been reached. -/
structure Settles (step : σ → σ → Prop) (Aim : σ → Prop) (s : σ) : Prop where
  /-- No run from the state goes on for ever. -/
  ends : Acc (fun t s => step s t) s
  /-- A run that cannot go on has reached the aim. -/
  aim : ∀ t, Relation.ReflTransGen step s t → (∀ u, ¬ step t u) → Aim t

/-- What a run of an invariant's steps leads to has the invariant. -/
theorem invariant_of_run (hstep : ∀ s t, Inv s → step s t → Inv t) (h : Inv s)
    (hrun : Relation.ReflTransGen step s t) : Inv t := by
  induction hrun with
  | refl => exact h
  | tail _ hlast ih => exact hstep _ _ ih hlast

namespace Settles

/-- A measure that every step lowers, with a next step wherever the aim has not been reached. -/
theorem of_measure {α : Type*} [Preorder α] [WellFoundedLT α] (measure : σ → α)
    (hstep : ∀ s t, Inv s → step s t → Inv t ∧ measure t < measure s)
    (hnext : ∀ s, Inv s → ¬ Aim s → ∃ t, step s t) (h : Inv s) : Settles step Aim s := by
  constructor
  · -- The measure of what follows is less, whatever step is taken.
    have hacc : ∀ a : α, ∀ s, Inv s → measure s = a → Acc (fun t s => step s t) s := by
      intro a
      induction a using WellFoundedLT.induction with
      | ind a ih =>
        rintro s hs rfl
        refine .intro s fun t ht => ?_
        obtain ⟨hinv, hless⟩ := hstep s t hs ht
        exact ih (measure t) hless t hinv rfl
    exact hacc _ s h rfl
  · intro t hrun hstuck
    have ht : Inv t := invariant_of_run (fun s t hs hst => (hstep s t hs hst).1) h hrun
    by_contra hnot
    obtain ⟨u, hu⟩ := hnext t ht hnot
    exact hstuck u hu

/-- The aim can be reached. -/
theorem reaches (h : Settles step Aim s) : ∃ t, Relation.ReflTransGen step s t ∧ Aim t := by
  obtain ⟨hends, haim⟩ := h
  induction hends with
  | intro s _ ih =>
    by_cases hnext : ∃ t, step s t
    · obtain ⟨t, hst⟩ := hnext
      obtain ⟨u, hrun, hu⟩ := ih t hst fun u hrun => haim u (hrun.head hst)
      exact ⟨u, hrun.head hst, hu⟩
    · exact ⟨s, .refl, haim s .refl fun t hst => hnext ⟨t, hst⟩⟩

end Settles

/-- What the first `n` of some threads have left together is less when one of them has less. -/
theorem sum_range_lt {n i : ℕ} {f g : ℕ → ℕ} (hi : i < n) (hless : f i < g i)
    (hother : ∀ j, j ≠ i → f j = g j) : (Finset.range n).sum f < (Finset.range n).sum g := by
  refine Finset.sum_lt_sum (fun j _ => ?_) ⟨i, Finset.mem_range.mpr hi, hless⟩
  by_cases hj : j = i
  · exact hj ▸ hless.le
  · exact (hother j hj).le

end OrderBookEngine
