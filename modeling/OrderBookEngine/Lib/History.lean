import Mathlib.Data.List.Induction

/-!
# Histories

A property of every entry of a growing list, given the entries before it. `each_concat` is the step
of a proof about all histories: only the newest entry has to be looked at.
-/

namespace OrderBookEngine

namespace History

variable {α : Type} {Q Q' : List α → α → Prop} {es es' : List α} {e : α}

/-- Every entry has the property, after the entries before it. -/
def Each (Q : List α → α → Prop) (es : List α) : Prop :=
  ∀ before e after, es = before ++ e :: after → Q before e

/-- An empty history has nothing to hold for. -/
theorem each_nil : Each Q [] := by
  intro before e after h
  simp at h

/-- A history that has grown by one entry. -/
theorem each_concat : Each Q (es ++ [e]) ↔ Each Q es ∧ Q es e := by
  constructor
  · intro h
    refine ⟨fun before x after hsplit => h before x (after ++ [e]) ?_, h es e [] rfl⟩
    rw [hsplit, List.append_assoc, List.cons_append]
  · rintro ⟨hes, he⟩ before x after hsplit
    -- The cut is at the newest entry, or before it.
    rcases List.eq_nil_or_concat after with rfl | ⟨after, y, rfl⟩
    · obtain ⟨rfl, hx⟩ := List.append_inj' hsplit rfl
      obtain rfl := List.singleton_inj.mp hx
      exact he
    · rw [List.concat_eq_append, ← List.cons_append, ← List.append_assoc] at hsplit
      obtain ⟨rfl, -⟩ := List.append_inj' hsplit rfl
      exact hes before x after rfl

/-- A stretch of entries that have the property whatever comes before them. -/
theorem Each.append (h : Each Q es) (h' : ∀ before, ∀ e ∈ es', Q before e) : Each Q (es ++ es') := by
  induction es' using List.reverseRecOn with
  | nil => rwa [List.append_nil]
  | append_singleton es' e ih =>
    rw [← List.append_assoc]
    refine each_concat.mpr ⟨ih fun before x hx => h' before x (List.mem_append_left _ hx), ?_⟩
    exact h' _ e (List.mem_append_right _ (List.mem_singleton_self e))

/-- A weaker relation holds too. -/
theorem Each.imp (h : Each Q es) (himp : ∀ before e, Q before e → Q' before e) : Each Q' es :=
  fun before e after hsplit => himp before e (h before e after hsplit)

end History

end OrderBookEngine
