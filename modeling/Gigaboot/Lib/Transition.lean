import Mathlib.Logic.Relation

/-!
# Transition systems

Reachability along a step relation from a set of initial states, and the two
rules by which a safety property of every reachable state is proved.
-/

namespace Transition

open Relation

variable {σ : Type*}

/-- Some run from an initial state ends in `s`. -/
def Reachable (init : σ → Prop) (step : σ → σ → Prop) (s : σ) : Prop :=
  ∃ s₀, init s₀ ∧ ReflTransGen step s₀ s

theorem Reachable.of_init {init : σ → Prop} {step : σ → σ → Prop} {s : σ} (h : init s) :
    Reachable init step s :=
  ⟨s, h, .refl⟩

theorem Reachable.next {init : σ → Prop} {step : σ → σ → Prop} {s t : σ}
    (h : Reachable init step s) (hst : step s t) : Reachable init step t := by
  obtain ⟨s₀, h₀, hr⟩ := h
  exact ⟨s₀, h₀, hr.tail hst⟩

/-- **Invariant rule.**  What holds initially and is kept by every step holds in
every reachable state. -/
theorem Reachable.invariant {init : σ → Prop} {step : σ → σ → Prop} {inv : σ → Prop}
    (h₀ : ∀ s, init s → inv s) (hstep : ∀ s t, inv s → step s t → inv t) {s : σ}
    (h : Reachable init step s) : inv s := by
  obtain ⟨s₀, hs₀, hr⟩ := h
  induction hr with
  | refl => exact h₀ _ hs₀
  | tail _ hst ih => exact hstep _ _ ih hst

/-- **Invariant rule under a bound.**  The step may also use a property `bound`
of its target, when a step never establishes that property anew. -/
theorem Reachable.invariant_of_bound {init : σ → Prop} {step : σ → σ → Prop}
    {inv bound : σ → Prop} (h₀ : ∀ s, init s → inv s)
    (hback : ∀ s t, step s t → bound t → bound s)
    (hstep : ∀ s t, inv s → bound t → step s t → inv t) {s : σ}
    (h : Reachable init step s) (hb : bound s) : inv s := by
  obtain ⟨s₀, hs₀, hr⟩ := h
  induction hr with
  | refl => exact h₀ _ hs₀
  | tail _ hst ih => exact hstep _ _ (ih (hback _ _ hst hb)) hb hst

end Transition
