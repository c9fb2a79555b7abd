import Mathlib.Data.List.Basic

/-!
# Inserted events

A deterministic machine that reads events and gives an output for each.  Some events of a
sequence are marked as inserted; the run without them is compared with the run that has
them, on the outputs for the other events and on the state at the end.

* `run_append`: a sequence is run part by part;
* `run_originals`: the rule by which insertions are shown to be harmless.
-/

namespace Insertion

variable {σ ε ω : Type*}

/-- An event of a sequence, and whether it was inserted into it. -/
structure Tagged (ε : Type*) where
  inserted : Bool
  event : ε

/-- The state at the end, and the outputs for the events that were not inserted. -/
def run (step : σ → ε → σ × ω) (s : σ) : List (Tagged ε) → σ × List ω
  | [] => (s, [])
  | e :: es =>
    let r := step s e.event
    let rest := run step r.1 es
    (rest.1, if e.inserted then rest.2 else r.2 :: rest.2)

def originals (es : List (Tagged ε)) : List (Tagged ε) := es.filter fun e => !e.inserted

variable {step : σ → ε → σ × ω}

theorem run_append (s : σ) (xs ys : List (Tagged ε)) :
    run step s (xs ++ ys) =
      ((run step (run step s xs).1 ys).1,
        (run step s xs).2 ++ (run step (run step s xs).1 ys).2) := by
  induction xs generalizing s with
  | nil => rfl
  | cons x xs ih =>
    simp only [List.cons_append, run, ih]
    cases x.inserted <;> rfl

/-- **Harmless insertions.**  A relation that holds initially, that equal events keep with
equal outputs, and that an event inserted on the left keeps, relates the two runs. -/
theorem run_originals {R : σ → σ → Prop} {allowed : ε → Prop}
    (hstep : ∀ s t e, R s t → R (step s e).1 (step t e).1 ∧ (step s e).2 = (step t e).2)
    (hins : ∀ s t e, allowed e → R s t → R (step s e).1 t) {s t : σ} (h : R s t)
    {es : List (Tagged ε)} (hes : ∀ e ∈ es, e.inserted = true → allowed e.event) :
    R (run step s es).1 (run step t (originals es)).1 ∧
      (run step s es).2 = (run step t (originals es)).2 := by
  induction es generalizing s t with
  | nil => exact ⟨h, rfl⟩
  | cons e es ih =>
    have hes' : ∀ e ∈ es, e.inserted = true → allowed e.event :=
      fun e' he' => hes e' (List.mem_cons_of_mem _ he')
    cases he : e.inserted with
    | true =>
      have hkeep := hins s t e.event (hes e List.mem_cons_self he) h
      have hrest := ih hkeep hes'
      have hdrop : originals (e :: es) = originals es := by simp [originals, he]
      rw [hdrop]
      simp only [run, he, if_true]
      exact hrest
    | false =>
      obtain ⟨hnext, hout⟩ := hstep s t e.event h
      obtain ⟨hrest, houts⟩ := ih hnext hes'
      have hkeep : originals (e :: es) = e :: originals es := by simp [originals, he]
      rw [hkeep]
      simp only [run, he]
      exact ⟨hrest, by rw [hout, houts]⟩

end Insertion
