import Mathlib.Tactic.Common

/-!
# Ledgers of resources

A program that takes resources and gives them back, as the list of what it did.  Running the
list tells what is held at its end, and fails at the release of something that is not held:
given back twice, or never taken.

* `run_append`: a run goes through the parts of a list one after the other;
* `run_unwind`: giving back what was taken last, first, leaves what was held besides.
-/

namespace Ledger

inductive Event (ρ : Type*)
  | acquire (r : ρ)
  | release (r : ρ)
  deriving DecidableEq, Repr

variable {ρ : Type*} [DecidableEq ρ]

/-- What is held after the events, the last that was taken first. -/
def run : List ρ → List (Event ρ) → Option (List ρ)
  | held, [] => some held
  | held, .acquire r :: log => run (r :: held) log
  | held, .release r :: log => if r ∈ held then run (held.erase r) log else none

theorem run_append (log log' : List (Event ρ)) (held : List ρ) :
    run held (log ++ log') = (run held log).bind fun held' => run held' log' := by
  induction log generalizing held with
  | nil => rfl
  | cons e log ih =>
    cases e with
    | acquire r => exact ih (r :: held)
    | release r =>
      rw [List.cons_append, run, run]
      by_cases hr : r ∈ held
      · rw [if_pos hr, if_pos hr]
        exact ih (held.erase r)
      · rw [if_neg hr, if_neg hr]
        rfl

theorem run_release {log : List (Event ρ)} {held kept rest : List ρ} {r : ρ}
    (h : run held log = some (kept ++ r :: rest)) (hr : r ∉ kept) :
    run held (log ++ [.release r]) = some (kept ++ rest) := by
  rw [run_append, h, Option.bind_some, run,
    if_pos (List.mem_append_right _ List.mem_cons_self), run, List.erase_append_right _ hr,
    List.erase_cons_head]

/-- What is held is given back in the order of a stack, except for `kept`. -/
theorem run_unwind {log : List (Event ρ)} {held kept rest : List ρ}
    (h : run held log = some (kept ++ rest)) (hr : ∀ r ∈ rest, r ∉ kept) :
    run held (log ++ rest.map .release) = some kept := by
  induction rest generalizing log with
  | nil =>
    rw [List.append_nil] at h
    rw [List.map_nil, List.append_nil]
    exact h
  | cons r rest ih =>
    have hstep := run_release h (hr r List.mem_cons_self)
    have hall := ih hstep fun s hs => hr s (List.mem_cons_of_mem _ hs)
    rwa [List.append_assoc] at hall

end Ledger
