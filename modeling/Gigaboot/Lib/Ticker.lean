import Mathlib.Algebra.BigOperators.Group.Finset.Basic
import Mathlib.Tactic.Common

/-!
# A timer that is set again each time

A timer that someone looks at from time to time.  When a look finds that it has expired it is set
again, from then on, for a period that depends on how often it has expired before.

* `Armed.run`: the periods of all expiries have passed one after the other;
* `expires`, `expires_twice`: if the looks are never far apart, the timer expires soon.
-/

namespace Ticker

/-- When the timer is due, and how often it has expired. -/
structure State where
  due : Nat
  count : Nat

def step (period : Nat → Nat) (s : State) (now : Nat) : State :=
  if s.due ≤ now then ⟨now + period (s.count + 1), s.count + 1⟩ else s

variable {α : Type*} {period : Nat → Nat} {time : α → Nat}

def run (period : Nat → Nat) (time : α → Nat) (s : State) : List α → State
  | [] => s
  | a :: as => run period time (step period s (time a)) as

theorem run_append (s : State) (as bs : List α) :
    run period time s (as ++ bs) = run period time (run period time s as) bs := by
  induction as generalizing s with
  | nil => rfl
  | cons a as ih => exact ih _

theorem step_pending {s : State} {now : Nat} (h : now < s.due) : step period s now = s :=
  if_neg (Nat.not_le.mpr h)

theorem step_expired {s : State} {now : Nat} (h : s.due ≤ now) :
    step period s now = ⟨now + period (s.count + 1), s.count + 1⟩ :=
  if_pos h

theorem run_pending {s : State} {as : List α} (h : ∀ a ∈ as, time a < s.due) :
    run period time s as = s := by
  induction as with
  | nil => rfl
  | cons a as ih =>
    rw [run, step_pending (h a List.mem_cons_self)]
    exact ih fun b hb => h b (List.mem_cons_of_mem a hb)

/-! ## The times of the looks -/

/-- The looks come in order, none of them more than `δ` after the one before it. -/
def Spaced (time : α → Nat) (δ : Nat) : Nat → List α → Prop
  | _, [] => True
  | last, a :: as => last ≤ time a ∧ time a ≤ last + δ ∧ Spaced time δ (time a) as

def finish (time : α → Nat) : Nat → List α → Nat
  | last, [] => last
  | _, a :: as => finish time (time a) as

theorem finish_append (last : Nat) (as bs : List α) :
    finish time last (as ++ bs) = finish time (finish time last as) bs := by
  induction as generalizing last with
  | nil => rfl
  | cons a as ih => exact ih _

theorem Spaced.append_iff {δ last : Nat} {as bs : List α} :
    Spaced time δ last (as ++ bs) ↔
      Spaced time δ last as ∧ Spaced time δ (finish time last as) bs := by
  induction as generalizing last with
  | nil => exact (and_iff_right trivial).symm
  | cons a as ih =>
    rw [List.cons_append, Spaced, Spaced, ih, finish, and_assoc, and_assoc]

/-! ## Runs -/

/-- A timer that was first set at `t₀`, after a look at `now`: its periods have passed, it is not
due yet, and it will be within a period. -/
structure Armed (period : Nat → Nat) (max t₀ now : Nat) (s : State) : Prop where
  passed : t₀ + ∑ i ∈ Finset.range s.count, period i ≤ now
  due_ge : t₀ + ∑ i ∈ Finset.range (s.count + 1), period i ≤ s.due
  pending : now < s.due
  due_le : s.due ≤ now + max

theorem armed_start {max : Nat} (t₀ : Nat) (hpos : 0 < period 0) (hmax : period 0 ≤ max) :
    Armed period max t₀ t₀ ⟨t₀ + period 0, 0⟩ := by
  refine ⟨?_, ?_, Nat.lt_add_of_pos_right hpos, Nat.add_le_add_left hmax t₀⟩
  · rw [Finset.sum_range_zero]
    exact Nat.le_refl t₀
  · rw [Finset.sum_range_one]

section Periods

variable {max t₀ : Nat} (hpos : ∀ i, 0 < period i) (hmax : ∀ i, period i ≤ max)
include hpos hmax

theorem Armed.step {last now : Nat} {s : State} (h : Armed period max t₀ last s)
    (hnow : last ≤ now) : Armed period max t₀ now (step period s now) := by
  by_cases hdue : s.due ≤ now
  · rw [step_expired hdue]
    have hge := h.due_ge
    refine ⟨hge.trans hdue, ?_, Nat.lt_add_of_pos_right (hpos _),
      Nat.add_le_add_left (hmax _) now⟩
    dsimp only
    rw [Finset.sum_range_succ]
    omega
  · rw [step_pending (Nat.not_le.mp hdue)]
    have hle := h.due_le
    exact ⟨h.passed.trans hnow, h.due_ge, Nat.not_le.mp hdue, by omega⟩

theorem Armed.run {δ last : Nat} {s : State} {as : List α} (h : Armed period max t₀ last s)
    (hs : Spaced time δ last as) :
    Armed period max t₀ (finish time last as) (run period time s as) := by
  induction as generalizing last s with
  | nil => exact h
  | cons a as ih => exact ih (h.step hpos hmax hs.1) hs.2.2

omit hpos hmax in
/-- A timer expires at the first look after it is due, which is not long after. -/
theorem expires {δ last : Nat} {s : State} {as : List α} (hs : Spaced time δ last as)
    (hlast : last < s.due) (hdue : s.due ≤ finish time last as) :
    ∃ l a r, as = l ++ a :: r ∧ (∀ b ∈ l, time b < s.due) ∧ s.due ≤ time a ∧
      time a ≤ s.due + δ := by
  induction as generalizing last with
  | nil => exact absurd hdue (Nat.not_le.mpr hlast)
  | cons a as ih =>
    obtain ⟨-, hgap, hrest⟩ := hs
    by_cases ha : s.due ≤ time a
    · exact ⟨[], a, as, rfl, by nofun, ha, by omega⟩
    · obtain ⟨l, b, r, rfl, hl, hb, hle⟩ := ih hrest (Nat.not_le.mp ha) hdue
      refine ⟨a :: l, b, r, rfl, ?_, hb, hle⟩
      exact List.forall_mem_cons.mpr ⟨Nat.not_le.mp ha, hl⟩

/-- In a time that is long enough it expires twice. -/
theorem expires_twice {δ last : Nat} {s : State} {as : List α}
    (h : Armed period max t₀ last s) (hs : Spaced time δ last as)
    (hlong : last + 2 * (max + δ) ≤ finish time last as) :
    ∃ l a m b r, as = l ++ a :: (m ++ b :: r) ∧ (∀ c ∈ l, time c < s.due) ∧ s.due ≤ time a ∧
      (∀ c ∈ m, time c < (step period s (time a)).due) ∧
      (step period s (time a)).due ≤ time b := by
  have hdue := h.due_le
  obtain ⟨l, a, rest, rfl, hl, ha, hle⟩ := expires hs h.pending (by omega)
  obtain ⟨-, hs'⟩ := Spaced.append_iff.mp hs
  rw [finish_append] at hlong
  -- after the first expiry there is time for another one
  have hper := hmax (s.count + 1)
  have hdue' : (step period s (time a)).due = time a + period (s.count + 1) := by
    rw [step_expired ha]
  have hpos' := hpos (s.count + 1)
  have hlong' : last + 2 * (max + δ) ≤ finish time (time a) rest := hlong
  obtain ⟨m, b, r, rfl, hm, hb, -⟩ := expires (s := step period s (time a)) hs'.2.2
    (by omega) (by omega)
  exact ⟨l, a, m, b, r, rfl, hl, ha, hm, hb⟩

end Periods

end Ticker
