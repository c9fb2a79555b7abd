import Mathlib.Data.List.Chain
import Mathlib.Tactic.Common

/-!
# Labelled ranges

Half-open ranges of natural numbers with a label, and lists of them that are built up at
the end: a range that continues the last one under the same label is merged into it.

* `cover_coalesce`: merging keeps how often a number is covered under each label;
* `canonical_coalesce`: no two neighbours could be merged any more;
* `pairwise_coalesce`: a relation between the ranges that a merged range inherits from its
  parts still holds between any two.
-/

namespace Ranges

/-- The numbers from `start` to `stop`, the latter excluded. -/
structure Range (τ : Type*) where
  start : Nat
  stop : Nat
  label : τ
  le : start ≤ stop

variable {τ : Type*}

def Range.Contains (r : Range τ) (a : Nat) : Prop := r.start ≤ a ∧ a < r.stop

instance (r : Range τ) (a : Nat) : Decidable (r.Contains a) := inferInstanceAs (Decidable (_ ∧ _))

def Range.Touches (r s : Range τ) : Prop := r.label = s.label ∧ r.stop = s.start

instance [DecidableEq τ] (r s : Range τ) : Decidable (r.Touches s) :=
  inferInstanceAs (Decidable (_ ∧ _))

def Range.merge (r s : Range τ) (h : r.Touches s) : Range τ where
  start := r.start
  stop := s.stop
  label := r.label
  le := Nat.le_trans r.le (h.2 ▸ s.le)

/-! ## Order -/

/-- A merged range stands in the relation if both its parts do. -/
structure Inherited (P : Range τ → Range τ → Prop) : Prop where
  right : ∀ x r s h, P x r → P x s → P x (Range.merge r s h)
  left : ∀ x r s h, P r x → P s x → P (Range.merge r s h) x

/-- The ranges are sorted by where they start, and have no number in common. -/
def Range.Apart (r s : Range τ) : Prop := r.start ≤ s.start ∧ ∀ a, ¬ (r.Contains a ∧ s.Contains a)

/-- The second range starts after the first has ended. -/
def Range.Before (r s : Range τ) : Prop := r.stop ≤ s.start

theorem Range.Contains.merge_cases {r s : Range τ} {h : r.Touches s} {a : Nat}
    (ha : (r.merge s h).Contains a) : r.Contains a ∨ s.Contains a := by
  have hstop := h.2
  by_cases hlt : a < r.stop
  · exact .inl ⟨ha.1, hlt⟩
  · exact .inr ⟨by omega, ha.2⟩

theorem apart_inherited : Inherited (Range.Apart : Range τ → Range τ → Prop) := by
  refine ⟨fun x r s h hr hs => ⟨hr.1, ?_⟩, fun x r s h hr hs => ⟨hr.1, ?_⟩⟩
  · rintro a ⟨hx, ha⟩
    rcases ha.merge_cases with ha | ha
    · exact hr.2 a ⟨hx, ha⟩
    · exact hs.2 a ⟨hx, ha⟩
  · rintro a ⟨ha, hx⟩
    rcases ha.merge_cases with ha | ha
    · exact hr.2 a ⟨ha, hx⟩
    · exact hs.2 a ⟨ha, hx⟩

theorem before_inherited : Inherited (Range.Before : Range τ → Range τ → Prop) :=
  ⟨fun _ _ _ _ hr _ => hr, fun _ _ _ _ _ hs => hs⟩

/-! ## Lists of ranges -/

variable [DecidableEq τ]

def push (l : List (Range τ)) (r : Range τ) : List (Range τ) :=
  match l.getLast? with
  | none => l ++ [r]
  | some e => if h : e.Touches r then l.dropLast ++ [e.merge r h] else l ++ [r]

def coalesce (rs : List (Range τ)) : List (Range τ) := rs.foldl push []

@[simp] theorem push_nil (r : Range τ) : push [] r = [r] := rfl

theorem push_concat (l : List (Range τ)) (e r : Range τ) :
    push (l ++ [e]) r = if h : e.Touches r then l ++ [e.merge r h] else l ++ [e] ++ [r] := by
  simp only [push, List.getLast?_concat, List.dropLast_concat]

/-- Everything that one step can do to a list. -/
theorem push_cases (l : List (Range τ)) (r : Range τ) :
    (∃ (l' : List (Range τ)) (e : Range τ) (h : e.Touches r),
      l = l' ++ [e] ∧ push l r = l' ++ [e.merge r h]) ∨
    ((∀ e ∈ l.getLast?, ¬ e.Touches r) ∧ push l r = l ++ [r]) := by
  rcases List.eq_nil_or_concat l with rfl | ⟨l', e, rfl⟩
  · exact .inr ⟨nofun, rfl⟩
  · rw [List.concat_eq_append, push_concat]
    by_cases h : e.Touches r
    · exact .inl ⟨l', e, h, rfl, by rw [dif_pos h]⟩
    · refine .inr ⟨fun x hx => ?_, by rw [dif_neg h]⟩
      rw [List.getLast?_concat] at hx
      cases hx
      exact h

/-! ## Properties of every range -/

theorem forall_push {Q : Range τ → Prop} (hQ : ∀ e r h, Q e → Q r → Q (Range.merge e r h))
    {l : List (Range τ)} (hl : ∀ s ∈ l, Q s) {r : Range τ} (hr : Q r) : ∀ s ∈ push l r, Q s := by
  intro s hs
  rcases push_cases l r with ⟨l', e, h, rfl, heq⟩ | ⟨-, heq⟩ <;> rw [heq] at hs <;>
    rcases List.mem_append.mp hs with hs | hs
  · exact hl s (List.mem_append_left _ hs)
  · rw [List.mem_singleton.mp hs]
    exact hQ e r h (hl e (by simp)) hr
  · exact hl s hs
  · rw [List.mem_singleton.mp hs]
    exact hr

theorem forall_coalesce {Q : Range τ → Prop} (hQ : ∀ e r h, Q e → Q r → Q (Range.merge e r h))
    {rs : List (Range τ)} (h : ∀ r ∈ rs, Q r) : ∀ s ∈ coalesce rs, Q s := by
  have hgen : ∀ rs : List (Range τ), (∀ r ∈ rs, Q r) → ∀ l : List (Range τ), (∀ s ∈ l, Q s) →
      ∀ s ∈ rs.foldl push l, Q s := by
    intro rs
    induction rs with
    | nil => exact fun _ l hl => hl
    | cons r rs ih =>
      intro hrs l hl
      exact ih (fun x hx => hrs x (List.mem_cons_of_mem _ hx)) _
        (forall_push hQ hl (hrs r List.mem_cons_self))
  exact hgen rs h [] nofun

/-! ## Covering -/

/-- How many ranges with the label `t` contain `a`. -/
def cover (t : τ) (a : Nat) (l : List (Range τ)) : Nat :=
  l.countP fun r => r.label = t ∧ r.Contains a

theorem cover_append (t : τ) (a : Nat) (l l' : List (Range τ)) :
    cover t a (l ++ l') = cover t a l + cover t a l' :=
  List.countP_append

theorem cover_merge (t : τ) (a : Nat) (r s : Range τ) (h : r.Touches s) :
    cover t a [r.merge s h] = cover t a [r] + cover t a [s] := by
  have hr := r.le
  have hs := s.le
  obtain ⟨hlabel, hstop⟩ := h
  simp only [cover, List.countP_singleton, Range.Contains, Range.merge, ← hlabel,
    decide_eq_true_eq]
  by_cases ht : r.label = t
  · simp only [ht, true_and]
    by_cases ha : a < r.stop <;> grind
  · simp [ht]

theorem cover_push (t : τ) (a : Nat) (l : List (Range τ)) (r : Range τ) :
    cover t a (push l r) = cover t a l + cover t a [r] := by
  rcases push_cases l r with ⟨l', e, h, rfl, heq⟩ | ⟨-, heq⟩
  · rw [heq, cover_append, cover_append, cover_merge, Nat.add_assoc]
  · rw [heq, cover_append]

theorem cover_foldl_push (t : τ) (a : Nat) (rs l : List (Range τ)) :
    cover t a (rs.foldl push l) = cover t a l + cover t a rs := by
  induction rs generalizing l with
  | nil => rfl
  | cons r rs ih =>
    rw [List.foldl_cons, ih, cover_push, Nat.add_assoc, ← cover_append]
    rfl

/-- **Merging keeps the meaning.** -/
theorem cover_coalesce (t : τ) (a : Nat) (rs : List (Range τ)) :
    cover t a (coalesce rs) = cover t a rs := by
  have h := cover_foldl_push t a rs []
  rwa [show cover t a ([] : List (Range τ)) = 0 from rfl, Nat.zero_add] at h

/-! ## Neighbours -/

/-- No range continues the one before it. -/
def Canonical (l : List (Range τ)) : Prop := l.IsChain fun r s => ¬ r.Touches s

theorem canonical_push {l : List (Range τ)} (h : Canonical l) (r : Range τ) :
    Canonical (push l r) := by
  rcases push_cases l r with ⟨l', e, ht, rfl, heq⟩ | ⟨hn, heq⟩ <;> rw [heq]
  · -- the merged range starts where the last one did
    obtain ⟨hl, -, hlast⟩ := List.isChain_append.mp h
    refine List.isChain_append.mpr ⟨hl, .singleton _, fun x hx y hy => ?_⟩
    cases hy
    exact hlast x hx e rfl
  · refine List.isChain_append.mpr ⟨h, .singleton _, fun x hx y hy => ?_⟩
    cases hy
    exact hn x hx

theorem canonical_coalesce (rs : List (Range τ)) : Canonical (coalesce rs) := by
  have hgen : ∀ (rs l : List (Range τ)), Canonical l → Canonical (rs.foldl push l) := by
    intro rs
    induction rs with
    | nil => exact fun l h => h
    | cons r rs ih => exact fun l h => ih _ (canonical_push h r)
  exact hgen rs [] .nil

/-! ## Pairs -/

theorem pairwise_push {P : Range τ → Range τ → Prop} (hP : Inherited P) {l rest : List (Range τ)}
    {r : Range τ} (h : (l ++ r :: rest).Pairwise P) : (push l r ++ rest).Pairwise P := by
  rcases push_cases l r with ⟨l', e, ht, rfl, heq⟩ | ⟨-, heq⟩ <;> rw [heq]
  · simp only [List.append_assoc, List.singleton_append, List.pairwise_append, List.pairwise_cons,
      List.mem_cons, forall_eq_or_imp] at h ⊢
    obtain ⟨hl, ⟨⟨-, he⟩, hr, hrest⟩, hcross⟩ := h
    refine ⟨hl, ⟨fun x hx => ?_, hrest⟩, fun x hx => ⟨?_, (hcross x hx).2.2⟩⟩
    · exact hP.left x e r ht (he x hx) (hr x hx)
    · exact hP.right x e r ht (hcross x hx).1 (hcross x hx).2.1
  · rwa [List.append_assoc]

/-- **Order is kept.** -/
theorem pairwise_coalesce {P : Range τ → Range τ → Prop} (hP : Inherited P)
    {rs : List (Range τ)} (h : rs.Pairwise P) : (coalesce rs).Pairwise P := by
  have hgen : ∀ (rs l : List (Range τ)), (l ++ rs).Pairwise P → (rs.foldl push l).Pairwise P := by
    intro rs
    induction rs with
    | nil =>
      intro l h
      rwa [List.append_nil] at h
    | cons r rs ih => exact fun l h => ih _ (pairwise_push hP h)
  exact hgen rs [] h

end Ranges
