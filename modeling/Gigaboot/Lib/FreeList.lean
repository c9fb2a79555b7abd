import Mathlib.Data.List.Perm.Basic

/-!
# Linked lists in memory

A singly linked list is a head and a link for every node; `next` is the memory that
holds the links, and `null` the end of the list.  `Chain` says which nodes a head leads
to.  A chain is finite and ends in `null`, so it has no cycle.

* `Chain.pop`, `Chain.push`: taking a node from the front, and putting one there.
-/

namespace FreeList

variable {α : Type*} {null : α} {next next' : α → α}

/-- The nodes from `head` to `null`. -/
def Chain (null : α) (next : α → α) : α → List α → Prop
  | head, [] => head = null
  | head, b :: bs => head = b ∧ b ≠ null ∧ Chain null next (next b) bs

theorem Chain.congr {l : List α} : ∀ {head : α}, Chain null next head l →
    (∀ b ∈ l, next' b = next b) → Chain null next' head l := by
  induction l with
  | nil =>
    intro head h _
    exact h
  | cons b bs ih =>
    intro head h hsame
    obtain ⟨hb, hne, hrest⟩ := h
    refine ⟨hb, hne, ?_⟩
    rw [hsame b List.mem_cons_self]
    exact ih hrest fun c hc => hsame c (List.mem_cons_of_mem _ hc)

theorem Chain.head_cases {head : α} {l : List α} (h : Chain null next head l) :
    head = null ∨ head ∈ l := by
  cases l with
  | nil => exact .inl h
  | cons b bs => exact .inr (h.1 ▸ List.mem_cons_self)

/-- Take the first node; its own link may change. -/
theorem Chain.pop {head : α} {l : List α} (h : Chain null next head l) (hne : head ≠ null)
    (hnodup : l.Nodup) (hsame : ∀ b ∈ l, b ≠ head → next' b = next b) :
    ∃ rest, l = head :: rest ∧ Chain null next' (next head) rest := by
  cases l with
  | nil => exact absurd h hne
  | cons b bs =>
    obtain ⟨rfl, -, hrest⟩ := h
    refine ⟨bs, rfl, hrest.congr fun c hc => hsame c (List.mem_cons_of_mem _ hc) ?_⟩
    rintro rfl
    exact (List.nodup_cons.mp hnodup).1 hc

/-- Put a node in front of a list it is not in. -/
theorem Chain.push {head b : α} {l : List α} (h : Chain null next head l) (hne : b ≠ null)
    (hlink : next' b = head) (hsame : ∀ c ∈ l, next' c = next c) :
    Chain null next' b (b :: l) :=
  ⟨rfl, hne, by rw [hlink]; exact h.congr hsame⟩

end FreeList
