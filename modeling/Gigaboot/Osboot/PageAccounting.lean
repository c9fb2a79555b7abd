import Gigaboot.Lib.Ledger
import Gigaboot.Osboot.BootKernel

/-!
# The pages of a kernel

What `load_kernel` holds when it returns.  The code after `fail:` frees what `k` has a
pointer to, and takes a page at address 0 for one that was not allocated.

* `heldPages_loadFail`: what is left of the pages that were allocated before a failure;
* `pages_balanced_iff`: when every page is accounted for;
* `pages_balanced`: that every page is, if the firmware does not hand out the page at
  address 0.
-/

namespace Gigaboot.Osboot

open ByteMem

abbrev PageRun := UInt64 × UInt32

def PageEvent.entry : PageEvent → Ledger.Event PageRun
  | .allocatePages mem pages => .acquire (mem, pages)
  | .freePages mem pages => .release (mem, pages)

/-- The runs that are allocated after the calls in `log`; `none` if one of them freed what
was not allocated. -/
def heldPages (log : List PageEvent) : Option (List PageRun) :=
  Ledger.run [] (log.map PageEvent.entry)

/-- A page is freed after `fail:` if there is a pointer to it. -/
def freeOne (mem : UInt64) : List PageEvent := if mem ≠ 0 then [.freePages mem 1] else []

theorem loadFail_log (zeropage cmdline : UInt64) (n : UInt32) (pages : Pages)
    (log : List PageEvent) :
    (loadFail ⟨zeropage, cmdline, 0, n⟩ pages log).log =
      log ++ freeOne cmdline ++ freeOne zeropage := by
  simp only [loadFail, freeOne, ne_eq, not_true_eq_false, if_false, List.append_nil]

/-- One page, which was the last to be allocated except for those at address 0. -/
theorem heldPages_freeOne {log : List PageEvent} {kept rest : List PageRun} {mem : UInt64}
    (h : heldPages log = some (kept ++ (mem, 1) :: rest)) (hkept : ∀ r ∈ kept, r.1 = 0) :
    heldPages (log ++ freeOne mem) =
      some (kept ++ (if mem = 0 then [(0, 1)] else []) ++ rest) := by
  unfold freeOne
  by_cases h0 : mem = 0
  · subst h0
    rw [if_neg (not_not_intro rfl), if_pos rfl, List.append_nil, h, List.append_assoc]
    rfl
  · have hnot : (mem, (1 : UInt32)) ∉ kept := fun hmem => h0 (hkept _ hmem)
    have hrel := Ledger.run_release h hnot
    rw [if_pos h0, if_neg h0, List.append_nil, heldPages, List.map_append]
    exact hrel

/-- **What a failure leaves** of the two pages: those at address 0. -/
theorem heldPages_loadFail (zeropage cmdline : UInt64) (n : UInt32) (pages : Pages) :
    heldPages (loadFail ⟨zeropage, cmdline, 0, n⟩ pages
        [.allocatePages zeropage 1, .allocatePages cmdline 1]).log =
      some ((if cmdline = 0 then [(0, 1)] else []) ++ (if zeropage = 0 then [(0, 1)] else [])) := by
  rw [loadFail_log]
  have hboth : heldPages [.allocatePages zeropage 1, .allocatePages cmdline 1] =
      some ([] ++ (cmdline, 1) :: [(zeropage, 1)]) := rfl
  have hcmd := heldPages_freeOne hboth (by nofun)
  have hzp := heldPages_freeOne hcmd (by
    intro r hr
    by_cases h0 : cmdline = 0
    · rw [if_pos h0, List.nil_append, List.mem_singleton] at hr
      rw [hr]
    · rw [if_neg h0] at hr
      cases hr)
  rw [List.append_nil, List.nil_append] at hzp
  exact hzp

/-- The same before there is a page for the command line. -/
theorem heldPages_loadFail_one (zeropage : UInt64) (pages : Pages) :
    heldPages (loadFail ⟨zeropage, 0, 0, 0⟩ pages [.allocatePages zeropage 1]).log =
      some (if zeropage = 0 then [(0, 1)] else []) := by
  rw [loadFail_log]
  have hone : heldPages ([.allocatePages zeropage 1] ++ freeOne 0) =
      some ([] ++ (zeropage, 1) :: []) := rfl
  have hzp := heldPages_freeOne hone (by nofun)
  rw [List.append_nil, List.nil_append] at hzp
  exact hzp

/-- Every page is accounted for: all are freed on a failure, and on success the three runs
that `k` describes are held and none was freed. -/
structure PagesBalanced (l : Loaded) : Prop where
  failed : l.ret = -1 → heldPages l.log = some []
  loaded : l.ret = 0 → l.k.image = 0x100000 ∧
    l.log = [.allocatePages l.k.zeropage 1, .allocatePages l.k.cmdline 1,
      .allocatePages l.k.image (l.k.pages + 1)]
  ends : l.ret = -1 ∨ l.ret = 0

theorem loadFail_balanced_iff (k : KernelT) (pages : Pages) (log : List PageEvent) :
    PagesBalanced (loadFail k pages log) ↔ heldPages (loadFail k pages log).log = some [] :=
  ⟨fun h => h.failed rfl, fun h => ⟨fun _ => h, by nofun, .inl rfl⟩⟩

/-- `AllocatePages` grants no page at address 0.  The page for the command line is asked for
only after one was granted for the zero page. -/
def Allocations.NonNull (bs : Allocations) : Prop :=
  bs.zeropage ≠ some 0 ∧ (bs.zeropage ≠ none → bs.cmdline ≠ some 0)

/-- The accounting balances unless `load_kernel` fails after it was given a page at address
0. -/
theorem pages_balanced_iff (bs : Allocations) (pages : Pages) (image : Mem) (sz : UInt64) :
    PagesBalanced (loadKernel bs pages image sz) ↔
      (ImageOk image sz → ¬ bs.Granted → bs.NonNull) := by
  have hend := loadKernel_end bs pages image sz
  generalize loadKernel bs pages image sz = l at hend
  cases hend with
  | unfit hno =>
    rw [loadFail_balanced_iff]
    exact iff_of_true rfl fun hok => absurd hok hno
  | noZeropage _ hz =>
    rw [loadFail_balanced_iff]
    refine iff_of_true rfl fun _ _ => ?_
    rw [Allocations.NonNull, hz]
    exact ⟨by nofun, fun h => absurd rfl h⟩
  | noCmdline zeropage hok hz hc =>
    have hnot : ¬ bs.Granted := fun hg => hg.cmdline hc
    rw [loadFail_balanced_iff, heldPages_loadFail_one]
    simp [hok, hnot, Allocations.NonNull, hz, hc]
  | noImage zeropage cmdline hok hz hc hi =>
    have hnot : ¬ bs.Granted := by
      intro hg
      rw [hg.image] at hi
      cases hi
    rw [loadFail_balanced_iff, heldPages_loadFail]
    simp [hok, hnot, Allocations.NonNull, hz, hc, and_comm]
  | loaded zeropage cmdline hok hz hc hi =>
    refine iff_of_true ⟨by nofun, fun _ => ⟨rfl, rfl⟩, .inr rfl⟩ fun _ hnot => ?_
    exact absurd ⟨by rw [hz]; nofun, by rw [hc]; nofun, hi⟩ hnot

/-- The page at address 0 is lost if there is none for the command line. -/
example : heldPages (loadKernel ⟨some 0, none, true⟩ zeroPages smallImage 1024).log =
    some [(0, 1)] := rfl

/-- **The page accounting of `load_kernel` balances**, if no page is granted at address 0. -/
theorem pages_balanced (bs : Allocations) (pages : Pages) (image : Mem) (sz : UInt64)
    (hnull : bs.NonNull) : PagesBalanced (loadKernel bs pages image sz) :=
  (pages_balanced_iff bs pages image sz).mpr fun _ _ => hnull

/-- There is no room for the kernel: the other two pages are freed, the last one first. -/
theorem pages_balanced_noImage :
    PagesBalanced (loadKernel ⟨some 0x1000, some 0x2000, false⟩ zeroPages smallImage 1024) ∧
    (loadKernel ⟨some 0x1000, some 0x2000, false⟩ zeroPages smallImage 1024).log =
      [.allocatePages 0x1000 1, .allocatePages 0x2000 1, .freePages 0x2000 1,
        .freePages 0x1000 1] :=
  ⟨pages_balanced _ _ _ _ ⟨by decide, fun _ => by decide⟩, rfl⟩

end Gigaboot.Osboot
