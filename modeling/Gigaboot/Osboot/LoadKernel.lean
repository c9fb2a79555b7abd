import Mathlib.Tactic.Common
import Gigaboot.Lib.ByteMem

/-!
# Loading a kernel

`load_kernel` of `osboot.c`: the checks on the image, the three allocations, and what is
stored in the zero page, the command line page and the kernel's own pages.  The pages
are separate pieces of memory, each with its address; the calls of `AllocatePages` and
`FreePages` are recorded.

* `loadKernel_end`: where it can end, with what it has allocated until then;
* `loadKernel_ret_iff`: the images on which it succeeds;
* `loadKernel_pages`: what it leaves in the pages.
-/

namespace Gigaboot.Osboot

open ByteMem

def zpAcpiRsd : Nat := 0x080
def zpFbBase : Nat := 0x090
def zpFbWidth : Nat := 0x094
def zpFbHeight : Nat := 0x098
def zpFbStride : Nat := 0x09C
def zpFbFormat : Nat := 0x0A0
def zpFbRegbase : Nat := 0x0A4
def zpFbSize : Nat := 0x0A8
def zpE820Count : Nat := 0x1E8
def zpSetup : Nat := 0x1F1
def zpSetupSects : Nat := 0x1F1
def zpSyssize : Nat := 0x1F4
def zpJump : Nat := 0x200
def zpHeader : Nat := 0x202
def zpVersion : Nat := 0x206
def zpLoaderType : Nat := 0x210
def zpRamdiskBase : Nat := 0x218
def zpRamdiskSize : Nat := 0x21C
def zpExtraMagic : Nat := 0x220
def zpCmdline : Nat := 0x228
def zpE820Table : Nat := 0x2D0

def zpMagicValue : UInt32 := 0xDBC64323

/-- `ZP32(p, off) = v`. -/
def zp32 (p : Mem) (off : Nat) (v : UInt32) : Mem := write p off (bytes32 v)

/-- `kernel_t`: three pointers, 0 for `NULL`, and a number of pages. -/
structure KernelT where
  zeropage : UInt64
  cmdline : UInt64
  image : UInt64
  pages : UInt32
  deriving DecidableEq, Repr

/-- The memory from each of the three pointers on. -/
structure Pages where
  zeropage : Mem
  cmdline : Mem
  image : Mem

/-- The answers to the three calls of `AllocatePages`; the last asks for an address. -/
structure Allocations where
  zeropage : Option UInt64
  cmdline : Option UInt64
  image : Bool

inductive PageEvent
  | allocatePages (mem : UInt64) (pages : UInt32)
  | freePages (mem : UInt64) (pages : UInt32)
  deriving DecidableEq, Repr

structure Loaded where
  ret : Int
  k : KernelT
  pages : Pages
  log : List PageEvent

/-- The end of `load_kernel` after `fail:`. -/
def loadFail (k : KernelT) (pages : Pages) (log : List PageEvent) : Loaded where
  ret := -1
  k := k
  pages := pages
  log := log ++
    (if k.image ≠ 0 then [.freePages k.image k.pages] else []) ++
    (if k.cmdline ≠ 0 then [.freePages k.cmdline 1] else []) ++
    (if k.zeropage ≠ 0 then [.freePages k.zeropage 1] else [])

def setupSz (image : Mem) : UInt32 := ((image zpSetupSects).toUInt32 + 1) * 512
def imageSz (image : Mem) : UInt32 := ld32 image zpSyssize * 16
def setupEnd (image : Mem) : UInt32 := 0x200 + (image (zpJump + 1)).toUInt32

/-- The stores of `load_kernel` once everything is allocated. -/
def loadStores (k : KernelT) (pages : Pages) (image : Mem) : Pages where
  zeropage :=
    let zp := write pages.zeropage 0 (List.replicate 4096 0)
    let zp := write zp zpSetup (read image zpSetup ((setupEnd image).toNat - zpSetup))
    let zp := zp32 zp zpCmdline k.cmdline.toUInt32
    let zp := zp32 zp zpRamdiskBase 0
    let zp := zp32 zp zpRamdiskSize 0
    write zp zpLoaderType [0xFF]
  cmdline := write pages.cmdline 0 [0]
  image := write pages.image 0 (read image (setupSz image).toNat (imageSz image).toNat)

def loadKernel (bs : Allocations) (pages : Pages) (image : Mem) (sz : UInt64) : Loaded :=
  let k : KernelT := ⟨0, 0, 0, 0⟩
  if sz < 1024 then loadFail k pages []
  else if ld32 image zpHeader ≠ 0x53726448 then loadFail k pages []
  else if ld16 image zpVersion < 0x020B then loadFail k pages []
  -- image size may be rounded up, thus +15
  else if setupSz image < 1024 ∨ (setupSz image + imageSz image).toUInt64 > sz + 15 then
    loadFail k pages []
  else
    match bs.zeropage with
    | none => loadFail k pages []
    | some mem =>
      let k := { k with zeropage := mem }
      let log := [.allocatePages mem 1]
      match bs.cmdline with
      | none => loadFail k pages log
      | some mem =>
        let k := { k with cmdline := mem }
        let log := log ++ [.allocatePages mem 1]
        let k := { k with pages := (imageSz image + 4095) / 4096 }
        if bs.image then
          let k := { k with image := 0x100000 }
          { ret := 0, k := k, pages := loadStores k pages image,
            log := log ++ [.allocatePages 0x100000 (k.pages + 1)] }
        else loadFail k pages log

/-- The checks on an image. -/
structure ImageOk (image : Mem) (sz : UInt64) : Prop where
  size : ¬ sz < 1024
  header : ld32 image zpHeader = 0x53726448
  version : ¬ ld16 image zpVersion < 0x020B
  fits : ¬ (setupSz image < 1024 ∨ (setupSz image + imageSz image).toUInt64 > sz + 15)

/-- All three allocations succeed. -/
structure Allocations.Granted (bs : Allocations) : Prop where
  zeropage : bs.zeropage ≠ none
  cmdline : bs.cmdline ≠ none
  image : bs.image = true

/-- The number of pages for the kernel, one less than it is given. -/
def kernelPages (image : Mem) : UInt32 := (imageSz image + 4095) / 4096

/-- Where `load_kernel` can end: at the checks, after each of the three allocations, or with
the kernel in its place. -/
inductive LoadEnd (bs : Allocations) (pages : Pages) (image : Mem) (sz : UInt64) : Loaded → Prop
  | unfit : ¬ ImageOk image sz → LoadEnd bs pages image sz (loadFail ⟨0, 0, 0, 0⟩ pages [])
  | noZeropage : ImageOk image sz → bs.zeropage = none →
      LoadEnd bs pages image sz (loadFail ⟨0, 0, 0, 0⟩ pages [])
  | noCmdline (zeropage : UInt64) : ImageOk image sz → bs.zeropage = some zeropage →
      bs.cmdline = none →
      LoadEnd bs pages image sz
        (loadFail ⟨zeropage, 0, 0, 0⟩ pages [.allocatePages zeropage 1])
  | noImage (zeropage cmdline : UInt64) : ImageOk image sz → bs.zeropage = some zeropage →
      bs.cmdline = some cmdline → bs.image = false →
      LoadEnd bs pages image sz
        (loadFail ⟨zeropage, cmdline, 0, kernelPages image⟩ pages
          [.allocatePages zeropage 1, .allocatePages cmdline 1])
  | loaded (zeropage cmdline : UInt64) : ImageOk image sz → bs.zeropage = some zeropage →
      bs.cmdline = some cmdline → bs.image = true →
      LoadEnd bs pages image sz
        ⟨0, ⟨zeropage, cmdline, 0x100000, kernelPages image⟩,
          loadStores ⟨zeropage, cmdline, 0x100000, kernelPages image⟩ pages image,
          [.allocatePages zeropage 1, .allocatePages cmdline 1,
            .allocatePages 0x100000 (kernelPages image + 1)]⟩

theorem loadKernel_end (bs : Allocations) (pages : Pages) (image : Mem) (sz : UInt64) :
    LoadEnd bs pages image sz (loadKernel bs pages image sz) := by
  unfold loadKernel
  by_cases h₁ : sz < 1024
  · rw [if_pos h₁]
    exact .unfit fun h => h.size h₁
  by_cases h₂ : ld32 image zpHeader = 0x53726448
  swap
  · rw [if_neg h₁, if_pos h₂]
    exact .unfit fun h => h₂ h.header
  by_cases h₃ : ld16 image zpVersion < 0x020B
  · rw [if_neg h₁, if_neg (not_not_intro h₂), if_pos h₃]
    exact .unfit fun h => h.version h₃
  by_cases h₄ : setupSz image < 1024 ∨ (setupSz image + imageSz image).toUInt64 > sz + 15
  · rw [if_neg h₁, if_neg (not_not_intro h₂), if_neg h₃, if_pos h₄]
    exact .unfit fun h => h.fits h₄
  rw [if_neg h₁, if_neg (not_not_intro h₂), if_neg h₃, if_neg h₄]
  have hok : ImageOk image sz := ⟨h₁, h₂, h₃, h₄⟩
  cases hz : bs.zeropage with
  | none => exact .noZeropage hok hz
  | some zeropage =>
    cases hc : bs.cmdline with
    | none => exact .noCmdline zeropage hok hz hc
    | some cmdline =>
      cases hi : bs.image with
      | false => exact .noImage zeropage cmdline hok hz hc hi
      | true => exact .loaded zeropage cmdline hok hz hc hi

/-- **`load_kernel` succeeds** exactly on an image that passes its checks, when it gets
its pages. -/
theorem loadKernel_ret_iff (bs : Allocations) (pages : Pages) (image : Mem) (sz : UInt64) :
    (loadKernel bs pages image sz).ret = 0 ↔ ImageOk image sz ∧ bs.Granted := by
  have hend := loadKernel_end bs pages image sz
  generalize loadKernel bs pages image sz = l at hend
  cases hend with
  | unfit hno => exact iff_of_false (by nofun) fun h => hno h.1
  | noZeropage _ hz => exact iff_of_false (by nofun) fun h => h.2.zeropage hz
  | noCmdline _ _ _ hc => exact iff_of_false (by nofun) fun h => h.2.cmdline hc
  | noImage _ _ _ _ _ hi =>
    refine iff_of_false (by nofun) fun h => ?_
    rw [h.2.image] at hi
    cases hi
  | loaded _ _ hok hz hc hi =>
    exact iff_of_true rfl ⟨hok, by rw [hz]; nofun, by rw [hc]; nofun, hi⟩

/-- What it leaves when it returns 0. -/
theorem loadKernel_pages {bs : Allocations} {pages : Pages} {image : Mem} {sz : UInt64}
    (h : (loadKernel bs pages image sz).ret = 0) :
    (loadKernel bs pages image sz).pages =
      loadStores (loadKernel bs pages image sz).k pages image := by
  have hend := loadKernel_end bs pages image sz
  generalize loadKernel bs pages image sz = l at hend h
  cases hend with
  | loaded => rfl
  | _ => cases h

end Gigaboot.Osboot
