import Gigaboot.Osboot.BootKernel
import Mathlib.Algebra.Group.Nat.Defs

/-!
# The size check of `load_kernel`

The sizes in the header of an image are multiplied, added and rounded up in 32 bits
before they are compared with the size of the file.

* `setupSz_toNat`, `imageSz_toNat`: the sizes as the code has them;
* `sizesSound_iff`: on an image that is loaded, the check means what it should exactly if
  two sums over the natural numbers stay below 2^32;
* `huge_image_loaded`: a kernel of 4 GiB in a file of 1 KiB.
-/

namespace Gigaboot.Osboot

open ByteMem

def setupBytes (image : Mem) : Nat := 512 * ((image zpSetupSects).toNat + 1)

def imageBytes (image : Mem) : Nat := 16 * (ld32 image zpSyssize).toNat

/-- What the check is for.  `k->image` gets the `image_sz` bytes from `setup_sz` on: these are
the sizes of the header, the bytes lie in the file but for its rounding, they fit into the
pages that were allocated, and no 32-bit computation on the way wraps. -/
structure SizesSound (bs : Allocations) (pages : Pages) (image : Mem) (sz : UInt64) : Prop where
  setup : 1024 ≤ setupBytes image
  fits : setupBytes image + imageBytes image ≤ sz.toNat + 15
  copy : (loadKernel bs pages image sz).pages.image =
    write pages.image 0 (read image (setupSz image).toNat (imageSz image).toNat)
  source : (setupSz image).toNat = setupBytes image
  copied : (imageSz image).toNat = imageBytes image
  allocated : .allocatePages 0x100000 ((loadKernel bs pages image sz).k.pages + 1) ∈
    (loadKernel bs pages image sz).log
  room : imageBytes image ≤ 4096 * ((loadKernel bs pages image sz).k.pages + 1).toNat
  sum : (setupSz image + imageSz image).toNat = setupBytes image + imageBytes image
  roundUp : (imageSz image + 4095).toNat = imageBytes image + 4095
  count : ((loadKernel bs pages image sz).k.pages + 1).toNat =
    (loadKernel bs pages image sz).k.pages.toNat + 1

/-- No sum of sizes reaches 4 GiB. -/
def BelowLimit (image : Mem) : Prop :=
  setupBytes image + imageBytes image < 2 ^ 32 ∧ imageBytes image + 4095 < 2 ^ 32

theorem setupSz_toNat (image : Mem) : (setupSz image).toNat = setupBytes image := by
  have hlt := (image zpSetupSects).toNat_lt
  have h₁ : (1 : UInt32).toNat = 1 := rfl
  have h₅ : (512 : UInt32).toNat = 512 := rfl
  rw [setupSz, setupBytes, UInt32.toNat_mul, UInt32.toNat_add, UInt8.toNat_toUInt32, h₁, h₅]
  omega

theorem imageSz_toNat (image : Mem) : (imageSz image).toNat = imageBytes image % 2 ^ 32 := by
  have h₁ : (16 : UInt32).toNat = 16 := rfl
  rw [imageSz, imageBytes, UInt32.toNat_mul, h₁, Nat.mul_comm]

theorem loadKernel_kernel {bs : Allocations} {pages : Pages} {image : Mem} {sz : UInt64}
    (h : (loadKernel bs pages image sz).ret = 0) :
    (loadKernel bs pages image sz).k.pages = (imageSz image + 4095) / 4096 ∧
      .allocatePages 0x100000 ((loadKernel bs pages image sz).k.pages + 1) ∈
        (loadKernel bs pages image sz).log := by
  obtain ⟨hi, hg⟩ := (loadKernel_ret_iff bs pages image sz).mp h
  obtain ⟨zeropage, hz⟩ := Option.ne_none_iff_exists'.mp hg.zeropage
  obtain ⟨cmdline, hc⟩ := Option.ne_none_iff_exists'.mp hg.cmdline
  unfold loadKernel
  rw [if_neg hi.size, if_neg (not_not_intro hi.header), if_neg hi.version, if_neg hi.fits]
  simp only [hz, hc, hg.image, if_true]
  exact ⟨trivial, by simp⟩

theorem sum_toNat (image : Mem) :
    (setupSz image + imageSz image).toNat = (setupBytes image + imageBytes image) % 2 ^ 32 := by
  rw [UInt32.toNat_add, setupSz_toNat, imageSz_toNat, Nat.add_mod_mod]

theorem roundUp_toNat (image : Mem) :
    (imageSz image + 4095).toNat = (imageBytes image + 4095) % 2 ^ 32 := by
  have h : (4095 : UInt32).toNat = 4095 := rfl
  rw [UInt32.toNat_add, imageSz_toNat, h, Nat.mod_add_mod]

/-- The test of the sizes, over the natural numbers. -/
theorem ImageOk.sizes {image : Mem} {sz : UInt64} (h : ImageOk image sz) :
    1024 ≤ setupBytes image ∧
      (setupBytes image + imageBytes image) % 2 ^ 32 ≤ sz.toNat + 15 := by
  obtain ⟨hsetup, hsum⟩ := not_or.mp h.fits
  have hsetup' : 1024 ≤ (setupSz image).toNat := UInt32.le_iff_toNat_le.mp (UInt32.not_lt.mp hsetup)
  have hsum' : (setupSz image + imageSz image).toUInt64.toNat ≤ (sz + 15).toNat :=
    UInt64.le_iff_toNat_le.mp (UInt64.not_lt.mp hsum)
  have h₁ : (15 : UInt64).toNat = 15 := rfl
  rw [setupSz_toNat] at hsetup'
  rw [UInt32.toNat_toUInt64, sum_toNat, UInt64.toNat_add, h₁] at hsum'
  exact ⟨hsetup', Nat.le_trans hsum' (Nat.mod_le _ _)⟩

/-- **The size check of `load_kernel`.**  On an image that is loaded, it is sound exactly if
the sizes in the header, with the rounding to pages, stay below 4 GiB. -/
theorem sizesSound_iff {bs : Allocations} {pages : Pages} {image : Mem} {sz : UInt64}
    (h : (loadKernel bs pages image sz).ret = 0) :
    SizesSound bs pages image sz ↔ BelowLimit image := by
  obtain ⟨hpages, halloc⟩ := loadKernel_kernel h
  obtain ⟨hsetup, hfits⟩ := ((loadKernel_ret_iff bs pages image sz).mp h).1.sizes
  constructor
  · intro hs
    refine ⟨?_, ?_⟩
    · rw [← hs.sum]
      exact UInt32.toNat_lt _
    · rw [← hs.roundUp]
      exact UInt32.toNat_lt _
  · rintro ⟨hsum, hround⟩
    have himage : (imageSz image).toNat = imageBytes image := by
      rw [imageSz_toNat, Nat.mod_eq_of_lt (by omega)]
    have hround' : (imageSz image + 4095).toNat = imageBytes image + 4095 := by
      rw [roundUp_toNat, Nat.mod_eq_of_lt hround]
    have hcount :
        (loadKernel bs pages image sz).k.pages.toNat = (imageBytes image + 4095) / 4096 := by
      rw [hpages, UInt32.toNat_div, hround']
      rfl
    have hnext : ((loadKernel bs pages image sz).k.pages + 1).toNat =
        (loadKernel bs pages image sz).k.pages.toNat + 1 := by
      have h₁ : (1 : UInt32).toNat = 1 := rfl
      rw [UInt32.toNat_add, hcount, h₁, Nat.mod_eq_of_lt (by omega)]
    rw [Nat.mod_eq_of_lt hsum] at hfits
    refine ⟨hsetup, hfits, ?_, setupSz_toNat image, himage, halloc, ?_, ?_, hround', hnext⟩
    · rw [loadKernel_pages h]
      rfl
    · rw [hnext, hcount]
      omega
    · rw [sum_toNat, Nat.mod_eq_of_lt hsum]

def allGranted : Allocations := ⟨some 0x1000, some 0x2000, true⟩

/-- An image with so many paragraphs after its setup code. -/
def sizedImage (syssize : UInt32) : Mem := write smallImage zpSyssize (bytes32 syssize)

/-- A kernel of 4352 bytes, in two pages and one more. -/
theorem sizesSound_two_pages :
    (loadKernel allGranted zeroPages (sizedImage 272) 5376).ret = 0 ∧
    imageBytes (sizedImage 272) = 4352 ∧
    (loadKernel allGranted zeroPages (sizedImage 272) 5376).k.pages = 2 ∧
    SizesSound allGranted zeroPages (sizedImage 272) 5376 := by
  have hret : (loadKernel allGranted zeroPages (sizedImage 272) 5376).ret = 0 := by decide
  exact ⟨hret, by decide, by decide, (sizesSound_iff hret).mpr ⟨by decide, by decide⟩⟩

/-- A size of 2^28 paragraphs in the header. -/
def hugeImage : Mem := sizedImage 0x10000000

/-- A kernel of 4 GiB is loaded from a file of 1 KiB, and nothing of it is copied. -/
theorem huge_image_loaded :
    (loadKernel allGranted zeroPages hugeImage 1024).ret = 0 ∧ imageBytes hugeImage = 2 ^ 32 ∧
    (imageSz hugeImage).toNat = 0 ∧ ¬ SizesSound allGranted zeroPages hugeImage 1024 := by
  have hret : (loadKernel allGranted zeroPages hugeImage 1024).ret = 0 := by decide
  have hbytes : imageBytes hugeImage = 2 ^ 32 := by decide
  have hsize : (imageSz hugeImage).toNat = 0 := by decide
  refine ⟨hret, hbytes, hsize, fun hs => ?_⟩
  have := hs.copied
  rw [hbytes, hsize] at this
  cases this

end Gigaboot.Osboot
