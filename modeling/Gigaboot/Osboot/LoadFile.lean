import Gigaboot.Lib.ByteMem
import Gigaboot.Lib.Ledger
import Gigaboot.Osboot.MemoryMap
import Mathlib.Algebra.Group.Nat.Defs

/-!
# Loading a file

`LoadFile` of `lib/loadfile.c`, with any statuses of the firmware calls.  What it opens is
closed by a ladder of labels, each of which falls through to the next; a failure enters the
ladder at the rung of what it has opened last, except that of `GetInfo`.

* `loadFile_end`: the three ways in which it ends, with what is still held then;
* `loadFile_releases_iff`: when everything it opened is closed.
-/

namespace Gigaboot.Osboot

open ByteMem Ledger

/-- What `LoadFile` opens: two protocols, the volume and the file; and the buffer. -/
inductive FileResource
  | loadedImage
  | simpleFileSystem
  | root
  | file
  | data
  deriving DecidableEq, Repr

/-- A file whose size is that of an `EFI_FILE_INFO`. -/
structure StoredFile where
  content : List UInt8
  lt : content.length < 2 ^ 64

def StoredFile.fileSize (f : StoredFile) : UInt64 := UInt64.ofNat f.content.length

theorem StoredFile.fileSize_toNat (f : StoredFile) : f.fileSize.toNat = f.content.length := by
  rw [fileSize, UInt64.toNat_ofNat', Nat.mod_eq_of_lt f.lt]

/-- The answers of the firmware. -/
structure FileFirmware where
  openLoadedImage : UInt64
  openSimpleFileSystem : UInt64
  openVolume : UInt64
  /-- what `Open` returns for a name -/
  openFile : List UInt16 → UInt64
  /-- the file of a name -/
  stored : List UInt16 → StoredFile
  getInfo : UInt64
  allocatePool : UInt64
  /-- the memory that `AllocatePool` gives out -/
  pool : Mem
  read : UInt64
  /-- how much of the size asked for is read -/
  readSize : UInt64 → UInt64

/-- The result of `LoadFile`: the buffer or `NULL`, the caller's `*_sz`, and what was opened
and closed. -/
structure FileLoaded where
  data : Option Mem
  sz : UInt64
  log : List (Event FileResource)

def exit0 (data : Option Mem) (sz : UInt64) (log : List (Event FileResource)) : FileLoaded :=
  ⟨data, sz, log⟩

def exit1 (data : Option Mem) (sz : UInt64) (log : List (Event FileResource)) : FileLoaded :=
  exit0 data sz (log ++ [.release .loadedImage])

def exit2 (data : Option Mem) (sz : UInt64) (log : List (Event FileResource)) : FileLoaded :=
  exit1 data sz (log ++ [.release .simpleFileSystem])

def exit3 (data : Option Mem) (sz : UInt64) (log : List (Event FileResource)) : FileLoaded :=
  exit2 data sz (log ++ [.release .root])

def exit4 (data : Option Mem) (sz : UInt64) (log : List (Event FileResource)) : FileLoaded :=
  exit3 data sz (log ++ [.release .file])

def loadFile (fw : FileFirmware) (filename : List UInt16) (sz : UInt64) : FileLoaded :=
  if fw.openLoadedImage ≠ efiSuccess then exit0 none sz []
  else
    let log := [.acquire .loadedImage]
    if fw.openSimpleFileSystem ≠ efiSuccess then exit1 none sz log
    else
      let log := log ++ [.acquire .simpleFileSystem]
      if fw.openVolume ≠ efiSuccess then exit2 none sz log
      else
        let log := log ++ [.acquire .root]
        if fw.openFile filename ≠ efiSuccess then exit3 none sz log
        else
          let log := log ++ [.acquire .file]
          let finfo := fw.stored filename
          -- the label is that of a file that could not be opened
          if fw.getInfo ≠ efiSuccess then exit3 none sz log
          else if fw.allocatePool ≠ efiSuccess then exit4 none sz log
          else
            let log := log ++ [.acquire .data]
            let n := fw.readSize finfo.fileSize
            let data := write fw.pool 0 (finfo.content.take n.toNat)
            if fw.read ≠ efiSuccess then exit4 none sz (log ++ [.release .data])
            else if n ≠ finfo.fileSize then exit4 none sz (log ++ [.release .data])
            else exit4 (some data) finfo.fileSize log

/-! ## The ladder -/

/-- From `exit4` on everything is closed, the last that was opened first. -/
theorem exit4_held {log : List (Event FileResource)} {kept : List FileResource}
    (h : run [] log = some (kept ++ [.file, .root, .simpleFileSystem, .loadedImage]))
    (hk : ∀ r ∈ [FileResource.file, .root, .simpleFileSystem, .loadedImage], r ∉ kept)
    (data : Option Mem) (sz : UInt64) : run [] (exit4 data sz log).log = some kept := by
  simp only [exit4, exit3, exit2, exit1, exit0, List.append_assoc]
  exact run_unwind h hk

/-- Every step succeeds, and the whole file is read. -/
structure StepsSucceed (fw : FileFirmware) (filename : List UInt16) : Prop where
  openLoadedImage : fw.openLoadedImage = efiSuccess
  openSimpleFileSystem : fw.openSimpleFileSystem = efiSuccess
  openVolume : fw.openVolume = efiSuccess
  openFile : fw.openFile filename = efiSuccess
  getInfo : fw.getInfo = efiSuccess
  allocatePool : fw.allocatePool = efiSuccess
  read : fw.read = efiSuccess
  whole : fw.readSize (fw.stored filename).fileSize = (fw.stored filename).fileSize

/-- The file is open when `GetInfo` fails. -/
structure InfoFails (fw : FileFirmware) (filename : List UInt16) : Prop where
  openLoadedImage : fw.openLoadedImage = efiSuccess
  openSimpleFileSystem : fw.openSimpleFileSystem = efiSuccess
  openVolume : fw.openVolume = efiSuccess
  openFile : fw.openFile filename = efiSuccess
  getInfo : fw.getInfo ≠ efiSuccess

/-- How `LoadFile` ends: with nothing, with the file still open, or with the buffer. -/
inductive FileEnd (fw : FileFirmware) (filename : List UInt16) (sz : UInt64) : FileLoaded → Prop
  | failed {log : List (Event FileResource)} : ¬ StepsSucceed fw filename →
      ¬ InfoFails fw filename → run [] log = some [] → FileEnd fw filename sz ⟨none, sz, log⟩
  | leftOpen {log : List (Event FileResource)} : InfoFails fw filename →
      run [] log = some [.file] → FileEnd fw filename sz ⟨none, sz, log⟩
  | loaded {log : List (Event FileResource)} : StepsSucceed fw filename →
      run [] log = some [.data] →
      FileEnd fw filename sz ⟨some (write fw.pool 0 (fw.stored filename).content),
        (fw.stored filename).fileSize, log⟩

theorem loadFile_end (fw : FileFirmware) (filename : List UInt16) (sz : UInt64) :
    FileEnd fw filename sz (loadFile fw filename sz) := by
  unfold loadFile
  by_cases h₁ : fw.openLoadedImage = efiSuccess
  swap
  · rw [if_pos h₁]
    exact .failed (fun h => h₁ h.openLoadedImage) (fun h => h₁ h.openLoadedImage) rfl
  by_cases h₂ : fw.openSimpleFileSystem = efiSuccess
  swap
  · rw [if_neg (not_not_intro h₁), if_pos h₂]
    exact .failed (fun h => h₂ h.openSimpleFileSystem) (fun h => h₂ h.openSimpleFileSystem) rfl
  by_cases h₃ : fw.openVolume = efiSuccess
  swap
  · rw [if_neg (not_not_intro h₁), if_neg (not_not_intro h₂), if_pos h₃]
    exact .failed (fun h => h₃ h.openVolume) (fun h => h₃ h.openVolume) rfl
  rw [if_neg (not_not_intro h₁), if_neg (not_not_intro h₂), if_neg (not_not_intro h₃)]
  by_cases h₄ : fw.openFile filename = efiSuccess
  swap
  · rw [if_pos h₄]
    exact .failed (fun h => h₄ h.openFile) (fun h => h₄ h.openFile) rfl
  by_cases h₅ : fw.getInfo = efiSuccess
  swap
  · rw [if_neg (not_not_intro h₄), if_pos h₅]
    exact .leftOpen ⟨h₁, h₂, h₃, h₄, h₅⟩ rfl
  have hinfo : ¬ InfoFails fw filename := fun h => h.getInfo h₅
  rw [if_neg (not_not_intro h₄), if_neg (not_not_intro h₅)]
  by_cases h₆ : fw.allocatePool = efiSuccess
  swap
  · rw [if_pos h₆]
    exact .failed (fun h => h₆ h.allocatePool) hinfo (exit4_held rfl (by nofun) none sz)
  rw [if_neg (not_not_intro h₆)]
  by_cases h₇ : fw.read = efiSuccess
  swap
  · rw [if_pos h₇]
    exact .failed (fun h => h₇ h.read) hinfo (exit4_held rfl (by nofun) none sz)
  rw [if_neg (not_not_intro h₇)]
  by_cases h₈ : fw.readSize (fw.stored filename).fileSize = (fw.stored filename).fileSize
  swap
  · rw [if_pos h₈]
    exact .failed (fun h => h₈ h.whole) hinfo (exit4_held rfl (by nofun) none sz)
  rw [if_neg (not_not_intro h₈), h₈, StoredFile.fileSize_toNat, List.take_length]
  exact .loaded ⟨h₁, h₂, h₃, h₄, h₅, h₆, h₇, h₈⟩
    (exit4_held rfl (by decide) (some (write fw.pool 0 (fw.stored filename).content))
      (fw.stored filename).fileSize)

/-! ## What is released -/

/-- Everything that was opened is closed, and the buffer is the one that is returned, with the
whole file in it, or is freed. -/
structure ReleasesAll (fw : FileFirmware) (filename : List UInt16) (sz : UInt64)
    (l : FileLoaded) : Prop where
  held : run [] l.log = some (if l.data.isSome then [.data] else [])
  null_iff : l.data = none ↔ ¬ StepsSucceed fw filename
  unchanged : l.data = none → l.sz = sz
  whole : ∀ data, l.data = some data →
    read data 0 (fw.stored filename).content.length = (fw.stored filename).content ∧
      l.sz = (fw.stored filename).fileSize

/-- **`LoadFile` releases everything it opened**, unless `GetInfo` fails on the open file. -/
theorem loadFile_releases_iff (fw : FileFirmware) (filename : List UInt16) (sz : UInt64) :
    ReleasesAll fw filename sz (loadFile fw filename sz) ↔ ¬ InfoFails fw filename := by
  have hend := loadFile_end fw filename sz
  generalize loadFile fw filename sz = l at hend
  cases hend with
  | failed hno hinfo hrun =>
    exact iff_of_true ⟨hrun, iff_of_true rfl hno, fun _ => rfl, by nofun⟩ hinfo
  | leftOpen hinfo hrun =>
    refine iff_of_false (fun h => ?_) (not_not_intro hinfo)
    have hheld := h.held
    rw [hrun] at hheld
    cases hheld
  | loaded hall hrun =>
    refine iff_of_true ⟨hrun, iff_of_false (by nofun) (not_not_intro hall), by nofun, ?_⟩
      fun hinfo => hinfo.getInfo hall.getInfo
    rintro data ⟨⟩
    exact ⟨read_write_self _ _ _ _ rfl, rfl⟩

/-- A volume with one file, on which `GetInfo` finds the name too long for its buffer. -/
def longNameFirmware : FileFirmware where
  openLoadedImage := efiSuccess
  openSimpleFileSystem := efiSuccess
  openVolume := efiSuccess
  openFile _ := efiSuccess
  stored _ := ⟨[1, 2, 3], by decide⟩
  getInfo := 0x8000000000000005
  allocatePool := efiSuccess
  pool _ := 0
  read := efiSuccess
  readSize n := n

/-- The file is opened once and never closed. -/
theorem long_name_left_open :
    run [] (loadFile longNameFirmware [99] 0).log = some [.file] ∧
    ¬ ReleasesAll longNameFirmware [99] 0 (loadFile longNameFirmware [99] 0) := by
  have hrun : run [] (loadFile longNameFirmware [99] 0).log = some [.file] := by decide
  refine ⟨hrun, fun h => ?_⟩
  have hnull : (loadFile longNameFirmware [99] 0).data.isSome = false := rfl
  have hheld := h.held
  rw [hrun, hnull] at hheld
  cases hheld

end Gigaboot.Osboot
