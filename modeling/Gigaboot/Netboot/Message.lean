import Gigaboot.Lib.ByteMem

/-!
# Netboot messages

The constants and the message header of `netboot.h`, as both ends lay them out
in a datagram: four little-endian words and the data after them.

* `nbmsgAt_bytes`: the header read from a datagram is the header written;
* `Datagram.bytes_length`, `Datagram.read_payload`: where the data lies.
-/

namespace Gigaboot.Netboot

open ByteMem

def nbMagic : UInt32 := 0xAA774217

def nbServerPort : UInt16 := 33330
def nbAdvertPort : UInt16 := 33331

def nbCommand : UInt32 := 1
def nbSendFile : UInt32 := 2
def nbData : UInt32 := 3
def nbBoot : UInt32 := 4

def nbAck : UInt32 := 0

def nbAdvertise : UInt32 := 0x77777777

def nbErrorBadCmd : UInt32 := 0x80000001
def nbErrorTooLarge : UInt32 := 0x80000003
def nbErrorBadFile : UInt32 := 0x80000004

/-- The header `nbmsg`; `data[0]` starts right after it. -/
structure NbMsg where
  magic : UInt32
  cookie : UInt32
  cmd : UInt32
  arg : UInt32
  deriving DecidableEq, Repr

def nbmsgSize : Nat := 16

/-- The header at a pointer cast to `nbmsg*`. -/
def nbmsgAt (m : Mem) : NbMsg := ⟨ld32 m 0, ld32 m 4, ld32 m 8, ld32 m 12⟩

def NbMsg.bytes (h : NbMsg) : List UInt8 :=
  bytes32 h.magic ++ (bytes32 h.cookie ++ (bytes32 h.cmd ++ bytes32 h.arg))

@[simp] theorem NbMsg.bytes_length (h : NbMsg) : h.bytes.length = nbmsgSize := rfl

/-- A message with its data, as one datagram carries it. -/
structure Datagram where
  hdr : NbMsg
  payload : List UInt8
  deriving DecidableEq, Repr

def Datagram.bytes (m : Datagram) : List UInt8 := m.hdr.bytes ++ m.payload

@[simp] theorem Datagram.bytes_length (m : Datagram) :
    m.bytes.length = nbmsgSize + m.payload.length := by
  simp [Datagram.bytes]

theorem nbmsgAt_of_read {m : Mem} {h : NbMsg} (hr : read m 0 nbmsgSize = h.bytes) :
    nbmsgAt m = h := by
  obtain ⟨h₀, hr⟩ := read_eq_append hr
  obtain ⟨h₁, hr⟩ := read_eq_append hr
  obtain ⟨h₂, h₃⟩ := read_eq_append hr
  simp only [bytes32_length, Nat.zero_add] at h₀ h₁ h₂ h₃
  simp only [nbmsgAt, ld32_of_read h₀, ld32_of_read h₁, ld32_of_read h₂, ld32_of_read h₃]

theorem Datagram.read_bytes {m : Mem} {d : Datagram}
    (h : read m 0 d.bytes.length = d.bytes) :
    nbmsgAt m = d.hdr ∧ read m nbmsgSize d.payload.length = d.payload := by
  obtain ⟨h₀, h₁⟩ := read_eq_append h
  rw [NbMsg.bytes_length, Nat.zero_add] at h₁
  exact ⟨nbmsgAt_of_read h₀, h₁⟩

@[simp] theorem nbmsgAt_bytes (d : Datagram) : nbmsgAt (ofList d.bytes) = d.hdr :=
  (Datagram.read_bytes (read_ofList _)).1

@[simp] theorem Datagram.read_payload (d : Datagram) :
    read (ofList d.bytes) nbmsgSize d.payload.length = d.payload :=
  (Datagram.read_bytes (read_ofList _)).2

/-- The datagram of `len` bytes at a pointer. -/
def datagramAt (m : Mem) (len : Nat) : Datagram := ⟨nbmsgAt m, read m nbmsgSize (len - nbmsgSize)⟩

theorem datagramAt_bytes (m : Mem) (len : Nat) (h : nbmsgSize ≤ len) :
    (datagramAt m len).bytes = read m 0 len := by
  obtain ⟨k, rfl⟩ := Nat.exists_eq_add_of_le h
  have hhdr : (nbmsgAt m).bytes = read m 0 nbmsgSize := by
    simp only [NbMsg.bytes, nbmsgAt, bytes32_ld32]
    rfl
  rw [Datagram.bytes, datagramAt, hhdr, Nat.add_sub_cancel_left, read_add, Nat.zero_add]

@[simp] theorem datagramAt_ofList (d : Datagram) :
    datagramAt (ofList d.bytes) d.bytes.length = d := by
  have hlen : d.bytes.length - nbmsgSize = d.payload.length := by simp
  simp only [datagramAt, nbmsgAt_bytes, hlen, Datagram.read_payload]

end Gigaboot.Netboot
