import Gigaboot.Lib.ByteMem

/-!
# Transmit buffers

The buffer functions of `netifc.c`: a free list threaded through blocks of 2048 bytes,
each with a magic word, a link and the packet.  The memory that holds the blocks is
part of the state, and so is what the network interface was given.

* `ethGetBuffer`, `ethPutBuffer`, `ethSend`: take a buffer, give it back, transmit it.
-/

namespace Gigaboot.Netifc

open ByteMem

/-- A call of `Transmit`: the buffer, and the frame in it. -/
structure Transmitted where
  data : Nat
  frame : List UInt8
  deriving DecidableEq, Repr

/-- The static variables of `netifc.c`, the memory of its buffers, and the interface. -/
structure Nic where
  heap : Mem
  /-- the head of the free list; 0 is `NULL` -/
  ethBuffers : Nat
  /-- whether the `k`-th call of `Transmit` succeeds -/
  txStatus : Nat → Bool
  /-- the calls of `Transmit` so far, oldest first -/
  transmitted : List Transmitted
  /-- the buffers the interface has accepted and not yet returned -/
  owned : List Nat

def Nic.withHeap (nic : Nic) (heap : Mem) : Nic := { nic with heap := heap }

def ethBufferSize : Nat := 1516
def ethBufferMagic : UInt64 := 0x424201020304A7A7

def nextOff : Nat := 8
def dataOff : Nat := 16

/-- `eth_get_buffer`; `none` is `NULL`. -/
def ethGetBuffer (nic : Nic) (sz : Nat) : Nic × Option Nat :=
  if sz > ethBufferSize then (nic, none)
  else if nic.ethBuffers = 0 then (nic, none)
  else
    let buf := nic.ethBuffers
    ({ nic with
        ethBuffers := (ld64 nic.heap (buf + nextOff)).toNat
        heap := write nic.heap (buf + nextOff) (bytes64 0) },
      some (buf + dataOff))

/-- `((uint64_t)data) & (~2047)`. -/
def blockOf (data : Nat) : Nat := data - data % 2048

/-- `eth_put_buffer`; `none` is the endless loop after a bad magic word. -/
def ethPutBuffer (nic : Nic) (data : Nat) : Option Nic :=
  let buf := blockOf data
  if ld64 nic.heap buf ≠ ethBufferMagic then none
  else
    some { nic with
      heap := write nic.heap (buf + nextOff) (bytes64 (UInt64.ofNat nic.ethBuffers))
      ethBuffers := buf }

/-- The call of `Transmit` in `eth_send`. -/
def transmit (nic : Nic) (data len : Nat) : Nic × Bool :=
  let ok := nic.txStatus nic.transmitted.length
  ({ nic with
      transmitted := nic.transmitted ++ [⟨data, read nic.heap data len⟩]
      owned := if ok then nic.owned ++ [data] else nic.owned }, ok)

/-- `eth_send` with its result. -/
def ethSend (nic : Nic) (data len : Nat) : Option (Nic × Int) :=
  let (nic, ok) := transmit nic data len
  if ok then some (nic, 0)
  else (ethPutBuffer nic data).map fun nic => (nic, -1)

def Nic.pop (nic : Nic) : Nic :=
  { nic with
    ethBuffers := (ld64 nic.heap (nic.ethBuffers + nextOff)).toNat
    heap := write nic.heap (nic.ethBuffers + nextOff) (bytes64 0) }

theorem ethGetBuffer_free {nic : Nic} {sz : Nat} (hsz : sz ≤ ethBufferSize)
    (h : nic.ethBuffers ≠ 0) :
    ethGetBuffer nic sz = (nic.pop, some (nic.ethBuffers + dataOff)) := by
  rw [ethGetBuffer, if_neg (Nat.not_lt.mpr hsz), if_neg h]
  rfl

theorem ethGetBuffer_none {nic : Nic} {sz : Nat} (h : nic.ethBuffers = 0) :
    ethGetBuffer nic sz = (nic, none) := by
  rw [ethGetBuffer, if_pos h, ite_self]

def Nic.accept (nic : Nic) (data len : Nat) : Nic :=
  { nic with
    transmitted := nic.transmitted ++ [⟨data, read nic.heap data len⟩]
    owned := nic.owned ++ [data] }

theorem ethSend_ok {nic : Nic} {data len : Nat}
    (h : nic.txStatus nic.transmitted.length = true) :
    ethSend nic data len = some (nic.accept data len, 0) := by
  simp only [ethSend, transmit, h, if_true]
  rfl

theorem blockOf_add {b k : Nat} (hb : b % 2048 = 0) (hk : k < 2048) : blockOf (b + k) = b := by
  unfold blockOf
  omega

/-- The frame is given to the interface, whatever becomes of it. -/
theorem ethSend_transmitted {nic nic' : Nic} {data len : Nat} {r : Int}
    (h : ethSend nic data len = some (nic', r)) :
    nic'.transmitted = nic.transmitted ++ [⟨data, read nic.heap data len⟩] := by
  simp only [ethSend, transmit] at h
  split at h
  · simp only [Option.some.injEq, Prod.mk.injEq] at h
    rw [← h.1]
  · simp only [ethPutBuffer] at h
    split at h
    · cases h
    · simp only [Option.map_some, Option.some.injEq, Prod.mk.injEq] at h
      rw [← h.1]

end Gigaboot.Netifc
