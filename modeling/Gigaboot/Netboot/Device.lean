import Gigaboot.Lib.Transition
import Gigaboot.Netboot.Message
import Mathlib.Logic.Function.Basic
import Mathlib.Tactic.IntervalCases

/-!
# The netboot device

`udp6_recv` of `netboot.c` with the file table of `osboot.c`, on the bytes of a
received datagram.  The datagram lies in a larger receive buffer, so the bytes
after it are part of the memory the handler sees.

* `netbootGetBuffer_congr`, `udp6Recv_congr`: the handler looks at no byte past
  the datagram;
* `Handled`, `udp6Recv_handled`: everything one datagram can do;
* `Device.Reachable`, `Device.Reachable.bounded`: the states of a device after any
  sequence of datagrams and polls, and that no write pointer leaves its buffer in them.
-/

namespace Gigaboot.Netboot

open ByteMem

/-! ## Files -/

/-- The three static `nbfile` objects of `osboot.c`; a value of this type is a
pointer to one of them. -/
inductive FileId
  | nbkernel
  | nbramdisk
  | nbcmdline
  deriving DecidableEq, Repr

structure NbFile where
  data : Mem
  /-- max size of buffer -/
  size : Nat
  /-- write pointer -/
  offset : Nat

def kbufSize : Nat := 32 * 1024 * 1024
def rbufSize : Nat := 256 * 1024 * 1024
/-- `sizeof(cmdline)`. -/
def cmdlineSize : Nat := 4096

/-- `memcmp` of `lib/string.c` from index `i` on, with `n` bytes to go. -/
def memcmp (a b : Mem) (i : Nat) : Nat → Int
  | 0 => 0
  | n + 1 =>
    let x : Int := (a i).toNat - (b i).toNat
    if x ≠ 0 then x else memcmp a b (i + 1) n

theorem memcmp_eq_zero_iff (a b : Mem) (i n : Nat) :
    memcmp a b i n = 0 ↔ read a i n = read b i n := by
  induction n generalizing i with
  | zero => simp [memcmp]
  | succ n ih =>
    have hsplit : ∀ m : Mem, read m i (n + 1) = m i :: read m (i + 1) n := by
      intro m
      rw [Nat.add_comm n 1, read_add, read_one, List.singleton_append]
    rw [hsplit a, hsplit b, List.cons.injEq, ← ih]
    simp only [memcmp]
    by_cases h : a i = b i
    · simp [h]
    · have hne : ((a i).toNat : Int) - (b i).toNat ≠ 0 := by
        intro hz
        apply h
        apply UInt8.toNat_inj.mp
        omega
      rw [if_pos hne]
      exact ⟨fun hz => absurd hz hne, fun hab => absurd hab.1 h⟩

/-- "kernel.bin"; the terminator follows, as in every C string literal. -/
def kernelBin : List UInt8 := [107, 101, 114, 110, 101, 108, 46, 98, 105, 110]
def ramdiskBin : List UInt8 := [114, 97, 109, 100, 105, 115, 107, 46, 98, 105, 110]
def cmdlineName : List UInt8 := [99, 109, 100, 108, 105, 110, 101]

def netbootGetBuffer (name : Mem) : Option FileId :=
  if memcmp name (ofList kernelBin) 0 11 = 0 then some .nbkernel
  else if memcmp name (ofList ramdiskBin) 0 11 = 0 then some .nbramdisk
  else if memcmp name (ofList cmdlineName) 0 7 = 0 then some .nbcmdline
  else none

/-- A string that ends before the compared literal does is told apart from it
inside the string, so bytes after the terminator are never looked at. -/
theorem memcmp_eq_zero_congr {a a' b : Mem} {k n : Nat} (hk : a k = 0)
    (hagree : ∀ i ≤ k, a i = a' i) (hb : k + 1 < n → b k ≠ 0) :
    memcmp a b 0 n = 0 ↔ memcmp a' b 0 n = 0 := by
  rw [memcmp_eq_zero_iff, memcmp_eq_zero_iff, read_eq_iff, read_eq_iff]
  simp only [Nat.zero_add]
  by_cases hkn : k + 1 < n
  · have hbk := hb hkn
    constructor
    · intro h
      exact absurd ((h k (by omega)).symm.trans hk) hbk
    · intro h
      have h' := h k (by omega)
      rw [← hagree k (Nat.le_refl k), hk] at h'
      exact absurd h'.symm hbk
  · constructor <;> intro h i hi
    · rw [← hagree i (by omega), h i hi]
    · rw [hagree i (by omega), h i hi]

theorem netbootGetBuffer_congr {a a' : Mem} {k : Nat} (hk : a k = 0)
    (hagree : ∀ i ≤ k, a i = a' i) : netbootGetBuffer a = netbootGetBuffer a' := by
  have h₁ := memcmp_eq_zero_congr (b := ofList kernelBin) (n := 11) hk hagree
    (by intro h; have : k < 10 := by omega
        interval_cases k <;> decide)
  have h₂ := memcmp_eq_zero_congr (b := ofList ramdiskBin) (n := 11) hk hagree
    (by intro h; have : k < 10 := by omega
        interval_cases k <;> decide)
  have h₃ := memcmp_eq_zero_congr (b := ofList cmdlineName) (n := 7) hk hagree
    (by intro h; have : k < 6 := by omega
        interval_cases k <;> decide)
  simp only [netbootGetBuffer, h₁, h₂, h₃]

/-! ## State -/

/-- The static variables of `netboot.c` and the file table of `osboot.c`. -/
structure Device where
  lastCookie : UInt32
  lastCmd : UInt32
  lastArg : UInt32
  lastAckCmd : UInt32
  lastAckArg : UInt32
  nbBootNow : Bool
  nbActive : Bool
  /-- item being downloaded -/
  item : Option FileId
  files : FileId → NbFile

/-- What one call of `udp6_recv` does: the state it leaves, the ack it passes to
`udp6_send` if it reaches `transmit`, and the datagram after its in-place edits. -/
structure Received where
  dev : Device
  ack : Option NbMsg
  buf : Mem

def Device.setFile (d : Device) (f : FileId) (file : NbFile) : Device :=
  { d with files := Function.update d.files f file }

/-- The loop over the name in `NB_SEND_FILE`: bytes below space and above 127
become dots, for the `n` bytes from `a` on. -/
def sanitize (m : Mem) (a : Nat) : Nat → Mem
  | 0 => m
  | n + 1 =>
    let m' := sanitize m a n
    if m' (a + n) < 32 ∨ 127 < m' (a + n) then write m' (a + n) [46] else m'

/-- The end of a request that was carried out: remember it with its ack. -/
def finish (d : Device) (msg : NbMsg) (buf : Mem) (ackCmd ackArg : UInt32) : Received where
  dev := { d with
    lastCookie := msg.cookie, lastCmd := msg.cmd, lastArg := msg.arg,
    lastAckCmd := ackCmd, lastAckArg := ackArg, nbActive := true }
  ack := some ⟨nbMagic, msg.cookie, ackCmd, ackArg⟩
  buf := buf

/-- The `switch` of `udp6_recv`; `len` is the length of the data alone. -/
def execute (d : Device) (msg : NbMsg) (data : Mem) (len : Nat) : Received :=
  if msg.cmd = nbCommand then
    if len = 0 then ⟨d, none, data⟩
    else finish d msg (write data (nbmsgSize + (len - 1)) [0]) nbAck 0
  else if msg.cmd = nbSendFile then
    if len = 0 then ⟨d, none, data⟩
    else
      let data := write data (nbmsgSize + (len - 1)) [0]
      let data := sanitize data nbmsgSize (len - 1)
      match netbootGetBuffer (shift data nbmsgSize) with
      | some f =>
        let d := { d with item := some f }
        finish (d.setFile f { d.files f with offset := 0 }) msg data nbAck 0
      | none => finish { d with item := none } msg data nbErrorBadFile 0
  else if msg.cmd = nbData then
    match d.item with
    | none => ⟨d, none, data⟩
    | some f =>
      let item := d.files f
      if msg.arg.toNat ≠ item.offset then ⟨d, none, data⟩
      else if item.offset + len > item.size then finish d msg data nbErrorTooLarge msg.arg
      else
        let item := { item with
          data := write item.data item.offset (read data nbmsgSize len)
          offset := item.offset + len }
        finish (d.setFile f item) msg data nbAck msg.arg
  else if msg.cmd = nbBoot then
    finish { d with nbBootNow := true } msg data nbAck 0
  else finish d msg data nbErrorBadCmd 0

def udp6Recv (d : Device) (data : Mem) (len : Nat) (dport : UInt16) : Received :=
  if dport ≠ nbServerPort then ⟨d, none, data⟩
  else if len < nbmsgSize then ⟨d, none, data⟩
  else
    let msg := nbmsgAt data
    let len := len - nbmsgSize
    if d.lastCookie = msg.cookie ∧ d.lastCmd = msg.cmd then
      -- the third operand of the test assigns `msg->arg` to `last_arg`
      let d := { d with lastArg := msg.arg }
      if msg.arg ≠ 0 then
        -- host must have missed the ack. resend
        ⟨{ d with nbActive := true },
          some ⟨nbMagic, d.lastCookie, d.lastAckCmd, d.lastAckArg⟩, data⟩
      else execute d msg data len
    else execute d msg data len

/-! ## What a datagram can do -/

theorem sanitize_apply (m : Mem) (a n i : Nat) :
    sanitize m a n i =
      if a ≤ i ∧ i < a + n ∧ (m i < 32 ∨ 127 < m i) then 46 else m i := by
  induction n with
  | zero =>
    rw [sanitize, if_neg (by omega)]
  | succ n ih =>
    have hkeep : sanitize m a n (a + n) = m (a + n) := by
      clear ih
      have hgen : ∀ k ≤ n, sanitize m a k (a + n) = m (a + n) := by
        intro k hk
        induction k with
        | zero => rfl
        | succ k ihk =>
          simp only [sanitize]
          split
          · rw [write_outside _ _ _ _ (by simp only [List.length_singleton]; omega)]
            exact ihk (by omega)
          · exact ihk (by omega)
      exact hgen n (Nat.le_refl n)
    simp only [sanitize, hkeep]
    by_cases hi : i = a + n
    · subst hi
      split
      · rename_i hbad
        rw [if_pos ⟨by omega, by omega, hbad⟩]
        exact write_inside _ _ [46] 0 (by simp)
      · rename_i hok
        rw [if_neg (by tauto), hkeep]
    · have hsame : (if m (a + n) < 32 ∨ 127 < m (a + n) then write (sanitize m a n) (a + n) [46]
          else sanitize m a n) i = sanitize m a n i := by
        split
        · exact write_outside _ _ _ _ (by simp only [List.length_singleton]; omega)
        · rfl
      rw [hsame, ih]
      congr 1
      rw [eq_iff_iff]
      constructor <;> rintro ⟨h₁, h₂, hbad⟩ <;> exact ⟨by omega, by omega, hbad⟩

/-- The file a `NB_SEND_FILE` message asks for: the name is cut at its last byte,
cleaned, and looked up. -/
def requested (payload : List UInt8) : Option FileId :=
  netbootGetBuffer
    (sanitize (write (ofList payload) (payload.length - 1) [0]) 0 (payload.length - 1))

/-- The request for a kernel, as `xfer` sends it. -/
def kernelRequest (cookie : UInt32) : Datagram :=
  ⟨⟨nbMagic, cookie, nbSendFile, 0⟩, kernelBin ++ [0]⟩

theorem requested_kernelBin : requested (kernelBin ++ [0]) = some .nbkernel := by decide

theorem netbootGetBuffer_requested (data : Mem) {payload : List UInt8} (hne : payload ≠ [])
    (h : read data nbmsgSize payload.length = payload) :
    netbootGetBuffer (shift (sanitize (write data (nbmsgSize + (payload.length - 1)) [0])
      nbmsgSize (payload.length - 1)) nbmsgSize) = requested payload := by
  have hpos : 0 < payload.length := List.length_pos_iff.mpr hne
  have hbyte : ∀ i < payload.length, data (nbmsgSize + i) = ofList payload i := by
    intro i hi
    have hg := read_getD data nbmsgSize payload.length i hi
    rw [h] at hg
    exact hg.symm
  have hcut : ∀ i < payload.length,
      write data (nbmsgSize + (payload.length - 1)) [0] (nbmsgSize + i) =
        write (ofList payload) (payload.length - 1) [0] i := by
    intro i hi
    simp only [write, List.length_singleton]
    by_cases hl : i = payload.length - 1
    · subst hl
      rw [if_pos (by omega), if_pos (by omega)]
      simp
    · rw [if_neg (by omega), if_neg (by omega)]
      exact hbyte i hi
  apply netbootGetBuffer_congr (k := payload.length - 1)
  · rw [shift, sanitize_apply, if_neg (by omega)]
    exact write_inside _ _ [0] 0 (by simp)
  · intro i hi
    rw [shift, sanitize_apply, sanitize_apply, hcut i (by omega)]
    congr 1
    rw [eq_iff_iff]
    constructor <;> rintro ⟨h₁, h₂, hbad⟩ <;> exact ⟨by omega, by omega, hbad⟩

/-- The duplicate test of `udp6_recv` has written `last_arg` by the time the
message is looked at. -/
def Device.touch (d : Device) (msg : NbMsg) : Device :=
  if d.lastCookie = msg.cookie ∧ d.lastCmd = msg.cmd then { d with lastArg := msg.arg } else d

/-- The message is taken for a retransmission of the last one carried out. -/
def Device.Repeats (d : Device) (msg : NbMsg) : Prop :=
  d.lastCookie = msg.cookie ∧ d.lastCmd = msg.cmd ∧ msg.arg ≠ 0

instance (d : Device) (msg : NbMsg) : Decidable (d.Repeats msg) :=
  inferInstanceAs (Decidable (_ ∧ _ ∧ _))

/-- The state and the ack after a message that was carried out. -/
def Device.done (d : Device) (msg : NbMsg) (ackCmd ackArg : UInt32) : Device :=
  { d with
    lastCookie := msg.cookie, lastCmd := msg.cmd, lastArg := msg.arg,
    lastAckCmd := ackCmd, lastAckArg := ackArg, nbActive := true }

def NbMsg.ackOf (msg : NbMsg) (ackCmd ackArg : UInt32) : NbMsg :=
  ⟨nbMagic, msg.cookie, ackCmd, ackArg⟩

/-- Restart the file `f`: it becomes the item, with its write pointer at 0. -/
def Device.open (d : Device) (f : FileId) : Device :=
  { d with item := some f, files := Function.update d.files f { d.files f with offset := 0 } }

/-- Append `payload` to the file `f`. -/
def Device.append (d : Device) (f : FileId) (payload : List UInt8) : Device :=
  d.setFile f { d.files f with
    data := write (d.files f).data (d.files f).offset payload
    offset := (d.files f).offset + payload.length }

@[simp] theorem Device.done_item (d : Device) (msg : NbMsg) (c a : UInt32) :
    (d.done msg c a).item = d.item := rfl
@[simp] theorem Device.done_files (d : Device) (msg : NbMsg) (c a : UInt32) :
    (d.done msg c a).files = d.files := rfl
@[simp] theorem Device.done_nbBootNow (d : Device) (msg : NbMsg) (c a : UInt32) :
    (d.done msg c a).nbBootNow = d.nbBootNow := rfl
@[simp] theorem Device.open_item (d : Device) (f : FileId) : (d.open f).item = some f := rfl
@[simp] theorem Device.open_files (d : Device) (f : FileId) :
    (d.open f).files = Function.update d.files f { d.files f with offset := 0 } := rfl
@[simp] theorem Device.append_item (d : Device) (f : FileId) (bs : List UInt8) :
    (d.append f bs).item = d.item := rfl
@[simp] theorem Device.append_files (d : Device) (f : FileId) (bs : List UInt8) :
    (d.append f bs).files = Function.update d.files f { d.files f with
      data := write (d.files f).data (d.files f).offset bs
      offset := (d.files f).offset + bs.length } := rfl

/-- Every way in which the device handles a netboot message `m`: the state before,
the state after and the ack. -/
inductive Handled (d : Device) (m : Datagram) : Device → Option NbMsg → Prop
  /-- taken for a retransmission, answered from the cache -/
  | resend : d.Repeats m.hdr →
      Handled d m { d with lastArg := m.hdr.arg, nbActive := true }
        (some (m.hdr.ackOf d.lastAckCmd d.lastAckArg))
  /-- a command or a file name without a byte of data -/
  | empty : ¬ d.Repeats m.hdr → m.hdr.cmd = nbCommand ∨ m.hdr.cmd = nbSendFile →
      m.payload = [] → Handled d m (d.touch m.hdr) none
  | command : ¬ d.Repeats m.hdr → m.hdr.cmd = nbCommand → m.payload ≠ [] →
      Handled d m (d.done m.hdr nbAck 0) (some (m.hdr.ackOf nbAck 0))
  | accepted (f : FileId) : ¬ d.Repeats m.hdr → m.hdr.cmd = nbSendFile → m.payload ≠ [] →
      requested m.payload = some f →
      Handled d m ((d.open f).done m.hdr nbAck 0) (some (m.hdr.ackOf nbAck 0))
  | rejected : ¬ d.Repeats m.hdr → m.hdr.cmd = nbSendFile → m.payload ≠ [] →
      requested m.payload = none →
      Handled d m ({ d with item := none }.done m.hdr nbErrorBadFile 0)
        (some (m.hdr.ackOf nbErrorBadFile 0))
  /-- data without an item, or not at its write pointer -/
  | misplaced : ¬ d.Repeats m.hdr → m.hdr.cmd = nbData →
      (∀ f, d.item = some f → m.hdr.arg.toNat ≠ (d.files f).offset) →
      Handled d m (d.touch m.hdr) none
  | tooLarge (f : FileId) : ¬ d.Repeats m.hdr → m.hdr.cmd = nbData → d.item = some f →
      m.hdr.arg.toNat = (d.files f).offset →
      (d.files f).size < (d.files f).offset + m.payload.length →
      Handled d m (d.done m.hdr nbErrorTooLarge m.hdr.arg)
        (some (m.hdr.ackOf nbErrorTooLarge m.hdr.arg))
  | appended (f : FileId) : ¬ d.Repeats m.hdr → m.hdr.cmd = nbData → d.item = some f →
      m.hdr.arg.toNat = (d.files f).offset →
      (d.files f).offset + m.payload.length ≤ (d.files f).size →
      Handled d m ((d.append f m.payload).done m.hdr nbAck m.hdr.arg)
        (some (m.hdr.ackOf nbAck m.hdr.arg))
  | boot : ¬ d.Repeats m.hdr → m.hdr.cmd = nbBoot →
      Handled d m ({ d with nbBootNow := true }.done m.hdr nbAck 0)
        (some (m.hdr.ackOf nbAck 0))
  | badCmd : ¬ d.Repeats m.hdr → m.hdr.cmd ≠ nbCommand → m.hdr.cmd ≠ nbSendFile →
      m.hdr.cmd ≠ nbData → m.hdr.cmd ≠ nbBoot →
      Handled d m (d.done m.hdr nbErrorBadCmd 0) (some (m.hdr.ackOf nbErrorBadCmd 0))

/-- The cases of `Handled` exclude each other, so it is a function of the state and
the message. -/
theorem Handled.unique {d d₁ d₂ : Device} {m : Datagram} {a₁ a₂ : Option NbMsg}
    (h₁ : Handled d m d₁ a₁) (h₂ : Handled d m d₂ a₂) : d₁ = d₂ ∧ a₁ = a₂ := by
  have hcs : nbCommand ≠ nbSendFile := by decide
  have hcd : nbCommand ≠ nbData := by decide
  have hcb : nbCommand ≠ nbBoot := by decide
  have hsd : nbSendFile ≠ nbData := by decide
  have hsb : nbSendFile ≠ nbBoot := by decide
  have hdb : nbData ≠ nbBoot := by decide
  -- off the diagonal two guards contradict each other
  cases h₁ <;> cases h₂ <;> first | exact ⟨rfl, rfl⟩ | grind

@[simp] theorem Device.touch_item (d : Device) (msg : NbMsg) : (d.touch msg).item = d.item := by
  unfold touch
  split <;> rfl

@[simp] theorem Device.touch_files (d : Device) (msg : NbMsg) : (d.touch msg).files = d.files := by
  unfold touch
  split <;> rfl

/-- The duplicate test leaves the device alone, or writes `last_arg`. -/
theorem Device.touch_cases (d : Device) (msg : NbMsg) :
    d.touch msg = d ∨ d.touch msg = { d with lastArg := msg.arg } := by
  unfold touch
  split
  · exact .inr rfl
  · exact .inl rfl

/-- The `switch` does what `Handled` says, on a message not taken for a
retransmission. -/
theorem execute_handled {d : Device} {m : Datagram} {data : Mem}
    (hdata : read data nbmsgSize m.payload.length = m.payload) (hr : ¬ d.Repeats m.hdr) :
    Handled d m (execute (d.touch m.hdr) m.hdr data m.payload.length).dev
      (execute (d.touch m.hdr) m.hdr data m.payload.length).ack := by
  have htouch := d.touch_cases m.hdr
  unfold execute
  by_cases h₁ : m.hdr.cmd = nbCommand
  · rw [if_pos h₁]
    by_cases hp : m.payload = []
    · rw [if_pos (by simp [hp])]
      exact .empty hr (.inl h₁) hp
    · rw [if_neg (by simpa using hp)]
      rcases htouch with h | h <;> rw [h] <;> exact .command hr h₁ hp
  rw [if_neg h₁]
  by_cases h₂ : m.hdr.cmd = nbSendFile
  · rw [if_pos h₂]
    by_cases hp : m.payload = []
    · rw [if_pos (by simp [hp])]
      exact .empty hr (.inr h₂) hp
    · rw [if_neg (by simpa using hp)]
      simp only [netbootGetBuffer_requested data hp hdata]
      cases hf : requested m.payload with
      | some f => rcases htouch with h | h <;> rw [h] <;> exact .accepted f hr h₂ hp hf
      | none => rcases htouch with h | h <;> rw [h] <;> exact .rejected hr h₂ hp hf
  rw [if_neg h₂]
  by_cases h₃ : m.hdr.cmd = nbData
  · rw [if_pos h₃, Device.touch_item]
    cases hf : d.item with
    | none => exact .misplaced hr h₃ (by simp [hf])
    | some f =>
      simp only [Device.touch_files]
      by_cases harg : m.hdr.arg.toNat = (d.files f).offset
      · rw [if_neg (not_not_intro harg)]
        by_cases hsz : (d.files f).offset + m.payload.length > (d.files f).size
        · rw [if_pos hsz]
          rcases htouch with h | h <;> rw [h] <;> exact .tooLarge f hr h₃ hf harg hsz
        · rw [if_neg hsz, hdata]
          rcases htouch with h | h <;> rw [h] <;>
            exact .appended f hr h₃ hf harg (Nat.le_of_not_gt hsz)
      · rw [if_pos harg]
        refine .misplaced hr h₃ ?_
        intro f' hf'
        rw [hf, Option.some.injEq] at hf'
        rwa [← hf']
  rw [if_neg h₃]
  by_cases h₄ : m.hdr.cmd = nbBoot
  · rw [if_pos h₄]
    rcases htouch with h | h <;> rw [h] <;> exact .boot hr h₄
  · rw [if_neg h₄]
    rcases htouch with h | h <;> rw [h] <;> exact .badCmd hr h₁ h₂ h₃ h₄

/-- **What one datagram does.**  Whatever follows it in the receive buffer, a
netboot message is handled as `Handled` says. -/
theorem udp6Recv_handled (d : Device) (m : Datagram) (data : Mem)
    (h : read data 0 m.bytes.length = m.bytes) :
    Handled d m (udp6Recv d data m.bytes.length nbServerPort).dev
      (udp6Recv d data m.bytes.length nbServerPort).ack := by
  obtain ⟨hhdr, hdata⟩ := Datagram.read_bytes h
  have hlen : m.bytes.length - nbmsgSize = m.payload.length := by simp
  unfold udp6Recv
  rw [if_neg (by simp), if_neg (by simp)]
  simp only [hhdr, hlen]
  by_cases hd : d.lastCookie = m.hdr.cookie ∧ d.lastCmd = m.hdr.cmd
  · rw [if_pos hd]
    have htouch : d.touch m.hdr = { d with lastArg := m.hdr.arg } := by
      rw [Device.touch, if_pos hd]
    by_cases ha : m.hdr.arg = 0
    · rw [if_neg (not_not_intro ha), ← htouch]
      exact execute_handled hdata (fun hr => hr.2.2 ha)
    · rw [if_pos ha]
      have hr := Handled.resend (d := d) (m := m) ⟨hd.1, hd.2, ha⟩
      rw [NbMsg.ackOf, ← hd.1] at hr
      exact hr
  · rw [if_neg hd]
    have htouch : d.touch m.hdr = d := by rw [Device.touch, if_neg hd]
    have hx := execute_handled (d := d) hdata (fun hr => hd ⟨hr.1, hr.2.1⟩)
    rwa [htouch] at hx

/-- A datagram that is too short, or for another port, is not looked at. -/
theorem udp6Recv_foreign (d : Device) (data : Mem) (len : Nat) (dport : UInt16)
    (h : dport ≠ nbServerPort ∨ len < nbmsgSize) : udp6Recv d data len dport = ⟨d, none, data⟩ := by
  unfold udp6Recv
  by_cases hp : dport = nbServerPort
  · rw [if_neg (not_not_intro hp), if_pos (h.resolve_left (not_not_intro hp))]
  · rw [if_pos hp]

/-- Every call of `udp6_recv` is foreign traffic or the handling of a message. -/
theorem udp6Recv_cases (d : Device) (data : Mem) (len : Nat) (dport : UInt16) :
    ((dport ≠ nbServerPort ∨ len < nbmsgSize) ∧
      (udp6Recv d data len dport).dev = d ∧ (udp6Recv d data len dport).ack = none) ∨
    (dport = nbServerPort ∧ nbmsgSize ≤ len ∧
      Handled d (datagramAt data len) (udp6Recv d data len dport).dev
        (udp6Recv d data len dport).ack) := by
  by_cases h : dport ≠ nbServerPort ∨ len < nbmsgSize
  · rw [udp6Recv_foreign _ _ _ _ h]
    exact .inl ⟨h, rfl, rfl⟩
  · simp only [not_or, not_not, Nat.not_lt] at h
    obtain ⟨rfl, hlen⟩ := h
    have hb := datagramAt_bytes data len hlen
    have hl : (datagramAt data len).bytes.length = len := by rw [hb, read_length]
    have hh := udp6Recv_handled d (datagramAt data len) data (by rw [hl, hb])
    rw [hl] at hh
    exact .inr ⟨rfl, hlen, hh⟩

/-- The netboot message that `udp6_recv` is called with, if it is one. -/
def messageOf (data : Mem) (len : Nat) (dport : UInt16) : Option Datagram :=
  if dport = nbServerPort ∧ nbmsgSize ≤ len then some (datagramAt data len) else none

theorem udp6Recv_message {d : Device} {data : Mem} {len : Nat} {dport : UInt16} {m : Datagram}
    (h : messageOf data len dport = some m) :
    Handled d m (udp6Recv d data len dport).dev (udp6Recv d data len dport).ack := by
  unfold messageOf at h
  split at h
  · rename_i hm
    cases h
    rcases udp6Recv_cases d data len dport with ⟨hf, -⟩ | ⟨-, -, hh⟩
    · exact absurd hm.1 (hf.resolve_right (Nat.not_lt.mpr hm.2))
    · exact hh
  · cases h

theorem udp6Recv_no_message (d : Device) {data : Mem} {len : Nat} {dport : UInt16}
    (h : messageOf data len dport = none) : udp6Recv d data len dport = ⟨d, none, data⟩ := by
  unfold messageOf at h
  split at h
  · cases h
  · rename_i hm
    refine udp6Recv_foreign d data len dport ?_
    by_cases hp : dport = nbServerPort
    · exact .inr (Nat.not_le.mp fun hl => hm ⟨hp, hl⟩)
    · exact .inl hp

theorem execute_congr (d : Device) (msg : NbMsg) {data data' : Mem} (len : Nat)
    (h : read data nbmsgSize len = read data' nbmsgSize len) :
    (execute d msg data len).dev = (execute d msg data' len).dev ∧
      (execute d msg data len).ack = (execute d msg data' len).ack := by
  have hname : len ≠ 0 →
      netbootGetBuffer (shift (sanitize (write data (nbmsgSize + (len - 1)) [0])
        nbmsgSize (len - 1)) nbmsgSize) =
      netbootGetBuffer (shift (sanitize (write data' (nbmsgSize + (len - 1)) [0])
        nbmsgSize (len - 1)) nbmsgSize) := by
    intro hlen
    have hne : read data nbmsgSize len ≠ [] := by
      rw [← List.length_pos_iff, read_length]
      omega
    have h₁ := netbootGetBuffer_requested data hne (by rw [read_length])
    have h₂ := netbootGetBuffer_requested data' hne (by rw [read_length, h])
    rw [read_length] at h₁ h₂
    rw [h₁, h₂]
  unfold execute
  split
  · split <;> exact ⟨rfl, rfl⟩
  split
  · split
    · exact ⟨rfl, rfl⟩
    · rename_i hlen
      simp only [hname hlen]
      split <;> exact ⟨rfl, rfl⟩
  split
  · split
    · exact ⟨rfl, rfl⟩
    · dsimp only
      split
      · exact ⟨rfl, rfl⟩
      · split
        · exact ⟨rfl, rfl⟩
        · rw [h]
          exact ⟨rfl, rfl⟩
  split <;> exact ⟨rfl, rfl⟩

/-- **No look past the datagram.**  Two receive buffers that agree on the datagram
lead to the same state and the same ack. -/
theorem udp6Recv_congr (d : Device) {data data' : Mem} (len : Nat) (dport : UInt16)
    (h : ∀ i < len, data i = data' i) :
    (udp6Recv d data len dport).dev = (udp6Recv d data' len dport).dev ∧
      (udp6Recv d data len dport).ack = (udp6Recv d data' len dport).ack := by
  unfold udp6Recv
  split
  · exact ⟨rfl, rfl⟩
  split
  · exact ⟨rfl, rfl⟩
  rename_i hlen
  rw [Nat.not_lt] at hlen
  have hhdr : nbmsgAt data = nbmsgAt data' := by
    have hword : ∀ a, a + 4 ≤ nbmsgSize → ld32 data a = ld32 data' a := by
      intro a ha
      exact ld32_congr fun i _ _ => h i (by omega)
    simp only [nbmsgAt, hword 0 (by decide), hword 4 (by decide), hword 8 (by decide),
      hword 12 (by decide)]
  have hdata : read data nbmsgSize (len - nbmsgSize) = read data' nbmsgSize (len - nbmsgSize) :=
    read_congr fun i _ _ => h i (by omega)
  simp only [hhdr]
  split
  · split
    · exact ⟨rfl, rfl⟩
    · exact execute_congr _ _ _ hdata
  · exact execute_congr _ _ _ hdata

/-! ## Runs -/

/-- A datagram for the netboot port, with nothing known of the buffer behind it. -/
def recv (d : Device) (bs : List UInt8) : Received := udp6Recv d (ofList bs) bs.length nbServerPort

/-- The end of `netboot_poll`: a pending boot request is consumed. -/
def Device.takeBoot (d : Device) : Device × Int :=
  if d.nbBootNow then ({ d with nbBootNow := false }, 1) else (d, 0)

@[simp] theorem Device.takeBoot_item (d : Device) : d.takeBoot.1.item = d.item := by
  unfold takeBoot
  split <;> rfl

@[simp] theorem Device.takeBoot_files (d : Device) : d.takeBoot.1.files = d.files := by
  unfold takeBoot
  split <;> rfl

@[simp] theorem Device.takeBoot_nbBootNow (d : Device) : d.takeBoot.1.nbBootNow = false := by
  unfold takeBoot
  split
  · rfl
  · simp_all

theorem Device.takeBoot_snd {d : Device} (h : d.nbBootNow = false) : d.takeBoot.2 = 0 := by
  simp [takeBoot, h]

theorem Device.takeBoot_snd_cases (d : Device) : d.takeBoot.2 = 1 ∨ d.takeBoot.2 = 0 := by
  unfold takeBoot
  split
  · exact .inl rfl
  · exact .inr rfl

theorem Device.takeBoot_cache (d : Device) :
    d.takeBoot.1.lastCookie = d.lastCookie ∧ d.takeBoot.1.lastCmd = d.lastCmd ∧
      d.takeBoot.1.lastAckCmd = d.lastAckCmd ∧ d.takeBoot.1.lastAckArg = d.lastAckArg := by
  unfold takeBoot
  split <;> exact ⟨rfl, rfl, rfl, rfl⟩

/-- The device as `efi_main` sets it up.  The two page buffers hold whatever their
pages held before; `cmdline` is a static array. -/
def Device.start (kernelPages ramdiskPages : Mem) : Device where
  lastCookie := 0
  lastCmd := 0
  lastArg := 0
  lastAckCmd := 0
  lastAckArg := 0
  nbBootNow := false
  nbActive := false
  item := none
  files
    | .nbkernel => ⟨kernelPages, kbufSize, 0⟩
    | .nbramdisk => ⟨ramdiskPages, rbufSize, 0⟩
    | .nbcmdline => ⟨fun _ => 0, cmdlineSize, 0⟩

/-- What can happen to the device: a call of `udp6_recv` with any datagram, the
timer branch of `netboot_poll`, and its end. -/
inductive DeviceEvent
  | recv (data : Mem) (len : Nat) (dport : UInt16)
  | tick
  | poll

namespace DeviceEvent

def apply (d : Device) : DeviceEvent → Device
  | .recv data len dport => (udp6Recv d data len dport).dev
  | .tick => { d with nbActive := false }
  | .poll => d.takeBoot.1

/-- The netboot message of an event, if it has one. -/
def message : DeviceEvent → Option Datagram
  | .recv data len dport => messageOf data len dport
  | _ => none

def ack (d : Device) : DeviceEvent → Option NbMsg
  | .recv data len dport => (udp6Recv d data len dport).ack
  | _ => none

end DeviceEvent

theorem apply_handled {d : Device} {e : DeviceEvent} {m : Datagram} (h : e.message = some m) :
    Handled d m (e.apply d) (e.ack d) := by
  cases e with
  | recv data len dport => exact udp6Recv_message h
  | tick => cases h
  | poll => cases h

def DeviceStep (d d' : Device) : Prop := ∃ e : DeviceEvent, d' = e.apply d

def Device.IsStart (d : Device) : Prop := ∃ k r, d = Device.start k r

/-- The states of a device in any run. -/
def Device.Reachable (d : Device) : Prop := Transition.Reachable Device.IsStart DeviceStep d

def runEvents (d : Device) : List DeviceEvent → Device
  | [] => d
  | e :: es => runEvents (e.apply d) es

theorem runEvents_reachable (es : List DeviceEvent) : ∀ {d : Device}, d.Reachable →
    (runEvents d es).Reachable := by
  induction es with
  | nil => exact fun hd => hd
  | cons e es ih => exact fun hd => ih (hd.next ⟨e, rfl⟩)

/-- A netboot message comes in. -/
def deliver (m : Datagram) : DeviceEvent := .recv (ofList m.bytes) m.bytes.length nbServerPort

def FileId.capacity : FileId → Nat
  | .nbkernel => kbufSize
  | .nbramdisk => rbufSize
  | .nbcmdline => cmdlineSize

/-- Every file has the size it was given and its write pointer within it, and the
device has acked no offset beyond the largest file. -/
structure Device.Bounded (d : Device) : Prop where
  size : ∀ f, (d.files f).size = f.capacity
  offset_le : ∀ f, (d.files f).offset ≤ f.capacity
  ack_le : d.lastAckCmd = nbAck → d.lastAckArg.toNat ≤ rbufSize

theorem FileId.capacity_le (f : FileId) : f.capacity ≤ rbufSize := by
  cases f <;> decide

theorem Device.Bounded.congr {d d' : Device} (hb : d.Bounded) (hfiles : d'.files = d.files)
    (hack : d'.lastAckCmd = nbAck → d'.lastAckArg.toNat ≤ rbufSize) : d'.Bounded :=
  ⟨by rw [hfiles]; exact hb.size, by rw [hfiles]; exact hb.offset_le, hack⟩

theorem Device.Bounded.touch {d : Device} (hb : d.Bounded) (msg : NbMsg) :
    (d.touch msg).Bounded := by
  rcases d.touch_cases msg with h | h <;> rw [h]
  · exact hb
  · exact hb.congr rfl hb.ack_le

theorem Device.Bounded.update {d d' : Device} (hb : d.Bounded) {g : FileId} {file : NbFile}
    (hfiles : d'.files = Function.update d.files g file) (hsize : file.size = (d.files g).size)
    (hoff : file.offset ≤ file.size)
    (hack : d'.lastAckCmd = nbAck → d'.lastAckArg.toNat ≤ rbufSize) : d'.Bounded := by
  rw [hb.size g] at hsize
  rw [hsize] at hoff
  refine ⟨?_, ?_, hack⟩
  · intro f
    rw [hfiles, Function.update_apply]
    split
    · rename_i hf
      rw [hf, hsize]
    · exact hb.size f
  · intro f
    rw [hfiles, Function.update_apply]
    split
    · rename_i hf
      rw [hf]
      exact hoff
    · exact hb.offset_le f

theorem Handled.bounded {d d' : Device} {m : Datagram} {a : Option NbMsg}
    (h : Handled d m d' a) (hb : d.Bounded) : d'.Bounded := by
  have hzero : (0 : UInt32).toNat ≤ rbufSize := Nat.zero_le _
  have hne : nbErrorTooLarge ≠ nbAck := by decide
  cases h with
  | resend => exact hb.congr rfl hb.ack_le
  | command | rejected | boot | badCmd => exact hb.congr rfl fun _ => hzero
  | tooLarge => exact hb.congr rfl fun hc => absurd hc hne
  | empty => exact hb.touch _
  | misplaced => exact hb.touch _
  | accepted g => exact hb.update rfl rfl (Nat.zero_le _) fun _ => hzero
  | appended g _ _ _ hoff hsz =>
    refine hb.update rfl rfl hsz fun _ => ?_
    show m.hdr.arg.toNat ≤ rbufSize
    rw [hoff]
    exact Nat.le_trans (hb.offset_le g) g.capacity_le

/-- After an answered message the cache holds the message and its ack. -/
theorem Handled.remembers {d d' : Device} {m : Datagram} {a : NbMsg}
    (h : Handled d m d' (some a)) :
    d'.lastCookie = m.hdr.cookie ∧ d'.lastCmd = m.hdr.cmd ∧
      a = m.hdr.ackOf d'.lastAckCmd d'.lastAckArg := by
  cases h with
  | resend hr => exact ⟨hr.1, hr.2.1, rfl⟩
  | command | accepted | rejected | tooLarge | appended | boot | badCmd => exact ⟨rfl, rfl, rfl⟩

theorem Handled.ack_le {d d' : Device} {m : Datagram} {a : NbMsg}
    (h : Handled d m d' (some a)) (hb : d.Bounded) (ha : a.cmd = nbAck) :
    a.arg.toNat ≤ rbufSize := by
  have hle := (h.bounded hb).ack_le
  rw [h.remembers.2.2] at ha ⊢
  exact hle ha

theorem udp6Recv_bounded {d : Device} (hb : d.Bounded) (data : Mem) (len : Nat)
    (dport : UInt16) : (udp6Recv d data len dport).dev.Bounded := by
  rcases udp6Recv_cases d data len dport with ⟨-, hd, -⟩ | ⟨-, -, hh⟩
  · rwa [hd]
  · exact hh.bounded hb

theorem Device.takeBoot_bounded {d : Device} (hb : d.Bounded) : d.takeBoot.1.Bounded := by
  obtain ⟨-, -, hcmd, harg⟩ := d.takeBoot_cache
  exact hb.congr d.takeBoot_files (by rw [hcmd, harg]; exact hb.ack_le)

theorem DeviceEvent.apply_bounded {d : Device} (hb : d.Bounded) (e : DeviceEvent) :
    (e.apply d).Bounded := by
  cases e with
  | recv data len dport => exact udp6Recv_bounded hb data len dport
  | tick => exact hb.congr rfl hb.ack_le
  | poll => exact Device.takeBoot_bounded hb

/-- No run of the device moves a write pointer out of its buffer. -/
theorem Device.Reachable.bounded {d : Device} (h : d.Reachable) : d.Bounded := by
  refine Transition.Reachable.invariant ?_ ?_ h
  · rintro d ⟨k, r, rfl⟩
    exact ⟨fun f => by cases f <;> rfl, fun f => by cases f <;> exact Nat.zero_le _,
      fun _ => Nat.zero_le _⟩
  · rintro d d' hb ⟨e, rfl⟩
    exact e.apply_bounded hb

theorem runEvents_bounded (es : List DeviceEvent) : ∀ {d : Device}, d.Bounded →
    (runEvents d es).Bounded := by
  induction es with
  | nil => exact fun hb => hb
  | cons e es ih => exact fun hb => ih (e.apply_bounded hb)

end Gigaboot.Netboot
