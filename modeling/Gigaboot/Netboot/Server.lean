import Gigaboot.Netboot.Device

/-!
# The netboot server

`io` and `xfer` of `nbserver.c` as one state machine: a host waits for a beacon,
asks the device for `kernel.bin`, sends the file block by block and sends the boot
command, each message again and again until its ack comes or the retry budget is
used up.  What the host meets (beacons, timeouts, datagrams, the outcome of system
calls) is the event of a step.

* `Moves`, `hostStep_moves`: everything one step of a host can do;
* `Host.accepts_iff`: which datagrams `io` takes for the ack of its message.
-/

namespace Gigaboot.Netboot

open ByteMem

/-- Where the host stands in `main`, `xfer` and `io`. -/
inductive Pc
  /-- `main` waits for a beacon -/
  | idle
  /-- `io` is about to write the message -/
  | write
  /-- `io` at the label `again`, reading -/
  | again
  /-- `xfer` is about to read the next block of the file -/
  | fread
  /-- `io` has returned 0 on the boot command -/
  | booted
  deriving DecidableEq, Repr

/-- The call of `io` in `xfer`. -/
inductive Stage
  | sendFile
  | data
  | boot
  deriving DecidableEq, Repr

structure Host where
  /-- the static counter: the cookie of the next message -/
  cookie : UInt32
  pc : Pc
  stage : Stage
  /-- the message in `msgbuf`, as long as `io` is told it is -/
  msg : Datagram
  retries : Nat
  /-- the contents of the open file, and how much `fread` has returned -/
  file : List UInt8
  pos : Nat
  /-- `msg->arg` at the top of the loop over blocks -/
  arg : UInt32
  /-- how often `io` was called so far -/
  calls : Nat
  deriving DecidableEq, Repr

def Host.start : Host where
  cookie := 1
  pc := .idle
  stage := .sendFile
  msg := ⟨⟨0, 0, 0, 0⟩, []⟩
  retries := 0
  file := []
  pos := 0
  arg := 0
  calls := 0

/-- The entry of `io`: a fresh cookie and a full retry budget. -/
def Host.startIo (h : Host) (stage : Stage) (cmd arg : UInt32) (data : List UInt8) : Host :=
  { h with
    cookie := h.cookie + 1, pc := .write, stage := stage,
    msg := ⟨⟨nbMagic, h.cookie, cmd, arg⟩, data⟩, retries := 5, calls := h.calls + 1 }

/-- The start of `xfer` on a file with these contents. -/
def Host.startXfer (h : Host) (file : List UInt8) : Host :=
  { h with file := file, pos := 0 }.startIo .sendFile nbSendFile 0 (kernelBin ++ [0])

/-- What `xfer` does when `io` returns 0. -/
def Host.ioDone (h : Host) : Host :=
  match h.stage with
  | .sendFile => { h with pc := .fread, arg := 0 }
  | .data => { h with pc := .fread, arg := h.arg + UInt32.ofNat h.msg.payload.length }
  | .boot => { h with pc := .booted }

/-- The tests of `io` on what `read` returned, up to `return 0`. -/
def Host.accepts (h : Host) (bs : List UInt8) : Bool :=
  if bs.length < nbmsgSize then false
  else
    let ack := nbmsgAt (ofList bs)
    if ack.magic ≠ nbMagic then false
    else if ack.cookie ≠ h.msg.hdr.cookie then false
    else if ack.arg ≠ h.msg.hdr.arg then false
    else ack.cmd = nbAck

inductive HostEvent
  /-- `main` receives an advertisement and `xfer` opens the file -/
  | beacon (file : List UInt8)
  | writeOk
  /-- `write` fails with `EAGAIN` -/
  | writeAgain
  | writeError
  /-- `read` fails with `EAGAIN` -/
  | timeout
  | readError
  | datagram (bs : List UInt8)
  /-- `fread` returns `r` bytes -/
  | block (r : Nat)
  /-- `fread` returns 0 at the end of the file -/
  | eof
  /-- `fread` returns 0 on an error -/
  | ferror
  deriving DecidableEq, Repr

/-- One step of the host, with the datagram it writes, or `none` where the event
cannot happen. -/
def hostStep (h : Host) : HostEvent → Option (Host × Option Datagram)
  | .beacon file =>
    if h.pc = .idle ∨ h.pc = .booted then some (h.startXfer file, none) else none
  | .writeOk =>
    if h.pc = .write then some ({ h with pc := .again }, some h.msg) else none
  | .writeAgain => if h.pc = .write then some (h, none) else none
  | .writeError => if h.pc = .write then some ({ h with pc := .idle }, none) else none
  | .timeout =>
    if h.pc = .again then
      if h.retries - 1 > 0 then
        some ({ h with retries := h.retries - 1, pc := .write }, none)
      else some ({ h with retries := h.retries - 1, pc := .idle }, none)
    else none
  | .readError => if h.pc = .again then some ({ h with pc := .idle }, none) else none
  | .datagram bs =>
    if h.pc = .again then
      if h.accepts bs then some (h.ioDone, none) else some (h, none)
    else none
  | .block r =>
    if h.pc = .fread ∧ 1 ≤ r ∧ r ≤ 1024 ∧ h.pos + r ≤ h.file.length then
      some ({ h with pos := h.pos + r }.startIo .data nbData h.arg ((h.file.drop h.pos).take r),
        none)
    else none
  | .eof =>
    if h.pc = .fread ∧ h.pos = h.file.length then some (h.startIo .boot nbBoot 0 [], none)
    else none
  | .ferror => if h.pc = .fread then some ({ h with pc := .idle }, none) else none

/-! ## What a step can do -/

theorem Host.accepts_iff (h : Host) (bs : List UInt8) :
    h.accepts bs = true ↔ nbmsgSize ≤ bs.length ∧
      nbmsgAt (ofList bs) = h.msg.hdr.ackOf nbAck h.msg.hdr.arg := by
  unfold accepts NbMsg.ackOf
  cases nbmsgAt (ofList bs) with
  | mk magic cookie cmd arg =>
    simp only [NbMsg.mk.injEq]
    by_cases hlen : bs.length < nbmsgSize
    · simp [hlen]
    · rw [if_neg hlen]
      by_cases h₁ : magic = nbMagic <;> by_cases h₂ : cookie = h.msg.hdr.cookie <;>
        by_cases h₃ : arg = h.msg.hdr.arg <;> simp [h₁, h₂, h₃, Nat.le_of_not_gt hlen]

/-- The ack as the device sends it is the one `io` takes. -/
theorem Host.accepts_bytes (h : Host) (ack : NbMsg) :
    h.accepts ack.bytes = true ↔ ack = h.msg.hdr.ackOf nbAck h.msg.hdr.arg := by
  have hread : nbmsgAt (ofList ack.bytes) = ack := nbmsgAt_of_read (read_ofList _)
  rw [accepts_iff, hread]
  simp

/-- Everything a step of a host can do: the host before and after, what it read and
what it wrote. -/
inductive Moves (h : Host) : HostEvent → Host → Option Datagram → Prop
  | start (file : List UInt8) : h.pc = .idle ∨ h.pc = .booted →
      Moves h (.beacon file) (h.startXfer file) none
  | send : h.pc = .write → Moves h .writeOk { h with pc := .again } (some h.msg)
  /-- nothing happens: `EAGAIN` on a write, or a datagram that is not the ack -/
  | stay (e : HostEvent) : (∀ bs, e = .datagram bs → h.accepts bs = false) → Moves h e h none
  | giveUp (e : HostEvent) (r : Nat) : h.pc ≠ .booted →
      Moves h e { h with retries := r, pc := .idle } none
  | retry : h.pc = .again → Moves h .timeout { h with retries := h.retries - 1, pc := .write } none
  | opened (bs : List UInt8) : h.pc = .again → h.accepts bs = true → h.stage = .sendFile →
      Moves h (.datagram bs) { h with pc := .fread, arg := 0 } none
  | stored (bs : List UInt8) : h.pc = .again → h.accepts bs = true → h.stage = .data →
      Moves h (.datagram bs)
        { h with pc := .fread, arg := h.arg + UInt32.ofNat h.msg.payload.length } none
  | booted (bs : List UInt8) : h.pc = .again → h.accepts bs = true → h.stage = .boot →
      Moves h (.datagram bs) { h with pc := .booted } none
  | block (r : Nat) : h.pc = .fread → 1 ≤ r → r ≤ 1024 → h.pos + r ≤ h.file.length →
      Moves h (.block r)
        ({ h with pos := h.pos + r }.startIo .data nbData h.arg ((h.file.drop h.pos).take r)) none
  | eof : h.pc = .fread → h.pos = h.file.length →
      Moves h .eof (h.startIo .boot nbBoot 0 []) none

theorem hostStep_moves {h h' : Host} {e : HostEvent} {out : Option Datagram}
    (hs : hostStep h e = some (h', out)) : Moves h e h' out := by
  cases e with
  | beacon file =>
    simp only [hostStep, Option.ite_none_right_eq_some, Option.some.injEq, Prod.mk.injEq] at hs
    obtain ⟨hpc, rfl, rfl⟩ := hs
    exact .start file hpc
  | writeOk =>
    simp only [hostStep, Option.ite_none_right_eq_some, Option.some.injEq, Prod.mk.injEq] at hs
    obtain ⟨hpc, rfl, rfl⟩ := hs
    exact .send hpc
  | writeAgain =>
    simp only [hostStep, Option.ite_none_right_eq_some, Option.some.injEq, Prod.mk.injEq] at hs
    obtain ⟨hpc, rfl, rfl⟩ := hs
    exact .stay _ (by simp)
  | writeError =>
    simp only [hostStep, Option.ite_none_right_eq_some, Option.some.injEq, Prod.mk.injEq] at hs
    obtain ⟨hpc, rfl, rfl⟩ := hs
    exact .giveUp _ h.retries (by simp [hpc])
  | timeout =>
    simp only [hostStep, Option.ite_none_right_eq_some] at hs
    obtain ⟨hpc, hs⟩ := hs
    split at hs
    · simp only [Option.some.injEq, Prod.mk.injEq] at hs
      obtain ⟨rfl, rfl⟩ := hs
      exact .retry hpc
    · simp only [Option.some.injEq, Prod.mk.injEq] at hs
      obtain ⟨rfl, rfl⟩ := hs
      exact .giveUp _ _ (by simp [hpc])
  | readError =>
    simp only [hostStep, Option.ite_none_right_eq_some, Option.some.injEq, Prod.mk.injEq] at hs
    obtain ⟨hpc, rfl, rfl⟩ := hs
    exact .giveUp _ h.retries (by simp [hpc])
  | datagram bs =>
    simp only [hostStep, Option.ite_none_right_eq_some] at hs
    obtain ⟨hpc, hs⟩ := hs
    split at hs
    · rename_i hacc
      simp only [Option.some.injEq, Prod.mk.injEq] at hs
      obtain ⟨rfl, rfl⟩ := hs
      cases hst : h.stage with
      | sendFile => simpa only [Host.ioDone, hst] using Moves.opened bs hpc hacc hst
      | data => simpa only [Host.ioDone, hst] using Moves.stored bs hpc hacc hst
      | boot => simpa only [Host.ioDone, hst] using Moves.booted bs hpc hacc hst
    · rename_i hacc
      simp only [Option.some.injEq, Prod.mk.injEq] at hs
      obtain ⟨rfl, rfl⟩ := hs
      exact .stay _ (by simpa using hacc)
  | block r =>
    simp only [hostStep, Option.ite_none_right_eq_some, Option.some.injEq, Prod.mk.injEq] at hs
    obtain ⟨⟨hpc, h₁, h₂, h₃⟩, rfl, rfl⟩ := hs
    exact .block r hpc h₁ h₂ h₃
  | eof =>
    simp only [hostStep, Option.ite_none_right_eq_some, Option.some.injEq, Prod.mk.injEq] at hs
    obtain ⟨⟨hpc, hpos⟩, rfl, rfl⟩ := hs
    exact .eof hpc hpos
  | ferror =>
    simp only [hostStep, Option.ite_none_right_eq_some, Option.some.injEq, Prod.mk.injEq] at hs
    obtain ⟨hpc, rfl, rfl⟩ := hs
    exact .giveUp _ h.retries (by simp [hpc])

/-- What a host sends is its message, at the `write` of `io`. -/
theorem Moves.sends {h h' : Host} {e : HostEvent} {out : Option Datagram}
    (hm : Moves h e h' out) {m : Datagram} (hmem : m ∈ out.toList) :
    h.pc = .write ∧ m = h.msg := by
  cases hm with
  | send hpc => exact ⟨hpc, by simpa using hmem⟩
  | start | stay | giveUp | retry | opened | stored | booted | block | eof =>
    exact absurd hmem List.not_mem_nil

/-- A host that only ever transfers `file` has no other file open. -/
theorem Moves.file_eq {file : List UInt8} {h h' : Host} {e : HostEvent}
    {out : Option Datagram} (hm : Moves h e h' out) (hfile : ∀ f, e = .beacon f → f = file)
    (hf : h.pc ≠ .idle → h.file = file) : h'.pc ≠ .idle → h'.file = file := by
  cases hm with
  | start f _ => intro _; exact hfile f rfl
  | stay _ _ => exact hf
  | giveUp _ r _ => intro hpc; exact absurd rfl hpc
  | send hpc => intro _; exact hf (by simp [hpc])
  | retry hpc => intro _; exact hf (by simp [hpc])
  | opened _ hpc => intro _; exact hf (by simp [hpc])
  | stored _ hpc => intro _; exact hf (by simp [hpc])
  | booted _ hpc => intro _; exact hf (by simp [hpc])
  | block _ hpc => intro _; exact hf (by simp [hpc])
  | eof hpc _ => intro _; exact hf (by simp [hpc])

/-- A step either calls `io`, with the next cookie, or leaves the message alone. -/
theorem Moves.calls_cases {h h' : Host} {e : HostEvent} {out : Option Datagram}
    (hm : Moves h e h' out) :
    (h'.cookie = h.cookie ∧ h'.calls = h.calls ∧ h'.msg = h.msg) ∨
    (h'.cookie = h.cookie + 1 ∧ h'.calls = h.calls + 1 ∧ h'.msg.hdr.cookie = h.cookie) := by
  cases hm with
  | start | block | eof => exact .inr ⟨rfl, rfl, rfl⟩
  | send | stay | giveUp | retry | opened | stored | booted => exact .inl ⟨rfl, rfl, rfl⟩

end Gigaboot.Netboot
