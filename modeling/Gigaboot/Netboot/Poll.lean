import Gigaboot.Inet6.RoundTrip
import Gigaboot.Lib.Transition
import Gigaboot.Netboot.Node
import Gigaboot.Netifc.Pool

/-!
# Polling the interface

`netifc_poll` of `netifc.c`, and runs of everything that uses the transmit buffers:
calls of `udp6_send`, received frames with the replies they cause, and polls in which
the interface gives buffers back.

* `ethRecv_pool`, `netifcPoll_pool`: each of these keeps the pool and returns;
* `pool_conserved`: no run leaks a block, frees one twice or hangs in `eth_put_buffer`.
-/

namespace Gigaboot.Netboot.Poll

open ByteMem FreeList Inet6 Netifc

/-- What `netifc_poll` gets from the interface. -/
structure Status where
  /-- whether `GetStatus` succeeds -/
  ok : Bool
  /-- a transmitted buffer; `none` is `NULL` -/
  txdone : Option Nat
  /-- the frame that `Receive` returns, if the interrupt is set and it succeeds -/
  received : Option (Mem × Nat)

def giveBack (nic : Nic) (data : Nat) : Nic := { nic with owned := nic.owned.erase data }

def netifcPoll {σ : Type*} (recv : Handler σ) (w : World σ) (s : Status) : Option (World σ) :=
  if ¬ s.ok then some w
  else
    let nic :=
      match s.txdone with
      | none => some w.nic
      | some data => ethPutBuffer (giveBack w.nic data) data
    match nic with
    | none => none
    | some nic =>
      match s.received with
      | none => some { w with nic := nic }
      | some (buf, len) => ethRecv recv { w with nic := nic } buf len

/-- The buffer that the interface gives back, and the frame that it received. -/
theorem netifcPoll_cases {σ : Type*} {recv : Handler σ} {w w' : World σ} {s : Status}
    (h : netifcPoll recv w s = some w') :
    s.ok = false ∧ w' = w ∨
    s.ok = true ∧ ∃ nic, (s.txdone = none ∧ nic = w.nic ∨
        ∃ data, s.txdone = some data ∧ ethPutBuffer (giveBack w.nic data) data = some nic) ∧
      (s.received = none ∧ w' = { w with nic := nic } ∨
        ∃ buf len, s.received = some (buf, len) ∧
          ethRecv recv { w with nic := nic } buf len = some w') := by
  unfold netifcPoll at h
  cases hok : s.ok with
  | false =>
    rw [hok] at h
    cases h
    exact .inl ⟨rfl, rfl⟩
  | true =>
    rw [hok] at h
    refine .inr ⟨rfl, ?_⟩
    cases htx : s.txdone with
    | none =>
      cases hs : s.received with
      | none =>
        rw [htx, hs] at h
        cases h
        exact ⟨w.nic, .inl ⟨rfl, rfl⟩, .inl ⟨rfl, rfl⟩⟩
      | some x =>
        rw [htx, hs] at h
        exact ⟨w.nic, .inl ⟨rfl, rfl⟩, .inr ⟨x.1, x.2, rfl, h⟩⟩
    | some data =>
      cases hput : ethPutBuffer (giveBack w.nic data) data with
      | none =>
        simp only [htx, hput] at h
        cases h
      | some nic =>
        cases hs : s.received with
        | none =>
          simp only [htx, hput, hs] at h
          cases h
          exact ⟨nic, .inr ⟨data, rfl, hput⟩, .inl ⟨rfl, rfl⟩⟩
        | some x =>
          simp only [htx, hput, hs] at h
          exact ⟨nic, .inr ⟨data, rfl, hput⟩, .inr ⟨x.1, x.2, rfl, h⟩⟩

/-- The call returns, with the pool in order. -/
def Keeps {σ : Type*} (blocks : List Nat) (res : Option (World σ)) : Prop :=
  ∃ w, res = some w ∧ Pool blocks [] w.nic

section Keeps

variable {σ : Type*} {blocks : List Nat} {w : World σ}

theorem keeps_sent (h : Pool blocks [] w.nic) {res : Option (Nic × Int)} (hs : Sends w.nic res) :
    Keeps blocks (w.sent res) := by
  obtain ⟨nic, ret, hres, hpool⟩ := h.sends hs
  exact ⟨_, by rw [hres]; rfl, hpool⟩

theorem icmp6Recv_pool (h : Pool blocks [] w.nic) (buf : Mem) (len : Nat) :
    Keeps blocks (icmp6Recv w buf len) := by
  have hdone : Keeps blocks (some w) := ⟨w, rfl, h⟩
  unfold icmp6Recv
  dsimp only
  split
  · exact hdone
  split
  · exact hdone
  split
  · split
    · exact hdone
    split
    · exact hdone
    split
    · exact hdone
    · exact keeps_sent h (icmp6Send_sends _ _ _ _ _)
  split
  · exact keeps_sent h (icmp6Send_sends _ _ _ _ _)
  · exact hdone

/-- A received frame keeps the pool if the receiver of datagrams does. -/
theorem ethRecv_pool {recv : Handler σ}
    (hrecv : ∀ w c, Pool blocks [] w.nic → Keeps blocks (recv w c)) (h : Pool blocks [] w.nic)
    (buf : Mem) (len : Nat) : Keeps blocks (ethRecv recv w buf len) := by
  have hheard : Pool blocks [] (w.heard buf).nic := h
  by_cases ha : WellFormed buf len ∧ Mine w.stack buf
  · rw [ethRecv_addressed recv ha.1 ha.2]
    unfold dispatch
    split
    · exact icmp6Recv_pool hheard _ _
    split
    · by_cases ho : UdpOk buf (payloadLen buf)
      · rw [udp6RecvHdr_accepted recv _ ho]
        exact hrecv _ _ hheard
      · rw [udp6RecvHdr_rejected recv _ ho]
        exact ⟨_, rfl, hheard⟩
    · exact ⟨_, rfl, hheard⟩
  · rw [ethRecv_dropped recv ha]
    exact ⟨w, rfl, h⟩

/-- The interface only gives back what it was given. -/
def Status.Honest (s : Status) (nic : Nic) : Prop := ∀ data, s.txdone = some data → data ∈ nic.owned

theorem giveBack_pool {nic : Nic} (h : Pool blocks [] nic) {data : Nat} (hmem : data ∈ nic.owned) :
    Pool blocks [blockOf data] (giveBack nic data) := by
  obtain ⟨free, hchain, hperm⟩ := h.conserved
  refine ⟨h.nodup, h.isBlock, ⟨free, hchain, List.Perm.trans ?_ hperm⟩, h.magic⟩
  have howned : (blockOf data :: (nic.owned.erase data).map blockOf).Perm (nic.owned.map blockOf) :=
    ((List.perm_cons_erase hmem).map blockOf).symm
  exact List.perm_middle.symm.trans (howned.append_left free)

theorem netifcPoll_pool {recv : Handler σ}
    (hrecv : ∀ w c, Pool blocks [] w.nic → Keeps blocks (recv w c)) (h : Pool blocks [] w.nic)
    {s : Status} (hs : s.Honest w.nic) : Keeps blocks (netifcPoll recv w s) := by
  have hrest : ∀ nic, Pool blocks [] nic → Keeps blocks
      (match s.received with
        | none => some { w with nic := nic }
        | some (buf, len) => ethRecv recv { w with nic := nic } buf len) := by
    intro nic hnic
    cases s.received with
    | none => exact ⟨_, rfl, hnic⟩
    | some x => exact ethRecv_pool hrecv (w := { w with nic := nic }) hnic x.1 x.2
  unfold netifcPoll
  cases s.ok with
  | false => exact ⟨w, rfl, h⟩
  | true =>
    cases htx : s.txdone with
    | none => exact hrest w.nic h
    | some data =>
      obtain ⟨nic, hput, hpool⟩ := (giveBack_pool h (hs data htx)).put rfl
      simp only [hput]
      exact hrest nic hpool

end Keeps

theorem netbootRecv_pool {blocks : List Nat} (w : World Device) (c : Call)
    (h : Pool blocks [] w.nic) : Keeps blocks (netbootRecv w c) := by
  unfold netbootRecv
  dsimp only
  cases (udp6Recv w.app c.data c.len c.dport).ack with
  | none => exact ⟨_, rfl, h⟩
  | some ack =>
    have happ : Pool blocks [] { w with app := (udp6Recv w.app c.data c.len c.dport).dev }.nic := h
    exact keeps_sent happ (udp6Send_sends _ _ _ _ _ _ _)

/-! ## What the interface has -/

section Lends

variable {blocks : List Nat} {nic nic' : Nic}

/-- The interface gets at most one buffer more, and takes frames as before. -/
structure Lends (nic nic' : Nic) : Prop where
  owned : nic'.owned.length ≤ nic.owned.length + 1
  txStatus : nic'.txStatus = nic.txStatus

theorem Lends.refl (nic : Nic) : Lends nic nic := ⟨Nat.le_succ _, rfl⟩

theorem ethPutBuffer_interface {data : Nat} (h : ethPutBuffer nic data = some nic') :
    nic'.owned = nic.owned ∧ nic'.txStatus = nic.txStatus := by
  unfold ethPutBuffer at h
  dsimp only at h
  split at h
  · cases h
  · cases h
    exact ⟨rfl, rfl⟩

theorem putBack_lends {data : Nat} {r : Int} {res : Nic × Int}
    (h : (ethPutBuffer nic data).map (·, r) = some res) : Lends nic res.1 := by
  obtain ⟨nic₁, hput, rfl⟩ := Option.map_eq_some_iff.mp h
  obtain ⟨howned, hstatus⟩ := ethPutBuffer_interface hput
  exact ⟨by rw [howned]; exact Nat.le_succ _, hstatus⟩

theorem ethSend_lends {data len : Nat} {r : Int} (h : ethSend nic data len = some (nic', r)) :
    Lends nic nic' := by
  unfold ethSend transmit at h
  dsimp only at h
  split at h
  · cases h
    refine ⟨?_, rfl⟩
    rw [List.length_append, List.length_singleton]
  · have hput := putBack_lends h
    exact ⟨hput.owned, hput.txStatus⟩

theorem sends_lends {res : Option (Nic × Int)} {r : Int} (hs : Sends nic res)
    (h : res = some (nic', r)) : Lends nic nic' := by
  cases hs with
  | noBuffer _ =>
    cases h
    exact .refl nic
  | dropped _ =>
    have hput := putBack_lends h
    exact ⟨hput.owned, hput.txStatus⟩
  | sent heap len _ _ _ =>
    have hsend := ethSend_lends h
    exact ⟨hsend.owned, hsend.txStatus⟩

theorem sent_lends {σ : Type*} {w w' : World σ} {res : Option (Nic × Int)} (hs : Sends w.nic res)
    (h : w.sent res = some w') : Lends w.nic w'.nic := by
  obtain ⟨⟨nic, r⟩, hsend, rfl⟩ := Option.map_eq_some_iff.mp h
  exact sends_lends hs hsend

/-- A buffer comes back before the received frame is handled. -/
theorem netifcPoll_lends {σ : Type*} {recv : Handler σ} {w w' : World σ} {s : Status}
    (hrecv : ∀ nic buf len, s.received = some (buf, len) →
      ethRecv recv { w with nic := nic } buf len = some w' → Lends nic w'.nic)
    (h : netifcPoll recv w s = some w') :
    Lends w.nic w'.nic ∧
      (s.received = none → w'.nic.owned.length ≤ w.nic.owned.length) ∧
      (s.ok = true → ∀ data, s.txdone = some data → data ∈ w.nic.owned →
        w'.nic.owned.length ≤ w.nic.owned.length) := by
  rcases netifcPoll_cases h with ⟨hok, rfl⟩ | ⟨-, nic, hnic, hrest⟩
  · exact ⟨.refl _, fun _ => Nat.le_refl _, fun hok' => by rw [hok] at hok'; cases hok'⟩
  have hput : nic.owned.length ≤ w.nic.owned.length ∧ nic.txStatus = w.nic.txStatus ∧
      ∀ data, s.txdone = some data → data ∈ w.nic.owned →
        nic.owned.length + 1 ≤ w.nic.owned.length := by
    rcases hnic with ⟨htx, rfl⟩ | ⟨data, htx, hput⟩
    · exact ⟨Nat.le_refl _, rfl, fun data hd => by rw [htx] at hd; cases hd⟩
    · obtain ⟨howned, hstatus⟩ := ethPutBuffer_interface hput
      have hback : (giveBack w.nic data).owned = w.nic.owned.erase data := rfl
      rw [howned, hback]
      refine ⟨List.length_erase_le, hstatus, fun data' hd hmem => ?_⟩
      obtain rfl : data = data' := Option.some.inj (htx.symm.trans hd)
      rw [List.length_erase_of_mem hmem]
      have hpos := List.length_pos_of_mem hmem
      omega
  obtain ⟨hle, hstatus, hback⟩ := hput
  rcases hrest with ⟨hrx, rfl⟩ | ⟨buf, len, hrx, hcall⟩
  · exact ⟨⟨Nat.le_succ_of_le hle, hstatus⟩, fun _ => hle,
      fun _ data hd hmem => Nat.le_of_succ_le (hback data hd hmem)⟩
  · have hlends := hrecv nic buf len hrx hcall
    have howned := hlends.owned
    refine ⟨⟨by omega, hlends.txStatus.trans hstatus⟩, fun hnone => ?_, fun _ data hd hmem => ?_⟩
    · rw [hrx] at hnone
      cases hnone
    · have hfewer := hback data hd hmem
      omega

end Lends

/-! ## Runs -/

/-- What uses the transmit buffers. -/
inductive Op
  | udp6Send (data : Mem) (dlen : Nat) (daddr : Ip6Addr) (dport sport : UInt16)
  | ethRecv (buf : Mem) (len : Nat)
  | netifcPoll (s : Status)

def Op.run (w : World Device) : Op → Option (World Device)
  | .udp6Send data dlen daddr dport sport =>
    w.sent (Inet6.udp6Send w.stack w.nic data dlen daddr dport sport)
  | .ethRecv buf len => Inet6.ethRecv netbootRecv w buf len
  | .netifcPoll s => Poll.netifcPoll netbootRecv w s

def Op.Allowed (w : World Device) : Op → Prop
  | .netifcPoll s => s.Honest w.nic
  | _ => True

/-- The blocks are those of `netifc_open`. -/
def Opened (r : Region) (w : World Device) : Prop :=
  ∃ nic : Nic, nic.Fresh ∧ netifcOpenLoop nic r.base (numBufferPages * 2) = some w.nic

def Step (w w' : World Device) : Prop := ∃ op : Op, op.Allowed w ∧ op.run w = some w'

theorem Op.run_pool {blocks : List Nat} {w : World Device} (h : Pool blocks [] w.nic) {op : Op}
    (hop : op.Allowed w) : Keeps blocks (op.run w) := by
  cases op with
  | udp6Send => exact keeps_sent h (udp6Send_sends _ _ _ _ _ _ _)
  | ethRecv buf len => exact ethRecv_pool netbootRecv_pool h buf len
  | netifcPoll s => exact netifcPoll_pool netbootRecv_pool h hop

theorem reachable_pool {r : Region} {w : World Device}
    (h : Transition.Reachable (Opened r) Step w) : Pool r.blocks [] w.nic := by
  have hinit : ∀ w, Opened r w → Pool r.blocks [] w.nic := by
    rintro w ⟨nic, hfresh, hopen⟩
    obtain ⟨nic', hloop, hpool⟩ := netifcOpenLoop_region r hfresh
    rw [hopen] at hloop
    rw [Option.some.inj hloop]
    exact hpool
  have hstep : ∀ w w', Pool r.blocks [] w.nic → Step w w' → Pool r.blocks [] w'.nic := by
    rintro w w' hpool ⟨op, hop, hrun⟩
    obtain ⟨w'', hrun', hpool'⟩ := Op.run_pool hpool hop
    rw [hrun] at hrun'
    rw [Option.some.inj hrun']
    exact hpool'
  exact Transition.Reachable.invariant (s := w) hinit hstep h

/-- **The transmit buffers are conserved.**  In every run the free list ends, holds no
block twice, and makes up the 16 blocks together with the blocks that the interface has;
every magic word is intact and no operation hangs.  A packet is only written to bytes 16
to 1532 of the block that was taken for it. -/
theorem pool_conserved {r : Region} {w : World Device}
    (h : Transition.Reachable (Opened r) Step w) :
    (∃ free, Chain 0 (nextOf w.nic.heap) w.nic.ethBuffers free ∧
      (free ++ w.nic.owned.map blockOf).Nodup ∧
      (free ++ w.nic.owned.map blockOf).Perm r.blocks) ∧
    (∀ b ∈ r.blocks, ld64 w.nic.heap b = ethBufferMagic) ∧
    (∀ op : Op, op.Allowed w → op.run w ≠ none) ∧
    (∀ nic st data dlen daddr dport sport,
      Sends nic (udp6Send st nic data dlen daddr dport sport) ∧
      Sends nic (icmp6Send st nic data dlen daddr)) := by
  have hpool := reachable_pool h
  obtain ⟨free, hchain, hperm⟩ := hpool.conserved
  refine ⟨⟨free, hchain, hperm.nodup_iff.mpr hpool.nodup, hperm⟩, hpool.magic, ?_, ?_⟩
  · intro op hop hnone
    obtain ⟨w', hrun, -⟩ := Op.run_pool hpool hop
    rw [hnone] at hrun
    cases hrun
  · intro nic st data dlen daddr dport sport
    exact ⟨udp6Send_sends _ _ _ _ _ _ _, icmp6Send_sends _ _ _ _ _⟩

/-- Eight pages at 1 MiB. -/
def lowRegion : Region := ⟨0x100000, by decide, by decide, by decide⟩

/-- An interface that takes every frame, in memory full of ones. -/
def freshNic : Nic := ⟨fun _ => 1, 0, fun _ => true, [], []⟩

def sevenToAll : Op := .udp6Send (ofList [7]) 1 ip6LlAllNodes 33330 33331

theorem sevenToAll_allowed (w : World Device) : sevenToAll.Allowed w := trivial

/-- A host after `netifc_open` and one datagram to all nodes. -/
theorem pool_conserved_one_datagram : ∃ w : World Device,
    Transition.Reachable (Opened lowRegion) Step w ∧
    ∃ free, Chain 0 (nextOf w.nic.heap) w.nic.ethBuffers free ∧
      (free ++ w.nic.owned.map blockOf).Perm lowRegion.blocks := by
  have hfresh : freshNic.Fresh := ⟨rfl, rfl⟩
  obtain ⟨nic, hopen, -⟩ := netifcOpenLoop_region lowRegion hfresh
  have hw : Transition.Reachable (Opened lowRegion) Step ⟨ip6Init blank #v[2, 0, 0, 0, 0, 1], nic,
      Device.start (fun _ => 0) (fun _ => 0)⟩ := .of_init ⟨freshNic, hfresh, hopen⟩
  obtain ⟨w', hrun, -⟩ := Op.run_pool (reachable_pool hw) (sevenToAll_allowed _)
  have hw' := hw.next ⟨_, sevenToAll_allowed _, hrun⟩
  obtain ⟨⟨free, hchain, -, hperm⟩, -⟩ := pool_conserved hw'
  exact ⟨w', hw', free, hchain, hperm⟩

end Gigaboot.Netboot.Poll
