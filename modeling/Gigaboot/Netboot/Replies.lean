import Gigaboot.Inet6.Icmp6Reply
import Gigaboot.Netboot.Poll
import Gigaboot.Netboot.Trailing

/-!
# Whom the device talks to

`advertise` and `netboot_poll` of `netboot.c` over the whole stack, and where the frames
go that are handed to `Transmit` in a run of polls.  The destination of a reply is
looked up in the cache of the last sender, which is written before the frame is handled.

* `ethRecv_reply`: what handling one frame can send;
* `netbootPoll_sends`: what one poll can send;
* `replies_to_sender`: every frame of a run is an advertisement, or answers the sender
  of the frame that was handled in that poll.
-/

namespace Gigaboot.Netboot.Replies

open ByteMem Inet6 Netifc Poll

/-- `"version\00.1\0" "serialno\0unknown\0" "board\0unknown\0"`.  The escape in the first
part takes both zeros, so the version is ".1". -/
def advertiseData : List UInt8 :=
  [118, 101, 114, 115, 105, 111, 110, 0] ++ [46, 49, 0] ++
  [115, 101, 114, 105, 97, 108, 110, 111, 0] ++ [117, 110, 107, 110, 111, 119, 110, 0] ++
  [98, 111, 97, 114, 100, 0] ++ [117, 110, 107, 110, 111, 119, 110, 0] ++ [0]

def advert : Datagram := ⟨⟨nbMagic, 0, nbAdvertise, 0⟩, advertiseData⟩

def advertise (w : World Device) : Option (World Device) :=
  w.sent (udp6Send w.stack w.nic (ofList advert.bytes) (nbmsgSize + advertiseData.length)
    ip6LlAllNodes nbAdvertPort nbServerPort)

def fastTick : Nat := 100
def slowTick : Nat := 1000

/-- The state that `netboot_poll` works on. -/
structure Node where
  world : World Device
  nbFastcount : Nat
  nbOnline : Bool
  /-- what `netifc_set_timer` was last called with -/
  timer : Nat

/-- What one call of `netboot_poll` meets. -/
structure Event where
  /-- `netifc_active` -/
  active : Bool
  /-- `netifc_timer_expired` -/
  timerExpired : Bool
  status : Status

/-- The branch of `netboot_poll` for an interface that has come up. -/
def Node.online (s : Node) : Option Node :=
  if s.nbOnline then some s
  else
    (advertise s.world).map fun w =>
      { world := w, nbFastcount := 20, nbOnline := true, timer := fastTick }

def Node.rearm (s : Node) : Node :=
  if s.nbFastcount ≠ 0 then { s with nbFastcount := s.nbFastcount - 1, timer := fastTick }
  else { s with timer := slowTick }

/-- The branch of `netboot_poll` for the timer. -/
def Node.tick (s : Node) (expired : Bool) : Option Node :=
  if ¬ expired then some s
  else
    let s := s.rearm
    if s.world.app.nbActive then
      -- don't advertise if we're in a transfer
      some { s with world := { s.world with app := { s.world.app with nbActive := false } } }
    else (advertise s.world).map fun w => { s with world := w }

/-- `netboot_poll` with its result; `none` if it does not return. -/
def netbootPoll (s : Node) (e : Event) : Option (Node × Int) :=
  if ¬ e.active then some ({ s with nbOnline := false }, 0)
  else do
    let s ← s.online
    let s ← s.tick e.timerExpired
    let w ← netifcPoll netbootRecv s.world e.status
    some ({ s with world := { w with app := w.app.takeBoot.1 } }, w.app.takeBoot.2)

def run (s : Node) : List Event → Option Node
  | [] => some s
  | e :: es =>
    match netbootPoll s e with
    | none => none
    | some (s, _) => run s es

/-! ## What a frame says -/

/-- The frame is an advertisement to all nodes. -/
structure Advertises (mac : MacAddr) (frame : Mem) : Prop where
  dmac : arrayAt frame 0 6 = #v[0x33, 0x33, 0, 0, 0, 1]
  smac : arrayAt frame 6 6 = mac
  next : frame 20 = hdrUdp
  saddr : arrayAt frame 22 16 = ll6addrFromMac mac
  daddr : arrayAt frame 38 16 = ip6LlAllNodes
  dport : ld16 frame 56 = swap16 nbAdvertPort
  ulen : (swap16 (ld16 frame 58)).toNat = advert.bytes.length + 8
  msg : nbmsgAt (shift frame 62) = ⟨nbMagic, 0, nbAdvertise, 0⟩

/-- The frame goes to the sender of the frame in `buf`. -/
structure Answers (mac : MacAddr) (buf frame : Mem) : Prop where
  dmac : arrayAt frame 0 6 = replyMac buf
  smac : arrayAt frame 6 6 = mac
  saddr : arrayAt frame 22 16 = ll6addrFromMac mac
  daddr : arrayAt frame 38 16 = arrayAt buf 22 16

/-- The addresses of the host are those of `ip6_init`. -/
structure Configured (mac : MacAddr) (st : Stack) : Prop where
  llMac : st.llMacAddr = mac
  llIp6 : st.llIp6Addr = ll6addrFromMac mac
  snmIp6 : st.snmIp6Addr = snmaddrFromMac mac

/-- The frame passes the tests of `eth_recv`, the one for the destination included. -/
def Passes (mac : MacAddr) (buf : Mem) (len : Nat) : Prop :=
  WellFormed buf len ∧
    (arrayAt buf 38 16 = ll6addrFromMac mac ∨ arrayAt buf 38 16 = snmaddrFromMac mac)

/-! ## What a send hands to `Transmit` -/

/-- From `nic` to `nic'` at most one frame was handed to `Transmit`, and it satisfies
`P`. -/
def Hands (P : Mem → Prop) (nic nic' : Nic) : Prop :=
  ∃ ts : List Transmitted, nic'.transmitted = nic.transmitted ++ ts ∧ ts.length ≤ 1 ∧
    ∀ t ∈ ts, P (ofList t.frame)

section Hands

variable {P Q : Mem → Prop} {nic nic' : Nic}

theorem Hands.none (h : nic'.transmitted = nic.transmitted) : Hands P nic nic' :=
  ⟨[], by rw [h, List.append_nil], Nat.zero_le 1, nofun⟩

theorem Hands.one {t : Transmitted} (h : nic'.transmitted = nic.transmitted ++ [t])
    (ht : P (ofList t.frame)) : Hands P nic nic' := by
  refine ⟨[t], h, Nat.le_refl 1, fun t' ht' => ?_⟩
  rw [List.mem_singleton.mp ht']
  exact ht

theorem Hands.mono (h : Hands P nic nic') (hpq : ∀ f, P f → Q f) : Hands Q nic nic' := by
  obtain ⟨ts, htx, hlen, hts⟩ := h
  exact ⟨ts, htx, hlen, fun t ht => hpq _ (hts t ht)⟩

theorem ethPutBuffer_transmitted {data : Nat} (h : ethPutBuffer nic data = some nic') :
    nic'.transmitted = nic.transmitted := by
  unfold ethPutBuffer at h
  dsimp only at h
  split at h
  · cases h
  · cases h
    rfl

theorem netifcOpenLoop_transmitted {ptr k : Nat} (h : netifcOpenLoop nic ptr k = some nic') :
    nic'.transmitted = nic.transmitted := by
  induction k generalizing nic ptr with
  | zero =>
    cases h
    rfl
  | succ k ih =>
    rw [netifcOpenLoop] at h
    cases hput : ethPutBuffer (nic.withHeap (write nic.heap ptr (bytes64 ethBufferMagic))) ptr with
    | none =>
      rw [hput] at h
      cases h
    | some nic₁ =>
      rw [hput] at h
      have hput' := ethPutBuffer_transmitted hput
      exact (ih h).trans hput'

theorem putBack_hands {r : Int} (h : putBack nic = some (nic', r)) : Hands P nic nic' := by
  obtain ⟨nic₁, hput, heq⟩ := Option.map_eq_some_iff.mp h
  cases heq
  have htx := ethPutBuffer_transmitted hput
  exact .none htx

theorem ethSend_hands {heap : Mem} {data len : Nat} {r : Int}
    (h : ethSend (nic.pop.withHeap heap) data len = some (nic', r))
    (hf : P (ofList (read heap data len))) : Hands P nic nic' := by
  have htx := ethSend_transmitted h
  exact .one htx hf

/-- What `udp6_send` hands over is a UDP frame to the address that was resolved. -/
theorem udp6Send_hands {st : Stack} {data : Mem} {dlen : Nat} {daddr : Ip6Addr}
    {dport sport : UInt16} {r : Int}
    (h : udp6Send st nic data dlen daddr dport sport = some (nic', r)) :
    Hands (fun f => ∃ dmac c, resolveIp6 st daddr = some dmac ∧
      read f 0 (62 + dlen) = udpFrame st dmac daddr sport dport (read data 0 dlen) c)
      nic nic' := by
  rcases udp6Send_cases st nic data dlen daddr dport sport with
    ⟨-, heq⟩ | ⟨-, heq⟩ | ⟨dmac, c, -, -, hres, heq⟩
  · rw [heq] at h
    cases h
    exact .none rfl
  · exact putBack_hands (heq.symm.trans h)
  · refine ethSend_hands (heq.symm.trans h) ⟨dmac, c, hres, ?_⟩
    rw [read_ofList_read _ _ _ _ _ (by omega)]
    exact read_write_self _ _ _ _ (by simp)

/-- What `icmp6_send` hands over starts with the headers for the address that was
resolved. -/
theorem icmp6Send_hands {st : Stack} {data : Mem} {length : Nat} {daddr : Ip6Addr} {r : Int}
    (h : icmp6Send st nic data length daddr = some (nic', r)) :
    Hands (fun f => ∃ dmac, resolveIp6 st daddr = some dmac ∧
      read f 0 54 = header st dmac daddr length hdrIcmp6) nic nic' := by
  rcases icmp6Send_cases st nic data length daddr with
    ⟨-, heq⟩ | ⟨-, heq⟩ | ⟨dmac, c, -, -, hres, heq⟩
  · rw [heq] at h
    cases h
    exact .none rfl
  · exact putBack_hands (heq.symm.trans h)
  · refine ethSend_hands (heq.symm.trans h) ⟨dmac, hres, ?_⟩
    have hpacket := read_write_self nic.pop.heap (nic.ethBuffers + dataOff + 2) (54 + length)
      (header st dmac daddr length hdrIcmp6 ++ read data 0 length) (by simp)
    have hheader := (read_eq_append hpacket).1
    rw [header_length] at hheader
    -- the checksum is stored after the headers
    rw [read_ofList_read _ _ _ _ _ (by omega), Nat.add_zero,
      read_write_disjoint _ _ _ _ _ (.inl (by omega))]
    exact hheader

end Hands

/-! ## Handling one frame -/

/-- Handling the frame in `buf` sends nothing, or one packet to its source while the
sender is in the cache. -/
inductive Reply (w : World Device) (buf : Mem) : Option (World Device) → Prop
  | silent (d : Device) : Reply w buf (some { w.heard buf with app := d })
  | icmp (data : Mem) (len : Nat) :
      Reply w buf ((w.heard buf).sent
        (icmp6Send (w.heard buf).stack w.nic data len (arrayAt buf 22 16)))
  | udp (d : Device) (data : Mem) (dlen : Nat) (dport sport : UInt16) :
      Reply w buf ({ w.heard buf with app := d }.sent
        (udp6Send (w.heard buf).stack w.nic data dlen (arrayAt buf 22 16) dport sport))

theorem icmp6Recv_reply (w : World Device) (buf : Mem) (len : Nat) :
    Reply w buf (icmp6Recv (w.heard buf) buf len) := by
  have hsilent : Reply w buf (some (w.heard buf)) := .silent w.app
  rw [icmp6Recv_dispatch]
  split
  swap
  · exact hsilent
  by_cases htype : buf 54 = icmp6EchoRequest
  · rw [icmp6Dispatch_echo _ htype]
    exact .icmp _ _
  · rw [icmp6Dispatch, if_neg htype]
    repeat' split
    all_goals first | exact .icmp _ _ | exact hsilent

theorem udp6RecvHdr_reply (w : World Device) (buf : Mem) (len : Nat) :
    Reply w buf (udp6RecvHdr netbootRecv (w.heard buf) buf len) := by
  by_cases ho : UdpOk buf len
  · rw [udp6RecvHdr_accepted _ _ ho]
    unfold netbootRecv
    dsimp only
    cases (udp6Recv (w.heard buf).app (callOf buf).data (callOf buf).len
      (callOf buf).dport).ack with
    | none => exact .silent _
    | some ack => exact .udp _ _ _ _ _
  · rw [udp6RecvHdr_rejected _ _ ho]
    exact .silent w.app

theorem ethRecv_reply {w : World Device} {buf : Mem} {len : Nat} (hf : WellFormed buf len)
    (hm : Mine w.stack buf) : Reply w buf (ethRecv netbootRecv w buf len) := by
  rw [ethRecv_addressed _ hf hm]
  unfold dispatch
  split
  · exact icmp6Recv_reply w buf _
  split
  · exact udp6RecvHdr_reply w buf _
  · exact .silent w.app

section Frames

variable {mac : MacAddr} {w w' : World Device} {buf : Mem}

theorem Configured.heard (h : Configured mac w.stack) (buf : Mem) :
    Configured mac (w.heard buf).stack :=
  ⟨h.llMac, h.llIp6, h.snmIp6⟩

theorem answers_of_header (hc : Configured mac w.stack) {dmac : MacAddr} {f : Mem} {n : Nat}
    {type : UInt8} (hres : resolveIp6 (w.heard buf).stack (arrayAt buf 22 16) = some dmac)
    (h : read f 0 54 = header (w.heard buf).stack dmac (arrayAt buf 22 16) n type) :
    Answers mac buf f := by
  have hh := headerFields h
  rw [resolveIp6_heard, Option.some.injEq] at hres
  exact ⟨hh.dmac.trans hres.symm, hh.smac.trans hc.llMac, hh.src.trans hc.llIp6, hh.dst⟩

theorem Reply.hands (hc : Configured mac w.stack) (h : Reply w buf (some w')) :
    Configured mac w'.stack ∧ Hands (Answers mac buf) w.nic w'.nic := by
  generalize hres : some w' = res at h
  cases h with
  | silent d =>
    cases hres
    exact ⟨hc.heard buf, .none rfl⟩
  | icmp data len =>
    obtain ⟨⟨nic, r⟩, hsend, heq⟩ := Option.map_eq_some_iff.mp hres.symm
    cases heq
    refine ⟨hc.heard buf, (icmp6Send_hands hsend).mono ?_⟩
    rintro f ⟨dmac, hmac, hf⟩
    exact answers_of_header hc hmac hf
  | udp d data dlen dport sport =>
    obtain ⟨⟨nic, r⟩, hsend, heq⟩ := Option.map_eq_some_iff.mp hres.symm
    cases heq
    refine ⟨hc.heard buf, (udp6Send_hands hsend).mono ?_⟩
    rintro f ⟨dmac, c, hmac, hf⟩
    exact answers_of_header hc hmac (read_udpFrame_header hf)

theorem advertises_of_frame (hc : Configured mac w.stack) {f : Mem} {dmac : MacAddr} {c : UInt16}
    (hres : resolveIp6 w.stack ip6LlAllNodes = some dmac)
    (h : read f 0 (62 + advert.bytes.length) =
      udpFrame w.stack dmac ip6LlAllNodes nbServerPort nbAdvertPort advert.bytes c) :
    Advertises mac f := by
  have hh := headerFields (read_udpFrame_header h)
  have hf := frameFields h
  have hdmac : dmac = #v[0x33, 0x33, 0, 0, 0, 1] := (Option.some.inj hres).symm
  have hdata : read (shift f 62) 0 advert.bytes.length = advert.bytes := by
    rw [read_shift]
    exact hf.data
  exact ⟨hh.dmac.trans hdmac, hh.smac.trans hc.llMac, hh.next, hh.src.trans hc.llIp6, hh.dst,
    hf.dport, length_field (by decide) hf.ulen, (Datagram.read_bytes hdata).1⟩

theorem advertise_hands (hc : Configured mac w.stack) (h : advertise w = some w') :
    w'.stack = w.stack ∧ Hands (Advertises mac) w.nic w'.nic := by
  obtain ⟨⟨nic, r⟩, hsend, heq⟩ := Option.map_eq_some_iff.mp h
  cases heq
  refine ⟨rfl, (udp6Send_hands hsend).mono ?_⟩
  rintro f ⟨dmac, c, hmac, hf⟩
  have hbytes : read (ofList advert.bytes) 0 (nbmsgSize + advertiseData.length) = advert.bytes :=
    read_ofList advert.bytes
  rw [hbytes] at hf
  exact advertises_of_frame hc hmac hf

end Frames

theorem Reply.lends {w w' : World Device} {buf : Mem} (h : Reply w buf (some w')) :
    Lends w.nic w'.nic := by
  generalize hres : some w' = res at h
  cases h with
  | silent d =>
    cases hres
    exact .refl _
  | icmp data len => exact sent_lends (w := w.heard buf) (icmp6Send_sends _ _ _ _ _) hres.symm
  | udp d data dlen dport sport =>
    exact sent_lends (w := { w.heard buf with app := d }) (udp6Send_sends _ _ _ _ _ _ _) hres.symm

theorem ethRecv_lends {w w' : World Device} {buf : Mem} {len : Nat}
    (h : ethRecv netbootRecv w buf len = some w') : Lends w.nic w'.nic := by
  by_cases hp : WellFormed buf len ∧ Mine w.stack buf
  · have hr := ethRecv_reply hp.1 hp.2
    rw [h] at hr
    exact hr.lends
  · rw [ethRecv_dropped _ hp] at h
    cases h
    exact .refl _

/-! ## Polls -/

section Polls

variable {mac : MacAddr}

theorem Node.online_hands {s s' : Node} (hc : Configured mac s.world.stack)
    (h : s.online = some s') :
    s'.world.stack = s.world.stack ∧ Hands (Advertises mac) s.world.nic s'.world.nic := by
  unfold online at h
  cases hon : s.nbOnline with
  | true =>
    rw [if_pos hon] at h
    cases h
    exact ⟨rfl, .none rfl⟩
  | false =>
    rw [hon] at h
    obtain ⟨w, hadv, rfl⟩ := Option.map_eq_some_iff.mp h
    exact advertise_hands hc hadv

theorem Node.rearm_world (s : Node) : s.rearm.world = s.world := by
  unfold rearm
  split <;> rfl

theorem Node.tick_hands {s s' : Node} {expired : Bool} (hc : Configured mac s.world.stack)
    (h : s.tick expired = some s') :
    s'.world.stack = s.world.stack ∧ Hands (Advertises mac) s.world.nic s'.world.nic := by
  unfold tick at h
  cases expired with
  | false =>
    cases h
    exact ⟨rfl, .none rfl⟩
  | true =>
    simp only [not_true_eq_false, if_false, rearm_world] at h
    cases hact : s.world.app.nbActive with
    | true =>
      rw [if_pos hact] at h
      cases h
      exact ⟨rfl, .none rfl⟩
    | false =>
      rw [hact] at h
      obtain ⟨w, hadv, rfl⟩ := Option.map_eq_some_iff.mp h
      exact advertise_hands hc hadv

def AnswersReceived (mac : MacAddr) (s : Status) (frame : Mem) : Prop :=
  ∃ buf len, s.received = some (buf, len) ∧ Passes mac buf len ∧ Answers mac buf frame

theorem passes_iff {st : Stack} (hc : Configured mac st) {buf : Mem} {len : Nat} :
    Passes mac buf len ↔ WellFormed buf len ∧ Mine st buf := by
  rw [Passes, Mine, hc.llIp6, hc.snmIp6, eq_comm, eq_comm (a := arrayAt buf 38 16)]

theorem ethRecv_hands {w w' : World Device} {s : Status} {buf : Mem} {len : Nat}
    (hc : Configured mac w.stack) (hs : s.received = some (buf, len))
    (h : ethRecv netbootRecv w buf len = some w') :
    Configured mac w'.stack ∧ Hands (AnswersReceived mac s) w.nic w'.nic := by
  by_cases hp : WellFormed buf len ∧ Mine w.stack buf
  · have hr := ethRecv_reply hp.1 hp.2
    rw [h] at hr
    obtain ⟨hc', hh⟩ := hr.hands hc
    exact ⟨hc', hh.mono fun f hf => ⟨buf, len, hs, (passes_iff hc).mpr hp, hf⟩⟩
  · rw [ethRecv_dropped _ hp] at h
    cases h
    exact ⟨hc, .none rfl⟩

theorem netifcPoll_hands {w w' : World Device} {s : Status} (hc : Configured mac w.stack)
    (h : netifcPoll netbootRecv w s = some w') :
    Configured mac w'.stack ∧ Hands (AnswersReceived mac s) w.nic w'.nic := by
  rcases netifcPoll_cases h with ⟨-, rfl⟩ | ⟨-, nic, hnic, hrest⟩
  · exact ⟨hc, .none rfl⟩
  have htx : nic.transmitted = w.nic.transmitted := by
    rcases hnic with ⟨-, rfl⟩ | ⟨data, -, hput⟩
    · rfl
    · have hput' := ethPutBuffer_transmitted hput
      exact hput'
  rcases hrest with ⟨-, rfl⟩ | ⟨buf, len, hs, hrecv⟩
  · exact ⟨hc, .none htx⟩
  · have hw : Configured mac { w with nic := nic }.stack := hc
    obtain ⟨hc', ts, hts⟩ := ethRecv_hands hw hs hrecv
    exact ⟨hc', ts, by rw [hts.1, htx], hts.2⟩

/-- What one poll hands to `Transmit`: advertisements, and at most one answer to the frame
that it received. -/
def Round (mac : MacAddr) (e : Event) (ts : List Transmitted) : Prop :=
  ∃ adverts replies, ts = adverts ++ replies ∧
    (∀ t ∈ adverts, Advertises mac (ofList t.frame)) ∧
    replies.length ≤ 1 ∧ ∀ t ∈ replies, AnswersReceived mac e.status (ofList t.frame)

theorem netbootPoll_sends {s s' : Node} {e : Event} {n : Int} (hc : Configured mac s.world.stack)
    (h : netbootPoll s e = some (s', n)) :
    Configured mac s'.world.stack ∧ ∃ ts,
      s'.world.nic.transmitted = s.world.nic.transmitted ++ ts ∧ Round mac e ts := by
  unfold netbootPoll at h
  cases hact : e.active with
  | false =>
    rw [hact] at h
    cases h
    exact ⟨hc, [], by simp, [], [], rfl, nofun, Nat.zero_le 1, nofun⟩
  | true =>
    rw [hact] at h
    obtain ⟨s₁, hon, h⟩ := Option.bind_eq_some_iff.mp h
    obtain ⟨s₂, htick, h⟩ := Option.bind_eq_some_iff.mp h
    obtain ⟨w, hpoll, h⟩ := Option.bind_eq_some_iff.mp h
    cases h
    obtain ⟨hst₁, ts₁, htx₁, -, hadv₁⟩ := Node.online_hands hc hon
    have hc₁ : Configured mac s₁.world.stack := hst₁ ▸ hc
    obtain ⟨hst₂, ts₂, htx₂, -, hadv₂⟩ := Node.tick_hands hc₁ htick
    have hc₂ : Configured mac s₂.world.stack := hst₂ ▸ hc₁
    obtain ⟨hc₃, ts₃, htx₃, hlen, hans⟩ := netifcPoll_hands hc₂ hpoll
    refine ⟨hc₃, (ts₁ ++ ts₂) ++ ts₃, ?_, ts₁ ++ ts₂, ts₃, rfl, ?_, hlen, hans⟩
    · show w.nic.transmitted = _
      simp only [htx₃, htx₂, htx₁, List.append_assoc]
    · intro t ht
      rcases List.mem_append.mp ht with ht | ht
      · exact hadv₁ t ht
      · exact hadv₂ t ht

theorem run_sends {s s' : Node} {es : List Event} (hc : Configured mac s.world.stack)
    (h : run s es = some s') :
    Configured mac s'.world.stack ∧ ∃ rounds : List (List Transmitted),
      s'.world.nic.transmitted = s.world.nic.transmitted ++ rounds.flatten ∧
      List.Forall₂ (Round mac) es rounds := by
  induction es generalizing s with
  | nil =>
    cases h
    exact ⟨hc, [], by simp, .nil⟩
  | cons e es ih =>
    rw [run] at h
    cases hpoll : netbootPoll s e with
    | none =>
      rw [hpoll] at h
      cases h
    | some x =>
      rw [hpoll] at h
      obtain ⟨hc', ts, htx, hround⟩ := netbootPoll_sends hc hpoll
      obtain ⟨hc'', rounds, htx', hrounds⟩ := ih hc' h
      refine ⟨hc'', ts :: rounds, ?_, .cons hround hrounds⟩
      rw [htx', htx, List.flatten_cons, List.append_assoc]

end Polls

/-! ## Polls return -/

section Returns

variable {blocks : List Nat}

theorem advertise_pool {w : World Device} (h : Pool blocks [] w.nic) :
    Keeps blocks (advertise w) :=
  keeps_sent h (udp6Send_sends _ _ _ _ _ _ _)

theorem Node.online_pool {s : Node} (h : Pool blocks [] s.world.nic) :
    ∃ s', s.online = some s' ∧ Pool blocks [] s'.world.nic := by
  unfold online
  cases hon : s.nbOnline with
  | true => exact ⟨s, rfl, h⟩
  | false =>
    obtain ⟨w, hadv, hpool⟩ := advertise_pool h
    rw [hadv]
    exact ⟨_, rfl, hpool⟩

theorem Node.tick_pool {s : Node} (h : Pool blocks [] s.world.nic) (expired : Bool) :
    ∃ s', s.tick expired = some s' ∧ Pool blocks [] s'.world.nic := by
  unfold tick
  cases expired with
  | false => exact ⟨s, rfl, h⟩
  | true =>
    rw [← s.rearm_world] at h
    simp only [not_true_eq_false, if_false]
    cases s.rearm.world.app.nbActive with
    | true => exact ⟨_, rfl, h⟩
    | false =>
      obtain ⟨w, hadv, hpool⟩ := advertise_pool h
      rw [hadv]
      exact ⟨_, rfl, hpool⟩

/-- A poll returns if the interface only gives back what it was given by the time it is
asked. -/
theorem netbootPoll_pool {s : Node} {e : Event} (h : Pool blocks [] s.world.nic)
    (hs : ∀ s₁ s₂, s.online = some s₁ → s₁.tick e.timerExpired = some s₂ →
      e.status.Honest s₂.world.nic) :
    ∃ s' n, netbootPoll s e = some (s', n) ∧ Pool blocks [] s'.world.nic := by
  unfold netbootPoll
  cases hact : e.active with
  | false => exact ⟨_, _, rfl, h⟩
  | true =>
    obtain ⟨s₁, hon, h₁⟩ := Node.online_pool h
    obtain ⟨s₂, htick, h₂⟩ := Node.tick_pool h₁ e.timerExpired
    obtain ⟨w, hpoll, h₃⟩ := netifcPoll_pool netbootRecv_pool h₂ (hs s₁ s₂ hon htick)
    refine ⟨{ s₂ with world := { w with app := w.app.takeBoot.1 } }, w.app.takeBoot.2, ?_, h₃⟩
    simp only [not_true_eq_false, if_false, hon, htick, hpoll, Option.bind_eq_bind,
      Option.bind_some]

/-- In each poll of a run the interface only gives back what it was given. -/
def HonestRun : Node → List Event → Prop
  | _, [] => True
  | s, e :: es =>
    (∀ s₁ s₂, s.online = some s₁ → s₁.tick e.timerExpired = some s₂ →
      e.status.Honest s₂.world.nic) ∧
    ∀ s' n, netbootPoll s e = some (s', n) → HonestRun s' es

theorem run_returns {s : Node} {es : List Event} (h : Pool blocks [] s.world.nic)
    (hs : HonestRun s es) : ∃ s', run s es = some s' := by
  induction es generalizing s with
  | nil => exact ⟨s, rfl⟩
  | cons e es ih =>
    obtain ⟨s₁, n, hpoll, h₁⟩ := netbootPoll_pool h hs.1
    obtain ⟨s', hrun⟩ := ih h₁ (hs.2 s₁ n hpoll)
    exact ⟨s', by rw [run, hpoll]; exact hrun⟩

end Returns

/-- The state after `netboot_init` on an interface with the address `mac`. -/
structure Initialised (mac : MacAddr) (s : Node) : Prop where
  stack : ∃ st, s.world.stack = ip6Init st mac
  opened : ∃ r, Opened r s.world
  silent : s.world.nic.transmitted = []
  device : s.world.app.IsStart
  offline : s.nbOnline = false
  nbFastcount : s.nbFastcount = 0

/-- **Replies go only to the sender.**  A run of polls on any frames and timer events returns
if the interface only gives back what it was given.  Each of its polls hands to `Transmit`
advertisements to all nodes and at most one other frame.  That one is sent only if the
poll received a frame that passed the tests of `eth_recv`, and goes to its sender, with the
addresses of the host as its source.  A frame that passes is answered through a lookup of
its sender that succeeds; any other frame does nothing. -/
theorem replies_to_sender {mac : MacAddr} {s : Node} (h₀ : Initialised mac s) (es : List Event) :
    (HonestRun s es → ∃ s', run s es = some s') ∧
    ∀ s', run s es = some s' →
      (∃ rounds : List (List Transmitted), s'.world.nic.transmitted = rounds.flatten ∧
        List.Forall₂ (Round mac) es rounds) ∧
      ∀ w : World Device, w.stack = s'.world.stack → ∀ buf len,
        (Passes mac buf len → Reply w buf (ethRecv netbootRecv w buf len) ∧
          resolveIp6 (w.heard buf).stack (arrayAt buf 22 16) = some (replyMac buf)) ∧
        (¬ Passes mac buf len → ethRecv netbootRecv w buf len = some w) := by
  have hc : Configured mac s.world.stack := by
    obtain ⟨st, hst⟩ := h₀.stack
    rw [hst]
    exact ⟨rfl, rfl, rfl⟩
  refine ⟨fun hs => ?_, fun s' hrun => ?_⟩
  · obtain ⟨r, hopened⟩ := h₀.opened
    exact run_returns (reachable_pool (.of_init hopened)) hs
  · obtain ⟨hc', rounds, htx, hrounds⟩ := run_sends hc hrun
    rw [h₀.silent, List.nil_append] at htx
    refine ⟨⟨rounds, htx, hrounds⟩, fun w hw buf len => ?_⟩
    rw [← hw] at hc'
    rw [passes_iff hc']
    exact ⟨fun hp => ⟨ethRecv_reply hp.1 hp.2, resolveIp6_heard w buf⟩, ethRecv_dropped _⟩

def startNode (nic : Nic) : Node where
  world := { Trailing.idleNode with nic := nic }
  nbFastcount := 0
  nbOnline := false
  timer := 0

/-- The eight pages of `lowRegion` after `netifc_open`. -/
theorem startNode_initialised {nic : Nic}
    (h : netifcOpenLoop freshNic lowRegion.base (numBufferPages * 2) = some nic) :
    Initialised #v[2, 0, 0, 0, 0, 1] (startNode nic) :=
  ⟨⟨blank, rfl⟩, ⟨lowRegion, freshNic, ⟨rfl, rfl⟩, h⟩, netifcOpenLoop_transmitted h,
    ⟨_, _, rfl⟩, rfl, rfl⟩

def solicitedPoll : Event := ⟨true, false, ⟨true, none, some (ofList solicitOne, 86)⟩⟩

/-- A device that comes online and answers the solicitation. -/
theorem replies_to_sender_solicited : ∃ nic s',
    Initialised #v[2, 0, 0, 0, 0, 1] (startNode nic) ∧
    run (startNode nic) [solicitedPoll] = some s' ∧ s'.world.nic.transmitted.length = 2 ∧
    ∃ rounds : List (List Transmitted), s'.world.nic.transmitted = rounds.flatten ∧
      List.Forall₂ (Round #v[2, 0, 0, 0, 0, 1]) [solicitedPoll] rounds := by
  have hsent : ((netifcOpenLoop freshNic lowRegion.base (numBufferPages * 2)).bind fun nic =>
      (run (startNode nic) [solicitedPoll]).map fun s => s.world.nic.transmitted.length) =
        some 2 := by decide +kernel
  obtain ⟨nic, hopen, hrun⟩ := Option.bind_eq_some_iff.mp hsent
  obtain ⟨s', hrun, hlen⟩ := Option.map_eq_some_iff.mp hrun
  have h₀ := startNode_initialised hopen
  exact ⟨nic, s', h₀, hrun, hlen, ((replies_to_sender h₀ [solicitedPoll]).2 s' hrun).1⟩

end Gigaboot.Netboot.Replies
