import Gigaboot.Inet6.Icmp6

/-!
# Answers to control messages

`icmp6_recv` turns an echo request into its reply in the receive buffer, and answers a
neighbour solicitation for the host with a message of its own.  Both go out through
`icmp6_send`, to the sender of the frame.

* `icmp6Send_frame`: the frame that `icmp6_send` hands over, with a checksum that verifies;
* `ethRecv_reply_sent`: a reply goes to the sender of the frame at hand;
* `echo_answered`, `solicitation_answered`: the two answers.
-/

namespace Gigaboot.Inet6

open ByteMem OnesComplement Netifc

variable {σ : Type*}

/-- A frame with a control message of `n` bytes and a checksum that verifies; `head` is its
type and code, `rest` what follows the checksum. -/
structure Icmp6Sent (st : Stack) (dmac daddr : List UInt8) (n : Nat) (head rest : List UInt8)
    (frame : List UInt8) : Prop where
  length : frame.length = 54 + n
  dmac : slice frame 0 6 = dmac
  smac : slice frame 6 6 = st.llMacAddr.toList
  type : be16 frame 12 = 0x86DD
  version : byte frame 14 / 16 = 6
  plen : be16 frame 18 = n
  next : byte frame 20 = 58
  hop : byte frame 21 = 255
  src : slice frame 22 16 = st.llIp6Addr.toList
  dst : slice frame 38 16 = daddr
  head : slice frame 54 2 = head
  field : be16 frame 56 ≠ 0
  rest : slice frame 58 (n - 4) = rest
  sum : Icmp6Correct frame

def icmp6Frame (st : Stack) (dmac : MacAddr) (daddr : Ip6Addr) (head rest : List UInt8)
    (c : UInt16) : List UInt8 :=
  header st dmac daddr (4 + rest.length) hdrIcmp6 ++ head ++ bytes16 c ++ rest

section Send

variable {st : Stack} {dmac : MacAddr} {daddr : Ip6Addr} {head rest : List UInt8}

theorem icmp6Frame_length (hhead : head.length = 2) (c : UInt16) :
    (icmp6Frame st dmac daddr head rest c).length = 54 + (4 + rest.length) := by
  simp only [icmp6Frame, List.length_append, header_length, hhead, bytes16_length]
  omega

theorem icmp6Frame_sent {c : UInt16} {heap : Mem} {p : Nat} (hhead : head.length = 2)
    (hmax : 4 + rest.length ≤ 1460)
    (hc : c = ip6Checksum (write heap (p + 2) (icmp6Frame st dmac daddr head rest 0)) (p + 16)
      hdrIcmp6.toUInt16 (4 + rest.length)) :
    Icmp6Sent st dmac.toList daddr.toList (4 + rest.length) head rest
      (icmp6Frame st dmac daddr head rest c) := by
  have hlen : (icmp6Frame st dmac daddr head rest c).length = 54 + (4 + rest.length) :=
    icmp6Frame_length hhead c
  have hframe := read_ofList (icmp6Frame st dmac daddr head rest c)
  generalize hf : icmp6Frame st dmac daddr head rest c = f at hlen hframe
  -- take the parts off the end one by one
  have hparts := hframe.trans hf.symm
  rw [hlen, show 54 + (4 + rest.length) = 56 + 2 + rest.length by omega] at hparts
  have hverifies := storedSum_verifies (k := 2) (by simp [hhead]) rfl (by omega) (by decide) hc
    hparts
  obtain ⟨hparts, hrest⟩ := read_eq_append hparts
  obtain ⟨hparts, -⟩ := read_eq_append hparts
  obtain ⟨hheader, hhd⟩ := read_eq_append hparts
  simp only [List.length_append, header_length, hhead, bytes16_length, Nat.zero_add,
    Nat.reduceAdd] at hheader hhd hrest
  have hh := headerFields hheader
  have hn : be16 f 18 = 4 + rest.length := by
    rw [be16_eq hframe (by omega)]
    exact length_field (by omega) hh.length
  have harray : ∀ {k a : Nat} {v : Vector UInt8 k}, a + k ≤ 54 → arrayAt (ofList f) a k = v →
      slice f a k = v.toList := by
    intro k a v ha hv
    rw [slice_eq hframe (by omega), ← hv, arrayAt_toList]
  refine ⟨hlen, harray (by omega) hh.dmac, harray (by omega) hh.smac, ?_, ?_, hn,
    (byte_eq_iff hframe (by omega) hdrIcmp6).mpr hh.next,
    (byte_eq_iff hframe (by omega) 255).mpr hh.hop, harray (by omega) hh.src,
    harray (by omega) hh.dst, ?_, ?_, ?_, ?_⟩
  · rw [be16, byte_eq hframe (by omega), byte_eq hframe (by omega), hh.type₀, hh.type₁]
    rfl
  · rw [byte_eq hframe (by omega), ← version_iff, hh.version]
    decide
  · rw [slice_eq hframe (by omega), hhd]
  · rw [Ne, be16_eq_zero_iff hframe (by omega)]
    exact hverifies.1
  · rw [slice_eq hframe (by omega), Nat.add_sub_cancel_left, hrest]
  · rw [icmp6Correct_iff hframe (by omega), hn]
    exact (sumOk_clearMax (ofList f) (k := 2) rfl (by omega) (by omega) (by decide)).mp hverifies.2

/-- What `icmp6_send` hands over, if it gets a buffer and `Transmit` succeeds. -/
theorem icmp6Send_frame {nic : Nic} {data : Mem}
    (hdata : read data 0 (4 + rest.length) = head ++ bytes16 0 ++ rest) (hhead : head.length = 2)
    (hmax : 4 + rest.length ≤ 1460) (hres : resolveIp6 st daddr = some dmac)
    (hfree : nic.ethBuffers ≠ 0) (hok : nic.txStatus nic.transmitted.length = true) :
    ∃ nic' frame, icmp6Send st nic data (4 + rest.length) daddr = some (nic', 0) ∧
      nic'.transmitted = nic.transmitted ++ [⟨nic.ethBuffers + 18, frame⟩] ∧
      Icmp6Sent st dmac.toList daddr.toList (4 + rest.length) head rest frame := by
  have hsend := icmp6Send_eq data (ethGetBuffer_free (by decide) hfree) hmax hres
  have hmessage : header st dmac daddr (4 + rest.length) hdrIcmp6 ++
      read data 0 (4 + rest.length) = icmp6Frame st dmac daddr head rest 0 := by
    rw [hdata, icmp6Frame]
    simp only [List.append_assoc]
  dsimp only at hsend
  rw [hmessage] at hsend
  generalize hc : ip6Checksum _ _ _ _ = c at hsend
  rw [icmp6Frame, write_middle _ _ _ _ _ _ _ (by simp [hhead]) (by rfl)] at hsend
  rw [ethSend_ok (by exact hok)] at hsend
  refine ⟨_, icmp6Frame st dmac daddr head rest c, hsend, ?_, icmp6Frame_sent hhead hmax hc.symm⟩
  have hread : ∀ (heap : Mem) (a : Nat), read (write heap a (icmp6Frame st dmac daddr head rest c))
      a (54 + (4 + rest.length)) = icmp6Frame st dmac daddr head rest c :=
    fun heap a => read_write_self _ _ _ _ (icmp6Frame_length hhead c).symm
  simp only [Nic.accept, Nic.withHeap, Nic.pop]
  rw [← icmp6Frame, hread]
  rfl

theorem ethRecv_reply_sent {w : World σ} {f : List UInt8} {buf data : Mem}
    (h : read buf 0 f.length = f) (hlong : 54 ≤ f.length) (hsrc : byte f 22 ≠ 0xFF)
    (hdata : read data 0 (4 + rest.length) = head ++ bytes16 0 ++ rest) (hhead : head.length = 2)
    (hmax : 4 + rest.length ≤ 1460) (hfree : w.nic.ethBuffers ≠ 0)
    (hok : w.nic.txStatus w.nic.transmitted.length = true) :
    ∃ w' frame, (w.heard buf).sent (icmp6Send (w.heard buf).stack w.nic data (4 + rest.length)
        (arrayAt buf 22 16)) = some w' ∧
      w'.nic.transmitted = w.nic.transmitted ++ [⟨w.nic.ethBuffers + 18, frame⟩] ∧
      Icmp6Sent w.stack (slice f 6 6) (slice f 22 16) (4 + rest.length) head rest frame := by
  have hmac : replyMac buf = arrayAt buf 6 6 := by
    rw [replyMac, if_neg]
    exact fun hff => hsrc ((byte_eq_iff h (by omega) 0xFF).mpr hff)
  have hres := resolveIp6_heard w buf
  rw [hmac] at hres
  obtain ⟨nic', frame, hsend, htx, hsent⟩ := icmp6Send_frame hdata hhead hmax hres hfree hok
  rw [arrayAt_toList, arrayAt_toList, ← slice_eq h (by omega), ← slice_eq h (by omega)] at hsent
  refine ⟨{ w.heard buf with nic := nic' }, frame, by rw [hsend]; rfl, htx, ?_⟩
  exact { hsent with }

end Send

section Receive

variable {w : World σ} {f : List UInt8} {buf : Mem}

theorem ethRecv_dispatches (recv : Handler σ) (h : read buf 0 f.length = f)
    (hf : Icmp6Frame w.stack f) (hfield : be16 f 56 ≠ 0) (hsum : Icmp6Correct f) :
    ethRecv recv w buf f.length = icmp6Dispatch (w.heard buf) buf (be16 f 18) := by
  have hok := (icmp6Check_isSome_iff buf _).mp ((icmp6Check_iff h hf).mpr ⟨hfield, hsum⟩)
  rw [ethRecv_icmp6 recv h hf, icmp6Check_some hok.1 hok.2, Option.elim_some,
    icmp6Dispatch_clearMax]

theorem read_echoReply (buf : Mem) (r : Nat) :
    read (shift (write (write buf 56 (bytes16 0)) 54 [icmp6EchoReply]) 54) 0 (4 + r) =
      (129 :: read buf 55 1) ++ bytes16 0 ++ read buf 58 r := by
  have hsplit : ∀ m : Mem, read m 54 (1 + 1 + 2 + r) =
      read m 54 1 ++ read m 55 1 ++ read m 56 2 ++ read m 58 r := by
    intro m
    rw [read_add, read_add, read_add]
  rw [read_shift, show 4 + r = 1 + 1 + 2 + r from rfl, hsplit,
    read_write_self _ 54 1 [icmp6EchoReply] rfl,
    read_write_disjoint _ 55 _ 54 _ (.inr (by decide)),
    read_write_disjoint _ 55 _ 56 _ (.inl (by decide)),
    read_write_disjoint _ 56 _ 54 _ (.inr (by decide)), read_write_self _ 56 2 (bytes16 0) rfl,
    read_write_disjoint _ 58 _ 54 _ (.inr (by decide)),
    read_write_disjoint _ 58 _ 56 _ (.inr (Nat.le_refl _))]
  rfl

/-- **Echo replies.**  A frame of at most 1514 bytes for the host, with an echo request from
a unicast address that has a checksum other than 0 which verifies, and whatever lies behind
it in the receive buffer.  If a transmit buffer is free and `Transmit` succeeds, one frame is
handed over: to the sender of the request, with the request as its message but for the type
and the checksum, which verifies. -/
theorem echo_answered (recv : Handler σ) (w : World σ) (h : read buf 0 f.length = f)
    (hmtu : f.length ≤ 1514) (hf : Icmp6Frame w.stack f) (htype : byte f 54 = 128)
    (hfield : be16 f 56 ≠ 0) (hsum : Icmp6Correct f) (hsrc : byte f 22 ≠ 0xFF)
    (hfree : w.nic.ethBuffers ≠ 0) (hok : w.nic.txStatus w.nic.transmitted.length = true) :
    ∃ w' frame, ethRecv recv w buf f.length = some w' ∧
      w'.nic.transmitted = w.nic.transmitted ++ [⟨w.nic.ethBuffers + 18, frame⟩] ∧
      Icmp6Sent w.stack (slice f 6 6) (slice f 22 16) (be16 f 18) (129 :: slice f 55 1)
        (slice f 58 (be16 f 18 - 4)) frame := by
  have hlong := hf.header.long
  have hfits := hf.fits
  obtain ⟨r, hr⟩ := Nat.exists_eq_add_of_le hf.min
  have htype' : buf 54 = icmp6EchoRequest := (byte_eq_iff h (by omega) icmp6EchoRequest).mp htype
  rw [ethRecv_dispatches recv h hf hfield hsum, icmp6Dispatch_echo _ htype', hr,
    Nat.add_sub_cancel_left, slice_eq h (a := 55) (by omega), slice_eq h (a := 58) (by omega)]
  have hdata : read (shift (write (write buf 56 (bytes16 0)) 54 [icmp6EchoReply]) 54) 0
      (4 + (read buf 58 r).length) = (129 :: read buf 55 1) ++ bytes16 0 ++ read buf 58 r := by
    rw [read_length]
    exact read_echoReply buf r
  have hreply := ethRecv_reply_sent h hlong hsrc hdata rfl (by rw [read_length]; omega) hfree hok
  rwa [read_length] at hreply

/-! ## Neighbour solicitations -/

/-- The solicited-node address that others derive from an address: `ff02::1:ff` and its low 24
bits. -/
def solicitedNode (ip : Ip6Addr) : List UInt8 :=
  [0xFF, 0x02, 0, 0, 0, 0, 0, 0, 0, 0, 0, 0x01, 0xFF] ++ ip.toList.drop 13

theorem solicitedNode_ll6addrFromMac (mac : MacAddr) :
    solicitedNode (ll6addrFromMac mac) = (snmaddrFromMac mac).toList := rfl

/-- A neighbour solicitation from a unicast address, with a checksum other than 0 that
verifies. -/
structure Solicitation (f : List UInt8) : Prop where
  header : HeaderOk f
  next : byte f 20 = 58
  long : 24 ≤ be16 f 18
  type : byte f 54 = 135
  code : byte f 55 = 0
  field : be16 f 56 ≠ 0
  sum : Icmp6Correct f
  unicast : byte f 22 ≠ 0xFF

theorem read_advertisement (st : Stack) :
    read (ofList (advertisement st)) 0 32 = [136, 0] ++ bytes16 0 ++
      ([0x60, 0, 0, 0] ++ st.llIp6Addr.toList ++ [2, 1] ++ st.llMacAddr.toList) := by
  have hlen : (advertisement st).length = 32 := by simp [advertisement]
  have hcopy := read_ofList (advertisement st)
  rw [hlen] at hcopy
  rw [hcopy]
  simp only [advertisement, List.append_assoc]
  rfl

/-- A solicitation for the host gets as far as its target. -/
theorem ethRecv_solicitation (recv : Handler σ) (h : read buf 0 f.length = f)
    (hs : Solicitation f)
    (hdst : slice f 38 16 = w.stack.llIp6Addr.toList ∨ slice f 38 16 = w.stack.snmIp6Addr.toList) :
    ethRecv recv w buf f.length =
      if slice f 62 16 ≠ w.stack.llIp6Addr.toList then some (w.heard buf)
      else (w.heard buf).sent (icmp6Send (w.heard buf).stack w.nic
        (ofList (advertisement (w.heard buf).stack)) 32 (arrayAt buf 22 16)) := by
  have hlong := hs.long
  have hf : Icmp6Frame w.stack f := ⟨hs.header, hdst, hs.next, by omega⟩
  have hfits := hf.fits
  have htype : buf 54 = icmp6NdpNSolicit := (byte_eq_iff h (by omega) icmp6NdpNSolicit).mp hs.type
  have hsize : ¬ be16 f 18 < ndpNHdrSize := Nat.not_lt.mpr hlong
  have hcode : buf 55 = 0 := (byte_eq_iff h (by omega) 0).mp hs.code
  have htarget : slice f 62 16 = w.stack.llIp6Addr.toList ↔
      arrayAt buf 62 16 = (w.heard buf).stack.llIp6Addr := by
    rw [slice_eq h (by omega), ← arrayAt_toList, Vector.toList_inj]
    rfl
  rw [ethRecv_dispatches recv h hf hs.field hs.sum, icmp6Dispatch, if_pos htype,
    if_neg hsize, if_neg (not_not_intro hcode)]
  simp only [Ne, htarget]
  rfl

/-- **Neighbour solicitations.**  For a host with any mac.  A solicitation for its link-local
address, sent to that address or to the solicited-node address that goes with it, is
answered with one advertisement of 32 bytes to its source, if a transmit buffer is free and
`Transmit` succeeds; the advertisement has the flags S and O, the target, and the mac as an
option.  A solicitation for any other target is not answered. -/
theorem solicitation_answered (recv : Handler σ) (w : World σ) (st : Stack) (mac : MacAddr)
    (hstack : w.stack = ip6Init st mac) (h : read buf 0 f.length = f) (hs : Solicitation f) :
    (slice f 62 16 = (ll6addrFromMac mac).toList →
      slice f 38 16 = slice f 62 16 ∨
        slice f 38 16 = solicitedNode (ll6addrFromMac mac) →
      w.nic.ethBuffers ≠ 0 → w.nic.txStatus w.nic.transmitted.length = true →
      ∃ w' frame, ethRecv recv w buf f.length = some w' ∧
        w'.nic.transmitted = w.nic.transmitted ++ [⟨w.nic.ethBuffers + 18, frame⟩] ∧
        Icmp6Sent w.stack (slice f 6 6) (slice f 22 16) 32 [136, 0]
          ([0x60, 0, 0, 0] ++ slice f 62 16 ++ [2, 1] ++ mac.toList) frame) ∧
    (slice f 62 16 ≠ (ll6addrFromMac mac).toList →
      ∃ w', ethRecv recv w buf f.length = some w' ∧ w'.nic = w.nic) := by
  have hlong := hs.header.long
  have hll : w.stack.llIp6Addr = ll6addrFromMac mac := by rw [hstack]; rfl
  have hsnm : w.stack.snmIp6Addr.toList = solicitedNode (ll6addrFromMac mac) := by
    rw [hstack, solicitedNode_ll6addrFromMac]
    rfl
  have hmac : w.stack.llMacAddr = mac := by rw [hstack]; rfl
  constructor
  · intro htarget hdst hfree hok
    rw [htarget] at hdst
    rw [ethRecv_solicitation recv h hs (by rw [hll, hsnm]; exact hdst), hll,
      if_neg (not_not_intro htarget), htarget]
    have hdata := read_advertisement (w.heard buf).stack
    rw [show (w.heard buf).stack.llIp6Addr = ll6addrFromMac mac from hll,
      show (w.heard buf).stack.llMacAddr = mac from hmac] at hdata
    have hn : 4 + ([0x60, 0, 0, 0] ++ (ll6addrFromMac mac).toList ++ [2, 1] ++ mac.toList).length =
        32 := by simp
    have hreply := ethRecv_reply_sent (w := w) h hlong hs.unicast (by rw [hn]; exact hdata) rfl
      (by rw [hn]; decide) hfree hok
    rwa [hn] at hreply
  · intro htarget
    by_cases hdst : slice f 38 16 = w.stack.llIp6Addr.toList ∨
        slice f 38 16 = w.stack.snmIp6Addr.toList
    · rw [← hll] at htarget
      exact ⟨w.heard buf, by rw [ethRecv_solicitation recv h hs hdst, if_pos htarget], rfl⟩
    · rw [mine_iff h hlong] at hdst
      exact ⟨w, ethRecv_dropped recv fun ha => hdst ha.2, rfl⟩

end Receive

def idleHost (mac : MacAddr) : World (List Udp6Datagram) := ⟨ip6Init blank mac, oneBlock, []⟩

theorem echo_answered_evenPing : ∃ w' frame,
    ethRecv record (idleHost #v[2, 0, 0, 0, 0, 1]) (ofList (evenPing 0xFF)) 60 = some w' ∧
    w'.nic.transmitted = [⟨4114, frame⟩] ∧
    Icmp6Sent (idleHost #v[2, 0, 0, 0, 0, 1]).stack [2, 0, 0, 0, 0, 9]
      (slice (evenPing 0xFF) 22 16) 6 [129, 0] [132, 179] frame :=
  echo_answered record (idleHost #v[2, 0, 0, 0, 0, 1]) (read_ofList (evenPing 0xFF)) (by decide)
    (evenPing_frame 0xFF) rfl (by decide) (by decide) (by decide) (by decide) rfl

/-- A solicitation of the host `02:00:00:00:00:01`, sent to its solicited-node address, with
the source address as an option. -/
def solicitOne : List UInt8 := [
  51, 51, 255, 0, 0, 1, 2, 0, 0, 0, 0, 9, 134, 221, 96, 0, 0, 0, 0, 32, 58, 255, 254, 128, 0, 0,
  0, 0, 0, 0, 0, 0, 0, 255, 254, 0, 0, 9, 255, 2, 0, 0, 0, 0, 0, 0, 0, 0, 0, 1, 255, 0, 0, 1,
  135, 0, 124, 137, 0, 0, 0, 0, 254, 128, 0, 0, 0, 0, 0, 0, 0, 0, 0, 255, 254, 0, 0, 1,
  1, 1, 2, 0, 0, 0, 0, 9]

theorem solicitation_answered_solicitOne : ∃ w' frame,
    ethRecv record (idleHost #v[2, 0, 0, 0, 0, 1]) (ofList solicitOne) 86 = some w' ∧
    w'.nic.transmitted = [⟨4114, frame⟩] ∧
    Icmp6Sent (idleHost #v[2, 0, 0, 0, 0, 1]).stack [2, 0, 0, 0, 0, 9]
      (slice solicitOne 22 16) 32 [136, 0]
      [0x60, 0, 0, 0, 254, 128, 0, 0, 0, 0, 0, 0, 0, 0, 0, 255, 254, 0, 0, 1, 2, 1,
        2, 0, 0, 0, 0, 1] frame := by
  have hs : Solicitation solicitOne :=
    ⟨⟨by decide, rfl, rfl, rfl, by decide⟩, rfl, by decide, rfl, rfl, by decide, by decide,
      by decide⟩
  exact (solicitation_answered record (idleHost #v[2, 0, 0, 0, 0, 1]) blank #v[2, 0, 0, 0, 0, 1] rfl
    (read_ofList solicitOne) hs).1 rfl (.inr rfl) (by decide) rfl

end Gigaboot.Inet6
