import Gigaboot.Netboot.Server

/-!
# The two sides of a transfer

What a host knows about its own transfer, what the device has to hold for the
transfer to be on its way, and what the messages of the transfer do to that.

* `Genuine`: the messages `xfer` can send for a file;
* `HostInv`, `HostInv.moves`: the host's message and file position agree, as long as
  no offset beyond the largest file is acked;
* `Holds file a d`: the kernel is the item, and its buffer holds the first `a` bytes
  of `file`;
* `Harmless m a`: a message of the transfer that the device has already acted on
  when it stands at `a`;
* `Holds.harmless`, `standing_request`, `Holds.block`: what the host's own messages do;
* `Standing.undisturbed`: what messages of others may do.
-/

namespace Gigaboot.Netboot

open ByteMem

/-! ## Messages -/

def bootRequest (cookie : UInt32) : Datagram := ⟨⟨nbMagic, cookie, nbBoot, 0⟩, []⟩

/-- The messages a transfer of `file` consists of. -/
def Genuine (file : List UInt8) (m : Datagram) : Prop :=
  m = kernelRequest m.hdr.cookie ∨
  (m.hdr.cmd = nbData ∧ m.payload ≠ [] ∧
    m.payload = (file.drop m.hdr.arg.toNat).take m.payload.length) ∨
  m = bootRequest m.hdr.cookie

/-- A message whose effect is part of what a device that stands at `a` has done:
the request while there is no data, a block before `a`, the boot command. -/
def Harmless (m : Datagram) (a : Nat) : Prop :=
  (a = 0 ∧ m = kernelRequest m.hdr.cookie) ∨ (m.hdr.cmd = nbData ∧ m.hdr.arg.toNat < a) ∨
  m = bootRequest m.hdr.cookie

/-! ## The host -/

def Host.InIo (h : Host) : Prop := h.pc = .write ∨ h.pc = .again

/-- The host is inside the last call of `io`, or through with it. -/
def Host.Booting (h : Host) : Prop := h.InIo ∧ h.stage = .boot ∨ h.pc = .booted

/-- The message is the block of the file that ends at the file position. -/
structure Host.AtBlock (h : Host) : Prop where
  cmd : h.msg.hdr.cmd = nbData
  arg : h.msg.hdr.arg = h.arg
  pos : h.arg.toNat + h.msg.payload.length = h.pos
  pos_le : h.pos ≤ h.file.length
  nonempty : 1 ≤ h.msg.payload.length
  short : h.msg.payload.length ≤ 1024
  payload : h.msg.payload = (h.file.drop h.arg.toNat).take h.msg.payload.length

structure HostInv (h : Host) : Prop where
  opening : h.InIo → h.stage = .sendFile → h.msg = kernelRequest h.msg.hdr.cookie ∧ h.pos = 0
  block : h.InIo → h.stage = .data → h.AtBlock
  booting : h.Booting → h.stage = .boot ∧ h.msg = bootRequest h.msg.hdr.cookie ∧
    h.arg.toNat = h.file.length
  between : h.pc = .fread → h.arg.toNat = h.pos ∧ Harmless h.msg h.arg.toNat

theorem Host.not_inIo {h : Host} (h₁ : h.pc ≠ .write) (h₂ : h.pc ≠ .again) : ¬ h.InIo :=
  fun hi => hi.elim h₁ h₂

theorem Host.InIo.ne_idle {h : Host} (hi : h.InIo) : h.pc ≠ .idle := by
  rcases hi with h | h <;> simp [h]

theorem Host.Booting.ne_idle {h : Host} (hb : h.Booting) : h.pc ≠ .idle := by
  rcases hb with ⟨hio, -⟩ | hpc
  · exact hio.ne_idle
  · simp [hpc]

theorem HostInv.outside {h : Host} (h₁ : h.pc ≠ .write) (h₂ : h.pc ≠ .again)
    (h₃ : h.pc ≠ .booted) (hb : h.pc = .fread → h.arg.toNat = h.pos ∧ Harmless h.msg h.arg.toNat) :
    HostInv h :=
  have hio := Host.not_inIo h₁ h₂
  ⟨fun hi => absurd hi hio, fun hi => absurd hi hio,
    fun hi => hi.elim (fun hi => absurd hi.1 hio) (fun hi => absurd hi h₃), hb⟩

/-- Inside `io` the state of the transfer does not depend on the attempt. -/
theorem HostInv.sameIo {h : Host} (hi : HostInv h) (hio : h.InIo) {pc : Pc} (r : Nat)
    (hpc : pc = .write ∨ pc = .again) : HostInv { h with retries := r, pc := pc } := by
  refine ⟨?_, ?_, ?_, ?_⟩
  · intro _ hst; exact hi.opening hio hst
  · intro _ hst
    obtain ⟨h₁, h₂, h₃, h₄, h₅, h₆, h₇⟩ := hi.block hio hst
    exact ⟨h₁, h₂, h₃, h₄, h₅, h₆, h₇⟩
  · rintro (⟨_, hst⟩ | hb)
    · exact hi.booting (.inl ⟨hio, hst⟩)
    · rcases hpc with rfl | rfl <;> cases hb
  · intro hf
    rcases hpc with rfl | rfl <;> cases hf

theorem HostInv.startXfer (h : Host) (file : List UInt8) : HostInv (h.startXfer file) := by
  refine ⟨?_, ?_, ?_, ?_⟩
  · intro _ _; exact ⟨rfl, rfl⟩
  · intro _ hst; cases hst
  · rintro (⟨_, hst⟩ | hb)
    · cases hst
    · cases hb
  · intro hf; cases hf

theorem HostInv.startBlock {h : Host} {r : Nat} (hpos : h.arg.toNat = h.pos) (hr₁ : 1 ≤ r)
    (hr₂ : r ≤ 1024) (hle : h.pos + r ≤ h.file.length) :
    HostInv ({ h with pos := h.pos + r }.startIo .data nbData h.arg
      ((h.file.drop h.pos).take r)) := by
  have hlen : ((h.file.drop h.pos).take r).length = r := by
    rw [List.length_take, List.length_drop]
    omega
  refine ⟨?_, ?_, ?_, ?_⟩
  · intro _ hst; cases hst
  · intro _ _
    refine ⟨rfl, rfl, ?_, hle, ?_, ?_, ?_⟩
    · show h.arg.toNat + ((h.file.drop h.pos).take r).length = h.pos + r
      rw [hlen, hpos]
    · show 1 ≤ ((h.file.drop h.pos).take r).length
      rwa [hlen]
    · show ((h.file.drop h.pos).take r).length ≤ 1024
      rwa [hlen]
    · show (h.file.drop h.pos).take r =
        (h.file.drop h.arg.toNat).take ((h.file.drop h.pos).take r).length
      rw [hlen, hpos]
  · rintro (⟨_, hst⟩ | hb)
    · cases hst
    · cases hb
  · intro hf; cases hf

theorem HostInv.startBoot {h : Host} (harg : h.arg.toNat = h.file.length) :
    HostInv (h.startIo .boot nbBoot 0 []) := by
  refine ⟨?_, ?_, ?_, ?_⟩
  · intro _ hst; cases hst
  · intro _ hst; cases hst
  · intro _; exact ⟨rfl, rfl, harg⟩
  · intro hf; cases hf

/-- The host keeps its invariant, if an ack it takes acks no offset beyond the largest
file. -/
theorem HostInv.moves {h h' : Host} {e : HostEvent} {out : Option Datagram} (hi : HostInv h)
    (hm : Moves h e h' out)
    (hack : ∀ bs, e = .datagram bs → h.accepts bs = true → h.msg.hdr.arg.toNat ≤ rbufSize) :
    HostInv h' := by
  cases hm with
  | start file _ => exact .startXfer h file
  | send hpc => exact hi.sameIo (.inl hpc) h.retries (.inr rfl)
  | stay _ _ => exact hi
  | giveUp _ r _ => exact .outside (by simp) (by simp) (by simp) (by simp)
  | retry hpc => exact hi.sameIo (.inr hpc) _ (.inl rfl)
  | opened bs hpc _ hst =>
    obtain ⟨hmsg, hpos⟩ := hi.opening (.inr hpc) hst
    exact .outside (by simp) (by simp) (by simp) fun _ => ⟨hpos.symm, .inl ⟨rfl, hmsg⟩⟩
  | stored bs hpc hacc hst =>
    -- the acked offset is within a file, so the sum does not wrap
    have hb := hi.block (.inr hpc) hst
    have hle := hack bs rfl hacc
    rw [hb.arg] at hle
    have hk : rbufSize = 268435456 := rfl
    have hpos := hb.pos
    have hlen := hb.short
    have hne := hb.nonempty
    have harg : (h.arg + UInt32.ofNat h.msg.payload.length).toNat = h.pos := by
      rw [UInt32.toNat_add, UInt32.toNat_ofNat']
      omega
    refine .outside (by simp) (by simp) (by simp) fun _ => ⟨harg, .inr (.inl ⟨hb.cmd, ?_⟩)⟩
    rw [hb.arg, harg]
    omega
  | booted bs hpc _ hst =>
    refine ⟨?_, ?_, ?_, ?_⟩
    · intro hio; exact absurd hio (Host.not_inIo (by simp) (by simp))
    · intro hio; exact absurd hio (Host.not_inIo (by simp) (by simp))
    · intro _; exact hi.booting (.inl ⟨.inr hpc, hst⟩)
    · intro hf; cases hf
  | block r hpc hr₁ hr₂ hle => exact .startBlock (hi.between hpc).1 hr₁ hr₂ hle
  | eof hpc hpos => exact .startBoot ((hi.between hpc).1.trans hpos)

/-- What a host sends belongs to the transfer of its file. -/
theorem HostInv.genuine {h : Host} (hi : HostInv h) (hio : h.InIo) : Genuine h.file h.msg := by
  cases hst : h.stage with
  | sendFile =>
    exact .inl (hi.opening hio hst).1
  | data =>
    have hb := hi.block hio hst
    refine .inr (.inl ⟨hb.cmd, List.length_pos_iff.mp hb.nonempty, ?_⟩)
    rw [hb.arg]
    exact hb.payload
  | boot => exact .inr (.inr (hi.booting (.inl ⟨hio, hst⟩)).2.1)

/-! ## The device -/

structure Holds (file : List UInt8) (a : Nat) (d : Device) : Prop where
  item : d.item = some .nbkernel
  offset : (d.files .nbkernel).offset = a
  data : read (d.files .nbkernel).data 0 a = file.take a

theorem Holds.congr {file : List UInt8} {a : Nat} {d d' : Device} (h : Holds file a d)
    (hitem : d'.item = d.item) (hfiles : d'.files .nbkernel = d.files .nbkernel) :
    Holds file a d' :=
  ⟨hitem.trans h.item, by rw [hfiles]; exact h.offset, by rw [hfiles]; exact h.data⟩

theorem holds_open (file : List UInt8) (d : Device) (msg : NbMsg) (c x : UInt32) :
    Holds file 0 ((d.open .nbkernel).done msg c x) :=
  ⟨rfl, by simp, by simp⟩

theorem Holds.le_kbufSize {file : List UInt8} {a : Nat} {d : Device} (h : Holds file a d)
    (hb : d.Bounded) : a ≤ kbufSize := by
  have hle := hb.offset_le .nbkernel
  rwa [h.offset] at hle

/-- The request starts a transfer, in whatever state it meets the device. -/
theorem handled_request {d d' : Device} {c : UInt32} {x : Option NbMsg}
    (hh : Handled d (kernelRequest c) d' x) :
    d' = (d.open .nbkernel).done (kernelRequest c).hdr nbAck 0 ∧
      x = some ((kernelRequest c).hdr.ackOf nbAck 0) :=
  hh.unique (.accepted .nbkernel (fun hr => hr.2.2 rfl) rfl (by simp [kernelRequest])
    requested_kernelBin)

theorem handled_boot {d d' : Device} {c : UInt32} {x : Option NbMsg}
    (hh : Handled d (bootRequest c) d' x) :
    d' = { d with nbBootNow := true }.done (bootRequest c).hdr nbAck 0 ∧
      x = some ((bootRequest c).hdr.ackOf nbAck 0) :=
  hh.unique (.boot (fun hr => hr.2.2 rfl) rfl)

/-- Data that is not appended leaves the item and the files alone. -/
theorem Handled.data {d d' : Device} {m : Datagram} {x : Option NbMsg}
    (hh : Handled d m d' x) (hc : m.hdr.cmd = nbData) :
    (d'.item = d.item ∧ d'.files = d.files) ∨
    ∃ f, d.item = some f ∧ m.hdr.arg.toNat = (d.files f).offset ∧
      d' = (d.append f m.payload).done m.hdr nbAck m.hdr.arg := by
  have hcd : nbData ≠ nbCommand := by decide
  have hsd : nbData ≠ nbSendFile := by decide
  have hbd : nbData ≠ nbBoot := by decide
  cases hh with
  | resend | tooLarge => exact .inl ⟨rfl, rfl⟩
  | misplaced => exact .inl ⟨Device.touch_item d _, Device.touch_files d _⟩
  | appended f _ _ hf hoff _ => exact .inr ⟨f, hf, hoff, rfl⟩
  | empty _ h => exact absurd h (by simp [hc, hcd, hsd])
  | command _ h => exact absurd (hc.symm.trans h) hcd
  | accepted _ _ h => exact absurd (hc.symm.trans h) hsd
  | rejected _ h => exact absurd (hc.symm.trans h) hsd
  | boot _ h => exact absurd (hc.symm.trans h) hbd
  | badCmd _ _ _ h => exact absurd hc h

/-- A message already acted on leaves the transfer where it is. -/
theorem Holds.harmless {file : List UInt8} {a : Nat} {d d' : Device} {m : Datagram}
    {x : Option NbMsg} (h : Holds file a d) (hm : Harmless m a) (hh : Handled d m d' x) :
    Holds file a d' := by
  rcases hm with ⟨rfl, hreq⟩ | ⟨hc, hlt⟩ | hboot
  · rw [hreq] at hh
    rw [(handled_request hh).1]
    exact holds_open file d _ nbAck 0
  · rcases hh.data hc with ⟨hitem, hfiles⟩ | ⟨f, hf, hoff, -⟩
    · exact h.congr hitem (congrFun hfiles _)
    · obtain rfl : f = .nbkernel := Option.some.inj (hf.symm.trans h.item)
      rw [hoff, h.offset] at hlt
      exact absurd hlt (Nat.lt_irrefl a)
  · rw [hboot] at hh
    rw [(handled_boot hh).1]
    exact h.congr rfl rfl

/-- The next block of the file, met for the first time, is stored and acked, or
refused because the buffer is full. -/
theorem Holds.block {file : List UInt8} {a : Nat} {d d' : Device} {m : Datagram}
    {x : Option NbMsg} (h : Holds file a d) (hc : m.hdr.cmd = nbData)
    (harg : m.hdr.arg.toNat = a) (hpay : m.payload = (file.drop a).take m.payload.length)
    (hnr : ¬ d.Repeats m.hdr) (hh : Handled d m d' x) :
    (Holds file (a + m.payload.length) d' ∧
      a + m.payload.length ≤ (d.files .nbkernel).size) ∨
    (Holds file a d' ∧ (d.files .nbkernel).size < a + m.payload.length ∧
      d'.lastAckCmd = nbErrorTooLarge ∧
      x = some (m.hdr.ackOf nbErrorTooLarge m.hdr.arg)) := by
  have hoff := h.offset
  by_cases hsz : (d.files .nbkernel).offset + m.payload.length ≤ (d.files .nbkernel).size
  · left
    obtain ⟨rfl, -⟩ := hh.unique (.appended .nbkernel hnr hc h.item (by omega) hsz)
    refine ⟨⟨h.item, ?_, ?_⟩, by omega⟩
    · simp [hoff]
    · simp only [Device.done_files, Device.append_files, Function.update_self, hoff]
      rw [read_write_append, h.data, List.take_add, ← hpay]
  · right
    obtain ⟨rfl, rfl⟩ := hh.unique (.tooLarge .nbkernel hnr hc h.item (by omega) (by omega))
    exact ⟨h.congr rfl rfl, by omega, rfl, rfl⟩

theorem Handled.ack_cookie {d d' : Device} {m : Datagram} {x : NbMsg}
    (h : Handled d m d' (some x)) : x.cookie = m.hdr.cookie := by
  cases h <;> rfl

/-- A positive ack for data in the cache belongs to a message before the `n`-th. -/
def Cached (n : Nat) (d : Device) : Prop :=
  d.lastCmd = nbData → d.lastAckCmd = nbAck → d.lastCookie.toNat < n

theorem Cached.congr {n : Nat} {d d' : Device} (h : Cached n d)
    (hcookie : d'.lastCookie = d.lastCookie) (hcmd : d'.lastCmd = d.lastCmd)
    (hack : d'.lastAckCmd = d.lastAckCmd) : Cached n d' := by
  rw [Cached, hcookie, hcmd, hack]
  exact h

theorem Cached.touch {n : Nat} {d : Device} (h : Cached n d) (msg : NbMsg) :
    Cached n (d.touch msg) := by
  rcases d.touch_cases msg with ht | ht <;> rw [ht]
  · exact h
  · exact h.congr rfl rfl rfl

theorem Cached.handled {n : Nat} {d d' : Device} {m : Datagram} {x : Option NbMsg}
    (h : Cached n d) (hh : Handled d m d' x) (hlt : m.hdr.cookie.toNat < n) : Cached n d' := by
  cases hh with
  | resend => exact h.congr rfl rfl rfl
  | empty => exact h.touch _
  | misplaced => exact h.touch _
  | command | accepted | rejected | tooLarge | appended | boot | badCmd => exact fun _ _ => hlt

/-- The device has the first `a` bytes of the file, and its cache answers for no message
from the `n`-th on. -/
structure Standing (file : List UInt8) (n a : Nat) (d : Device) : Prop where
  holds : Holds file a d
  cached : Cached n d

theorem Standing.congr {file : List UInt8} {n a : Nat} {d d' : Device}
    (h : Standing file n a d) (hitem : d'.item = d.item) (hfiles : d'.files = d.files)
    (hcookie : d'.lastCookie = d.lastCookie) (hcmd : d'.lastCmd = d.lastCmd)
    (hack : d'.lastAckCmd = d.lastAckCmd) : Standing file n a d' :=
  ⟨h.holds.congr hitem (congrFun hfiles _), h.cached.congr hcookie hcmd hack⟩

theorem standing_request (file : List UInt8) (n : Nat) {d d' : Device} {c : UInt32}
    {x : Option NbMsg} (hh : Handled d (kernelRequest c) d' x) : Standing file n 0 d' := by
  rw [(handled_request hh).1]
  refine ⟨holds_open file d _ nbAck 0, fun hcmd => ?_⟩
  have hne : nbSendFile ≠ nbData := by decide
  exact absurd hcmd hne

theorem Standing.harmless {file : List UInt8} {n a : Nat} {d d' : Device} {m : Datagram}
    {x : Option NbMsg} (h : Standing file n a d) (hm : Harmless m a) (hh : Handled d m d' x)
    (hlt : m.hdr.cookie.toNat < n) : Standing file n a d' :=
  ⟨h.holds.harmless hm hh, h.cached.handled hh hlt⟩

/-- A message of another transfer that moves no write pointer leaves the transfer alone: a
request does so only while there is no data. -/
theorem Standing.undisturbed {file file' : List UInt8} {n a : Nat} {d d' : Device}
    {m : Datagram} {x : Option NbMsg} (h : Standing file n a d) (hg : Genuine file' m)
    (hh : Handled d m d' x)
    (hoff : (d'.files .nbkernel).offset = (d.files .nbkernel).offset) :
    Standing file n a d' := by
  have hne : nbErrorTooLarge ≠ nbAck := by decide
  have hbd : nbBoot ≠ nbData := by decide
  rcases hg with hreq | ⟨hc, hpay, -⟩ | hboot
  · rw [hreq] at hh
    have hopened := standing_request file n hh
    obtain rfl : a = 0 := by rw [← h.holds.offset, ← hoff, hopened.holds.offset]
    exact hopened
  · cases hh with
    | resend => exact h.congr rfl rfl rfl rfl rfl
    | empty | misplaced =>
      exact ⟨h.holds.congr (Device.touch_item d _) (congrFun (Device.touch_files d _) _),
        h.cached.touch _⟩
    | tooLarge => exact ⟨h.holds.congr rfl rfl, fun _ hack => absurd hack hne⟩
    | appended f _ _ hf _ _ =>
      -- a block is not empty, so the write pointer has moved
      obtain rfl : f = .nbkernel := Option.some.inj (hf.symm.trans h.holds.item)
      have hpos := List.length_pos_iff.mpr hpay
      simp only [Device.done_files, Device.append_files, Function.update_self] at hoff
      omega
    | command _ h' => exact absurd (hc.symm.trans h') (by decide)
    | accepted _ _ h' => exact absurd (hc.symm.trans h') (by decide)
    | rejected _ h' => exact absurd (hc.symm.trans h') (by decide)
    | boot _ h' => exact absurd (h'.symm.trans hc) hbd
    | badCmd _ _ _ h' => exact absurd hc h'
  · rw [hboot] at hh
    rw [(handled_boot hh).1]
    exact ⟨h.holds.congr rfl rfl, fun hc => absurd hc hbd⟩

end Gigaboot.Netboot
