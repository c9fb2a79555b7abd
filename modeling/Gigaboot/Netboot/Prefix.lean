import Gigaboot.Netboot.Session

/-!
# Transfers over an arbitrary network

One server process and one device, over a network that loses, repeats, delays and
reorders messages and acks at will: it may deliver anything that was ever sent, at
any time and any number of times.

* `DeviceInv`, `DeviceInv.handled`: what the device holds, over every message of the
  transfer in any order;
* `Inv`, `inv_step`: what every step keeps;
* `prefix_safety`: however the network behaves, the kernel buffer holds a prefix of
  the file up to its write pointer, and the other two files are untouched.
-/

namespace Gigaboot.Netboot.Prefix

open ByteMem Relation

structure Sys where
  host : Host
  dev : Device
  /-- every datagram the host has written -/
  sent : List Datagram
  /-- every ack the device has sent -/
  acks : List NbMsg

/-- A step of the system while every transfer is of the same `file`. -/
inductive Step (file : List UInt8) : Sys → Sys → Prop
  /-- the host goes on by itself -/
  | host (s : Sys) (e : HostEvent) (h' : Host) (out : Option Datagram) :
      (∀ bs, e ≠ .datagram bs) → (∀ f, e = .beacon f → f = file) →
      hostStep s.host e = some (h', out) →
      Step file s { s with host := h', sent := s.sent ++ out.toList }
  /-- some ack reaches the host -/
  | ack (s : Sys) (a : NbMsg) (h' : Host) (out : Option Datagram) :
      a ∈ s.acks → hostStep s.host (.datagram a.bytes) = some (h', out) →
      Step file s { s with host := h', sent := s.sent ++ out.toList }
  /-- some message reaches the device, whatever else is in its receive buffer -/
  | deliver (s : Sys) (m : Datagram) (data : Mem) :
      m ∈ s.sent → read data 0 m.bytes.length = m.bytes →
      Step file s { s with
        dev := (udp6Recv s.dev data m.bytes.length nbServerPort).dev
        acks := s.acks ++ (udp6Recv s.dev data m.bytes.length nbServerPort).ack.toList }
  | tick (s : Sys) : Step file s { s with dev := { s.dev with nbActive := false } }
  | poll (s : Sys) : Step file s { s with dev := s.dev.takeBoot.1 }

def Sys.Fresh (s : Sys) : Prop :=
  s.host = Host.start ∧ s.dev.IsStart ∧ s.sent = [] ∧ s.acks = []

/-- What the device holds: nothing but a prefix of `file`, in the kernel buffer.
`files₀` is the file table it was started with. -/
structure DeviceInv (file : List UInt8) (files₀ : FileId → NbFile) (d : Device) : Prop where
  item : ∀ f, d.item = some f → f = .nbkernel
  data : read (d.files .nbkernel).data 0 (d.files .nbkernel).offset =
    file.take (d.files .nbkernel).offset
  others : ∀ f, f ≠ .nbkernel → d.files f = files₀ f

theorem DeviceInv.congr {file : List UInt8} {files₀ : FileId → NbFile} {d d' : Device}
    (h : DeviceInv file files₀ d) (hitem : d'.item = d.item) (hfiles : d'.files = d.files) :
    DeviceInv file files₀ d' :=
  ⟨by rw [hitem]; exact h.item, by rw [hfiles]; exact h.data, by rw [hfiles]; exact h.others⟩

theorem DeviceInv.open {file : List UInt8} {files₀ : FileId → NbFile} {d : Device}
    (h : DeviceInv file files₀ d) (msg : NbMsg) :
    DeviceInv file files₀ ((d.open .nbkernel).done msg nbAck 0) := by
  refine ⟨?_, ?_, ?_⟩
  · intro f hf
    simpa using hf.symm
  · simp
  · intro f hf
    simp only [Device.done_files, Device.open_files, Function.update_of_ne hf]
    exact h.others f hf

/-- A block of the file, appended where it belongs, extends the prefix. -/
theorem DeviceInv.append {file : List UInt8} {files₀ : FileId → NbFile} {d : Device}
    {m : Datagram} (h : DeviceInv file files₀ d)
    (hoff : m.hdr.arg.toNat = (d.files .nbkernel).offset)
    (hpay : m.payload = (file.drop m.hdr.arg.toNat).take m.payload.length) :
    DeviceInv file files₀ ((d.append .nbkernel m.payload).done m.hdr nbAck m.hdr.arg) := by
  refine ⟨h.item, ?_, ?_⟩
  · simp only [Device.done_files, Device.append_files, Function.update_self]
    rw [read_write_append, h.data, List.take_add, ← hoff, ← hpay]
  · intro f hf
    simp only [Device.done_files, Device.append_files, Function.update_of_ne hf]
    exact h.others f hf

/-- The device keeps its invariant on every message of a transfer. -/
theorem DeviceInv.handled {file : List UInt8} {files₀ : FileId → NbFile} {d d' : Device}
    {m : Datagram} {a : Option NbMsg} (h : DeviceInv file files₀ d) (hg : Genuine file m)
    (hh : Handled d m d' a) : DeviceInv file files₀ d' := by
  rcases hg with hreq | ⟨hc, -, hpay⟩ | hboot
  · rw [hreq] at hh
    rw [(handled_request hh).1]
    exact h.open _
  · rcases hh.data hc with ⟨hitem, hfiles⟩ | ⟨f, hf, hoff, rfl⟩
    · exact h.congr hitem hfiles
    · obtain rfl := h.item f hf
      exact h.append hoff hpay
  · rw [hboot] at hh
    rw [(handled_boot hh).1]
    exact h.congr rfl rfl

structure Inv (file : List UInt8) (files₀ : FileId → NbFile) (s : Sys) : Prop where
  host : HostInv s.host
  file_eq : s.host.pc ≠ .idle → s.host.file = file
  dev : DeviceInv file files₀ s.dev
  bounded : s.dev.Bounded
  sent : ∀ m ∈ s.sent, Genuine file m
  acks : ∀ a ∈ s.acks, a.cmd = nbAck → a.arg.toNat ≤ rbufSize

theorem inv_fresh (file : List UInt8) {s : Sys} (h : s.Fresh) : Inv file s.dev.files s := by
  obtain ⟨hhost, hstart, hsent, hacks⟩ := h
  refine ⟨?_, ?_, ?_, Device.Reachable.bounded (.of_init hstart),
    by simp [hsent], by simp [hacks]⟩
  · rw [hhost]
    exact .outside (by simp [Host.start]) (by simp [Host.start]) (by simp [Host.start])
      (by simp [Host.start])
  · intro hpc
    rw [hhost] at hpc
    exact absurd rfl hpc
  · obtain ⟨k, r, hdev⟩ := hstart
    rw [hdev]
    exact ⟨by simp [Device.start], rfl, fun _ _ => rfl⟩

/-- A step of the host keeps the invariant, if the ack it takes acks no offset beyond
the largest file. -/
theorem Inv.hostMoves {file : List UInt8} {files₀ : FileId → NbFile} {s : Sys}
    (hi : Inv file files₀ s) {e : HostEvent} {h' : Host} {out : Option Datagram}
    (hm : Moves s.host e h' out) (hfile : ∀ f, e = .beacon f → f = file)
    (hack : ∀ bs, e = .datagram bs → s.host.accepts bs = true →
      s.host.msg.hdr.arg.toNat ≤ rbufSize) :
    Inv file files₀ { s with host := h', sent := s.sent ++ out.toList } := by
  refine ⟨hi.host.moves hm hack, hm.file_eq hfile hi.file_eq, hi.dev, hi.bounded, ?_, hi.acks⟩
  intro m hmem
  rcases List.mem_append.mp hmem with hmem | hmem
  · exact hi.sent m hmem
  · obtain ⟨hpc, rfl⟩ := hm.sends hmem
    have hg := hi.host.genuine (.inl hpc)
    rwa [hi.file_eq (by simp [hpc])] at hg

theorem inv_step {file : List UInt8} {files₀ : FileId → NbFile} {s t : Sys}
    (hi : Inv file files₀ s) (hst : Step file s t) : Inv file files₀ t := by
  cases hst with
  | host e h' out hne hfile hs =>
    exact hi.hostMoves (hostStep_moves hs) hfile fun bs he => absurd he (hne bs)
  | ack a h' out ha hs =>
    refine hi.hostMoves (hostStep_moves hs) (fun f he => by cases he) ?_
    rintro bs ⟨⟩ hacc
    rw [Host.accepts_bytes] at hacc
    have hle := hi.acks a ha (by rw [hacc]; rfl)
    rwa [hacc] at hle
  | deliver m data hm hdata =>
    have hh := udp6Recv_handled s.dev m data hdata
    refine ⟨hi.host, hi.file_eq, hi.dev.handled (hi.sent m hm) hh, hh.bounded hi.bounded,
      hi.sent, ?_⟩
    intro a ha hcmd
    rcases List.mem_append.mp ha with ha | ha
    · exact hi.acks a ha hcmd
    · rw [Option.mem_toList] at ha
      rw [ha] at hh
      exact hh.ack_le hi.bounded hcmd
  | tick =>
    exact ⟨hi.host, hi.file_eq, hi.dev.congr rfl rfl, hi.bounded.congr rfl hi.bounded.ack_le,
      hi.sent, hi.acks⟩
  | poll =>
    exact ⟨hi.host, hi.file_eq, hi.dev.congr (Device.takeBoot_item _) (Device.takeBoot_files _),
      Device.takeBoot_bounded hi.bounded, hi.sent, hi.acks⟩

/-- **Prefix safety.**  A fresh device and one process that transfers one file any
number of times: in every reachable state the kernel buffer holds, up to its write
pointer, the beginning of the file, the pointer is within the buffer, and the other
two files are as they were. -/
theorem prefix_safety (file : List UInt8) (s₀ s : Sys) (h₀ : s₀.Fresh)
    (hrun : ReflTransGen (Step file) s₀ s) :
    let f := s.dev.files .nbkernel
    read f.data 0 f.offset = file.take f.offset ∧ f.offset ≤ f.size ∧
      s.dev.files .nbramdisk = s₀.dev.files .nbramdisk ∧
      s.dev.files .nbcmdline = s₀.dev.files .nbcmdline := by
  have hi : Inv file s₀.dev.files s := by
    induction hrun with
    | refl => exact inv_fresh file h₀
    | tail _ hst ih => exact inv_step ih hst
  refine ⟨hi.dev.data, ?_, hi.dev.others _ (by simp), hi.dev.others _ (by simp)⟩
  rw [hi.bounded.size]
  exact hi.bounded.offset_le _

def fresh : Sys := ⟨Host.start, Device.start (fun _ => 0) (fun _ => 0), [], []⟩

def threeBytes : Datagram := ⟨⟨nbMagic, 2, nbData, 0⟩, [1, 2, 3]⟩

/-- A transfer of three bytes in which the request reaches the device twice. -/
theorem prefix_safety_three_bytes : ∃ s, ReflTransGen (Step [1, 2, 3]) fresh s ∧
    (s.dev.files .nbkernel).offset = 3 ∧ read (s.dev.files .nbkernel).data 0 3 = [1, 2, 3] := by
  have r := ReflTransGen.refl (r := Step [1, 2, 3]) (a := fresh)
  replace r := r.tail (.host _ (.beacon [1, 2, 3]) _ _ (by simp) (by simp) rfl)
  replace r := r.tail (.host _ .writeOk _ _ (by simp) (by simp) rfl)
  replace r := r.tail (.deliver _ (kernelRequest 1) _ (by decide) (read_ofList _))
  replace r := r.tail (.deliver _ (kernelRequest 1) _ (by decide) (read_ofList _))
  replace r := r.tail (.ack _ ⟨nbMagic, 1, nbAck, 0⟩ _ _ (by decide) rfl)
  replace r := r.tail (.host _ (.block 3) _ _ (by simp) (by simp) rfl)
  replace r := r.tail (.host _ .writeOk _ _ (by simp) (by simp) rfl)
  replace r := r.tail (.deliver _ threeBytes _ (by decide) (read_ofList _))
  refine ⟨_, r, by decide, ?_⟩
  exact (prefix_safety _ _ _ ⟨rfl, ⟨_, _, rfl⟩, rfl, rfl⟩ r).1

end Gigaboot.Netboot.Prefix
