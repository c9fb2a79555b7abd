import Gigaboot.Netboot.Session

/-!
# Transfers over a lossy network that keeps the order of messages

One server process, the device in any reachable state, and possibly other senders.
Messages of the process to the device may be lost but not overtake each other; acks
may be lost, delayed, repeated and reordered.

The invariant is relative to the cookie `seen` of the last message of the process that
the device looked at.  Cookies grow, so everything in flight is at least that new, and
everything acked at most.

* `Undisturbed`: since its last request for a file, no other sender got in the way;
* `Channels`, `Channels.host`, `Channels.deliver`: the order of cookies;
* `Phase`, `Phase.host`, `Phase.deliver`, `Phase.foreign`: where the device stands in
  each phase of `xfer`;
* `Inv.boots`: at every boot command the device has the whole file, unless disturbed;
* `transfer_integrity`: with no other sender it has the whole file.
-/

namespace Gigaboot.Netboot.Transfer

open ByteMem Relation

variable {ι : Type*}

/-! ## The log of the device -/

/-- A message that the device looked at, the states around it, and its ack. -/
structure Entry (ι : Type*) where
  sender : ι
  msg : Datagram
  before : Device
  after : Device
  ack : Option NbMsg

/-- The device `d` looks at a message of `i`, at the start of its receive buffer. -/
def look (i : ι) (d : Device) (m : Datagram) (data : Mem) : Entry ι where
  sender := i
  msg := m
  before := d
  after := (udp6Recv d data m.bytes.length nbServerPort).dev
  ack := (udp6Recv d data m.bytes.length nbServerPort).ack

theorem look_handled (i : ι) (d : Device) (m : Datagram) {data : Mem}
    (h : read data 0 m.bytes.length = m.bytes) :
    Handled (look i d m data).before (look i d m data).msg (look i d m data).after
      (look i d m data).ack :=
  udp6Recv_handled d m data h

def Entry.Restarts (e : Entry ι) (i : ι) : Prop := e.sender = i ∧ e.msg.hdr.cmd = nbSendFile

/-- A message of a sender other than `i` that moves the write pointer of the kernel. -/
def Entry.Disturbs (e : Entry ι) (i : ι) : Prop :=
  e.sender ≠ i ∧ (e.after.files .nbkernel).offset ≠ (e.before.files .nbkernel).offset

/-- Since the last request of `i`, no other sender has moved the write pointer.  The newest
entry comes first. -/
def Undisturbed (i : ι) : List (Entry ι) → Prop
  | [] => False
  | e :: log => e.Restarts i ∨ ¬ e.Disturbs i ∧ Undisturbed i log

theorem undisturbed_of_restarts {log : List (Entry Unit)} {i : Unit}
    (h : ∃ e ∈ log, e.Restarts i) : Undisturbed i log := by
  induction log with
  | nil =>
    obtain ⟨e, he, -⟩ := h
    cases he
  | cons e' log ih =>
    obtain ⟨e, he, hr⟩ := h
    cases he with
    | head => exact .inl hr
    | tail _ he => exact .inr ⟨fun hd => hd.1 rfl, ih ⟨e, he, hr⟩⟩

/-- A message that the sender `i` has already been acked for leaves the device standing
where it is; a repeated request puts it there. -/
theorem standing_own {i : ι} {file : List UInt8} {n a : Nat} {log : List (Entry ι)}
    {e : Entry ι} (hh : Handled e.before e.msg e.after e.ack)
    (hs : Undisturbed i log → Standing file n a e.before) (hm : Harmless e.msg a)
    (hlt : e.msg.hdr.cookie.toNat < n) (hu : Undisturbed i (e :: log)) :
    Standing file n a e.after := by
  rcases hu with ⟨-, hc⟩ | ⟨-, hu⟩
  · have hsd : nbSendFile ≠ nbData := by decide
    have hsb : nbSendFile ≠ nbBoot := by decide
    rcases hm with ⟨rfl, hreq⟩ | ⟨hc', -⟩ | hboot
    · rw [hreq] at hh
      exact standing_request file n hh
    · exact absurd (hc.symm.trans hc') hsd
    · rw [hboot] at hc
      exact absurd hc.symm hsb
  · exact (hs hu).harmless hm hh hlt

theorem standing_foreign {i : ι} {file file' : List UInt8} {n a : Nat}
    {log : List (Entry ι)} {e : Entry ι} (hj : e.sender ≠ i) (hg : Genuine file' e.msg)
    (hh : Handled e.before e.msg e.after e.ack)
    (hs : Undisturbed i log → Standing file n a e.before) (hu : Undisturbed i (e :: log)) :
    Standing file n a e.after := by
  rcases hu with ⟨hi, -⟩ | ⟨hd, hu⟩
  · exact absurd hi hj
  · refine (hs hu).undisturbed hg hh ?_
    by_contra hoff
    exact hd ⟨hj, hoff⟩

/-! ## The system -/

structure Sys (ι : Type*) where
  host : Host
  dev : Device
  /-- the messages on their way to the device, oldest first -/
  toDev : List Datagram
  /-- what the device has looked at, newest first -/
  log : List (Entry ι)

/-- A step of the system as the sender `i` sees it. -/
inductive Step (i : ι) : Sys ι → Sys ι → Prop
  /-- the host goes on by itself -/
  | host (s : Sys ι) (e : HostEvent) (h' : Host) (out : Option Datagram) :
      (∀ bs, e ≠ .datagram bs) → hostStep s.host e = some (h', out) →
      Step i s { s with host := h', toDev := s.toDev ++ out.toList }
  /-- some ack that the device has sent reaches the host -/
  | ack (s : Sys ι) (e : Entry ι) (a : NbMsg) (h' : Host) (out : Option Datagram) :
      e ∈ s.log → e.sender = i → e.ack = some a →
      hostStep s.host (.datagram a.bytes) = some (h', out) →
      Step i s { s with host := h', toDev := s.toDev ++ out.toList }
  /-- some message is lost -/
  | drop (s : Sys ι) (pre : List Datagram) (m : Datagram) (post : List Datagram) :
      s.toDev = pre ++ m :: post → Step i s { s with toDev := pre ++ post }
  /-- the oldest message reaches the device, whatever else is in its receive buffer -/
  | deliver (s : Sys ι) (m : Datagram) (rest : List Datagram) (data : Mem) :
      s.toDev = m :: rest → read data 0 m.bytes.length = m.bytes →
      Step i s { s with
        dev := (look i s.dev m data).after
        toDev := rest
        log := look i s.dev m data :: s.log }
  /-- a message of another sender reaches the device -/
  | foreign (s : Sys ι) (j : ι) (file : List UInt8) (m : Datagram) (data : Mem) :
      j ≠ i → Genuine file m → read data 0 m.bytes.length = m.bytes →
      Step i s { s with
        dev := (look j s.dev m data).after
        log := look j s.dev m data :: s.log }
  | tick (s : Sys ι) : Step i s { s with dev := { s.dev with nbActive := false } }
  | poll (s : Sys ι) : Step i s { s with dev := s.dev.takeBoot.1 }

def Sys.Initial (s : Sys ι) : Prop :=
  s.host = Host.start ∧ s.dev.Reachable ∧ s.toDev = [] ∧ s.log = []

theorem Step.calls_le {i : ι} {s t : Sys ι} (h : Step i s t) : s.host.calls ≤ t.host.calls := by
  cases h with
  | host e h' out _ hs =>
    rcases (hostStep_moves hs).calls_cases with ⟨-, hc, -⟩ | ⟨-, hc, -⟩ <;> simp only [hc] <;> omega
  | ack _ a h' out _ _ _ hs =>
    rcases (hostStep_moves hs).calls_cases with ⟨-, hc, -⟩ | ⟨-, hc, -⟩ <;> simp only [hc] <;> omega
  | drop | deliver | foreign | tick | poll => exact Nat.le_refl _

/-! ## The order of cookies -/

structure Channels (i : ι) (seen : Nat) (s : Sys ι) : Prop where
  next : s.host.cookie = UInt32.ofNat (s.host.calls + 1)
  msg : s.host.msg.hdr.cookie.toNat = s.host.calls
  seen_le : seen ≤ s.host.calls
  sorted : s.toDev.Pairwise fun m m' => m.hdr.cookie ≤ m'.hdr.cookie
  newer : ∀ m ∈ s.toDev, seen ≤ m.hdr.cookie.toNat
  /-- once a file is being sent, an old message in flight is one already acted on -/
  flight : ∀ m ∈ s.toDev, m = s.host.msg ∨ (m.hdr.cookie.toNat < s.host.calls ∧
    (s.host.pc ≠ .idle → s.host.stage ≠ .sendFile → Harmless m s.host.arg.toNat))
  between : s.host.pc = .fread → seen = s.host.calls
  handled : ∀ e ∈ s.log, Handled e.before e.msg e.after e.ack ∧ e.before.Bounded
  logged : ∀ e ∈ s.log, e.sender = i → e.msg.hdr.cookie.toNat ≤ seen ∧
    (e.msg.hdr.cookie.toNat < s.host.calls ∨ e.msg = s.host.msg)

/-- The device looked at the current message and acked it. -/
def Sys.Acked (i : ι) (s : Sys ι) (e : Entry ι) : Prop :=
  e ∈ s.log ∧ e.sender = i ∧ e.ack = some (s.host.msg.hdr.ackOf nbAck s.host.msg.hdr.arg)

section Channels

variable {i : ι} {seen : Nat} {s : Sys ι}

/-- What acks the current message is an entry of that message. -/
theorem Channels.acked (hc : Channels i seen s) {e : Entry ι} (ha : s.Acked i e) :
    e.msg = s.host.msg ∧ seen = s.host.calls := by
  obtain ⟨he, hs, hack⟩ := ha
  have hh := (hc.handled e he).1
  rw [hack] at hh
  have hcookie : s.host.msg.hdr.cookie = e.msg.hdr.cookie := hh.ack_cookie
  have hmsg := hc.msg
  rw [hcookie] at hmsg
  obtain ⟨hle, hold⟩ := hc.logged e he hs
  exact ⟨hold.resolve_left (by omega), Nat.le_antisymm hc.seen_le (by omega)⟩

/-- Once the device has seen the current message, nothing older is in flight. -/
theorem Channels.only (hc : Channels i seen s) (hseen : seen = s.host.calls) {m : Datagram}
    (hm : m ∈ s.toDev) : m = s.host.msg := by
  have hnew := hc.newer m hm
  exact (hc.flight m hm).resolve_right fun h => absurd h.1 (by omega)

theorem Channels.cookie_le (hc : Channels i seen s) {m : Datagram} (hm : m ∈ s.toDev) :
    m.hdr.cookie.toNat ≤ s.host.calls := by
  rcases hc.flight m hm with rfl | ⟨hlt, -⟩
  · rw [hc.msg]
  · exact Nat.le_of_lt hlt

/-- A call of `io` takes the next cookie, so what is in flight becomes old. -/
theorem Channels.startIo (hc : Channels i seen s) {h' : Host} (hpc : h'.pc = .write)
    (hcookie : h'.cookie = s.host.cookie + 1) (hcalls : h'.calls = s.host.calls + 1)
    (hmsg : h'.msg.hdr.cookie = s.host.cookie) (hlt : h'.calls < 2 ^ 32)
    (hharm : ∀ m ∈ s.toDev, h'.stage ≠ .sendFile → Harmless m h'.arg.toNat) :
    Channels i seen { s with host := h' } := by
  rw [hcalls] at hlt
  refine ⟨?_, ?_, ?_, hc.sorted, hc.newer, ?_, by simp [hpc], hc.handled, ?_⟩
  · rw [hcookie, hcalls, hc.next]
    apply UInt32.toNat_inj.mp
    simp only [UInt32.toNat_add, UInt32.toNat_ofNat', UInt32.reduceToNat]
    omega
  · rw [hmsg, hcalls, hc.next, UInt32.toNat_ofNat']
    omega
  · rw [hcalls]
    exact Nat.le_succ_of_le hc.seen_le
  · intro m hm
    rw [hcalls]
    exact .inr ⟨Nat.lt_succ_of_le (hc.cookie_le hm), fun _ hst => hharm m hm hst⟩
  · intro e he hs
    rw [hcalls]
    obtain ⟨hle, -⟩ := hc.logged e he hs
    have hseen := hc.seen_le
    exact ⟨hle, .inl (by omega)⟩

theorem Channels.sameMsg (hc : Channels i seen s) {h' : Host} {q : List Datagram}
    (hq : q = s.toDev ∨ q = s.toDev ++ [s.host.msg])
    (hcookie : h'.cookie = s.host.cookie) (hcalls : h'.calls = s.host.calls)
    (hmsg : h'.msg = s.host.msg)
    (hold : ∀ m ∈ s.toDev, m.hdr.cookie.toNat < s.host.calls →
      (s.host.pc ≠ .idle → s.host.stage ≠ .sendFile → Harmless m s.host.arg.toNat) →
      h'.pc ≠ .idle → h'.stage ≠ .sendFile → Harmless m h'.arg.toNat)
    (hbetween : h'.pc = .fread → seen = s.host.calls) :
    Channels i seen { s with host := h', toDev := q } := by
  have hmem : ∀ m ∈ q, m ∈ s.toDev ∨ m = s.host.msg := by
    intro m hm
    rcases hq with rfl | rfl
    · exact .inl hm
    · simpa using hm
  refine ⟨?_, ?_, ?_, ?_, ?_, ?_, ?_, hc.handled, ?_⟩
  · rw [hcookie, hcalls, hc.next]
  · rw [hmsg, hcalls, hc.msg]
  · rw [hcalls]; exact hc.seen_le
  · rcases hq with rfl | rfl
    · exact hc.sorted
    · refine List.pairwise_append.mpr ⟨hc.sorted, List.pairwise_singleton _ _, ?_⟩
      intro m hm m' hm'
      obtain rfl := List.mem_singleton.mp hm'
      rw [UInt32.le_iff_toNat_le, hc.msg]
      exact hc.cookie_le hm
  · intro m hm
    rcases hmem m hm with hm | rfl
    · exact hc.newer m hm
    · rw [hc.msg]; exact hc.seen_le
  · intro m hm
    rw [hmsg, hcalls]
    rcases hmem m hm with hm | rfl
    · exact (hc.flight m hm).imp_right fun h => ⟨h.1, hold m hm h.1 h.2⟩
    · exact .inl rfl
  · rw [hcalls]; exact hbetween
  · rw [hcalls, hmsg]; exact hc.logged

theorem Channels.host (hc : Channels i seen s) (hi : HostInv s.host) {e : HostEvent}
    {h' : Host} {out : Option Datagram} (hm : Moves s.host e h' out) (hlt : h'.calls < 2 ^ 32)
    (hack : ∀ bs, e = .datagram bs → s.host.accepts bs = true → ∃ x, s.Acked i x) :
    Channels i seen { s with host := h', toDev := s.toDev ++ out.toList } := by
  -- between blocks only the acked message is in flight, and that one is harmless
  have hacted : s.host.pc = .fread → ∀ m ∈ s.toDev, Harmless m s.host.arg.toNat := by
    intro hpc m hm
    rw [hc.only (hc.between hpc) hm]
    exact (hi.between hpc).2
  cases hm with
  | start file _ =>
    rw [Option.toList_none, List.append_nil]
    exact hc.startIo rfl rfl rfl rfl hlt fun _ _ hst => absurd rfl hst
  | block r hpc _ _ _ =>
    rw [Option.toList_none, List.append_nil]
    exact hc.startIo rfl rfl rfl rfl hlt fun m hm _ => hacted hpc m hm
  | eof hpc _ =>
    rw [Option.toList_none, List.append_nil]
    exact hc.startIo rfl rfl rfl rfl hlt fun m hm _ => hacted hpc m hm
  | send hpc =>
    exact hc.sameMsg (.inr rfl) rfl rfl rfl (fun _ _ _ h _ => h (by simp [hpc])) (by simp)
  | stay _ _ =>
    exact hc.sameMsg (.inl (by simp)) rfl rfl rfl (fun _ _ _ h => h) hc.between
  | giveUp _ r _ =>
    exact hc.sameMsg (.inl (by simp)) rfl rfl rfl (fun _ _ _ _ h => absurd rfl h) (by simp)
  | retry hpc =>
    exact hc.sameMsg (.inl (by simp)) rfl rfl rfl (fun _ _ _ h _ => h (by simp [hpc])) (by simp)
  | opened bs hpc hacc hst =>
    obtain ⟨x, hx⟩ := hack bs rfl hacc
    exact hc.sameMsg (.inl (by simp)) rfl rfl rfl (fun _ _ _ _ _ h => absurd hst h)
      fun _ => (hc.acked hx).2
  | stored bs hpc hacc hst =>
    obtain ⟨x, hx⟩ := hack bs rfl hacc
    have hseen := (hc.acked hx).2
    refine hc.sameMsg (.inl (by simp)) rfl rfl rfl (fun m hm hold _ _ _ => ?_) fun _ => hseen
    have hnew := hc.newer m hm
    omega
  | booted bs hpc _ _ =>
    exact hc.sameMsg (.inl (by simp)) rfl rfl rfl (fun _ _ _ h _ => h (by simp [hpc])) (by simp)

theorem Channels.drop (hc : Channels i seen s) {q : List Datagram} (hq : q.Sublist s.toDev) :
    Channels i seen { s with toDev := q } :=
  ⟨hc.next, hc.msg, hc.seen_le, hc.sorted.sublist hq, fun m hm => hc.newer m (hq.subset hm),
    fun m hm => hc.flight m (hq.subset hm), hc.between, hc.handled, hc.logged⟩

theorem Channels.setDev (hc : Channels i seen s) (d : Device) :
    Channels i seen { s with dev := d } :=
  ⟨hc.next, hc.msg, hc.seen_le, hc.sorted, hc.newer, hc.flight, hc.between, hc.handled, hc.logged⟩

/-- Once the device has looked at a message, that message is the last one seen. -/
theorem Channels.deliver (hc : Channels i seen s) {m : Datagram} {rest : List Datagram}
    (hq : s.toDev = m :: rest) {e : Entry ι} (hm : e.msg = m)
    (hh : Handled e.before e.msg e.after e.ack) (hb : e.before.Bounded) :
    Channels i m.hdr.cookie.toNat
      { s with dev := e.after, toDev := rest, log := e :: s.log } := by
  have hsort := hc.sorted
  rw [hq, List.pairwise_cons] at hsort
  have hmem : m ∈ s.toDev := by simp [hq]
  have hsub : ∀ m' ∈ rest, m' ∈ s.toDev := fun m' h => by simp [hq, h]
  refine ⟨hc.next, hc.msg, hc.cookie_le hmem, hsort.2, ?_, ?_, ?_, ?_, ?_⟩
  · intro m' h
    exact UInt32.le_iff_toNat_le.mp (hsort.1 m' h)
  · exact fun m' h => hc.flight m' (hsub m' h)
  · intro hpc
    rw [hc.only (hc.between hpc) hmem, hc.msg]
  · intro e' he
    rcases List.mem_cons.mp he with rfl | he
    · exact ⟨hh, hb⟩
    · exact hc.handled e' he
  · intro e' he hs
    rcases List.mem_cons.mp he with rfl | he
    · rw [hm]
      exact ⟨Nat.le_refl _, (hc.flight m hmem).symm.imp_left And.left⟩
    · obtain ⟨hle, hold⟩ := hc.logged e' he hs
      exact ⟨Nat.le_trans hle (hc.newer m hmem), hold⟩

theorem Channels.foreign (hc : Channels i seen s) {e : Entry ι} (hj : e.sender ≠ i)
    (hh : Handled e.before e.msg e.after e.ack) (hb : e.before.Bounded) :
    Channels i seen { s with dev := e.after, log := e :: s.log } := by
  refine ⟨hc.next, hc.msg, hc.seen_le, hc.sorted, hc.newer, hc.flight, hc.between, ?_, ?_⟩
  · intro e' he
    rcases List.mem_cons.mp he with rfl | he
    · exact ⟨hh, hb⟩
    · exact hc.handled e' he
  · intro e' he hs
    rcases List.mem_cons.mp he with rfl | he
    · exact absurd hs hj
    · exact hc.logged e' he hs

end Channels

/-! ## Where the device stands -/

/-- While a block is on its way, the device has stored it, or has not acked it. -/
inductive Storing (i : ι) (seen : Nat) (s : Sys ι) : Prop
  | pending : Standing s.host.file s.host.calls s.host.arg.toNat s.dev →
      (∀ e ∈ s.log, e.sender = i → e.msg = s.host.msg → ∀ a, e.ack = some a → a.cmd ≠ nbAck) →
      Storing i seen s
  | stored : seen = s.host.calls → Standing s.host.file (s.host.calls + 1)
      (s.host.arg.toNat + s.host.msg.payload.length) s.dev → Storing i seen s

/-- The request of the transfer was acked. -/
def Host.Opened (h : Host) : Prop := h.pc = .fread ∨ h.pc ≠ .idle ∧ h.stage ≠ .sendFile

structure Phase (i : ι) (seen : Nat) (s : Sys ι) : Prop where
  opening : s.host.InIo → s.host.stage = .sendFile → seen = s.host.calls →
    Undisturbed i s.log → Standing s.host.file (s.host.calls + 1) 0 s.dev
  storing : s.host.InIo → s.host.stage = .data → Undisturbed i s.log → Storing i seen s
  settled : s.host.pc = .fread ∨ s.host.Booting → Undisturbed i s.log →
    Standing s.host.file (s.host.calls + 1) s.host.arg.toNat s.dev
  opened : Host.Opened s.host → ∃ e ∈ s.log, e.Restarts i
  boots : s.host.Booting → ∀ e earlier, e :: earlier <:+ s.log → e.sender = i →
    e.msg = s.host.msg → (∃ e' ∈ earlier, e'.Restarts i) ∧
      (Undisturbed i earlier → Holds s.host.file s.host.file.length e.before)
  booted : s.host.pc = .booted → ∃ e, s.Acked i e

section Phase

variable {i : ι} {seen : Nat} {s : Sys ι}

theorem Phase.idle (h : s.host.pc = .idle) : Phase i seen s := by
  have hio : ¬ s.host.InIo := Host.not_inIo (by simp [h]) (by simp [h])
  have hb : ¬ s.host.Booting := by
    rintro (hb | hb)
    · exact hio hb.1
    · simp [h] at hb
  exact ⟨fun hi => absurd hi hio, fun hi => absurd hi hio, by simp [h, hb],
    by simp [Host.Opened, h], fun hi => absurd hi hb, by simp [h]⟩

/-- Messages in flight and the flags of the device do not matter. -/
theorem Phase.quiet (hp : Phase i seen s) {d : Device} {q : List Datagram}
    (hitem : d.item = s.dev.item) (hfiles : d.files = s.dev.files)
    (hcookie : d.lastCookie = s.dev.lastCookie) (hcmd : d.lastCmd = s.dev.lastCmd)
    (hack : d.lastAckCmd = s.dev.lastAckCmd) : Phase i seen { s with dev := d, toDev := q } := by
  have hstand : ∀ {file n a}, Standing file n a s.dev → Standing file n a d :=
    fun h => h.congr hitem hfiles hcookie hcmd hack
  refine ⟨?_, ?_, ?_, hp.opened, hp.boots, hp.booted⟩
  · intro hio hst hseen hu; exact hstand (hp.opening hio hst hseen hu)
  · intro hio hst hu
    cases hp.storing hio hst hu with
    | pending hd hall => exact .pending (hstand hd) hall
    | stored hs hd => exact .stored hs (hstand hd)
  · intro hpc hu; exact hstand (hp.settled hpc hu)

theorem Phase.sameIo (hp : Phase i seen s) (hio : s.host.InIo) {pc : Pc}
    (hpc : pc = .write ∨ pc = .again) (r : Nat) {q : List Datagram} :
    Phase i seen { s with host := { s.host with retries := r, pc := pc }, toDev := q } := by
  have hfread : ∀ p, p = Pc.fread ∨ p = .booted → pc ≠ p := by
    rintro p (rfl | rfl) <;> rcases hpc with rfl | rfl <;> simp
  have hboot : Host.Booting { s.host with retries := r, pc := pc } → s.host.Booting := by
    rintro (⟨_, hst⟩ | hb)
    · exact .inl ⟨hio, hst⟩
    · exact absurd hb (hfread _ (.inr rfl))
  refine ⟨?_, ?_, ?_, ?_, ?_, ?_⟩
  · intro _; exact hp.opening hio
  · intro _ hst hu
    cases hp.storing hio hst hu with
    | pending hd hall => exact .pending hd hall
    | stored hs hd => exact .stored hs hd
  · rintro (hf | hb) hu
    · exact absurd hf (hfread _ (.inl rfl))
    · exact hp.settled (.inr (hboot hb)) hu
  · rintro (hf | ⟨-, hst⟩)
    · exact absurd hf (hfread _ (.inl rfl))
    · refine hp.opened (.inr ⟨?_, hst⟩)
      rcases hio with h | h <;> simp [h]
  · intro hb; exact hp.boots (hboot hb)
  · intro hb; exact absurd hb (hfread _ (.inr rfl))

/-- A block that was acked is stored. -/
theorem Phase.stored_of_acked (hp : Phase i seen s) (hc : Channels i seen s) {x : Entry ι}
    (hx : s.Acked i x) (hio : s.host.InIo) (hst : s.host.stage = .data)
    (hu : Undisturbed i s.log) : Standing s.host.file (s.host.calls + 1)
      (s.host.arg.toNat + s.host.msg.payload.length) s.dev := by
  cases hp.storing hio hst hu with
  | pending hd hall => exact absurd rfl (hall x hx.1 hx.2.1 (hc.acked hx).1 _ hx.2.2)
  | stored hs hd => exact hd

theorem Phase.startIo (hp : Phase i seen s) (hc : Channels i seen s) {h' : Host}
    (hc' : Channels i seen { s with host := h' }) (hpc : h'.pc = .write)
    (hcalls : h'.calls = s.host.calls + 1)
    (hcont : h'.stage ≠ .sendFile →
      s.host.pc = .fread ∧ h'.file = s.host.file ∧ h'.arg = s.host.arg) :
    Phase i seen { s with host := h' } := by
  have hio : h'.InIo := .inl hpc
  -- the device has looked at no message this new
  have hnew : ∀ e ∈ s.log, e.sender = i → e.msg ≠ h'.msg := by
    intro e he hs hmsg
    have hle := (hc.logged e he hs).1
    have hmsg' : h'.msg.hdr.cookie.toNat = h'.calls := hc'.msg
    have hseen := hc.seen_le
    rw [hmsg] at hle
    omega
  refine ⟨?_, ?_, ?_, ?_, ?_, ?_⟩
  · intro _ _ hseen
    have hle := hc.seen_le
    simp only [hcalls] at hseen
    omega
  · intro _ hst hu
    obtain ⟨hf, hfile, harg⟩ := hcont (by simp [show h'.stage = .data from hst])
    refine .pending ?_ fun e he hs hmsg => absurd hmsg (hnew e he hs)
    simp only [hfile, harg, hcalls]
    exact hp.settled (.inl hf) hu
  · rintro (hf | ⟨-, hst⟩ | hb) hu
    · simp [hpc] at hf
    · obtain ⟨hf, hfile, harg⟩ := hcont (by simp [show h'.stage = .boot from hst])
      have hd := hp.settled (.inl hf) hu
      simp only [hfile, harg, hcalls]
      exact ⟨hd.holds, fun h₁ h₂ => Nat.lt_succ_of_lt (hd.cached h₁ h₂)⟩
    · simp [hpc] at hb
  · rintro (hf | ⟨-, hst⟩)
    · simp [hpc] at hf
    · exact hp.opened (.inl (hcont hst).1)
  · intro _ e earlier hsuf hs hmsg
    exact absurd hmsg (hnew e (hsuf.subset List.mem_cons_self) hs)
  · intro hb
    simp [hpc] at hb

/-- `io` has returned 0 on the request or a block. -/
theorem Phase.acked {h' : Host} (hpc : h'.pc = .fread)
    (hs : Undisturbed i s.log → Standing h'.file (h'.calls + 1) h'.arg.toNat s.dev)
    (hopened : ∃ e ∈ s.log, e.Restarts i) : Phase i seen { s with host := h' } := by
  have hio : ¬ h'.InIo := Host.not_inIo (by simp [hpc]) (by simp [hpc])
  have hb : ¬ h'.Booting := by
    rintro (hb | hb)
    · exact hio hb.1
    · simp [hpc] at hb
  exact ⟨fun h => absurd h hio, fun h => absurd h hio, fun _ => hs, fun _ => hopened,
    fun h => absurd h hb, by simp [hpc]⟩

theorem Phase.host (hp : Phase i seen s) (hc : Channels i seen s) (hi : HostInv s.host)
    {e : HostEvent} {h' : Host} {out : Option Datagram} (hm : Moves s.host e h' out)
    (hi' : HostInv h')
    (hack : ∀ bs, e = .datagram bs → s.host.accepts bs = true → ∃ x, s.Acked i x)
    (hc' : Channels i seen { s with host := h', toDev := s.toDev ++ out.toList }) :
    Phase i seen { s with host := h', toDev := s.toDev ++ out.toList } := by
  cases hm with
  | start file _ =>
    rw [Option.toList_none, List.append_nil] at *
    exact hp.startIo hc hc' rfl rfl fun hst => absurd rfl hst
  | block r hpc _ _ _ =>
    rw [Option.toList_none, List.append_nil] at *
    exact hp.startIo hc hc' rfl rfl fun _ => ⟨hpc, rfl, rfl⟩
  | eof hpc _ =>
    rw [Option.toList_none, List.append_nil] at *
    exact hp.startIo hc hc' rfl rfl fun _ => ⟨hpc, rfl, rfl⟩
  | send hpc => exact hp.sameIo (.inl hpc) (.inr rfl) s.host.retries
  | retry hpc => exact hp.sameIo (.inr hpc) (.inl rfl) _
  | stay _ _ => exact hp.quiet rfl rfl rfl rfl rfl
  | giveUp _ r _ => exact .idle rfl
  | opened bs hpc hacc hst =>
    rw [Option.toList_none, List.append_nil]
    obtain ⟨x, hx⟩ := hack bs rfl hacc
    obtain ⟨hmsg, hseen⟩ := hc.acked hx
    refine .acked rfl (fun hu => ?_) ⟨x, hx.1, hx.2.1, ?_⟩
    · exact hp.opening (.inr hpc) hst hseen hu
    · rw [hmsg, (hi.opening (.inr hpc) hst).1]
      rfl
  | stored bs hpc hacc hst =>
    rw [Option.toList_none, List.append_nil]
    obtain ⟨x, hx⟩ := hack bs rfl hacc
    refine .acked rfl (fun hu => ?_) (hp.opened (.inr ⟨by simp [hpc], by simp [hst]⟩))
    -- the host counts on to the file position, where the device stands
    have hd := hp.stored_of_acked hc hx (.inr hpc) hst hu
    rw [(hi.block (.inr hpc) hst).pos] at hd
    have harg := (hi'.between rfl).1
    simp only at harg ⊢
    rw [harg]
    exact hd
  | booted bs hpc hacc hst =>
    have hboot : s.host.Booting := .inl ⟨.inr hpc, hst⟩
    have hio := Host.not_inIo (h := { s.host with pc := .booted }) (by simp) (by simp)
    refine ⟨fun h => absurd h hio, fun h => absurd h hio, ?_, ?_, fun _ => hp.boots hboot, ?_⟩
    · intro _; exact hp.settled (.inr hboot)
    · intro _; exact hp.opened (.inr ⟨by simp [hpc], by simp [hst]⟩)
    · intro _; exact hack bs rfl hacc

/-- The block that the host waits for reaches a device that has not acked it. -/
theorem Storing.block {e : Entry ι} (hblk : s.host.AtBlock) (hc : Channels i seen s)
    (hmsg : e.msg = s.host.msg) (hbefore : e.before = s.dev)
    (hh : Handled e.before e.msg e.after e.ack)
    (hd : Standing s.host.file s.host.calls s.host.arg.toNat s.dev)
    (hall : ∀ e ∈ s.log, e.sender = i → e.msg = s.host.msg → ∀ a, e.ack = some a → a.cmd ≠ nbAck)
    (q : List Datagram) :
    Storing i s.host.calls { s with dev := e.after, toDev := q, log := e :: s.log } := by
  rw [hmsg, hbefore] at hh
  have hpend : Standing s.host.file s.host.calls s.host.arg.toNat e.after →
      (∀ a, e.ack = some a → a.cmd ≠ nbAck) →
      Storing i s.host.calls { s with dev := e.after, toDev := q, log := e :: s.log } := by
    intro hd' hcmd
    refine .pending hd' fun e' he hs hm => ?_
    rcases List.mem_cons.mp he with rfl | he
    · exact hcmd
    · exact hall e' he hs hm
  by_cases hr : s.dev.Repeats s.host.msg.hdr
  · -- answered from the cache, which holds no positive ack for it
    obtain ⟨hafter, hack⟩ := hh.unique (.resend hr)
    rw [hafter] at hpend ⊢
    refine hpend (hd.congr rfl rfl rfl rfl rfl) fun a ha hcmd => ?_
    rw [hack, Option.some.injEq] at ha
    subst ha
    have hlt := hd.cached (hr.2.1.trans hblk.cmd) hcmd
    rw [hr.1, hc.msg] at hlt
    exact Nat.lt_irrefl _ hlt
  · rcases hd.holds.block hblk.cmd (by rw [hblk.arg]) hblk.payload hr hh with
      ⟨hd', -⟩ | ⟨hd', -, hcmd, hack⟩
    · have hlt : s.host.msg.hdr.cookie.toNat < s.host.calls + 1 := by rw [hc.msg]; omega
      have hcached : Cached (s.host.calls + 1) s.dev :=
        fun h₁ h₂ => Nat.lt_succ_of_lt (hd.cached h₁ h₂)
      exact .stored rfl ⟨hd', hcached.handled hh hlt⟩
    · have hne : nbErrorTooLarge ≠ nbAck := by decide
      refine hpend ⟨hd', fun _ h => absurd (hcmd.symm.trans h) hne⟩ fun a ha => ?_
      rw [hack, Option.some.injEq] at ha
      subst ha
      exact hne

/-- An old message in flight does not change where the device stands. -/
theorem Storing.old {e : Entry ι} {m : Datagram} (hc : Channels i seen s) (hmem : m ∈ s.toDev)
    (hmsg : e.msg = m) (hlt : m.hdr.cookie.toNat < s.host.calls)
    (hd : Standing s.host.file s.host.calls s.host.arg.toNat e.after) (q : List Datagram) :
    Storing i m.hdr.cookie.toNat { s with dev := e.after, toDev := q, log := e :: s.log } := by
  refine .pending hd fun e' he hs hm => ?_
  have hcookie : e'.msg.hdr.cookie.toNat = s.host.calls := by rw [hm]; exact hc.msg
  rcases List.mem_cons.mp he with rfl | he
  · rw [hmsg] at hcookie
    omega
  · have hle := (hc.logged e' he hs).1
    have hnew := hc.newer m hmem
    omega

/-- After an acked block, and while booting, what is in flight moves nothing. -/
theorem Channels.settled_harmless (hc : Channels i seen s) (hi : HostInv s.host) {m : Datagram}
    (hmem : m ∈ s.toDev) (h : s.host.pc = .fread ∨ s.host.Booting) :
    Harmless m s.host.arg.toNat := by
  rcases h with hpc | hb
  · rw [hc.only (hc.between hpc) hmem]
    exact (hi.between hpc).2
  · obtain ⟨hst, hboot, -⟩ := hi.booting hb
    rcases hc.flight m hmem with rfl | ⟨-, h⟩
    · exact .inr (.inr hboot)
    · exact h hb.ne_idle (by simp [hst])

/-- A message reaches the device while a block is on its way: the block itself, for the
first time or again, or an older message. -/
theorem Phase.deliver_storing (hp : Phase i seen s) (hc : Channels i seen s)
    (hi : HostInv s.host) {m : Datagram} (hmem : m ∈ s.toDev) {e : Entry ι} (hmsg : e.msg = m)
    (hbefore : e.before = s.dev) (hh : Handled e.before e.msg e.after e.ack)
    (hio : s.host.InIo) (hst : s.host.stage = .data) (hu : Undisturbed i (e :: s.log))
    (q : List Datagram) :
    Storing i m.hdr.cookie.toNat { s with dev := e.after, toDev := q, log := e :: s.log } := by
  have hblk := hi.block hio hst
  rcases hc.flight m hmem with hm | ⟨hold, hharm⟩
  · have hdata : ¬ e.Restarts i := by
      rintro ⟨-, hcmd⟩
      rw [hmsg, hm, hblk.cmd] at hcmd
      exact absurd hcmd (by decide)
    cases hp.storing hio hst (hu.resolve_left hdata).2 with
    | pending hd hall =>
      rw [show m.hdr.cookie.toNat = s.host.calls by rw [hm, hc.msg]]
      exact .block hblk hc (hmsg.trans hm) hbefore hh hd hall q
    | stored hs hd =>
      have hlt : e.msg.hdr.cookie.toNat < s.host.calls + 1 := by
        rw [hmsg]
        exact Nat.lt_succ_of_le (hc.cookie_le hmem)
      rw [hbefore] at hh
      refine .stored (by rw [hm]; exact hc.msg) ?_
      show Standing s.host.file _ (s.host.arg.toNat + s.host.msg.payload.length) e.after
      refine hd.harmless (m := e.msg) (.inr (.inl ⟨?_, ?_⟩)) hh hlt
      · rw [hmsg, hm, hblk.cmd]
      · rw [hmsg, hm, hblk.arg]
        have hne := hblk.nonempty
        omega
  · refine .old hc hmem hmsg hold ?_ q
    refine standing_own hh (fun hu' => ?_) ?_ (by rw [hmsg]; exact hold) hu
    · cases hp.storing hio hst hu' with
      | pending hd _ => rw [hbefore]; exact hd
      | stored hs _ =>
        have hnew := hc.newer m hmem
        omega
    · rw [hmsg]
      exact hharm (Host.InIo.ne_idle hio) fun h => absurd (h.symm.trans hst) (by simp)

theorem Phase.deliver (hp : Phase i seen s) (hc : Channels i seen s) (hi : HostInv s.host)
    {m : Datagram} {rest : List Datagram} (hq : s.toDev = m :: rest) {e : Entry ι}
    (hsender : e.sender = i) (hmsg : e.msg = m) (hbefore : e.before = s.dev)
    (hh : Handled e.before e.msg e.after e.ack) :
    Phase i m.hdr.cookie.toNat { s with dev := e.after, toDev := rest, log := e :: s.log } := by
  have hmem : m ∈ s.toDev := by simp [hq]
  have hlt : e.msg.hdr.cookie.toNat < s.host.calls + 1 := by
    rw [hmsg]
    exact Nat.lt_succ_of_le (hc.cookie_le hmem)
  refine ⟨?_, ?_, ?_, ?_, ?_, ?_⟩
  · intro hio hst hseen _
    have hm : m = s.host.msg := by
      refine (hc.flight m hmem).resolve_right fun h => ?_
      simp only at hseen
      omega
    rw [hmsg, hm, (hi.opening hio hst).1] at hh
    exact standing_request _ _ hh
  · intro hio hst hu
    exact hp.deliver_storing hc hi hmem hmsg hbefore hh hio hst hu rest
  · intro hpc hu
    refine standing_own hh (fun hu' => ?_) ?_ hlt hu
    · rw [hbefore]
      exact hp.settled hpc hu'
    · rw [hmsg]
      exact hc.settled_harmless hi hmem hpc
  · intro ho
    obtain ⟨e', he, hr⟩ := hp.opened ho
    exact ⟨e', List.mem_cons_of_mem _ he, hr⟩
  · intro hb e' earlier hsuf hs hm
    rcases List.suffix_cons_iff.mp hsuf with heq | hsuf
    · obtain ⟨rfl, rfl⟩ := List.cons.inj heq
      obtain ⟨hst, -, harg⟩ := hi.booting hb
      refine ⟨hp.opened (.inr ⟨Host.Booting.ne_idle hb, by simp [hst]⟩), fun hu => ?_⟩
      have hd := (hp.settled (.inr hb) hu).holds
      rwa [harg, ← hbefore] at hd
    · exact hp.boots hb e' earlier hsuf hs hm
  · intro hpc
    obtain ⟨x, hx, hrest⟩ := hp.booted hpc
    exact ⟨x, List.mem_cons_of_mem _ hx, hrest⟩

theorem Phase.foreign (hp : Phase i seen s) {e : Entry ι} {file : List UInt8}
    (hj : e.sender ≠ i) (hg : Genuine file e.msg) (hbefore : e.before = s.dev)
    (hh : Handled e.before e.msg e.after e.ack) :
    Phase i seen { s with dev := e.after, log := e :: s.log } := by
  have hu : Undisturbed i (e :: s.log) → Undisturbed i s.log :=
    fun h => (h.resolve_left fun hr => hj hr.1).2
  have hstand : ∀ {f n a}, Undisturbed i (e :: s.log) →
      (Undisturbed i s.log → Standing f n a s.dev) → Standing f n a e.after := by
    intro f n a h hs
    exact standing_foreign hj hg hh (by rw [hbefore]; exact hs) h
  refine ⟨?_, ?_, ?_, ?_, ?_, ?_⟩
  · intro hio hst hseen h
    exact hstand h (hp.opening hio hst hseen)
  · intro hio hst h
    cases hp.storing hio hst (hu h) with
    | pending hd hall =>
      refine .pending (hstand h fun _ => hd) fun e' he hs hm => ?_
      rcases List.mem_cons.mp he with rfl | he
      · exact absurd hs hj
      · exact hall e' he hs hm
    | stored hs hd => exact .stored hs (hstand h fun _ => hd)
  · intro hpc h
    exact hstand h (hp.settled hpc)
  · intro ho
    obtain ⟨e', he, hr⟩ := hp.opened ho
    exact ⟨e', List.mem_cons_of_mem _ he, hr⟩
  · intro hb e' earlier hsuf hs hm
    rcases List.suffix_cons_iff.mp hsuf with heq | hsuf
    · obtain ⟨rfl, rfl⟩ := List.cons.inj heq
      exact absurd hs hj
    · exact hp.boots hb e' earlier hsuf hs hm
  · intro hpc
    obtain ⟨x, hx, hrest⟩ := hp.booted hpc
    exact ⟨x, List.mem_cons_of_mem _ hx, hrest⟩

end Phase

/-! ## Every run -/

structure Inv (i : ι) (s : Sys ι) : Prop where
  host : HostInv s.host
  dev : s.dev.Bounded
  transfer : ∃ seen, Channels i seen s ∧ Phase i seen s

theorem inv_initial (i : ι) {s : Sys ι} (h : s.Initial) : Inv i s := by
  obtain ⟨hhost, hdev, hq, hlog⟩ := h
  refine ⟨?_, hdev.bounded, 0, ?_, ?_⟩
  · rw [hhost]
    exact .outside (by simp [Host.start]) (by simp [Host.start]) (by simp [Host.start])
      (by simp [Host.start])
  · refine ⟨?_, ?_, Nat.zero_le _, ?_, ?_, ?_, ?_, ?_, ?_⟩ <;> simp [hhost, hq, hlog, Host.start]
  · exact .idle (by simp [hhost, Host.start])

/-- A step of the host keeps the invariant, if the ack it takes was sent. -/
theorem Inv.hostMoves {i : ι} {s : Sys ι} (hi : Inv i s) {e : HostEvent} {h' : Host}
    {out : Option Datagram} (hm : Moves s.host e h' out) (hlt : h'.calls < 2 ^ 32)
    (hack : ∀ bs, e = .datagram bs → s.host.accepts bs = true → ∃ x, s.Acked i x) :
    Inv i { s with host := h', toDev := s.toDev ++ out.toList } := by
  obtain ⟨seen, hc, hp⟩ := hi.transfer
  have hc' := hc.host hi.host hm hlt hack
  have hi' : HostInv h' := by
    refine hi.host.moves hm fun bs he hacc => ?_
    obtain ⟨x, hx, -, ha⟩ := hack bs he hacc
    obtain ⟨hh, hb⟩ := hc.handled x hx
    rw [ha] at hh
    exact hh.ack_le hb rfl
  exact ⟨hi', hi.dev, seen, hc', hp.host hc hi.host hm hi' hack hc'⟩

theorem inv_step {i : ι} {s t : Sys ι} (hi : Inv i s) (hlt : t.host.calls < 2 ^ 32)
    (hst : Step i s t) : Inv i t := by
  cases hst with
  | host e h' out hne hs =>
    exact hi.hostMoves (hostStep_moves hs) hlt fun bs he => absurd he (hne bs)
  | ack e a h' out he hsend ha hs =>
    refine hi.hostMoves (hostStep_moves hs) hlt ?_
    rintro bs ⟨⟩ hacc
    rw [Host.accepts_bytes] at hacc
    exact ⟨e, he, hsend, by rw [ha, hacc]⟩
  | drop pre m post hq =>
    obtain ⟨seen, hc, hp⟩ := hi.transfer
    have hsub : (pre ++ post).Sublist s.toDev := by simp [hq]
    exact ⟨hi.host, hi.dev, seen, hc.drop hsub, hp.quiet rfl rfl rfl rfl rfl⟩
  | deliver m rest data hq hdata =>
    obtain ⟨seen, hc, hp⟩ := hi.transfer
    have hh := look_handled i s.dev m hdata
    exact ⟨hi.host, hh.bounded hi.dev, _, hc.deliver hq rfl hh hi.dev,
      hp.deliver hc hi.host hq rfl rfl rfl hh⟩
  | foreign j file m data hj hg hdata =>
    obtain ⟨seen, hc, hp⟩ := hi.transfer
    have hh := look_handled j s.dev m hdata
    exact ⟨hi.host, hh.bounded hi.dev, seen, hc.foreign hj hh hi.dev, hp.foreign hj hg rfl hh⟩
  | tick =>
    obtain ⟨seen, hc, hp⟩ := hi.transfer
    exact ⟨hi.host, hi.dev.congr rfl hi.dev.ack_le, seen, hc.setDev _,
      hp.quiet rfl rfl rfl rfl rfl⟩
  | poll =>
    obtain ⟨seen, hc, hp⟩ := hi.transfer
    obtain ⟨hcookie, hcmd, hack, -⟩ := s.dev.takeBoot_cache
    exact ⟨hi.host, Device.takeBoot_bounded hi.dev, seen, hc.setDev _,
      hp.quiet (Device.takeBoot_item _) (Device.takeBoot_files _) hcookie hcmd hack⟩

/-- The invariant in every run of fewer than `2 ^ 32` messages. -/
theorem inv_run {i : ι} {s₀ s : Sys ι} (h₀ : s₀.Initial) (hrun : ReflTransGen (Step i) s₀ s)
    (hcalls : s.host.calls < 2 ^ 32) : Inv i s := by
  have hreach : Transition.Reachable Sys.Initial (Step i) s := ⟨s₀, h₀, hrun⟩
  exact hreach.invariant_of_bound (fun _ => inv_initial i)
    (fun _ _ hst hb => Nat.lt_of_le_of_lt hst.calls_le hb) (fun _ _ => inv_step) hcalls

/-- Once the boot command is acked: the device has looked at it, and each time it did,
if the transfer was not disturbed, it held the whole file. -/
theorem Inv.boots {i : ι} {s : Sys ι} (hi : Inv i s) (hpc : s.host.pc = .booted) :
    (∃ e ∈ s.log, e.sender = i ∧ e.msg = s.host.msg) ∧
    ∀ e earlier, e :: earlier <:+ s.log → e.sender = i → e.msg = s.host.msg →
      e.msg.hdr.cmd = nbBoot ∧ (∃ e' ∈ earlier, e'.Restarts i) ∧
      (Undisturbed i earlier → s.host.file.length ≤ kbufSize ∧
        (e.before.files .nbkernel).offset = s.host.file.length ∧
        read (e.before.files .nbkernel).data 0 (e.before.files .nbkernel).offset =
          s.host.file) := by
  obtain ⟨seen, hc, hp⟩ := hi.transfer
  obtain ⟨x, hx⟩ := hp.booted hpc
  refine ⟨⟨x, hx.1, hx.2.1, (hc.acked hx).1⟩, ?_⟩
  intro e earlier hsuf hs hm
  obtain ⟨hopened, hholds⟩ := hp.boots (.inr hpc) e earlier hsuf hs hm
  refine ⟨?_, hopened, fun hu => ?_⟩
  · rw [hm, (hi.host.booting (.inr hpc)).2.1]
    rfl
  · have hd := hholds hu
    have hb := (hc.handled e (hsuf.subset List.mem_cons_self)).2
    refine ⟨hd.le_kbufSize hb, hd.offset, ?_⟩
    rw [hd.offset, hd.data, List.take_length]

/-- **Integrity of a transfer.**  With `Unit` for the senders the process is alone.  In
every run of fewer than `2 ^ 32` messages: once the boot command is acked, the file fits
the kernel buffer, the device has looked at that command, and each time it did it held
the whole file, byte for byte. -/
theorem transfer_integrity (s₀ s : Sys Unit) (h₀ : s₀.Initial)
    (hrun : ReflTransGen (Step ()) s₀ s) (hcalls : s.host.calls < 2 ^ 32)
    (hpc : s.host.pc = .booted) :
    s.host.file.length ≤ kbufSize ∧
    (∃ e ∈ s.log, e.msg = s.host.msg) ∧
    ∀ e ∈ s.log, e.msg = s.host.msg → e.msg.hdr.cmd = nbBoot ∧
      (e.before.files .nbkernel).offset = s.host.file.length ∧
      read (e.before.files .nbkernel).data 0 (e.before.files .nbkernel).offset =
        s.host.file := by
  obtain ⟨⟨x, hx, -, hxm⟩, hboots⟩ := (inv_run h₀ hrun hcalls).boots hpc
  have hall : ∀ e ∈ s.log, e.msg = s.host.msg → e.msg.hdr.cmd = nbBoot ∧
      s.host.file.length ≤ kbufSize ∧ (e.before.files .nbkernel).offset = s.host.file.length ∧
      read (e.before.files .nbkernel).data 0 (e.before.files .nbkernel).offset =
        s.host.file := by
    intro e he hm
    obtain ⟨newer, earlier, hlog⟩ := List.append_of_mem he
    obtain ⟨hcmd, hopened, hholds⟩ :=
      hboots e earlier (by rw [hlog]; exact List.suffix_append _ _) rfl hm
    exact ⟨hcmd, hholds (undisturbed_of_restarts hopened)⟩
  refine ⟨(hall x hx hxm).2.1, ⟨x, hx, hxm⟩, ?_⟩
  intro e he hm
  obtain ⟨hcmd, -, hoff, hdata⟩ := hall e he hm
  exact ⟨hcmd, hoff, hdata⟩

def fresh : Sys Unit := ⟨Host.start, Device.start (fun _ => 0) (fun _ => 0), [], []⟩

theorem fresh_initial : fresh.Initial :=
  ⟨rfl, .of_init ⟨_, _, rfl⟩, rfl, rfl⟩

/-- A transfer of two bytes in two blocks.  The request is sent again before its ack is
read, and the first copy of the boot command is lost. -/
theorem transfer_integrity_two_bytes : ∃ s, ReflTransGen (Step ()) fresh s ∧
    ∃ e ∈ s.log, e.msg = bootRequest 4 ∧
      read (e.before.files .nbkernel).data 0 (e.before.files .nbkernel).offset = [7, 8] := by
  have r := ReflTransGen.refl (r := Step ()) (a := fresh)
  replace r := r.tail (.host _ (.beacon [7, 8]) _ _ (by simp) rfl)
  replace r := r.tail (.host _ .writeOk _ _ (by simp) rfl)
  replace r := r.tail (.deliver _ (kernelRequest 1) _ _ rfl (read_ofList _))
  replace r := r.tail (.host _ .timeout _ _ (by simp) rfl)
  replace r := r.tail (.host _ .writeOk _ _ (by simp) rfl)
  replace r := r.tail (.ack _ _ ⟨nbMagic, 1, nbAck, 0⟩ _ _ List.mem_cons_self rfl rfl rfl)
  replace r := r.tail (.host _ (.block 1) _ _ (by simp) rfl)
  replace r := r.tail (.host _ .writeOk _ _ (by simp) rfl)
  replace r := r.tail (.deliver _ (kernelRequest 1) _ _ rfl (read_ofList _))
  replace r := r.tail (.deliver _ ⟨⟨nbMagic, 2, nbData, 0⟩, [7]⟩ _ _ rfl (read_ofList _))
  replace r := r.tail (.ack _ _ ⟨nbMagic, 2, nbAck, 0⟩ _ _ List.mem_cons_self rfl rfl rfl)
  replace r := r.tail (.host _ (.block 1) _ _ (by simp) rfl)
  replace r := r.tail (.host _ .writeOk _ _ (by simp) rfl)
  replace r := r.tail (.deliver _ ⟨⟨nbMagic, 3, nbData, 1⟩, [8]⟩ _ _ rfl (read_ofList _))
  replace r := r.tail (.ack _ _ ⟨nbMagic, 3, nbAck, 1⟩ _ _ List.mem_cons_self rfl rfl rfl)
  replace r := r.tail (.host _ .eof _ _ (by simp) rfl)
  replace r := r.tail (.host _ .writeOk _ _ (by simp) rfl)
  replace r := r.tail (.drop _ [] (bootRequest 4) [] rfl)
  replace r := r.tail (.host _ .timeout _ _ (by simp) rfl)
  replace r := r.tail (.host _ .writeOk _ _ (by simp) rfl)
  replace r := r.tail (.deliver _ (bootRequest 4) _ _ rfl (read_ofList _))
  replace r := r.tail (.ack _ _ ⟨nbMagic, 4, nbAck, 0⟩ _ _ List.mem_cons_self rfl rfl rfl)
  obtain ⟨-, ⟨e, he, hm⟩, hall⟩ := transfer_integrity _ _ fresh_initial r (by decide) rfl
  exact ⟨_, r, e, he, hm, (hall e he hm).2.2⟩

end Gigaboot.Netboot.Transfer
