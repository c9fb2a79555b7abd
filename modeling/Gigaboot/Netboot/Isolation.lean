import Gigaboot.Netboot.Transfer

/-!
# Several servers and one device

Any number of server processes transfer their files to the same device, each over
channels that lose nothing and keep the order.  The device has one item, one write
pointer and one cached ack, and looks at no sender address.

* `view`, `view_step`: what one process sees is a run of the system of `Transfer`;
* `undisturbed_transfer`: a transfer is sound if no other process moved the write pointer
  between its request and its boot command;
* `boots_other_file`: otherwise it can boot another process's file.
-/

namespace Gigaboot.Netboot.Isolation

open ByteMem Relation Transfer

variable {ι : Type*}

structure Net (ι : Type*) where
  hosts : ι → Host
  dev : Device
  /-- the messages of each process on their way to the device, oldest first -/
  toDev : ι → List Datagram
  /-- the acks on their way to each process, oldest first -/
  acks : ι → List NbMsg
  /-- what the device has looked at, newest first -/
  log : List (Entry ι)

/-- Processes just started, a device in any state, and nothing on the network. -/
def Net.Initial (s : Net ι) : Prop :=
  (∀ i, s.hosts i = Host.start) ∧ s.dev.Reachable ∧ (∀ i, s.toDev i = []) ∧
    (∀ i, s.acks i = []) ∧ s.log = []

def Net.view (s : Net ι) (i : ι) : Sys ι := ⟨s.hosts i, s.dev, s.toDev i, s.log⟩

structure Inv (s : Net ι) : Prop where
  dev : s.dev.Bounded
  handled : ∀ e ∈ s.log, Handled e.before e.msg e.after e.ack ∧ e.before.Bounded
  hosts : ∀ i, HostInv (s.hosts i)
  /-- only messages of some transfer are on the network -/
  genuine : ∀ i, ∀ m ∈ s.toDev i, ∃ file, Genuine file m
  /-- only acks that the device has sent -/
  acks : ∀ i, ∀ a ∈ s.acks i, ∃ e ∈ s.log, e.sender = i ∧ e.ack = some a

theorem inv_initial {s : Net ι} (h : s.Initial) : Inv s := by
  obtain ⟨hhosts, hdev, hq, hacks, hlog⟩ := h
  refine ⟨hdev.bounded, by simp [hlog], fun i => ?_, by simp [hq], by simp [hacks]⟩
  rw [hhosts i]
  exact .outside (by simp [Host.start]) (by simp [Host.start]) (by simp [Host.start])
    (by simp [Host.start])

theorem view_initial {s : Net ι} (h : s.Initial) (i : ι) : (s.view i).Initial :=
  ⟨h.1 i, h.2.1, h.2.2.1 i, h.2.2.2.2⟩

/-! ## Steps -/

variable [DecidableEq ι]

def Net.setHost (s : Net ι) (i : ι) (h' : Host) (out : Option Datagram) : Net ι :=
  { s with
    hosts := Function.update s.hosts i h'
    toDev := Function.update s.toDev i (s.toDev i ++ out.toList) }

/-- The device takes the entry `e` from the queue of its sender, which becomes `rest`. -/
def Net.take (s : Net ι) (e : Entry ι) (rest : List Datagram) : Net ι :=
  { s with
    dev := e.after
    toDev := Function.update s.toDev e.sender rest
    acks := Function.update s.acks e.sender (s.acks e.sender ++ e.ack.toList)
    log := e :: s.log }

inductive Step : Net ι → Net ι → Prop
  | host (s : Net ι) (i : ι) (e : HostEvent) (h' : Host) (out : Option Datagram) :
      (∀ bs, e ≠ .datagram bs) → hostStep (s.hosts i) e = some (h', out) →
      Step s (s.setHost i h' out)
  | ack (s : Net ι) (i : ι) (a : NbMsg) (rest : List NbMsg) (h' : Host)
      (out : Option Datagram) :
      s.acks i = a :: rest → hostStep (s.hosts i) (.datagram a.bytes) = some (h', out) →
      Step s { s.setHost i h' out with acks := Function.update s.acks i rest }
  | deliver (s : Net ι) (i : ι) (m : Datagram) (rest : List Datagram) (data : Mem) :
      s.toDev i = m :: rest → read data 0 m.bytes.length = m.bytes →
      Step s (s.take (look i s.dev m data) rest)
  | tick (s : Net ι) : Step s { s with dev := { s.dev with nbActive := false } }
  | poll (s : Net ι) : Step s { s with dev := s.dev.takeBoot.1 }

/-- A step of a process keeps the invariant, if the ack it takes acks no offset beyond
the largest file. -/
theorem Inv.setHost {s : Net ι} (hi : Inv s) {i : ι} {e : HostEvent} {h' : Host}
    {out : Option Datagram} (hm : Moves (s.hosts i) e h' out)
    (hack : ∀ bs, e = .datagram bs → (s.hosts i).accepts bs = true →
      (s.hosts i).msg.hdr.arg.toNat ≤ rbufSize) : Inv (s.setHost i h' out) := by
  refine ⟨hi.dev, hi.handled, ?_, ?_, hi.acks⟩
  · intro j
    show HostInv (Function.update s.hosts i h' j)
    rw [Function.update_apply]
    split
    · exact (hi.hosts i).moves hm hack
    · exact hi.hosts j
  · intro j m hmem
    simp only [Net.setHost, Function.update_apply] at hmem
    split at hmem
    · rcases List.mem_append.mp hmem with hmem | hmem
      · exact hi.genuine i m hmem
      · obtain ⟨hpc, rfl⟩ := hm.sends hmem
        exact ⟨_, (hi.hosts i).genuine (.inl hpc)⟩
    · exact hi.genuine j m hmem

theorem Inv.take {s : Net ι} (hi : Inv s) {e : Entry ι} {rest : List Datagram}
    (hq : ∀ m ∈ rest, m ∈ s.toDev e.sender) (hbefore : e.before = s.dev)
    (hh : Handled e.before e.msg e.after e.ack) : Inv (s.take e rest) := by
  have hb : e.before.Bounded := by rw [hbefore]; exact hi.dev
  refine ⟨hh.bounded hb, ?_, hi.hosts, ?_, ?_⟩
  · intro e' he
    rcases List.mem_cons.mp he with rfl | he
    · exact ⟨hh, hb⟩
    · exact hi.handled e' he
  · intro j m hmem
    simp only [Net.take, Function.update_apply] at hmem
    split at hmem
    · exact hi.genuine _ m (hq m hmem)
    · exact hi.genuine j m hmem
  · intro j a ha
    have hold : ∀ k, a ∈ s.acks k → ∃ e' ∈ e :: s.log, e'.sender = k ∧ e'.ack = some a := by
      intro k hk
      obtain ⟨e', he, hrest⟩ := hi.acks k a hk
      exact ⟨e', List.mem_cons_of_mem _ he, hrest⟩
    simp only [Net.take, Function.update_apply] at ha
    split at ha
    · rename_i hj
      rcases List.mem_append.mp ha with ha | ha
      · rw [hj]
        exact hold _ ha
      · exact ⟨e, List.mem_cons_self, hj.symm, Option.mem_toList.mp ha⟩
    · exact hold j ha

theorem inv_step {s t : Net ι} (hi : Inv s) (hst : Step s t) : Inv t := by
  cases hst with
  | host i e h' out hne hs =>
    exact hi.setHost (hostStep_moves hs) fun bs he => absurd he (hne bs)
  | ack i a rest h' out hq hs =>
    have hmem : ∀ b ∈ a :: rest, ∃ e ∈ s.log, e.sender = i ∧ e.ack = some b := by
      rw [← hq]
      exact hi.acks i
    have hi' := hi.setHost (hostStep_moves hs) (by
      rintro bs ⟨⟩ hacc
      rw [Host.accepts_bytes] at hacc
      obtain ⟨e, he, -, ha⟩ := hmem a List.mem_cons_self
      obtain ⟨hh, hb⟩ := hi.handled e he
      rw [ha, hacc] at hh
      exact hh.ack_le hb rfl)
    refine ⟨hi'.dev, hi'.handled, hi'.hosts, hi'.genuine, ?_⟩
    intro j b hb
    simp only [Function.update_apply] at hb
    split at hb
    · rename_i hj
      rw [hj]
      exact hmem b (List.mem_cons_of_mem _ hb)
    · exact hi.acks j b hb
  | deliver i m rest data hq hdata =>
    refine hi.take (fun m' h => ?_) rfl (look_handled i s.dev m hdata)
    show m' ∈ s.toDev i
    rw [hq]
    exact List.mem_cons_of_mem _ h
  | tick => exact ⟨hi.dev.congr rfl hi.dev.ack_le, hi.handled, hi.hosts, hi.genuine, hi.acks⟩
  | poll =>
    exact ⟨Device.takeBoot_bounded hi.dev, hi.handled, hi.hosts, hi.genuine, hi.acks⟩

/-- A step of one process is a step or no change in the view of any. -/
theorem view_setHost (s : Net ι) (i j : ι) (h' : Host) (out : Option Datagram) :
    (s.setHost i h' out).view j = if j = i then
      { s.view i with host := h', toDev := s.toDev i ++ out.toList } else s.view j := by
  split
  · rename_i hj
    subst hj
    simp [Net.view, Net.setHost]
  · rename_i hj
    simp [Net.view, Net.setHost, hj]

/-- **Refinement.**  What the process `i` sees of a step is a step of `Transfer`, or
nothing. -/
theorem view_step {s t : Net ι} (hi : Inv s) (hst : Step s t) (i : ι) :
    ReflTransGen (Transfer.Step i) (s.view i) (t.view i) := by
  cases hst with
  | host j e h' out hne hs =>
    rw [view_setHost]
    split
    · rename_i hij
      subst hij
      exact .single (.host (s.view i) e h' out hne hs)
    · exact .refl
  | ack j a rest h' out hq hs =>
    show ReflTransGen _ _ ((s.setHost j h' out).view i)
    rw [view_setHost]
    split
    · rename_i hij
      subst hij
      obtain ⟨e, he, hsend, ha⟩ := hi.acks i a (by rw [hq]; exact List.mem_cons_self)
      exact .single (.ack (s.view i) e a h' out he hsend ha hs)
    · exact .refl
  | deliver j m rest data hq hdata =>
    by_cases hij : j = i
    · subst hij
      have hv : (s.take (look j s.dev m data) rest).view j = { s.view j with
          dev := (look j s.dev m data).after
          toDev := rest
          log := look j s.dev m data :: s.log } := by
        simp [Net.view, Net.take, look]
      rw [hv]
      exact .single (.deliver (s.view j) m rest data hq hdata)
    · have hv : (s.take (look j s.dev m data) rest).view i = { s.view i with
          dev := (look j s.dev m data).after
          log := look j s.dev m data :: s.log } := by
        simp [Net.view, Net.take, look, Function.update_of_ne (Ne.symm hij)]
      rw [hv]
      obtain ⟨file, hg⟩ := hi.genuine j m (by rw [hq]; exact List.mem_cons_self)
      exact .single (.foreign (s.view i) j file m data hij hg hdata)
  | tick => exact .single (.tick (s.view i))
  | poll => exact .single (.poll (s.view i))

theorem view_run {s₀ s : Net ι} (h₀ : s₀.Initial) (hrun : ReflTransGen Step s₀ s) (i : ι) :
    Inv s ∧ ReflTransGen (Transfer.Step i) (s₀.view i) (s.view i) := by
  induction hrun with
  | refl => exact ⟨inv_initial h₀, .refl⟩
  | tail _ hst ih => exact ⟨inv_step ih.1 hst, ih.2.trans (view_step ih.1 hst i)⟩

/-- **Isolation, if undisturbed.**  Once the boot command of the process `i` is acked,
the device has looked at it; and each time it did, if since the last request of `i` no
message of another process had moved the write pointer, the kernel buffer held exactly
the file of `i`. -/
theorem undisturbed_transfer (s₀ s : Net ι) (h₀ : s₀.Initial) (hrun : ReflTransGen Step s₀ s)
    (i : ι) (hcalls : (s.hosts i).calls < 2 ^ 32) (hpc : (s.hosts i).pc = .booted) :
    (∃ e ∈ s.log, e.sender = i ∧ e.msg = (s.hosts i).msg) ∧
    ∀ e earlier, e :: earlier <:+ s.log → e.sender = i → e.msg = (s.hosts i).msg →
      Undisturbed i earlier →
      (e.before.files .nbkernel).offset = (s.hosts i).file.length ∧
      read (e.before.files .nbkernel).data 0 (e.before.files .nbkernel).offset =
        (s.hosts i).file := by
  have hinv : Transfer.Inv i (s.view i) :=
    Transfer.inv_run (view_initial h₀ i) (view_run h₀ hrun i).2 hcalls
  obtain ⟨hex, hall⟩ := hinv.boots hpc
  refine ⟨hex, ?_⟩
  intro e earlier hsuf hs hm hu
  exact ((hall e earlier hsuf hs hm).2.2 hu).2

def fresh : Net Bool where
  hosts := fun _ => Host.start
  dev := Device.start (fun _ => 0) (fun _ => 0)
  toDev := fun _ => []
  acks := fun _ => []
  log := []

theorem fresh_initial : fresh.Initial :=
  ⟨fun _ => rfl, .of_init ⟨_, _, rfl⟩, fun _ => rfl, fun _ => rfl, rfl⟩

def block (b : UInt8) : Datagram := ⟨⟨nbMagic, 2, nbData, 0⟩, [b]⟩

/-- The process `false` transfers `[1]`.  The request of `true` comes after its own, but
before its block, and moves no write pointer. -/
theorem undisturbed_transfer_one_byte : ∃ s, ReflTransGen Step fresh s ∧
    (s.hosts false).file = [1] ∧ ∃ e ∈ s.log, e.sender = false ∧ e.msg = bootRequest 3 ∧
      read (e.before.files .nbkernel).data 0 (e.before.files .nbkernel).offset = [1] := by
  have r := ReflTransGen.refl (r := Step) (a := fresh)
  replace r := r.tail (.host _ false (.beacon [1]) _ _ (by simp) rfl)
  replace r := r.tail (.host _ false .writeOk _ _ (by simp) rfl)
  replace r := r.tail (.deliver _ false (kernelRequest 1) _ _ rfl (read_ofList _))
  replace r := r.tail (.ack _ false ⟨nbMagic, 1, nbAck, 0⟩ _ _ _ rfl rfl)
  replace r := r.tail (.host _ true (.beacon [2]) _ _ (by simp) rfl)
  replace r := r.tail (.host _ true .writeOk _ _ (by simp) rfl)
  replace r := r.tail (.deliver _ true (kernelRequest 1) _ _ rfl (read_ofList _))
  replace r := r.tail (.host _ false (.block 1) _ _ (by simp) rfl)
  replace r := r.tail (.host _ false .writeOk _ _ (by simp) rfl)
  replace r := r.tail (.deliver _ false (block 1) _ _ rfl (read_ofList _))
  replace r := r.tail (.ack _ false ⟨nbMagic, 2, nbAck, 0⟩ _ _ _ rfl rfl)
  replace r := r.tail (.host _ false .eof _ _ (by simp) rfl)
  replace r := r.tail (.host _ false .writeOk _ _ (by simp) rfl)
  replace r := r.tail (.deliver _ false (bootRequest 3) _ _ rfl (read_ofList _))
  replace r := r.tail (.ack _ false ⟨nbMagic, 3, nbAck, 0⟩ _ _ _ rfl rfl)
  have hall := (undisturbed_transfer _ _ fresh_initial r false (by decide) rfl).2
  refine ⟨_, r, rfl, _, List.mem_cons_self, rfl, rfl, ?_⟩
  refine (hall _ _ (List.suffix_refl _) rfl rfl (.inr ⟨?_, .inr ⟨?_, .inl ⟨rfl, rfl⟩⟩⟩)).2
  · exact fun hd => hd.1 rfl
  · exact fun hd => hd.2 rfl

/-- The process `true` transfers `[2]` after `false` has sent its only block; the boot
command of `false` is then acked, and the device holds `[2]`. -/
theorem boots_other_file : ∃ s, ReflTransGen Step fresh s ∧
    (s.hosts false).pc = .booted ∧ (s.hosts false).file = [1] ∧ (s.hosts true).file = [2] ∧
    ∃ e ∈ s.log, e.sender = false ∧ e.msg = (s.hosts false).msg ∧
      read (e.before.files .nbkernel).data 0 (e.before.files .nbkernel).offset = [2] := by
  have r := ReflTransGen.refl (r := Step) (a := fresh)
  replace r := r.tail (.host _ false (.beacon [1]) _ _ (by simp) rfl)
  replace r := r.tail (.host _ false .writeOk _ _ (by simp) rfl)
  replace r := r.tail (.deliver _ false (kernelRequest 1) _ _ rfl (read_ofList _))
  replace r := r.tail (.ack _ false ⟨nbMagic, 1, nbAck, 0⟩ _ _ _ rfl rfl)
  replace r := r.tail (.host _ false (.block 1) _ _ (by simp) rfl)
  replace r := r.tail (.host _ false .writeOk _ _ (by simp) rfl)
  replace r := r.tail (.deliver _ false (block 1) _ _ rfl (read_ofList _))
  replace r := r.tail (.ack _ false ⟨nbMagic, 2, nbAck, 0⟩ _ _ _ rfl rfl)
  replace r := r.tail (.host _ true (.beacon [2]) _ _ (by simp) rfl)
  replace r := r.tail (.host _ true .writeOk _ _ (by simp) rfl)
  replace r := r.tail (.deliver _ true (kernelRequest 1) _ _ rfl (read_ofList _))
  replace r := r.tail (.ack _ true ⟨nbMagic, 1, nbAck, 0⟩ _ _ _ rfl rfl)
  replace r := r.tail (.host _ true (.block 1) _ _ (by simp) rfl)
  replace r := r.tail (.host _ true .writeOk _ _ (by simp) rfl)
  replace r := r.tail (.deliver _ true (block 2) _ _ rfl (read_ofList _))
  replace r := r.tail (.host _ false .eof _ _ (by simp) rfl)
  replace r := r.tail (.host _ false .writeOk _ _ (by simp) rfl)
  replace r := r.tail (.deliver _ false (bootRequest 3) _ _ rfl (read_ofList _))
  replace r := r.tail (.ack _ false ⟨nbMagic, 3, nbAck, 0⟩ _ _ _ rfl rfl)
  exact ⟨_, r, rfl, rfl, rfl, _, List.mem_cons_self, rfl, rfl, by decide⟩

end Gigaboot.Netboot.Isolation
