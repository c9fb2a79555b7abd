import Gigaboot.Netboot.Device

/-!
# Retransmission

A host that misses an ack sends the same datagram again.  The comment in
`udp6_recv` says the device then resends the ack; the test for it assigns
`last_arg` instead of comparing it, so a message whose `arg` is 0 is carried out
a second time.

* `idempotent_iff`: a retransmission is answered alike and changes nothing
  exactly when it is not one of the two kinds of message that carry `arg = 0`
  and change the device (`Reruns`): a boot request, and a first block of data
  that fits;
* `lost_first_block_ack_not_resent`: the first data block is such a message.
-/

namespace Gigaboot.Netboot

open ByteMem

/-- The datagram is answered with `a` and leaves the item, the files and the boot
flag alone. -/
def Echoes (d : Device) (data : Mem) (len : Nat) (dport : UInt16) (a : NbMsg) : Prop :=
  (udp6Recv d data len dport).ack = some a ∧
    (udp6Recv d data len dport).dev.item = d.item ∧
    (udp6Recv d data len dport).dev.files = d.files ∧
    (udp6Recv d data len dport).dev.nbBootNow = d.nbBootNow

/-- Any copy of a datagram answered with `a`, if delivered next, is answered alike
and changes nothing, whether or not a poll has consumed the boot flag in between;
in the latter case the poll after it does not report a boot request again. -/
def Idempotent (d : Device) (data : Mem) (len : Nat) (dport : UInt16) (a : NbMsg) : Prop :=
  let d₁ := (udp6Recv d data len dport).dev
  ∀ copy : Mem, (∀ i < len, copy i = data i) →
    Echoes d₁ copy len dport a ∧ Echoes d₁.takeBoot.1 copy len dport a ∧
      (udp6Recv d₁.takeBoot.1 copy len dport).dev.takeBoot.2 = 0

/-- The messages that the device carries out again when they are sent again, and
that change it: `arg` is 0, and it is a boot request or data that fits. -/
def Reruns (d : Device) (m : Datagram) : Prop :=
  m.hdr.arg = 0 ∧ (m.hdr.cmd = nbBoot ∨ m.hdr.cmd = nbData ∧ m.payload ≠ [] ∧
    ∀ f, d.item = some f → m.payload.length ≤ (d.files f).size)

/-- Seen from the device: handling `m` once more in state `e` gives the ack `a` and
keeps the item, the files and the boot flag. -/
def Repeatable (e : Device) (m : Datagram) (a : NbMsg) : Prop :=
  ∃ e', Handled e m e' (some a) ∧ e'.item = e.item ∧ e'.files = e.files ∧
    e'.nbBootNow = e.nbBootNow

/-- A message with `arg ≠ 0` is answered from the cache the second time. -/
theorem repeatable_of_arg_ne_zero {d d₁ e : Device} {m : Datagram} {a : NbMsg}
    (h : Handled d m d₁ (some a)) (harg : m.hdr.arg ≠ 0)
    (hcache : e.lastCookie = d₁.lastCookie ∧ e.lastCmd = d₁.lastCmd ∧
      e.lastAckCmd = d₁.lastAckCmd ∧ e.lastAckArg = d₁.lastAckArg) : Repeatable e m a := by
  obtain ⟨hcookie, hcmd, ha⟩ := h.remembers
  obtain ⟨h₁, h₂, h₃, h₄⟩ := hcache
  have hr : e.Repeats m.hdr := ⟨h₁.trans hcookie, h₂.trans hcmd, harg⟩
  rw [← h₃, ← h₄] at ha
  subst ha
  exact ⟨_, .resend hr, rfl, rfl, rfl⟩

theorem not_repeats_of_arg_zero (e : Device) {msg : NbMsg} (h : msg.arg = 0) : ¬ e.Repeats msg :=
  fun hr => hr.2.2 h

/-- A message with `arg = 0` is carried out the second time; only a boot request and
data that fits show it. -/
theorem repeatable_of_arg_zero {d d₁ e : Device} {m : Datagram} {a : NbMsg}
    (h : Handled d m d₁ (some a)) (harg : m.hdr.arg = 0) (hn : ¬ Reruns d m)
    (hitem : e.item = d₁.item) (hfiles : e.files = d₁.files) : Repeatable e m a := by
  have hnr := not_repeats_of_arg_zero e harg
  have hzero : m.hdr.arg.toNat = 0 := by rw [harg]; rfl
  cases h with
  | resend hr => exact absurd harg hr.2.2
  | command _ hc hp => exact ⟨_, .command hnr hc hp, rfl, rfl, rfl⟩
  | accepted f _ hc hp hf =>
    refine ⟨_, .accepted f hnr hc hp hf, hitem.symm, ?_, rfl⟩
    -- the write pointer is at 0 already
    simp [hfiles]
  | rejected _ hc hp hf => exact ⟨_, .rejected hnr hc hp hf, hitem.symm, rfl, rfl⟩
  | tooLarge f _ hc hf hoff hsz =>
    have hf' : e.item = some f := hitem.trans hf
    have hfile : e.files f = d.files f := congrFun hfiles f
    exact ⟨_, .tooLarge f hnr hc hf' (by rw [hfile]; exact hoff) (by rw [hfile]; exact hsz),
      rfl, rfl, rfl⟩
  | appended f _ hc hf hoff hsz =>
    have hp : m.payload = [] := by
      cases hp : m.payload with
      | nil => rfl
      | cons b bs =>
        refine absurd ⟨harg, .inr ⟨hc, by simp [hp], ?_⟩⟩ hn
        intro f' hf'
        rw [hf, Option.some.injEq] at hf'
        rw [← hf']
        omega
    have hfile : e.files f = d.files f := by
      rw [congrFun hfiles f]
      simp [hp]
    have hf' : e.item = some f := hitem.trans hf
    refine ⟨_, .appended f hnr hc hf' (by rw [hfile]; exact hoff) (by rw [hfile]; exact hsz),
      rfl, ?_, rfl⟩
    simp [hp]
  | boot _ hc => exact absurd ⟨harg, .inl hc⟩ hn
  | badCmd _ h₁ h₂ h₃ h₄ => exact ⟨_, .badCmd hnr h₁ h₂ h₃ h₄, rfl, rfl, rfl⟩

theorem repeatable {d d₁ e : Device} {m : Datagram} {a : NbMsg}
    (h : Handled d m d₁ (some a)) (hn : ¬ Reruns d m) (hitem : e.item = d₁.item)
    (hfiles : e.files = d₁.files)
    (hcache : e.lastCookie = d₁.lastCookie ∧ e.lastCmd = d₁.lastCmd ∧
      e.lastAckCmd = d₁.lastAckCmd ∧ e.lastAckArg = d₁.lastAckArg) : Repeatable e m a := by
  by_cases harg : m.hdr.arg = 0
  · exact repeatable_of_arg_zero h harg hn hitem hfiles
  · exact repeatable_of_arg_ne_zero h harg hcache

/-- A boot request is carried out again after a poll, and so reported again. -/
theorem not_repeatable_boot (d : Device) {m : Datagram} {a : NbMsg}
    (harg : m.hdr.arg = 0) (hc : m.hdr.cmd = nbBoot) : ¬ Repeatable d.takeBoot.1 m a := by
  rintro ⟨e', he, -, -, hboot⟩
  obtain ⟨he', -⟩ := he.unique (.boot (not_repeats_of_arg_zero _ harg) hc)
  rw [he', Device.takeBoot_nbBootNow] at hboot
  exact absurd hboot (by simp)

/-- A first block that was written is taken for misplaced data the second time: the
write pointer has moved, and no ack is sent. -/
theorem not_repeatable_data {d d₁ : Device} {m : Datagram} {a : NbMsg}
    (h : Handled d m d₁ (some a)) (harg : m.hdr.arg = 0) (hc : m.hdr.cmd = nbData)
    (hp : m.payload ≠ [])
    (hfit : ∀ f, d.item = some f → m.payload.length ≤ (d.files f).size) :
    ¬ Repeatable d₁ m a := by
  have hzero : m.hdr.arg.toNat = 0 := by rw [harg]; rfl
  have hpos : 0 < m.payload.length := List.length_pos_iff.mpr hp
  have hnr := not_repeats_of_arg_zero d harg
  -- of the ways to answer a data message only the append is left
  have happ : ∃ f, d.item = some f ∧ d₁ = (d.append f m.payload).done m.hdr nbAck m.hdr.arg := by
    cases h with
    | resend hr => exact absurd hr hnr
    | appended f _ _ hf => exact ⟨f, hf, rfl⟩
    | tooLarge f _ _ hf hoff hsz =>
      have := hfit f hf
      omega
    | command _ hc' | accepted _ _ hc' | rejected _ hc' | boot _ hc' =>
      exact absurd (hc.symm.trans hc') (by decide)
    | badCmd _ _ _ hd => exact absurd hc hd
  obtain ⟨f, hf, rfl⟩ := happ
  rintro ⟨e', he, -, -, -⟩
  have hmis : Handled ((d.append f m.payload).done m.hdr nbAck m.hdr.arg) m _ none :=
    .misplaced (not_repeats_of_arg_zero _ harg) hc (by
      intro f' hf'
      rw [Device.done_item, Device.append_item, hf, Option.some.injEq] at hf'
      subst hf'
      simp only [Device.done_files, Device.append_files, Function.update_self]
      omega)
  exact absurd (he.unique hmis).2 (by simp)

/-- `Echoes` on the bytes is `Repeatable` on the message. -/
theorem echoes_iff (e : Device) {data copy : Mem} {len : Nat} (hlen : nbmsgSize ≤ len)
    (hcopy : ∀ i < len, copy i = data i) (a : NbMsg) :
    Echoes e copy len nbServerPort a ↔ Repeatable e (datagramAt data len) a := by
  obtain ⟨hdev, hack⟩ := udp6Recv_congr e len nbServerPort hcopy
  have hh : Handled e (datagramAt data len) (udp6Recv e data len nbServerPort).dev
      (udp6Recv e data len nbServerPort).ack := by
    rcases udp6Recv_cases e data len nbServerPort with ⟨hf, -⟩ | ⟨-, -, hh⟩
    · exact absurd hf (by simp [hlen])
    · exact hh
  rw [Echoes, hdev, hack]
  constructor
  · rintro ⟨ha, h⟩
    rw [ha] at hh
    exact ⟨_, hh, h⟩
  · rintro ⟨e', he, h⟩
    obtain ⟨h₁, h₂⟩ := hh.unique he
    rw [h₁, h₂]
    exact ⟨rfl, h⟩

/-- **When a retransmission is harmless.**  For every datagram the device answers, in
every state, a copy of it is answered alike and changes nothing exactly when the
message is not carried out again to visible effect. -/
theorem idempotent_iff (d : Device) (data : Mem) (len : Nat) (dport : UInt16) (a : NbMsg)
    (ha : (udp6Recv d data len dport).ack = some a) :
    Idempotent d data len dport a ↔ ¬ Reruns d (datagramAt data len) := by
  obtain ⟨rfl, hlen, h⟩ : dport = nbServerPort ∧ nbmsgSize ≤ len ∧
      Handled d (datagramAt data len) (udp6Recv d data len dport).dev (some a) := by
    rcases udp6Recv_cases d data len dport with ⟨-, -, hnone⟩ | hm
    · rw [hnone] at ha
      cases ha
    · rwa [ha] at hm
  constructor
  · rintro hidem ⟨harg, hc | ⟨hc, hp, hfit⟩⟩
    · have he := (hidem data (fun _ _ => rfl)).2.1
      rw [echoes_iff _ hlen (fun _ _ => rfl)] at he
      exact not_repeatable_boot _ harg hc he
    · have he := (hidem data (fun _ _ => rfl)).1
      rw [echoes_iff _ hlen (fun _ _ => rfl)] at he
      exact not_repeatable_data h harg hc hp hfit he
  · intro hn copy hcopy
    have h₁ : Echoes _ copy len nbServerPort a :=
      (echoes_iff _ hlen hcopy a).mpr (repeatable h hn rfl rfl ⟨rfl, rfl, rfl, rfl⟩)
    have h₂ : Echoes _ copy len nbServerPort a :=
      (echoes_iff _ hlen hcopy a).mpr (repeatable h hn (Device.takeBoot_item _)
        (Device.takeBoot_files _) (Device.takeBoot_cache _))
    refine ⟨h₁, h₂, ?_⟩
    exact Device.takeBoot_snd (h₂.2.2.2.trans (Device.takeBoot_nbBootNow _))

def firstBlock : Datagram := ⟨⟨nbMagic, 2, nbData, 0⟩, [77]⟩

/-- A device that has been asked for a kernel and has no data yet. -/
def receiving : Device :=
  (recv (Device.start (fun _ => 0) (fun _ => 0)) (kernelRequest 1).bytes).dev

theorem receiving_reachable : receiving.Reachable :=
  (Transition.Reachable.of_init ⟨_, _, rfl⟩).next ⟨.recv _ _ _, rfl⟩

/-- A second block of one byte, at offset 1, is answered from the cache when it is
sent again. -/
theorem second_block_idempotent :
    (recv (recv receiving firstBlock.bytes).dev
      (Datagram.mk ⟨nbMagic, 3, nbData, 1⟩ [90]).bytes).ack = some ⟨nbMagic, 3, nbAck, 1⟩ ∧
    Idempotent (recv receiving firstBlock.bytes).dev
      (ofList (Datagram.mk ⟨nbMagic, 3, nbData, 1⟩ [90]).bytes) 17 nbServerPort
      ⟨nbMagic, 3, nbAck, 1⟩ :=
  ⟨by decide, (idempotent_iff _ _ _ _ _ (by decide)).mpr fun h => absurd h.1 (by decide)⟩

/-- **The ack of the first block is not resent.**  A device that has acked the first
block of a file does not answer the same datagram again. -/
theorem lost_first_block_ack_not_resent :
    receiving.Reachable ∧ (recv receiving firstBlock.bytes).ack = some ⟨nbMagic, 2, nbAck, 0⟩ ∧
    (recv (recv receiving firstBlock.bytes).dev firstBlock.bytes).ack = none ∧
    ¬ Idempotent receiving (ofList firstBlock.bytes) firstBlock.bytes.length nbServerPort
      ⟨nbMagic, 2, nbAck, 0⟩ := by
  have hnone : (recv (recv receiving firstBlock.bytes).dev firstBlock.bytes).ack = none := by
    decide
  refine ⟨receiving_reachable, by decide, hnone, ?_⟩
  intro h
  have hack := (h (ofList firstBlock.bytes) (fun _ _ => rfl)).1.1
  have hsame : (recv (recv receiving firstBlock.bytes).dev firstBlock.bytes).ack =
      some ⟨nbMagic, 2, nbAck, 0⟩ := hack
  rw [hnone] at hsame
  cases hsame

end Gigaboot.Netboot
