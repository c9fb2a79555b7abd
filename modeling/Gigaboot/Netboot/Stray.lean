import Gigaboot.Lib.Insertion
import Gigaboot.Netboot.Device

/-!
# Stray datagrams

What datagrams that are no netboot messages do to a transfer when they get in between.
`udp6_recv` looks at the port and the length, and never at the magic word: a datagram of
16 bytes with any other first word is carried out like a message.

* `Unread`: two states that `udp6_recv` cannot tell apart;
* `strays_harmless_iff`: which datagrams may be inserted anywhere without a trace;
* `wrong_magic_boots`: a datagram with a wrong magic word that is obeyed.
-/

namespace Gigaboot.Netboot.Stray

open ByteMem Insertion

/-- The arguments of a call of `udp6_recv` that it looks at. -/
structure Delivery where
  data : Mem
  len : Nat
  dport : UInt16

def Delivery.of (m : Datagram) : Delivery := ⟨ofList m.bytes, m.bytes.length, nbServerPort⟩

/-- The datagram is no netboot message. -/
def IsStray (x : Delivery) : Prop :=
  x.dport ≠ nbServerPort ∨ x.len < nbmsgSize ∨ (nbmsgAt x.data).magic ≠ nbMagic

def deliver (d : Device) (x : Delivery) : Device × Option NbMsg :=
  let r := udp6Recv d x.data x.len x.dport
  (r.dev, r.ack)

/-- What is compared: the acks for the datagrams that were not inserted, and the files, the
item and the boot flag at the end. -/
structure Outcome where
  acks : List (Option NbMsg)
  files : FileId → NbFile
  item : Option FileId
  nbBootNow : Bool

def outcome (d : Device) (es : List (Tagged Delivery)) : Outcome :=
  let r := run deliver d es
  ⟨r.2, r.1.files, r.1.item, r.1.nbBootNow⟩

/-- The datagrams that never leave a trace: those for another port, those without a
header, requests without data, and data for an offset beyond the largest file. -/
def Inert (x : Delivery) : Prop :=
  x.dport ≠ nbServerPort ∨ x.len < nbmsgSize ∨
    ((nbmsgAt x.data).cmd = nbCommand ∨ (nbmsgAt x.data).cmd = nbSendFile) ∧ x.len = nbmsgSize ∨
    (nbmsgAt x.data).cmd = nbData ∧ rbufSize < (nbmsgAt x.data).arg.toNat

instance (x : Delivery) : Decidable (IsStray x) := inferInstanceAs (Decidable (_ ∨ _))
instance (x : Delivery) : Decidable (Inert x) := inferInstanceAs (Decidable (_ ∨ _))

/-! ## Inert datagrams -/

/-- The states differ in variables that `udp6_recv` writes and never reads. -/
def Unread (d e : Device) : Prop :=
  ∃ arg active, e = { d with lastArg := arg, nbActive := active }

theorem Unread.refl (d : Device) : Unread d d := ⟨d.lastArg, d.nbActive, rfl⟩

theorem Unread.symm {d e : Device} (h : Unread d e) : Unread e d := by
  obtain ⟨arg, active, rfl⟩ := h
  exact ⟨d.lastArg, d.nbActive, rfl⟩

theorem Unread.trans {d e f : Device} (h : Unread d e) (h' : Unread e f) : Unread d f := by
  obtain ⟨arg, active, rfl⟩ := h
  obtain ⟨arg', active', rfl⟩ := h'
  exact ⟨arg', active', rfl⟩

theorem unread_touch (d : Device) (msg : NbMsg) : Unread d (d.touch msg) := by
  rcases d.touch_cases msg with h | h <;> rw [h]
  · exact .refl d
  · exact ⟨msg.arg, d.nbActive, rfl⟩

theorem handled_unread {d e d' : Device} {m : Datagram} {a : Option NbMsg} (h : Unread d e)
    (hd : Handled d m d' a) : ∃ e', Handled e m e' a ∧ Unread d' e' := by
  have htouch : Unread (d.touch m.hdr) (e.touch m.hdr) :=
    ((unread_touch d m.hdr).symm.trans h).trans (unread_touch e m.hdr)
  obtain ⟨arg, active, rfl⟩ := h
  cases hd with
  | resend hr => exact ⟨_, .resend hr, m.hdr.arg, true, rfl⟩
  | empty hr hc hp => exact ⟨_, .empty hr hc hp, htouch⟩
  | command hr hc hp => exact ⟨_, .command hr hc hp, m.hdr.arg, true, rfl⟩
  | accepted f hr hc hp hf => exact ⟨_, .accepted f hr hc hp hf, m.hdr.arg, true, rfl⟩
  | rejected hr hc hp hf => exact ⟨_, .rejected hr hc hp hf, m.hdr.arg, true, rfl⟩
  | misplaced hr hc ho => exact ⟨_, .misplaced hr hc ho, htouch⟩
  | tooLarge f hr hc hi ho hs => exact ⟨_, .tooLarge f hr hc hi ho hs, m.hdr.arg, true, rfl⟩
  | appended f hr hc hi ho hs => exact ⟨_, .appended f hr hc hi ho hs, m.hdr.arg, true, rfl⟩
  | boot hr hc => exact ⟨_, .boot hr hc, m.hdr.arg, true, rfl⟩
  | badCmd hr h₁ h₂ h₃ h₄ => exact ⟨_, .badCmd hr h₁ h₂ h₃ h₄, m.hdr.arg, true, rfl⟩

theorem deliver_unread {d e : Device} (h : Unread d e) (x : Delivery) :
    Unread (deliver d x).1 (deliver e x).1 ∧ (deliver d x).2 = (deliver e x).2 := by
  rcases udp6Recv_cases d x.data x.len x.dport with ⟨hf, -⟩ | ⟨hport, hlen, hd⟩
  · simp only [deliver, udp6Recv_foreign _ _ _ _ hf]
    exact ⟨h, trivial⟩
  · rcases udp6Recv_cases e x.data x.len x.dport with ⟨hf, -⟩ | ⟨-, -, he⟩
    · exact absurd hport (hf.resolve_right (Nat.not_lt.mpr hlen))
    · obtain ⟨e', he', hu⟩ := handled_unread h hd
      obtain ⟨h₁, h₂⟩ := he'.unique he
      simp only [deliver]
      rw [← h₁, ← h₂]
      exact ⟨hu, rfl⟩

/-- A request without data is answered from the cache or ignored. -/
theorem handled_without_data {d d' : Device} {m : Datagram} {a : Option NbMsg}
    (hc : m.hdr.cmd = nbCommand ∨ m.hdr.cmd = nbSendFile) (hp : m.payload = [])
    (h : Handled d m d' a) : Unread d d' := by
  have hcmd : ∀ c, m.hdr.cmd = c → c = nbCommand ∨ c = nbSendFile := fun c h => h ▸ hc
  cases h with
  | resend => exact ⟨_, true, rfl⟩
  | empty => exact unread_touch _ _
  | misplaced => exact unread_touch _ _
  | command _ _ hp' => exact absurd hp hp'
  | accepted _ _ _ hp' => exact absurd hp hp'
  | rejected _ _ hp' => exact absurd hp hp'
  | tooLarge _ _ hd => exact absurd (hcmd _ hd) (by decide)
  | appended _ _ hd => exact absurd (hcmd _ hd) (by decide)
  | boot _ hb => exact absurd (hcmd _ hb) (by decide)
  | badCmd _ h₁ h₂ => exact absurd hc (not_or.mpr ⟨h₁, h₂⟩)

/-- Data beyond the largest file is answered from the cache or ignored. -/
theorem handled_beyond {d d' : Device} {m : Datagram} {a : Option NbMsg} (hb : d.Bounded)
    (hc : m.hdr.cmd = nbData) (harg : rbufSize < m.hdr.arg.toNat)
    (h : Handled d m d' a) : Unread d d' := by
  have hcmd : ∀ c, m.hdr.cmd = c → c = nbData := fun c h => h.symm.trans hc
  have hoff : ∀ f, m.hdr.arg.toNat ≠ (d.files f).offset := by
    intro f ho
    have hle := hb.offset_le f
    have hcap := f.capacity_le
    omega
  cases h with
  | resend => exact ⟨_, true, rfl⟩
  | empty => exact unread_touch _ _
  | misplaced => exact unread_touch _ _
  | command _ h₁ => exact absurd (hcmd _ h₁) (by decide)
  | accepted _ _ h₁ => exact absurd (hcmd _ h₁) (by decide)
  | rejected _ h₁ => exact absurd (hcmd _ h₁) (by decide)
  | tooLarge f _ _ _ ho => exact absurd ho (hoff f)
  | appended f _ _ _ ho => exact absurd ho (hoff f)
  | boot _ h₁ => exact absurd (hcmd _ h₁) (by decide)
  | badCmd _ _ _ h₁ => exact absurd hc h₁

theorem deliver_inert {d : Device} (hb : d.Bounded) {x : Delivery} (hx : Inert x) :
    Unread d (deliver d x).1 := by
  rcases udp6Recv_cases d x.data x.len x.dport with ⟨-, hdev, -⟩ | ⟨hport, hlen, hd⟩
  · simp only [deliver, hdev]
    exact .refl d
  · rcases hx with hp | hl | ⟨hc, hl⟩ | ⟨hc, harg⟩
    · exact absurd hport hp
    · exact absurd hlen (Nat.not_le.mpr hl)
    · refine handled_without_data hc ?_ hd
      simp [datagramAt, hl]
    · exact handled_beyond hb hc harg hd

/-- Inert datagrams can be taken out of a sequence. -/
theorem outcome_originals {d : Device} (hb : d.Bounded) {es : List (Tagged Delivery)}
    (hes : ∀ e ∈ es, e.inserted = true → Inert e.event) :
    outcome d es = outcome d (originals es) := by
  have hstep : ∀ s t x, s.Bounded ∧ Unread s t →
      ((deliver s x).1.Bounded ∧ Unread (deliver s x).1 (deliver t x).1) ∧
        (deliver s x).2 = (deliver t x).2 := by
    rintro s t x ⟨hs, hu⟩
    obtain ⟨hu', hack⟩ := deliver_unread hu x
    exact ⟨⟨udp6Recv_bounded hs _ _ _, hu'⟩, hack⟩
  have hins : ∀ s t x, Inert x → s.Bounded ∧ Unread s t →
      (deliver s x).1.Bounded ∧ Unread (deliver s x).1 t := by
    rintro s t x hx ⟨hs, hu⟩
    exact ⟨udp6Recv_bounded hs _ _ _, (deliver_inert hs hx).symm.trans hu⟩
  obtain ⟨⟨-, arg, active, hstate⟩, hacks⟩ := run_originals hstep hins ⟨hb, Unread.refl d⟩ hes
  unfold outcome
  dsimp only
  rw [hacks, hstate]

/-! ## Any other datagram is noticed -/

def original (m : Datagram) : Tagged Delivery := ⟨false, .of m⟩

theorem deliver_of {d d' : Device} {m : Datagram} {a : Option NbMsg} (h : Handled d m d' a) :
    deliver d (.of m) = (d', a) := by
  obtain ⟨h₁, h₂⟩ := (udp6Recv_handled d m (ofList m.bytes) (read_ofList _)).unique h
  simp only [deliver, Delivery.of]
  rw [h₁, h₂]

theorem run_original {d d' : Device} {m : Datagram} {a : Option NbMsg} (h : Handled d m d' a)
    (es : List (Tagged Delivery)) :
    run deliver d (original m :: es) = ((run deliver d' es).1, a :: (run deliver d' es).2) := by
  simp only [run, original, deliver_of h]
  rfl

def ramdiskRequest : Datagram := ⟨⟨nbMagic, 0, nbSendFile, 0⟩, ramdiskBin ++ [0]⟩

def block (i : Nat) : Datagram := ⟨⟨nbMagic, UInt32.ofNat i, nbData, UInt32.ofNat i⟩, [0]⟩

/-- A command that is carried out and remembered. -/
def marker (c : UInt32) : Datagram := ⟨⟨nbMagic, c, nbCommand, 0⟩, [0]⟩

/-- A command without data: it is answered if `marker` was the last one carried out. -/
def probe (c : UInt32) : Datagram := ⟨⟨nbMagic, c, nbCommand, 1⟩, []⟩

structure Filled (k : Nat) (d : Device) : Prop where
  item : d.item = some .nbramdisk
  offset : (d.files .nbramdisk).offset = k
  size : (d.files .nbramdisk).size = rbufSize
  /-- the next block is no retransmission -/
  fresh : d.lastCmd = nbData → d.lastCookie ≠ UInt32.ofNat k

theorem Filled.next {k : Nat} {d : Device} (h : Filled k d) (hk : k < rbufSize) :
    ∃ d' a, Handled d (block k) d' a ∧ Filled (k + 1) d' := by
  have hsmall : rbufSize < 2 ^ 32 := by decide
  have hnr : ¬ d.Repeats (block k).hdr := fun hr => h.fresh hr.2.1 hr.1
  have hoff : (block k).hdr.arg.toNat = (d.files .nbramdisk).offset := by
    rw [h.offset]
    show k % 2 ^ 32 = k
    omega
  have hfits : (d.files .nbramdisk).offset + (block k).payload.length ≤
      (d.files .nbramdisk).size := by
    rw [h.offset, h.size]
    exact hk
  refine ⟨_, _, .appended .nbramdisk hnr rfl h.item hoff hfits, h.item, ?_, ?_, ?_⟩
  · simp [h.offset, block]
  · simp [h.size]
  · intro _ hcookie
    have hcookie' : UInt32.ofNat k = UInt32.ofNat (k + 1) := hcookie
    have := congrArg UInt32.toNat hcookie'
    simp only [UInt32.toNat_ofNat'] at this
    omega

theorem run_blocks {d : Device} (h : Filled 0 d) {a : Nat} (ha : a ≤ rbufSize) :
    Filled a (run deliver d ((List.range a).map fun i => original (block i))).1 := by
  induction a with
  | zero => exact h
  | succ a ih =>
    obtain ⟨d', ack, hd, hfilled⟩ := (ih (by omega)).next (by omega)
    rw [List.range_succ, List.map_append, run_append]
    simp only [List.map_cons, List.map_nil, run_original hd]
    exact hfilled

/-- Messages that bring a device to the offset `a` of the ramdisk, with a command as the
last thing it did. -/
def approach (a : Nat) (c : UInt32) : List (Tagged Delivery) :=
  original ramdiskRequest :: (List.range a).map (fun i => original (block i)) ++
    [original (marker c)]

/-- The device is at the offset `a` of its item and remembers `marker c`. -/
structure Poised (a : Nat) (c : UInt32) (d : Device) : Prop where
  item : d.item = some .nbramdisk
  offset : (d.files .nbramdisk).offset = a
  lastCookie : d.lastCookie = c
  lastCmd : d.lastCmd = nbCommand

theorem run_approach (k r : Mem) {a : Nat} (ha : a ≤ rbufSize) (c : UInt32) :
    Poised a c (run deliver (Device.start k r) (approach a c)).1 := by
  have hnr : ¬ (Device.start k r).Repeats ramdiskRequest.hdr := fun hr => hr.2.2 rfl
  have hname : requested ramdiskRequest.payload = some .nbramdisk := by decide
  have hopen := Handled.accepted (d := Device.start k r) .nbramdisk hnr rfl (by decide) hname
  have hfilled :
      Filled 0 (((Device.start k r).open .nbramdisk).done ramdiskRequest.hdr nbAck 0) := by
    have hcmd : nbSendFile ≠ nbData := by decide
    refine ⟨rfl, ?_, ?_, fun h => absurd h hcmd⟩
    · simp
    · simp [Device.start]
  have hat := run_blocks hfilled ha
  rw [approach, run_append, run_original hopen]
  dsimp only
  generalize (run deliver _ ((List.range a).map _)).1 = d at hat
  have hmark : ¬ d.Repeats (marker c).hdr := fun hr => hr.2.2 rfl
  rw [run_original (.command hmark rfl (List.cons_ne_nil _ _))]
  exact ⟨hat.item, hat.offset, rfl, rfl⟩

/-- A datagram that is not inert is carried out, and takes the place of the marker. -/
theorem deliver_noticed {x : Delivery} (hx : ¬ Inert x) {a : Nat} {c : UInt32} {d : Device}
    (hd : Poised a c d) (hc : (nbmsgAt x.data).cookie ≠ c)
    (ha : (nbmsgAt x.data).cmd = nbData → (nbmsgAt x.data).arg.toNat = a) :
    (deliver d x).1.lastCookie ≠ c := by
  simp only [Inert, not_or, not_and, not_not, Nat.not_lt] at hx
  obtain ⟨hport, hlen, hreq, -⟩ := hx
  rcases udp6Recv_cases d x.data x.len x.dport with ⟨hf, -⟩ | ⟨-, -, hh⟩
  · exact absurd hport (hf.resolve_right (Nat.not_lt.mpr hlen))
  have hanswered : (udp6Recv d x.data x.len x.dport).ack ≠ none := by
    generalize (udp6Recv d x.data x.len x.dport).dev = d' at hh
    intro hnone
    rw [hnone] at hh
    cases hh with
    | empty _ hcmd hp =>
      -- it has data
      have hlong := congrArg List.length hp
      simp only [datagramAt, read_length, List.length_nil] at hlong
      exact hreq hcmd (by omega)
    | misplaced _ hcmd ho => exact ho _ hd.item (by rw [hd.offset]; exact ha hcmd)
  obtain ⟨ack, hack⟩ := Option.ne_none_iff_exists'.mp hanswered
  rw [hack] at hh
  have hremember := hh.remembers.1
  simp only [deliver]
  rw [hremember]
  exact hc

theorem deliver_probe_answered {a : Nat} {c : UInt32} {d : Device} (hd : Poised a c d) :
    (deliver d (.of (probe c))).2 ≠ none := by
  have hne : (1 : UInt32) ≠ 0 := by decide
  rw [deliver_of (.resend ⟨hd.lastCookie, hd.lastCmd, hne⟩)]
  exact Option.some_ne_none _

theorem deliver_probe_ignored {c : UInt32} {d : Device} (hd : d.lastCookie ≠ c) :
    (deliver d (.of (probe c))).2 = none := by
  rw [deliver_of (.empty (fun hr => hd hr.1) (.inl rfl) rfl)]

theorem approach_original {a : Nat} {c : UInt32} {e : Tagged Delivery} (he : e ∈ approach a c) :
    e.inserted = false := by
  simp only [approach, List.mem_append, List.mem_cons, List.mem_map, List.not_mem_nil,
    or_false] at he
  rcases he with (rfl | ⟨i, -, rfl⟩) | rfl <;> rfl

/-- Inserted at the right moment, such a datagram costs an ack. -/
theorem outcome_noticed (k r : Mem) {x : Delivery} (hx : ¬ Inert x) :
    ∃ es : List (Tagged Delivery), (∀ e ∈ es, e.inserted = true → e.event = x) ∧
      outcome (Device.start k r) es ≠ outcome (Device.start k r) (originals es) := by
  -- an offset at which data is looked at, and a cookie other than that of the datagram
  obtain ⟨a, ha, harg⟩ : ∃ a ≤ rbufSize,
      (nbmsgAt x.data).cmd = nbData → (nbmsgAt x.data).arg.toNat = a := by
    by_cases hc : (nbmsgAt x.data).cmd = nbData
    · refine ⟨_, ?_, fun _ => rfl⟩
      exact Nat.not_lt.mp fun hlt => hx (.inr (.inr (.inr ⟨hc, hlt⟩)))
    · exact ⟨0, Nat.zero_le _, fun h => absurd h hc⟩
  obtain ⟨c, hc⟩ : ∃ c, (nbmsgAt x.data).cookie ≠ c :=
    ⟨(nbmsgAt x.data).cookie + 1, by simp⟩
  have hpoised := run_approach k r ha c
  refine ⟨approach a c ++ [⟨true, x⟩, original (probe c)], ?_, fun heq => ?_⟩
  · intro e he hins
    simp only [List.mem_append, List.mem_cons, List.not_mem_nil, or_false] at he
    rcases he with he | rfl | rfl
    · rw [approach_original he] at hins
      cases hins
    · rfl
    · cases hins
  · have horig : originals (approach a c ++ [⟨true, x⟩, original (probe c)]) =
        approach a c ++ [original (probe c)] := by
      rw [originals, List.filter_append, List.filter_eq_self.mpr]
      · rfl
      · intro e he
        rw [approach_original he]
        rfl
    have hacks := congrArg Outcome.acks heq
    rw [horig] at hacks
    simp only [outcome, run_append] at hacks
    have hlast := List.append_cancel_left hacks
    simp only [run, original, if_true, Bool.false_eq_true, if_false, List.cons.injEq,
      and_true] at hlast
    have hnone := deliver_probe_ignored (deliver_noticed hx hpoised hc harg)
    exact deliver_probe_answered hpoised (hlast.symm.trans hnone)

/-- **Which strays do no harm.**  If datagrams of a set `S` may be inserted anywhere into any
sequence, the acks for the others, the files, the item and the boot flag stay the same
exactly if everything in `S` is inert.  The magic word plays no part in it. -/
theorem strays_harmless_iff (k r : Mem) (S : Set Delivery) :
    (∀ es : List (Tagged Delivery), (∀ e ∈ es, e.inserted = true → e.event ∈ S) →
      outcome (Device.start k r) es = outcome (Device.start k r) (originals es)) ↔
    ∀ x ∈ S, Inert x := by
  constructor
  · intro h x hx
    by_contra hn
    obtain ⟨es, hes, hne⟩ := outcome_noticed k r hn
    refine hne (h es fun e he hins => ?_)
    rw [hes e he hins]
    exact hx
  · intro h es hes
    have hb : (Device.start k r).Bounded :=
      Device.Reachable.bounded (.of_init ⟨k, r, rfl⟩)
    exact outcome_originals hb fun e he hins => h _ (hes e he hins)

def wrongBoot : Delivery := .of ⟨⟨0, 1, nbBoot, 0⟩, []⟩

/-- Nothing is sent to the device but one stray datagram, and it boots. -/
theorem wrong_magic_boots :
    IsStray wrongBoot ∧ ¬ Inert wrongBoot ∧
    (outcome (Device.start (fun _ => 0) (fun _ => 0)) [⟨true, wrongBoot⟩]).nbBootNow = true ∧
    (outcome (Device.start (fun _ => 0) (fun _ => 0))
      (originals [⟨true, wrongBoot⟩])).nbBootNow = false := by
  decide

end Gigaboot.Netboot.Stray
