import Gigaboot.Netboot.Device

/-!
# False duplicates

`udp6_recv` remembers the last message it carried out to recognise a retransmission.  Its
test assigns `last_arg` where it should compare it: a message with the cookie and the
command of the last one is taken for a copy whenever its `arg` is not 0, and the value
remembered is overwritten.

A run carries along which message was really carried out last.

* `handled_kind`: a message is answered from the cache, ignored or carried out;
* `no_false_duplicates_iff`: in which runs the cache never misleads the device;
* `second_block_lost`: a file sent under one cookie.
-/

namespace Gigaboot.Netboot.Duplicates

open ByteMem

structure Triple where
  cookie : UInt32
  cmd : UInt32
  arg : UInt32
  deriving DecidableEq, Repr

def tripleOf (m : Datagram) : Triple := ⟨m.hdr.cookie, m.hdr.cmd, m.hdr.arg⟩

/-- `last_cookie`, `last_cmd` and `last_arg`. -/
def cachedTriple (d : Device) : Triple := ⟨d.lastCookie, d.lastCmd, d.lastArg⟩

/-- The `switch` returns early: a request without data, or data that is not at the write
pointer of an item. -/
def Ignored (d : Device) (m : Datagram) : Prop :=
  (m.hdr.cmd = nbCommand ∨ m.hdr.cmd = nbSendFile) ∧ m.payload = [] ∨
    m.hdr.cmd = nbData ∧ ∀ f, d.item = some f → m.hdr.arg.toNat ≠ (d.files f).offset

/-- The `switch` is entered and left at its end. -/
def Executes (d : Device) (m : Datagram) : Prop := ¬ d.Repeats m.hdr ∧ ¬ Ignored d m

instance (d : Device) (m : Datagram) :
    Decidable (∀ f, d.item = some f → m.hdr.arg.toNat ≠ (d.files f).offset) :=
  match h : d.item with
  | none => isTrue (by simp)
  | some g => decidable_of_iff (m.hdr.arg.toNat ≠ (d.files g).offset) (by simp)

instance (d : Device) (m : Datagram) : Decidable (Ignored d m) :=
  inferInstanceAs (Decidable (_ ∨ _))
instance (d : Device) (m : Datagram) : Decidable (Executes d m) :=
  inferInstanceAs (Decidable (_ ∧ _))

/-- What a message does to the cache, by what becomes of it. -/
inductive Kind (d : Device) (m : Datagram) : Device → Option NbMsg → Prop
  | cached {d' : Device} {a : NbMsg} : d.Repeats m.hdr → d'.lastCookie = d.lastCookie →
      d'.lastCmd = d.lastCmd → d'.lastArg = m.hdr.arg → Kind d m d' (some a)
  | ignored : ¬ d.Repeats m.hdr → Ignored d m → Kind d m (d.touch m.hdr) none
  | executed {d' : Device} {a : NbMsg} : Executes d m → cachedTriple d' = tripleOf m →
      Kind d m d' (some a)

theorem handled_kind {d d' : Device} {m : Datagram} {a : Option NbMsg} (h : Handled d m d' a) :
    Kind d m d' a := by
  have hcs : nbCommand ≠ nbSendFile := by decide
  have hcd : nbCommand ≠ nbData := by decide
  have hsd : nbSendFile ≠ nbData := by decide
  have hbc : nbBoot ≠ nbCommand ∧ nbBoot ≠ nbSendFile ∧ nbBoot ≠ nbData := by decide
  cases h with
  | resend hr => exact .cached hr rfl rfl rfl
  | empty hr hc hp => exact .ignored hr (.inl ⟨hc, hp⟩)
  | misplaced hr hc ho => exact .ignored hr (.inr ⟨hc, ho⟩)
  | command hr hc hp => exact .executed ⟨hr, by grind [Ignored]⟩ rfl
  | accepted f hr hc hp => exact .executed ⟨hr, by grind [Ignored]⟩ rfl
  | rejected hr hc hp => exact .executed ⟨hr, by grind [Ignored]⟩ rfl
  | tooLarge f hr hc hi ho => exact .executed ⟨hr, by grind [Ignored]⟩ rfl
  | appended f hr hc hi ho => exact .executed ⟨hr, by grind [Ignored]⟩ rfl
  | boot hr hc => exact .executed ⟨hr, by grind [Ignored]⟩ rfl
  | badCmd hr h₁ h₂ h₃ => exact .executed ⟨hr, by grind [Ignored]⟩ rfl

/-! ## Runs -/

/-- A device, and the last message it carried out. -/
structure Traced where
  dev : Device
  last : Option Triple

def Traced.next (s : Traced) (e : DeviceEvent) : Traced where
  dev := e.apply s.dev
  last :=
    match e.message with
    | none => s.last
    | some m => if Executes s.dev m then some (tripleOf m) else s.last

/-- `P` holds at every event of a run. -/
def Along (P : Traced → DeviceEvent → Prop) : Traced → List DeviceEvent → Prop
  | _, [] => True
  | s, e :: es => P s e ∧ Along P (s.next e) es

/-- The message `m` of the event `e` is treated as what it is. -/
structure Correct (s : Traced) (e : DeviceEvent) (m : Datagram) : Prop where
  /-- only a copy of the last message carried out is answered without being carried out -/
  cached : e.ack s.dev ≠ none → ¬ Executes s.dev m → s.last = some (tripleOf m)
  /-- any other data at the write pointer is appended, or refused for its size -/
  data : ∀ f, m.hdr.cmd = nbData → s.last ≠ some (tripleOf m) → s.dev.item = some f →
    m.hdr.arg.toNat = (s.dev.files f).offset →
    ((s.dev.files f).offset + m.payload.length ≤ (s.dev.files f).size ∧
      (e.apply s.dev).files = (s.dev.append f m.payload).files ∧
      e.ack s.dev = some (m.hdr.ackOf nbAck m.hdr.arg)) ∨
    ((s.dev.files f).size < (s.dev.files f).offset + m.payload.length ∧
      (e.apply s.dev).files = s.dev.files ∧
      e.ack s.dev = some (m.hdr.ackOf nbErrorTooLarge m.hdr.arg))
  /-- the cache holds the last message carried out -/
  triple : ∀ t, (s.next e).last = some t → cachedTriple (s.next e).dev = t

/-- The message has the cookie and the command of the last one carried out, or zeros if
there was none, but is not a copy of it; and it is not carried out. -/
def Clash (s : Traced) (m : Datagram) : Prop :=
  (s.last.getD ⟨0, 0, 0⟩).cookie = m.hdr.cookie ∧ (s.last.getD ⟨0, 0, 0⟩).cmd = m.hdr.cmd ∧
    s.last ≠ some (tripleOf m) ∧ (m.hdr.arg ≠ 0 ∨ Ignored s.dev m)

theorem apply_cachedTriple {d : Device} {e : DeviceEvent} (h : e.message = none) :
    cachedTriple (e.apply d) = cachedTriple d := by
  cases e with
  | recv data len dport => simp only [DeviceEvent.apply, udp6Recv_no_message d h]
  | tick => rfl
  | poll =>
    show cachedTriple d.takeBoot.1 = _
    unfold Device.takeBoot
    split <;> rfl

/-- The cookie and the command in the cache are those of the last message carried out, and
before the first one the cache is zero. -/
structure KeyCached (s : Traced) : Prop where
  cookie : s.dev.lastCookie = (s.last.getD ⟨0, 0, 0⟩).cookie
  cmd : s.dev.lastCmd = (s.last.getD ⟨0, 0, 0⟩).cmd

/-- The whole triple is. -/
def Faithful (s : Traced) : Prop := ∀ t, s.last = some t → cachedTriple s.dev = t

section Step

variable {s : Traced} {e : DeviceEvent} {m : Datagram}

theorem next_last_executed (hm : e.message = some m) (h : Executes s.dev m) :
    (s.next e).last = some (tripleOf m) := by
  simp only [Traced.next, hm, if_pos h]

theorem next_last_kept (hm : e.message = some m) (h : ¬ Executes s.dev m) :
    (s.next e).last = s.last := by
  simp only [Traced.next, hm, if_neg h]

theorem cachedTriple_touch {d : Device} (hc : d.lastCookie = m.hdr.cookie)
    (hk : d.lastCmd = m.hdr.cmd) : cachedTriple (d.touch m.hdr) = tripleOf m := by
  rw [Device.touch, if_pos ⟨hc, hk⟩]
  simp only [cachedTriple, tripleOf, hc, hk]

theorem Ignored.cmd_ne_zero {d : Device} (h : Ignored d m) : m.hdr.cmd ≠ 0 := by
  intro h0
  rcases h with ⟨hc | hc, -⟩ | ⟨hc, -⟩ <;> rw [h0] at hc <;> exact absurd hc (by decide)

theorem Correct.not_clash (h : Correct s e m) (hkey : KeyCached s) (hm : e.message = some m) :
    ¬ Clash s m := by
  rintro ⟨hc, hk, hne, hwhy⟩
  rw [← hkey.cookie] at hc
  have hcmd := hk
  rw [← hkey.cmd] at hk
  have hkind := handled_kind (apply_handled (d := s.dev) hm)
  have htriple := h.triple
  have hcached := h.cached
  simp only [Traced.next] at htriple
  generalize e.apply s.dev = d' at hkind htriple
  generalize e.ack s.dev = a at hkind hcached
  cases hkind with
  | cached hr => exact hne (hcached nofun fun hx => hx.1 hr)
  | ignored hr hi =>
    have hlast : (s.next e).last = s.last := next_last_kept hm fun hx => hx.2 hi
    cases hs : s.last with
    | none =>
      -- nothing was carried out yet, and the command is 0
      rw [hs] at hcmd
      exact hi.cmd_ne_zero hcmd.symm
    | some t =>
      have ht := htriple t (hlast.trans hs)
      rw [cachedTriple_touch hc hk] at ht
      rw [ht] at hne
      exact hne hs
  | executed hx =>
    rcases hwhy with harg | hi
    · exact hx.1 ⟨hc, hk, harg⟩
    · exact hx.2 hi

/-- A retransmission that is none clashes. -/
theorem last_of_repeats (hkey : KeyCached s) (hn : ¬ Clash s m) (hr : s.dev.Repeats m.hdr) :
    s.last = some (tripleOf m) := by
  by_contra hne
  exact hn ⟨hkey.cookie ▸ hr.1, hkey.cmd ▸ hr.2.1, hne, .inl hr.2.2⟩

theorem correct_triple (hkey : KeyCached s) (hf : Faithful s) (hm : e.message = some m)
    (hn : ¬ Clash s m) : ∀ t, (s.next e).last = some t → cachedTriple (s.next e).dev = t := by
  intro t ht
  have hkind := handled_kind (apply_handled (d := s.dev) hm)
  show cachedTriple (e.apply s.dev) = t
  generalize e.apply s.dev = d' at hkind
  generalize e.ack s.dev = a at hkind
  cases hkind with
  | cached hr hcookie hcmd harg =>
    rw [next_last_kept hm fun hx => hx.1 hr, last_of_repeats hkey hn hr, Option.some.injEq] at ht
    rw [← ht, cachedTriple, hcookie, hcmd, harg, hr.1, hr.2.1]
    rfl
  | ignored hr hi =>
    rw [next_last_kept hm fun hx => hx.2 hi] at ht
    by_cases hmatch : s.dev.lastCookie = m.hdr.cookie ∧ s.dev.lastCmd = m.hdr.cmd
    · rw [cachedTriple_touch hmatch.1 hmatch.2]
      by_contra hne
      refine hn ⟨hkey.cookie ▸ hmatch.1, hkey.cmd ▸ hmatch.2, fun hl => hne ?_, .inr hi⟩
      rw [hl, Option.some.injEq] at ht
      exact ht
    · rw [Device.touch, if_neg hmatch]
      exact hf t ht
  | executed hx htriple =>
    rw [next_last_executed hm hx, Option.some.injEq] at ht
    rw [htriple, ht]

theorem correct_of_not_clash (hkey : KeyCached s) (hf : Faithful s) (hm : e.message = some m)
    (hn : ¬ Clash s m) : Correct s e m := by
  have hhandled := apply_handled (d := s.dev) hm
  refine ⟨fun hack hx => ?_, fun f hc hne hi ho => ?_, correct_triple hkey hf hm hn⟩
  · have hkind := handled_kind hhandled
    generalize e.apply s.dev = d' at hkind
    generalize e.ack s.dev = a at hkind hack
    cases hkind with
    | cached hr => exact last_of_repeats hkey hn hr
    | ignored => exact absurd rfl hack
    | executed hx' => exact absurd hx' hx
  · have hr : ¬ s.dev.Repeats m.hdr := fun hr => hne (last_of_repeats hkey hn hr)
    rcases Nat.lt_or_ge (s.dev.files f).size ((s.dev.files f).offset + m.payload.length) with
      hs | hs
    · obtain ⟨hd, ha⟩ := hhandled.unique (.tooLarge f hr hc hi ho hs)
      exact .inr ⟨hs, by rw [hd]; rfl, ha⟩
    · obtain ⟨hd, ha⟩ := hhandled.unique (.appended f hr hc hi ho hs)
      exact .inl ⟨hs, by rw [hd]; rfl, ha⟩

theorem keyCached_next (h : KeyCached s) (e : DeviceEvent) : KeyCached (s.next e) := by
  cases hm : e.message with
  | none =>
    have hlast : (s.next e).last = s.last := by simp only [Traced.next, hm]
    have htriple : cachedTriple (s.next e).dev = cachedTriple s.dev := apply_cachedTriple hm
    rw [cachedTriple, cachedTriple, Triple.mk.injEq] at htriple
    exact ⟨by rw [hlast, htriple.1, h.cookie], by rw [hlast, htriple.2.1, h.cmd]⟩
  | some m =>
    have hkind := handled_kind (apply_handled (d := s.dev) hm)
    have hnext : (s.next e).dev = e.apply s.dev := rfl
    generalize e.apply s.dev = d' at hkind hnext
    generalize e.ack s.dev = a at hkind
    cases hkind with
    | cached hr hcookie hcmd =>
      have hlast := next_last_kept (s := s) hm fun hx => hx.1 hr
      exact ⟨by rw [hlast, hnext, hcookie, h.cookie], by rw [hlast, hnext, hcmd, h.cmd]⟩
    | ignored hr hi =>
      have hlast := next_last_kept (s := s) hm fun hx => hx.2 hi
      rcases s.dev.touch_cases m.hdr with ht | ht <;> rw [ht] at hnext
      · exact ⟨by rw [hlast, hnext, h.cookie], by rw [hlast, hnext, h.cmd]⟩
      · exact ⟨by rw [hlast, hnext, h.cookie], by rw [hlast, hnext, h.cmd]⟩
    | executed hx htriple =>
      have hlast := next_last_executed (s := s) hm hx
      rw [cachedTriple, tripleOf, Triple.mk.injEq] at htriple
      exact ⟨by rw [hlast, hnext]; exact htriple.1, by rw [hlast, hnext]; exact htriple.2.1⟩

end Step

def AllCorrect : Traced → List DeviceEvent → Prop :=
  Along fun s e => ∀ m, e.message = some m → Correct s e m

def NoClash : Traced → List DeviceEvent → Prop :=
  Along fun s e => ∀ m, e.message = some m → ¬ Clash s m

theorem allCorrect_iff {s : Traced} (hkey : KeyCached s) (hf : Faithful s) (es : List DeviceEvent) :
    AllCorrect s es ↔ NoClash s es := by
  induction es generalizing s with
  | nil => exact Iff.rfl
  | cons e es ih =>
    have hstep : (∀ m, e.message = some m → Correct s e m) ↔
        ∀ m, e.message = some m → ¬ Clash s m :=
      ⟨fun h m hm => (h m hm).not_clash hkey hm,
        fun h m hm => correct_of_not_clash hkey hf hm (h m hm)⟩
    have hnext : (∀ m, e.message = some m → ¬ Clash s m) → Faithful (s.next e) := by
      intro h
      cases hm : e.message with
      | none =>
        intro t ht
        have hlast : (s.next e).last = s.last := by simp only [Traced.next, hm]
        rw [hlast] at ht
        exact (apply_cachedTriple hm).trans (hf t ht)
      | some m => exact correct_triple hkey hf hm (h m hm)
    -- the cache is right after a message that does not clash, so the rest can use it
    exact (and_congr_left fun _ => hstep).trans
      (and_congr_right fun h => ih (keyCached_next hkey e) (hnext h))

def startTrace (k r : Mem) : Traced := ⟨Device.start k r, none⟩

/-- **No false duplicates.**  In a run of the device every message is treated as what it is
exactly if no message has the cookie and the command of the last one carried out (zeros
before the first) with another `arg`, unless its `arg` is 0 and it is carried out. -/
theorem no_false_duplicates_iff (k r : Mem) (es : List DeviceEvent) :
    AllCorrect (startTrace k r) es ↔ NoClash (startTrace k r) es := by
  refine allCorrect_iff ⟨rfl, rfl⟩ ?_ es
  intro t ht
  cases ht

/-- The second block of a kernel that is sent under one cookie. -/
def secondBlock : Datagram := ⟨⟨nbMagic, 2, nbData, 1⟩, [8]⟩

def afterFirst : Traced :=
  ((startTrace (fun _ => 0) (fun _ => 0)).next (deliver (kernelRequest 1))).next
    (deliver ⟨⟨nbMagic, 2, nbData, 0⟩, [7]⟩)

/-- The second block is where the first one ended.  It is answered with the ack of the first
one, and is not stored. -/
theorem second_block_lost :
    afterFirst.last = some ⟨2, nbData, 0⟩ ∧ afterFirst.dev.item = some .nbkernel ∧
    (afterFirst.dev.files .nbkernel).offset = 1 ∧
    (deliver secondBlock).ack afterFirst.dev = some ⟨nbMagic, 2, nbAck, 0⟩ ∧
    ((afterFirst.next (deliver secondBlock)).dev.files .nbkernel).offset = 1 ∧
    ¬ Correct afterFirst (deliver secondBlock) secondBlock := by
  have hack : (deliver secondBlock).ack afterFirst.dev = some ⟨nbMagic, 2, nbAck, 0⟩ := by
    decide +kernel
  have hlast : afterFirst.last = some ⟨2, nbData, 0⟩ := by decide +kernel
  have hexec : ¬ Executes afterFirst.dev secondBlock := by decide +kernel
  refine ⟨hlast, by decide +kernel, by decide +kernel, hack, by decide +kernel, fun h => ?_⟩
  have hcopy := h.cached (by rw [hack]; nofun) hexec
  rw [hlast] at hcopy
  exact absurd hcopy (by decide)

end Gigaboot.Netboot.Duplicates
