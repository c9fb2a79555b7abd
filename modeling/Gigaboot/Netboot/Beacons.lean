import Gigaboot.Lib.Ticker
import Gigaboot.Osboot.NodeMain

/-!
# Beacons in time

The timer of `netifc.c` under `netboot_poll`, and the test that `main` of the server makes on what
it receives.  Time runs in units of 100 ns, as `SetTimer` counts it; each poll is a look at the
timer at some time.  What the firmware does with a timer is not modelled; what it is documented to
do is `TimerServices.Documented`.

* `Timed.poll`: `netboot_poll` with its timer;
* `Ticks.poll`: while the interface is up, the node keeps a timer that expires after 100 ms until it
  has done so twenty-one times, and after a second from then on;
* `beacon_rate`: how many advertisements can go out in some time;
* `idle_node_heard`: how long a node can be silent without a transfer.
-/

namespace Gigaboot.Netboot.Replies

open ByteMem Inet6 Netifc Poll Osboot

/-! ## The timer -/

def timerMs (n : Nat) : Nat := n * 10000

/-- `SetTimer` with `TimerRelative`, and `CheckEvent`, for timer events with a state in `τ`.  Each
is called at some time, and `CheckEvent` returns whether it was `EFI_SUCCESS`. -/
structure TimerServices (τ : Type) where
  setTimer : τ → Nat → Nat → τ
  checkEvent : τ → Nat → τ × Bool

/-- The documented behaviour.  `pending t due` says that the event `t` was set for the time `due`
and has not been found to be signalled since. -/
structure TimerServices.Documented {τ : Type} (bs : TimerServices τ) (pending : τ → Nat → Prop) :
    Prop where
  set : ∀ t now n, pending (bs.setTimer t now n) (now + n)
  early : ∀ {t due now}, pending t due → now < due →
    (bs.checkEvent t now).2 = false ∧ pending (bs.checkEvent t now).1 due
  expired : ∀ {t due now}, pending t due → due ≤ now → (bs.checkEvent t now).2 = true

/-- A node and `net_timer`, which may be `NULL`. -/
structure Timed (τ : Type) where
  node : Node
  timer : Option τ

/-- What a call of `netboot_poll` meets, and when. -/
structure Look where
  now : Nat
  active : Bool
  status : Status

section Timer

variable {τ : Type} (bs : TimerServices τ)

def netifcSetTimer (t : Option τ) (now ms : Nat) : Option τ :=
  t.map fun t => bs.setTimer t now (timerMs ms)

def netifcTimerExpired (t : Option τ) (now : Nat) : Option τ × Bool :=
  match t with
  | none => (none, false)
  | some t => (some (bs.checkEvent t now).1, (bs.checkEvent t now).2)

/-- `netboot_poll` with its timer. -/
def Timed.poll (c : Timed τ) (l : Look) : Option (Timed τ) :=
  if ¬ l.active then
    (netbootPoll c.node ⟨false, false, l.status⟩).map fun s => ⟨s.1, c.timer⟩
  else
    -- the branch for an interface that has come up sets the timer before it is checked
    let timer := if c.node.nbOnline then c.timer else netifcSetTimer bs c.timer l.now fastTick
    let expired := netifcTimerExpired bs timer l.now
    (netbootPoll c.node ⟨true, expired.2, l.status⟩).map fun s =>
      ⟨s.1, if expired.2 then netifcSetTimer bs expired.1 l.now s.1.timer else expired.1⟩

def Timed.run (c : Timed τ) : List Look → Option (Timed τ)
  | [] => some c
  | l :: ls => (c.poll bs l).bind fun c => c.run ls

end Timer

section Runs

variable {τ : Type} {bs : TimerServices τ} {pending : τ → Nat → Prop}

theorem Timed.run_append {c e : Timed τ} {as ls : List Look} (h : c.run bs (as ++ ls) = some e) :
    ∃ d, c.run bs as = some d ∧ d.run bs ls = some e := by
  induction as generalizing c with
  | nil => exact ⟨c, rfl, h⟩
  | cons a as ih =>
    obtain ⟨c₁, hpoll, hrest⟩ := Option.bind_eq_some_iff.mp h
    obtain ⟨d, hd, he⟩ := ih hrest
    exact ⟨d, by rw [run, hpoll]; exact hd, he⟩

theorem Timed.run_snoc {c d e : Timed τ} {as ls : List Look} (h : c.run bs as = some d)
    (hls : d.run bs ls = some e) : c.run bs (as ++ ls) = some e := by
  induction as generalizing c with
  | nil =>
    cases h
    exact hls
  | cons a as ih =>
    obtain ⟨c₁, hpoll, hrest⟩ := Option.bind_eq_some_iff.mp h
    rw [List.cons_append, run, hpoll]
    exact ih hrest

/-! ## One poll -/

theorem netbootPoll_parts {s s' : Node} {x : Bool} {st : Status} {n : Int}
    (h : netbootPoll s ⟨true, x, st⟩ = some (s', n)) :
    ∃ s₁ s₂ w, s.online = some s₁ ∧ s₁.tick x = some s₂ ∧
      netifcPoll netbootRecv s₂.world st = some w ∧
      s' = { s₂ with world := { w with app := w.app.takeBoot.1 } } ∧ n = w.app.takeBoot.2 := by
  unfold netbootPoll at h
  obtain ⟨s₁, hon, h⟩ := Option.bind_eq_some_iff.mp h
  obtain ⟨s₂, htick, h⟩ := Option.bind_eq_some_iff.mp h
  obtain ⟨w, hpoll, h⟩ := Option.bind_eq_some_iff.mp h
  cases h
  exact ⟨s₁, s₂, w, hon, htick, hpoll, rfl, rfl⟩

theorem online_of_nbOnline {s s₁ : Node} (h : s.online = some s₁) (hon : s.nbOnline = true) :
    s₁ = s := by
  rw [Node.online, if_pos hon] at h
  exact (Option.some.inj h).symm

theorem tick_unexpired {s s' : Node} (h : s.tick false = some s') : s' = s :=
  (Option.some.inj h).symm

/-- The timer is set again, and a node that is not in a transfer advertises itself. -/
theorem tick_expired {s s' : Node} (h : s.tick true = some s') :
    s'.nbOnline = s.nbOnline ∧ s'.nbFastcount = s.nbFastcount - 1 ∧
      s'.timer = (if s.nbFastcount = 0 then slowTick else fastTick) ∧
      (s.world.app.nbActive = true → s'.world.nic = s.world.nic) ∧
      (s.world.app.nbActive = false → advertise s.world = some s'.world) := by
  have hrearm : s.rearm.nbOnline = s.nbOnline ∧ s.rearm.nbFastcount = s.nbFastcount - 1 ∧
      s.rearm.timer = (if s.nbFastcount = 0 then slowTick else fastTick) := by
    unfold Node.rearm
    by_cases hz : s.nbFastcount = 0
    · rw [if_neg (not_not_intro hz), if_pos hz]
      exact ⟨rfl, by dsimp only; omega, rfl⟩
    · rw [if_pos hz, if_neg hz]
      exact ⟨rfl, rfl, rfl⟩
  obtain ⟨h₁, h₂, h₃⟩ := hrearm
  unfold Node.tick at h
  simp only [not_true_eq_false, if_false, s.rearm_world] at h
  cases hact : s.world.app.nbActive with
  | true =>
    rw [hact] at h
    cases h
    exact ⟨h₁, h₂, h₃, fun _ => rfl, by nofun⟩
  | false =>
    rw [hact] at h
    obtain ⟨w, hadv, rfl⟩ := Option.map_eq_some_iff.mp h
    exact ⟨h₁, h₂, h₃, by nofun, fun _ => hadv⟩

/-! ## The node keeps a timer -/

/-- How long the timer is set for when it has expired `i` times. -/
def tickPeriod (i : Nat) : Nat := timerMs (if i ≤ 20 then fastTick else slowTick)

theorem tickPeriod_pos (i : Nat) : 0 < tickPeriod i := by
  unfold tickPeriod
  split <;> decide

theorem tickPeriod_le (i : Nat) : tickPeriod i ≤ timerMs slowTick := by
  unfold tickPeriod
  split <;> decide

/-! ## What goes out -/

section Out

variable {mac : MacAddr}

/-- `advertise` hands one frame to `Transmit` if there is a buffer for it. -/
theorem advertise_one {w w' : World Device} (hc : Configured mac w.stack)
    (h : advertise w = some w') :
    w.nic.ethBuffers = 0 ∨ ∃ t, w'.nic.transmitted = w.nic.transmitted ++ [t] ∧
      Advertises mac (ofList t.frame) := by
  by_cases hfree : w.nic.ethBuffers = 0
  · exact .inl hfree
  obtain ⟨-, ts, hts, -, hadv⟩ := advertise_hands hc h
  obtain ⟨⟨nic, r⟩, hsend, heq⟩ := Option.map_eq_some_iff.mp h
  cases heq
  have hget : ethGetBuffer w.nic (ethMtu + 2) = (w.nic.pop, some (w.nic.ethBuffers + dataOff)) :=
    ethGetBuffer_free (by decide) hfree
  have hres : resolveIp6 w.stack ip6LlAllNodes = some (multicastFromIp6 ip6LlAllNodes) := rfl
  have hlen : nbmsgSize + advertiseData.length ≤ 1452 := by decide
  have heq := udp6Send_eq (ofList advert.bytes) nbAdvertPort nbServerPort hget hlen hres
  have hone := ethSend_transmitted (heq.symm.trans hsend)
  -- what was handed over is the one frame
  have hsame : ts = [_] := List.append_cancel_left (hts.symm.trans hone)
  refine .inr ⟨_, hone, hadv _ ?_⟩
  rw [hsame]
  exact List.mem_singleton_self _

/-- What a poll hands over: advertisements, and at most one answer to the frame it received. -/
structure LookSends (mac : MacAddr) (l : Look) (out : List Transmitted × List Transmitted) :
    Prop where
  adverts : ∀ t ∈ out.1, Advertises mac (ofList t.frame)
  one : out.2.length ≤ 1
  replies : ∀ t ∈ out.2, AnswersReceived mac l.status (ofList t.frame)

/-- The time in which the timer expires `k` times. -/
theorem sum_tickPeriod (k : Nat) :
    ∑ i ∈ Finset.range k, tickPeriod i = timerMs (100 * min k 21 + 1000 * (k - 21)) := by
  induction k with
  | zero => rfl
  | succ k ih =>
    rw [Finset.sum_range_succ, ih, tickPeriod]
    unfold timerMs fastTick slowTick
    split
    · rw [Nat.min_eq_left (by omega), Nat.min_eq_left (by omega)]
      omega
    · rw [Nat.min_eq_right (by omega), Nat.min_eq_right (by omega)]
      omega

theorem Initialised.configured {s : Node} (h : Initialised mac s) :
    Configured mac s.world.stack := by
  obtain ⟨st, hst⟩ := h.stack
  rw [hst]
  exact ⟨rfl, rfl, rfl⟩

end Out

/-- No UDP packet comes in. -/
def Look.Quiet (l : Look) : Prop :=
  ∀ buf len, l.status.received = some (buf, len) → buf 20 ≠ hdrUdp

theorem netifcPoll_quiet {w w' : World Device} {l : Look} (hq : l.Quiet)
    (h : netifcPoll netbootRecv w l.status = some w') : w'.app = w.app := by
  rcases netifcPoll_cases h with ⟨-, rfl⟩ | ⟨-, nic, -, ⟨-, rfl⟩ | ⟨buf, len, hrx, hrecv⟩⟩
  · rfl
  · rfl
  · have happ := ethRecv_app_of_not_delivered netbootRecv (fun hd => hq buf len hrx hd.next) hrecv
    exact happ

/-! ## The server -/

/-- The tests of `main` on a datagram of `r` bytes in `buf` from the address `saddr`. -/
def gotBeacon (saddr : Ip6Addr) (buf : Mem) (r : Nat) : Bool :=
  if r < nbmsgSize then false
  else if saddr.toList.getD 0 0 ≠ 0xFE ∨ saddr.toList.getD 1 0 ≠ 0x80 then false
  else if (nbmsgAt buf).magic ≠ nbMagic then false
  else if (nbmsgAt buf).cmd ≠ nbAdvertise then false
  else true

/-- The frame is for the port that `main` listens on, and what `recvfrom` returns for it, up to the
4096 bytes of its buffer, starts a transfer. -/
structure Heard (frame : Mem) : Prop where
  dport : ld16 frame 56 = swap16 nbAdvertPort
  beacon : gotBeacon (arrayAt frame 22 16) (shift frame 62)
    (min 4096 ((swap16 (ld16 frame 58)).toNat - 8)) = true

theorem Advertises.heard {mac : MacAddr} {frame : Mem} (h : Advertises mac frame) :
    Heard frame := by
  refine ⟨h.dport, ?_⟩
  have hlen : ¬ min 4096 (advert.bytes.length + 8 - 8) < nbmsgSize := by decide
  have haddr : ¬ ((ll6addrFromMac mac).toList.getD 0 0 ≠ 0xFE ∨
      (ll6addrFromMac mac).toList.getD 1 0 ≠ 0x80) := by
    rintro (hne | hne) <;> exact hne rfl
  rw [gotBeacon, h.ulen, if_neg hlen, h.saddr, if_neg haddr, h.msg,
    if_neg (not_not_intro rfl), if_neg (not_not_intro rfl)]

/-! ## The node keeps a timer -/

/-- The node is online, and its timer is in the given state. -/
structure Ticks (pending : τ → Nat → Prop) (c : Timed τ) (s : Ticker.State) : Prop where
  online : c.node.nbOnline = true
  timer : ∃ t, c.timer = some t ∧ pending t s.due
  fast : c.node.nbFastcount = 20 - s.count

section Documented

variable (hbs : bs.Documented pending)
include hbs

theorem first_eq {c c' : Timed τ} {l : Look} (hoff : c.node.nbOnline = false)
    (htimer : c.timer ≠ none) (hact : l.active = true) (h : c.poll bs l = some c') :
    ∃ w w' t, advertise c.node.world = some w ∧ netifcPoll netbootRecv w l.status = some w' ∧
      pending t (l.now + tickPeriod 0) ∧
      c' = ⟨⟨{ w' with app := w'.app.takeBoot.1 }, 20, true, fastTick⟩, some t⟩ := by
  obtain ⟨t, ht⟩ := Option.ne_none_iff_exists'.mp htimer
  have hset : netifcSetTimer bs c.timer l.now fastTick =
      some (bs.setTimer t l.now (tickPeriod 0)) := by
    rw [netifcSetTimer, ht]
    rfl
  -- it is set before it is checked, so it cannot have expired
  obtain ⟨hcheck, hpending⟩ := hbs.early (hbs.set t l.now (tickPeriod 0))
    (Nat.lt_add_of_pos_right (tickPeriod_pos 0))
  rw [Timed.poll, if_neg (not_not_intro hact)] at h
  simp only [hoff, Bool.false_eq_true, if_false, hset, netifcTimerExpired, hcheck] at h
  obtain ⟨⟨s', n⟩, hpoll, rfl⟩ := Option.map_eq_some_iff.mp h
  obtain ⟨s₁, s₂, w', hon, htick, hnet, rfl, -⟩ := netbootPoll_parts hpoll
  obtain rfl := tick_unexpired htick
  rw [Node.online, hoff] at hon
  obtain ⟨w, hadv, rfl⟩ := Option.map_eq_some_iff.mp hon
  exact ⟨w, w', _, hadv, hnet, hpending, rfl⟩

theorem ticks_first {c c' : Timed τ} {l : Look} (hoff : c.node.nbOnline = false)
    (htimer : c.timer ≠ none) (hact : l.active = true) (h : c.poll bs l = some c') :
    Ticks pending c' ⟨l.now + tickPeriod 0, 0⟩ := by
  obtain ⟨w, w', t, -, -, hpending, rfl⟩ := first_eq hbs hoff htimer hact h
  exact ⟨rfl, ⟨t, rfl, hpending⟩, rfl⟩

/-- A poll of an online node, by whether its timer has expired. -/
theorem Ticks.poll_eq {c c' : Timed τ} {s : Ticker.State} {l : Look} (ht : Ticks pending c s)
    (hact : l.active = true) (h : c.poll bs l = some c') :
    ∃ s' n t, netbootPoll c.node ⟨true, decide (s.due ≤ l.now), l.status⟩ = some (s', n) ∧
      pending t (if s.due ≤ l.now then l.now + timerMs s'.timer else s.due) ∧
      c' = ⟨s', some t⟩ := by
  obtain ⟨t, htimer, hpending⟩ := ht.timer
  rw [Timed.poll, if_neg (not_not_intro hact)] at h
  simp only [ht.online, if_true, htimer, netifcTimerExpired] at h
  by_cases hdue : s.due ≤ l.now
  · rw [hbs.expired hpending hdue] at h
    obtain ⟨⟨s', n⟩, hpoll, rfl⟩ := Option.map_eq_some_iff.mp h
    rw [decide_eq_true hdue]
    exact ⟨s', n, _, hpoll, by rw [if_pos hdue]; exact hbs.set _ _ _, rfl⟩
  · obtain ⟨hcheck, hstays⟩ := hbs.early hpending (Nat.not_le.mp hdue)
    rw [hcheck] at h
    obtain ⟨⟨s', n⟩, hpoll, rfl⟩ := Option.map_eq_some_iff.mp h
    rw [decide_eq_false hdue]
    exact ⟨s', n, _, hpoll, by rw [if_neg hdue]; exact hstays, rfl⟩

/-- **A poll is a look at the timer.** -/
theorem Ticks.poll {c c' : Timed τ} {s : Ticker.State} {l : Look} (ht : Ticks pending c s)
    (hact : l.active = true) (h : c.poll bs l = some c') :
    Ticks pending c' (Ticker.step tickPeriod s l.now) := by
  obtain ⟨s', n, t, hpoll, hpending, rfl⟩ := ht.poll_eq hbs hact h
  obtain ⟨s₁, s₂, w, hon, htick, -, rfl, -⟩ := netbootPoll_parts hpoll
  obtain rfl := online_of_nbOnline hon ht.online
  by_cases hdue : s.due ≤ l.now
  · rw [decide_eq_true hdue] at htick
    obtain ⟨honline, hfast, htimer, -⟩ := tick_expired htick
    rw [Ticker.step_expired hdue]
    refine ⟨honline.trans ht.online, ⟨t, rfl, ?_⟩, ?_⟩
    · -- the twentieth expiry is the last that sets the timer for the short time
      have hshort : (if c.node.nbFastcount = 0 then slowTick else fastTick) =
          (if s.count + 1 ≤ 20 then fastTick else slowTick) := by
        rw [ht.fast]
        by_cases hc : s.count + 1 ≤ 20
        · rw [if_pos hc, if_neg (by omega)]
        · rw [if_neg hc, if_pos (by omega)]
      rw [if_pos hdue] at hpending
      dsimp only at hpending
      rw [htimer, hshort] at hpending
      exact hpending
    · show s₂.nbFastcount = 20 - (s.count + 1)
      rw [hfast, ht.fast]
      omega
  · rw [decide_eq_false hdue] at htick
    obtain rfl := tick_unexpired htick
    rw [if_neg hdue] at hpending
    rw [Ticker.step_pending (Nat.not_le.mp hdue)]
    exact ⟨ht.online, ⟨t, rfl, hpending⟩, ht.fast⟩

theorem Ticks.run {c c' : Timed τ} {s : Ticker.State} {ls : List Look} (ht : Ticks pending c s)
    (hact : ∀ l ∈ ls, l.active = true) (h : c.run bs ls = some c') :
    Ticks pending c' (Ticker.run tickPeriod Look.now s ls) := by
  induction ls generalizing c s with
  | nil =>
    cases h
    exact ht
  | cons l ls ih =>
    obtain ⟨hl, hls⟩ := List.forall_mem_cons.mp hact
    obtain ⟨d, hpoll, hrest⟩ := Option.bind_eq_some_iff.mp h
    exact ih (ht.poll hbs hl hpoll) hls hrest

variable {mac : MacAddr}

/-- What a poll of an online node hands over: an advertisement if its timer has expired, and at
most one answer. -/
theorem Ticks.poll_sends {c c' : Timed τ} {s : Ticker.State} {l : Look} (ht : Ticks pending c s)
    (hact : l.active = true) (hc : Configured mac c.node.world.stack) (h : c.poll bs l = some c') :
    Configured mac c'.node.world.stack ∧ ∃ adverts replies,
      c'.node.world.nic.transmitted = c.node.world.nic.transmitted ++ (adverts ++ replies) ∧
      (∀ t ∈ adverts, Advertises mac (ofList t.frame)) ∧
      s.count + adverts.length ≤ (Ticker.step tickPeriod s l.now).count ∧
      (s.due ≤ l.now → c.node.world.app.nbActive = false →
        c.node.world.nic.ethBuffers = 0 ∨ adverts ≠ []) ∧
      replies.length ≤ 1 ∧ ∀ t ∈ replies, AnswersReceived mac l.status (ofList t.frame) := by
  obtain ⟨s', n, t, hpoll, -, rfl⟩ := ht.poll_eq hbs hact h
  obtain ⟨s₁, s₂, w, hon, htick, hnet, rfl, -⟩ := netbootPoll_parts hpoll
  obtain rfl := online_of_nbOnline hon ht.online
  obtain ⟨hst, ts, htx, hlen, hadv⟩ := Node.tick_hands hc htick
  have hc₂ : Configured mac s₂.world.stack := hst ▸ hc
  obtain ⟨hc₃, rs, hrx, hrlen, hans⟩ := netifcPoll_hands hc₂ hnet
  refine ⟨hc₃, ts, rs, ?_, hadv, ?_, ?_, hrlen, hans⟩
  · show w.nic.transmitted = _
    rw [hrx, htx, List.append_assoc]
  · by_cases hdue : s.due ≤ l.now
    · rw [Ticker.step_expired hdue]
      dsimp only
      omega
    · rw [decide_eq_false hdue] at htick
      obtain rfl := tick_unexpired htick
      rw [List.append_right_eq_self.mp htx.symm, Ticker.step_pending (Nat.not_le.mp hdue)]
      exact Nat.le_refl _
  · intro hdue hidle
    rw [decide_eq_true hdue] at htick
    refine (advertise_one hc ((tick_expired htick).2.2.2.2 hidle)).imp_right ?_
    rintro ⟨t, hone, -⟩ rfl
    rw [hone, List.append_nil] at htx
    exact List.append_right_eq_self.not.mpr (List.cons_ne_nil t []) htx

/-- What goes out in the poll in which a node comes online. -/
theorem first_sends {c c' : Timed τ} {l : Look} (hoff : c.node.nbOnline = false)
    (htimer : c.timer ≠ none) (hact : l.active = true)
    (hc : Configured mac c.node.world.stack) (h : c.poll bs l = some c') :
    Configured mac c'.node.world.stack ∧ ∃ adverts replies,
      c'.node.world.nic.transmitted = c.node.world.nic.transmitted ++ (adverts ++ replies) ∧
      (∀ t ∈ adverts, Advertises mac (ofList t.frame)) ∧ adverts.length ≤ 1 ∧
      replies.length ≤ 1 ∧ ∀ t ∈ replies, AnswersReceived mac l.status (ofList t.frame) := by
  obtain ⟨w, w', t, hadv, hnet, -, rfl⟩ := first_eq hbs hoff htimer hact h
  obtain ⟨hst, ts, htx, hlen, hts⟩ := advertise_hands hc hadv
  have hc' : Configured mac w.stack := hst ▸ hc
  obtain ⟨hc₂, rs, hrx, hrlen, hans⟩ := netifcPoll_hands hc' hnet
  refine ⟨hc₂, ts, rs, ?_, hts, hlen, hrlen, hans⟩
  show w'.nic.transmitted = _
  rw [hrx, htx, List.append_assoc]

/-- The advertisements of a run are no more than the expiries of the timer. -/
theorem Ticks.run_sends {c c' : Timed τ} {s : Ticker.State} {ls : List Look}
    (ht : Ticks pending c s) (hact : ∀ l ∈ ls, l.active = true)
    (hc : Configured mac c.node.world.stack) (h : c.run bs ls = some c') :
    ∃ outs, List.Forall₂ (LookSends mac) ls outs ∧
      c'.node.world.nic.transmitted =
        c.node.world.nic.transmitted ++ outs.flatMap (fun out => out.1 ++ out.2) ∧
      s.count + (outs.map fun out => out.1.length).sum ≤
        (Ticker.run tickPeriod Look.now s ls).count := by
  induction ls generalizing c s with
  | nil =>
    cases h
    exact ⟨[], .nil, (List.append_nil _).symm, Nat.le_refl _⟩
  | cons l ls ih =>
    obtain ⟨hl, hls⟩ := List.forall_mem_cons.mp hact
    obtain ⟨d, hpoll, hrest⟩ := Option.bind_eq_some_iff.mp h
    obtain ⟨hc', adverts, replies, htx, hadv, hcount, -, hone, hans⟩ :=
      ht.poll_sends hbs hl hc hpoll
    obtain ⟨outs, houts, htx', hcount'⟩ := ih (ht.poll hbs hl hpoll) hls hc' hrest
    refine ⟨(adverts, replies) :: outs, .cons ⟨hadv, hone, hans⟩ houts, ?_, ?_⟩
    · rw [htx', htx, List.flatMap_cons, List.append_assoc]
    · rw [List.map_cons, List.sum_cons, Ticker.run]
      dsimp only
      omega

theorem run_configured {c c' : Timed τ} {s : Ticker.State} {ls : List Look} (ht : Ticks pending c s)
    (hact : ∀ l ∈ ls, l.active = true) (hc : Configured mac c.node.world.stack)
    (h : c.run bs ls = some c') : Configured mac c'.node.world.stack := by
  induction ls generalizing c s with
  | nil =>
    cases h
    exact hc
  | cons l ls ih =>
    obtain ⟨hl, hls⟩ := List.forall_mem_cons.mp hact
    obtain ⟨d, hpoll, hrest⟩ := Option.bind_eq_some_iff.mp h
    exact ih (ht.poll hbs hl hpoll) hls (ht.poll_sends hbs hl hc hpoll).1 hrest

/-- A transfer that has ended stays so, and the timer ends one. -/
theorem Ticks.poll_quiet {c c' : Timed τ} {s : Ticker.State} {l : Look} (ht : Ticks pending c s)
    (hact : l.active = true) (hq : l.Quiet) (h : c.poll bs l = some c')
    (hidle : s.due ≤ l.now ∨ c.node.world.app.nbActive = false) :
    c'.node.world.app.nbActive = false := by
  have htake : ∀ d : Device, d.takeBoot.1.nbActive = d.nbActive := by
    intro d
    unfold Device.takeBoot
    split <;> rfl
  obtain ⟨s', n, t, hpoll, -, rfl⟩ := ht.poll_eq hbs hact h
  obtain ⟨s₁, s₂, w, hon, htick, hnet, rfl, -⟩ := netbootPoll_parts hpoll
  obtain rfl := online_of_nbOnline hon ht.online
  show w.app.takeBoot.1.nbActive = false
  rw [htake, netifcPoll_quiet hq hnet, tick_app htick]
  by_cases hdue : s.due ≤ l.now
  · rw [decide_eq_true hdue]
    rfl
  · rw [decide_eq_false hdue]
    exact hidle.resolve_left hdue

theorem Ticks.run_quiet {c c' : Timed τ} {s : Ticker.State} {ls : List Look}
    (ht : Ticks pending c s) (hact : ∀ l ∈ ls, l.active = true) (hq : ∀ l ∈ ls, l.Quiet)
    (h : c.run bs ls = some c') (hidle : c.node.world.app.nbActive = false) :
    c'.node.world.app.nbActive = false := by
  induction ls generalizing c s with
  | nil =>
    cases h
    exact hidle
  | cons l ls ih =>
    obtain ⟨hl, hls⟩ := List.forall_mem_cons.mp hact
    obtain ⟨hql, hqls⟩ := List.forall_mem_cons.mp hq
    obtain ⟨d, hpoll, hrest⟩ := Option.bind_eq_some_iff.mp h
    exact ih (ht.poll hbs hl hpoll) hls hqls hrest (ht.poll_quiet hbs hl hql hpoll (.inr hidle))

/-! ## How often -/

/-- **A node sends few advertisements.**  Whatever frames come in, everything that a node hands to
`Transmit` while its interface is up is an advertisement, or the one answer of a poll to the frame
it received.  After the first advertisement 100 ms have passed for each of the next 21, and a second
for each of those after that. -/
theorem beacon_rate {c₀ c : Timed τ} {first : Look} {ls : List Look} {δ : Nat}
    (h₀ : Initialised mac c₀.node) (htimer : c₀.timer ≠ none)
    (hact : ∀ l ∈ first :: ls, l.active = true)
    (hspaced : Ticker.Spaced Look.now δ first.now ls) (h : c₀.run bs (first :: ls) = some c) :
    ∃ outs, List.Forall₂ (LookSends mac) (first :: ls) outs ∧
      c.node.world.nic.transmitted = outs.flatMap (fun out => out.1 ++ out.2) ∧
      ∃ k, (outs.map fun out => out.1.length).sum ≤ k + 1 ∧
        first.now + timerMs (100 * min k 21 + 1000 * (k - 21)) ≤
          Ticker.finish Look.now first.now ls := by
  obtain ⟨hf, hls⟩ := List.forall_mem_cons.mp hact
  obtain ⟨d, hpoll, hrest⟩ := Option.bind_eq_some_iff.mp h
  obtain ⟨hc, adverts, replies, htx, hadv, hle, hone, hans⟩ :=
    first_sends hbs h₀.offline htimer hf h₀.configured hpoll
  have ht := ticks_first hbs h₀.offline htimer hf hpoll
  obtain ⟨outs, houts, htx', hcount⟩ := ht.run_sends hbs hls hc hrest
  have harmed := (Ticker.armed_start first.now (tickPeriod_pos 0) (tickPeriod_le 0)).run
    tickPeriod_pos tickPeriod_le hspaced
  refine ⟨(adverts, replies) :: outs, .cons ⟨hadv, hone, hans⟩ houts, ?_,
    (Ticker.run tickPeriod Look.now ⟨first.now + tickPeriod 0, 0⟩ ls).count, ?_, ?_⟩
  · rw [htx', htx, h₀.silent, List.nil_append, List.flatMap_cons]
  · rw [List.map_cons, List.sum_cons]
    dsimp only at hcount ⊢
    rw [Nat.zero_add] at hcount
    rw [Nat.add_comm]
    exact Nat.add_le_add hcount hle
  · rw [← sum_tickPeriod]
    exact harmed.passed

end Documented

end Runs

/-- Timer services that go by the time at which a timer is due. -/
def exactTimer : TimerServices (Option Nat) where
  setTimer _ now n := some (now + n)
  checkEvent t now :=
    match t with
    | none => (none, false)
    | some due => if due ≤ now then (none, true) else (some due, false)

theorem exactTimer_documented : exactTimer.Documented fun t due => t = some due where
  set _ _ _ := rfl
  early := by
    rintro t due now rfl hlt
    have hcheck : exactTimer.checkEvent (some due) now = (some due, false) :=
      if_neg (Nat.not_le.mpr hlt)
    rw [hcheck]
    exact ⟨rfl, rfl⟩
  expired := by
    rintro t due now rfl hle
    have hcheck : exactTimer.checkEvent (some due) now = (none, true) := if_pos hle
    rw [hcheck]

def startTimed (nic : Nic) : Timed (Option Nat) := ⟨startNode nic, some none⟩

def quietLook (now : Nat) : Look := ⟨now, true, ⟨true, none, none⟩⟩

def afterLooks (nic : Option Nic) (ls : List Look) : Option Nic :=
  nic.bind fun nic => ((startTimed nic).run exactTimer ls).map fun c => c.node.world.nic

def openedNic : Option Nic := netifcOpenLoop freshNic lowRegion.base (numBufferPages * 2)

/-- Two polls, a tenth of a second apart, and two advertisements. -/
theorem beacon_rate_two : ∃ nic c outs,
    (startTimed nic).run exactTimer [quietLook 0, quietLook 1000000] = some c ∧
    c.node.world.nic.transmitted.length = 2 ∧
    List.Forall₂ (LookSends #v[2, 0, 0, 0, 0, 1]) [quietLook 0, quietLook 1000000] outs ∧
    c.node.world.nic.transmitted = outs.flatMap (fun out => out.1 ++ out.2) ∧
    ∃ k, (outs.map fun out => out.1.length).sum ≤ k + 1 ∧
      0 + timerMs (100 * min k 21 + 1000 * (k - 21)) ≤ 1000000 := by
  have hsent : (afterLooks openedNic [quietLook 0, quietLook 1000000]).map
      (fun nic => nic.transmitted.length) = some 2 := by decide +kernel
  obtain ⟨nic', hlooks, hlen⟩ := Option.map_eq_some_iff.mp hsent
  obtain ⟨nic, hopen, hlooks⟩ := Option.bind_eq_some_iff.mp hlooks
  obtain ⟨c, hrun, rfl⟩ := Option.map_eq_some_iff.mp hlooks
  have hact : ∀ l ∈ [quietLook 0, quietLook 1000000], l.active = true := by
    intro l hl
    simp only [List.mem_cons, List.not_mem_nil, or_false] at hl
    rcases hl with rfl | rfl <;> rfl
  have hspaced : Ticker.Spaced Look.now 1000000 (quietLook 0).now [quietLook 1000000] :=
    ⟨by decide, by decide, trivial⟩
  have h₀ : Initialised #v[2, 0, 0, 0, 0, 1] (startTimed nic).node := startNode_initialised hopen
  obtain ⟨outs, houts, htx, hk⟩ := beacon_rate exactTimer_documented h₀ (Option.some_ne_none _) hact
    hspaced hrun
  exact ⟨nic, c, outs, hrun, hlen, houts, htx, hk⟩

/-! ## How long it can be silent -/

section Silent

variable {τ : Type} {bs : TimerServices τ} {pending : τ → Nat → Prop} {mac : MacAddr}

/-- The first expiry ends a transfer, and the second finds none: if there is a buffer, the node
advertises itself. -/
theorem Ticks.second_expiry (hbs : bs.Documented pending) {c e : Timed τ} {s : Ticker.State}
    (ht : Ticks pending c s) (hc : Configured mac c.node.world.stack) {l m r : List Look}
    {a b : Look} (hact : ∀ x ∈ l ++ a :: (m ++ b :: r), x.active = true)
    (hquiet : ∀ x ∈ l ++ a :: (m ++ b :: r), x.Quiet) (hl : ∀ x ∈ l, x.now < s.due)
    (ha : s.due ≤ a.now) (hm : ∀ x ∈ m, x.now < (Ticker.step tickPeriod s a.now).due)
    (hb : (Ticker.step tickPeriod s a.now).due ≤ b.now)
    (h : c.run bs (l ++ a :: (m ++ b :: r)) = some e) :
    ∃ d d', c.run bs (l ++ a :: m) = some d ∧ d.poll bs b = some d' ∧
      (d.node.world.nic.ethBuffers ≠ 0 → ∃ t ts,
        d'.node.world.nic.transmitted = d.node.world.nic.transmitted ++ t :: ts ∧
        Advertises mac (ofList t.frame)) := by
  obtain ⟨hactl, hact⟩ := List.forall_mem_append.mp hact
  obtain ⟨hacta, hact⟩ := List.forall_mem_cons.mp hact
  obtain ⟨hactm, hactb⟩ := List.forall_mem_append.mp hact
  obtain ⟨hqa, hq⟩ := List.forall_mem_cons.mp (List.forall_mem_append.mp hquiet).2
  obtain ⟨d₁, hl₁, h⟩ := Timed.run_append h
  obtain ⟨d₂, ha₂, h⟩ := Option.bind_eq_some_iff.mp h
  obtain ⟨d₃, hm₃, h⟩ := Timed.run_append h
  obtain ⟨d₄, hb₄, -⟩ := Option.bind_eq_some_iff.mp h
  have htl := ht.run hbs hactl hl₁
  have hcl := run_configured hbs ht hactl hc hl₁
  rw [Ticker.run_pending hl] at htl
  have hta := htl.poll hbs hacta ha₂
  have hca := (htl.poll_sends hbs hacta hcl ha₂).1
  have hidle := htl.poll_quiet hbs hacta hqa ha₂ (.inl ha)
  have htm := hta.run hbs hactm hm₃
  have hcm := run_configured hbs hta hactm hca hm₃
  rw [Ticker.run_pending hm] at htm
  have hidle' := hta.run_quiet hbs hactm (List.forall_mem_append.mp hq).1 hm₃ hidle
  obtain ⟨-, adverts, replies, htx, hadv, -, hout, -⟩ :=
    htm.poll_sends hbs (hactb b List.mem_cons_self) hcm hb₄
  refine ⟨d₃, d₄, Timed.run_snoc hl₁ ?_, hb₄, fun hfree => ?_⟩
  · rw [Timed.run, ha₂]
    exact hm₃
  · obtain ⟨t, ts, rfl⟩ :=
      List.exists_cons_of_ne_nil ((hout hb hidle').resolve_left hfree)
    exact ⟨t, ts ++ replies, htx, hadv t List.mem_cons_self⟩

/-- **A node without a transfer is heard.**  If its interface is up and it is polled at least every
`δ`, then in any time of two seconds and `2 * δ` in which no UDP packet comes in and each poll finds
a free buffer, there is a poll that hands over a frame on which `main` of the server starts a
transfer. -/
theorem idle_node_heard (hbs : bs.Documented pending) {c₀ c : Timed τ} {first : Look}
    {before stretch : List Look} {δ : Nat} (h₀ : Initialised mac c₀.node) (htimer : c₀.timer ≠ none)
    (hact : ∀ l ∈ first :: (before ++ stretch), l.active = true)
    (hspaced : Ticker.Spaced Look.now δ first.now (before ++ stretch))
    (hquiet : ∀ l ∈ stretch, l.Quiet)
    (hlong : Ticker.finish Look.now first.now before + 2 * (timerMs slowTick + δ) ≤
      Ticker.finish Look.now first.now (before ++ stretch))
    (hfree : ∀ l look r d, stretch = l ++ look :: r → c₀.run bs (first :: (before ++ l)) = some d →
      d.node.world.nic.ethBuffers ≠ 0)
    (h : c₀.run bs (first :: (before ++ stretch)) = some c) :
    ∃ l look r d d' t ts, stretch = l ++ look :: r ∧
      c₀.run bs (first :: (before ++ l)) = some d ∧ d.poll bs look = some d' ∧
      d'.node.world.nic.transmitted = d.node.world.nic.transmitted ++ t :: ts ∧
      Advertises mac (ofList t.frame) ∧ Heard (ofList t.frame) := by
  obtain ⟨hf, hall⟩ := List.forall_mem_cons.mp hact
  obtain ⟨hbefore, hstretch⟩ := List.forall_mem_append.mp hall
  obtain ⟨c₁, hpoll, hrest⟩ := Option.bind_eq_some_iff.mp h
  obtain ⟨c₂, hrun₂, hrun⟩ := Timed.run_append hrest
  have ht₁ := ticks_first hbs h₀.offline htimer hf hpoll
  have hc₁ := (first_sends hbs h₀.offline htimer hf h₀.configured hpoll).1
  have ht₂ := ht₁.run hbs hbefore hrun₂
  have hc₂ := run_configured hbs ht₁ hbefore hc₁ hrun₂
  obtain ⟨hsp₁, hsp₂⟩ := Ticker.Spaced.append_iff.mp hspaced
  have harmed := (Ticker.armed_start first.now (tickPeriod_pos 0) (tickPeriod_le 0)).run
    tickPeriod_pos tickPeriod_le hsp₁
  generalize Ticker.run tickPeriod Look.now ⟨first.now + tickPeriod 0, 0⟩ before = s at ht₂ harmed
  rw [Ticker.finish_append] at hlong
  obtain ⟨l, a, m, b, r, rfl, hl, ha, hm, hb⟩ :=
    Ticker.expires_twice tickPeriod_pos tickPeriod_le harmed hsp₂ hlong
  obtain ⟨d, d', hd, hd', hout⟩ :=
    ht₂.second_expiry hbs hc₂ hstretch hquiet hl ha hm hb hrun
  have hsplit : l ++ a :: (m ++ b :: r) = (l ++ a :: m) ++ b :: r := by
    rw [List.append_assoc]
    rfl
  have hrun' : c₀.run bs (first :: (before ++ (l ++ a :: m))) = some d := by
    rw [Timed.run, hpoll]
    exact Timed.run_snoc hrun₂ hd
  obtain ⟨t, ts, htx, hadv⟩ := hout (hfree _ b r d hsplit hrun')
  exact ⟨l ++ a :: m, b, r, d, d', t, ts, hsplit, hrun', hd', htx, hadv, hadv.heard⟩

end Silent

def fourLooks : List Look := [1, 2, 3, 4].map fun k => quietLook (k * 10000000)

/-- Four polls after the node has come online. -/
theorem idle_node_heard_four : ∃ nic l look r d d' t ts, fourLooks = l ++ look :: r ∧
    (startTimed nic).run exactTimer (quietLook 0 :: l) = some d ∧
    d.poll exactTimer look = some d' ∧
    d'.node.world.nic.transmitted = d.node.world.nic.transmitted ++ t :: ts ∧
    Advertises #v[2, 0, 0, 0, 0, 1] (ofList t.frame) ∧ Heard (ofList t.frame) := by
  have hbuffers : ∀ i ≤ 4, (afterLooks openedNic (quietLook 0 :: fourLooks.take i)).map
      (fun nic => decide (nic.ethBuffers = 0)) = some false := by decide +kernel
  obtain ⟨nic', hlooks, -⟩ := Option.map_eq_some_iff.mp (hbuffers 4 (by decide))
  obtain ⟨nic, hopen, hlooks⟩ := Option.bind_eq_some_iff.mp hlooks
  obtain ⟨c, hrun, -⟩ := Option.map_eq_some_iff.mp hlooks
  have hlooks : ∀ l ∈ quietLook 0 :: fourLooks, l.active = true ∧ l.Quiet := by
    intro l hl
    simp only [fourLooks, List.map_cons, List.map_nil, List.mem_cons, List.not_mem_nil,
      or_false] at hl
    rcases hl with rfl | rfl | rfl | rfl | rfl <;> exact ⟨rfl, by nofun⟩
  have hspaced : Ticker.Spaced Look.now 10000000 (quietLook 0).now ([] ++ fourLooks) :=
    ⟨by decide, by decide, by decide, by decide, by decide, by decide, by decide, by decide,
      trivial⟩
  have hlong : Ticker.finish Look.now (quietLook 0).now [] + 2 * (timerMs slowTick + 10000000) ≤
      Ticker.finish Look.now (quietLook 0).now ([] ++ fourLooks) := by decide
  -- the looks before any of the four are the first few of them
  have hfree : ∀ l look r d, fourLooks = l ++ look :: r →
      (startTimed nic).run exactTimer (quietLook 0 :: ([] ++ l)) = some d →
      d.node.world.nic.ethBuffers ≠ 0 := by
    intro l look r d hsplit hd
    have htake : fourLooks.take l.length = l := by rw [hsplit, List.take_left]
    have hle : l.length ≤ 4 := by
      rw [← htake]
      exact (List.length_take_le' _ _).trans (by decide)
    have hfew := hbuffers l.length hle
    rw [afterLooks, hopen, Option.bind_some, htake, ← List.nil_append l, hd] at hfew
    simpa using hfew
  have h₀ : Initialised #v[2, 0, 0, 0, 0, 1] (startTimed nic).node := startNode_initialised hopen
  obtain ⟨l, look, r, d, d', t, ts, hsplit, hd, hd', hout⟩ := idle_node_heard exactTimer_documented
    h₀ (Option.some_ne_none _) (fun l hl => (hlooks l hl).1) hspaced
    (fun l hl => (hlooks l (List.mem_cons_of_mem _ hl)).2) hlong hfree hrun
  exact ⟨nic, l, look, r, d, d', t, ts, hsplit, hd, hd', hout⟩

end Gigaboot.Netboot.Replies
