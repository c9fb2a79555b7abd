import Gigaboot.Netboot.Replies
import Gigaboot.Osboot.EfiMain

/-!
# The netboot loop over the whole stack

The loop of `efi_main` over a device that is called with datagrams, and over the node that
receives frames, advertises itself and sends its acks.  A poll of the node is a poll of
its device, or finds the interface down and leaves the device alone.

* `netbootPoll_refines`: one poll;
* `nodeMain_refines`: whatever the loop over the node comes to, the loop over its device
  comes to on some datagrams.
-/

namespace Gigaboot.Osboot

open ByteMem Inet6 Netifc Netboot Replies

theorem sent_app {w w' : World Device} {r : Option (Nic × Int)} (h : w.sent r = some w') :
    w'.app = w.app := by
  obtain ⟨x, -, rfl⟩ := Option.map_eq_some_iff.mp h
  rfl

theorem online_app {s s' : Node} (h : s.online = some s') : s'.world.app = s.world.app := by
  unfold Node.online at h
  cases hon : s.nbOnline with
  | true =>
    rw [hon] at h
    cases h
    rfl
  | false =>
    rw [hon] at h
    obtain ⟨w, hadv, rfl⟩ := Option.map_eq_some_iff.mp h
    exact sent_app hadv

theorem tick_app {s s' : Node} {expired : Bool} (h : s.tick expired = some s') :
    s'.world.app =
      if expired then { s.world.app with nbActive := false } else s.world.app := by
  unfold Node.tick at h
  cases expired with
  | false =>
    cases h
    rfl
  | true =>
    simp only [not_true_eq_false, if_false, s.rearm_world] at h
    cases hact : s.world.app.nbActive with
    | true =>
      rw [hact] at h
      cases h
      rfl
    | false =>
      rw [hact] at h
      obtain ⟨w, hadv, rfl⟩ := Option.map_eq_some_iff.mp h
      -- there was no transfer to end
      rw [if_pos rfl, ← hact]
      exact sent_app hadv

def received (d : Device) : Option (Mem × Nat × UInt16) → Device
  | none => d
  | some (data, len, dport) => (udp6Recv d data len dport).dev

/-- A frame leads to at most one call of `udp6_recv`. -/
theorem ethRecv_app {w w' : World Device} {buf : Mem} {len : Nat}
    (h : ethRecv netbootRecv w buf len = some w') :
    ∃ call, w'.app = received w.app call := by
  by_cases hd : Delivered w.stack buf len
  swap
  · exact ⟨none, ethRecv_app_of_not_delivered netbootRecv hd h⟩
  rw [ethRecv_delivered netbootRecv hd, netbootRecv] at h
  refine ⟨some ((callOf buf).data, (callOf buf).len, (callOf buf).dport), ?_⟩
  cases hack : (udp6Recv (w.heard buf).app (callOf buf).data (callOf buf).len
      (callOf buf).dport).ack with
  | none =>
    rw [hack] at h
    cases h
    rfl
  | some ack =>
    rw [hack] at h
    exact sent_app h

theorem netifcPoll_app {w w' : World Device} {s : Poll.Status}
    (h : Poll.netifcPoll netbootRecv w s = some w') : ∃ call, w'.app = received w.app call := by
  rcases Poll.netifcPoll_cases h with ⟨-, rfl⟩ | ⟨-, nic, -, ⟨-, rfl⟩ | ⟨buf, len, -, hrecv⟩⟩
  · exact ⟨none, rfl⟩
  · exact ⟨none, rfl⟩
  · obtain ⟨call, hcall⟩ := ethRecv_app hrecv
    exact ⟨call, hcall⟩

/-- **A poll of the node is a poll of its device**, unless the interface is down. -/
theorem netbootPoll_refines {s s' : Node} {e : Event} {n : Int}
    (h : Replies.netbootPoll s e = some (s', n)) :
    s'.world.app = s.world.app ∧ n = 0 ∨
      ∃ p : Poll, netbootPoll s.world.app p = (s'.world.app, n) := by
  unfold Replies.netbootPoll at h
  cases hact : e.active with
  | false =>
    rw [hact] at h
    cases h
    exact .inl ⟨rfl, rfl⟩
  | true =>
    rw [hact] at h
    obtain ⟨s₁, hon, h⟩ := Option.bind_eq_some_iff.mp h
    obtain ⟨s₂, htick, h⟩ := Option.bind_eq_some_iff.mp h
    obtain ⟨w, hpoll, h⟩ := Option.bind_eq_some_iff.mp h
    obtain ⟨call, happ⟩ := netifcPoll_app hpoll
    cases h
    rw [tick_app htick, online_app hon] at happ
    refine .inr ⟨⟨e.timerExpired, call⟩, ?_⟩
    rw [happ]
    cases call with
    | none => rfl
    | some c => rfl

/-- The loop of `efi_main` over the node; `none` if a poll does not return. -/
def nodeMain (s : Node) : List Event → Option Main
  | [] => some (.polling s.world.app)
  | e :: es =>
    match Replies.netbootPoll s e with
    | none => none
    | some (s, n) =>
      if n < 1 then nodeMain s es
      else if (s.world.app.files .nbkernel).offset < 32768 then nodeMain s es
      else if isEfiBinary (s.world.app.files .nbkernel).data then nodeMain s es
      else some (.booting s.world.app)

/-- **The loop over the node refines the loop over its device.** -/
theorem nodeMain_refines {s : Node} {es : List Event} {m : Main} (h : nodeMain s es = some m) :
    ∃ ps, efiMain s.world.app ps = m := by
  induction es generalizing s with
  | nil =>
    cases h
    exact ⟨[], rfl⟩
  | cons e es ih =>
    rw [nodeMain] at h
    cases hpoll : Replies.netbootPoll s e with
    | none =>
      rw [hpoll] at h
      cases h
    | some x =>
      obtain ⟨s', n⟩ := x
      simp only [hpoll] at h
      rcases netbootPoll_refines hpoll with ⟨happ, rfl⟩ | ⟨p, hp⟩
      · rw [if_pos (by decide)] at h
        rw [← happ]
        exact ih h
      -- a round that goes on is followed by the rounds of the rest
      have hgo : mainRound s.world.app p = .polling s'.world.app → nodeMain s' es = some m →
          ∃ ps, efiMain s.world.app ps = m := by
        intro hround hrest
        obtain ⟨ps, hps⟩ := ih hrest
        exact ⟨p :: ps, by rw [efiMain, hround]; exact hps⟩
      by_cases hn : n < 1
      · exact hgo (by simp [mainRound, hp, hn]) (by rwa [if_pos hn] at h)
      by_cases hsize : (s'.world.app.files .nbkernel).offset < 32768
      · exact hgo (by simp [mainRound, hp, hn, hsize]) (by rwa [if_neg hn, if_pos hsize] at h)
      by_cases hefi : isEfiBinary (s'.world.app.files .nbkernel).data
      · exact hgo (by simp [mainRound, hp, hn, hsize, hefi])
          (by rwa [if_neg hn, if_neg hsize, if_pos hefi] at h)
      · rw [if_neg hn, if_neg hsize, if_neg hefi, Option.some.injEq] at h
        refine ⟨[p], ?_⟩
        rw [← h, efiMain]
        simp [mainRound, hp, hn, hsize, hefi]

end Gigaboot.Osboot
