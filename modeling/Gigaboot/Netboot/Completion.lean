import Gigaboot.Netboot.Session
import Gigaboot.Osboot.EfiMain

/-!
# When a transfer completes

One host and one device on a link that loses messages.  Each message that `io` writes has a fate:
it is lost, or its answer is lost, or both get through before the read times out.  A list of fates
decides a whole run of `xfer`, and the question is for which of them it gets to its end.

The device is in the loop of `efi_main`.  A boot command takes it out of there for good, unless the
file is too small for a kernel or is an EFI binary: then it goes on, and acks the command as often
as it comes.

* `attempt_eq`: what one turn of the loop in `io` does;
* `call_runs`, `call_fails`: what a call of `io` does, for a message that the device answers every
  time, once, or never as the host wants it;
* `boot_ends`, `reading_ends`: the calls from the boot command on, and from a block on;
* `xfer_completes_iff`: the whole of `xfer`.
-/

namespace Gigaboot.Netboot

open ByteMem Osboot

/-! ## The link -/

/-- What becomes of a message and of its answer. -/
inductive Fate
  | requestLost
  | ackLost
  | delivered
  deriving DecidableEq, Repr

/-- A round of `efi_main` at the other end.  After its call of `boot_kernel` it does not look at the
network again. -/
def answer : Main → Datagram → Main × Option NbMsg
  | .polling d, m => (mainRound d (pollOf m), (recv d m.bytes).ack)
  | .booting d, _ => (.booting d, none)

def timeOut (h : Host) (x : Main) : Option (Host × Main) :=
  (hostStep h .timeout).map fun s => (s.1, x)

/-- One turn of the loop in `io`: a write, and the reads after it. -/
def attempt (h : Host) (x : Main) (f : Fate) : Option (Host × Main) :=
  (hostStep h .writeOk).bind fun s =>
    s.2.bind fun m =>
      match f with
      | .requestLost => timeOut s.1 x
      | .ackLost => timeOut s.1 (answer x m).1
      | .delivered =>
        match (answer x m).2 with
        | none => timeOut s.1 (answer x m).1
        | some ack =>
          (hostStep s.1 (.datagram ack.bytes)).bind fun s =>
            -- an answer that is not the ack is passed over, and the read times out
            if s.1.pc = .again then timeOut s.1 (answer x m).1 else some (s.1, (answer x m).1)

/-- Between two calls of `io`, `xfer` reads the next block of the file. -/
def nextCall (h : Host) : Option Host :=
  if h.pc = .fread then
    (hostStep h (if h.pos < h.file.length then .block (min 1024 (h.file.length - h.pos))
      else .eof)).map Prod.fst
  else some h

/-- A run of `xfer`, until it is through or gives up, or the fates end. -/
def linkRun (h : Host) (x : Main) : List Fate → Option (Host × Main)
  | [] => some (h, x)
  | f :: fs =>
    if h.pc = .write then
      (attempt h x f).bind fun s => (nextCall s.1).bind fun h => linkRun h s.2 fs
    else some (h, x)

/-! ## Calls that are answered -/

/-- The fates that are left after a call of `io` with `k` attempts that gets its ack.  With `once`
the device acks a message only when it comes for the first time. -/
def acked (once : Bool) : Nat → List Fate → Option (List Fate)
  | 0, _ => none
  | _ + 1, [] => none
  | k + 1, .requestLost :: fs => acked once k fs
  | k + 1, .ackLost :: fs => if once then none else acked once k fs
  | _ + 1, .delivered :: fs => some fs

def allAcked : List Bool → List Fate → Option (List Fate)
  | [], fs => some fs
  | once :: calls, fs => (acked once 5 fs).bind (allAcked calls)

/-- One of the first `k` messages gets through. -/
def Reached (k : Nat) (fs : List Fate) : Prop := ∃ f ∈ fs.take k, f ≠ .requestLost

instance (k : Nat) (fs : List Fate) : Decidable (Reached k fs) :=
  inferInstanceAs (Decidable (∃ f ∈ fs.take k, f ≠ .requestLost))

/-- The calls for the blocks of a file of `n` bytes from `a` on.  Only the ack of the block at 0 is
not sent again. -/
def blockCalls (n a : Nat) : List Bool :=
  if n ≤ a then [] else decide (a = 0) :: List.replicate ((n - a - 1) / 1024) false

theorem blockCalls_next {n a : Nat} (h : a < n) :
    blockCalls n a = decide (a = 0) :: blockCalls n (a + min 1024 (n - a)) := by
  unfold blockCalls
  rw [if_neg (Nat.not_le.mpr h)]
  by_cases hlast : n - a ≤ 1024
  · have hzero : (n - a - 1) / 1024 = 0 := by omega
    rw [if_pos (by omega), hzero, List.replicate_zero]
  · have hsucc : (n - a - 1) / 1024 = (n - (a + min 1024 (n - a)) - 1) / 1024 + 1 := by omega
    have hne : ¬ a + min 1024 (n - a) = 0 := by omega
    rw [if_neg (by omega), decide_eq_false hne, hsucc, List.replicate_succ]

/-! ## One turn -/

def Host.timedOut (h : Host) : Host :=
  if h.retries - 1 > 0 then { h with retries := h.retries - 1, pc := .write }
  else { h with retries := h.retries - 1, pc := .idle }

/-- The ack that `io` waits for. -/
def Host.wanted (h : Host) : NbMsg := h.msg.hdr.ackOf nbAck h.msg.hdr.arg

theorem timeOut_eq {h : Host} (x : Main) :
    timeOut { h with pc := .again } x = some (h.timedOut, x) := by
  unfold timeOut hostStep Host.timedOut
  rw [if_pos rfl]
  dsimp only
  split <;> rfl

theorem attempt_eq {h : Host} (hpc : h.pc = .write) (x : Main) (f : Fate) :
    attempt h x f = some
      (match f with
      | .requestLost => (h.timedOut, x)
      | .ackLost => (h.timedOut, (answer x h.msg).1)
      | .delivered =>
        if (answer x h.msg).2 = some h.wanted then (h.ioDone, (answer x h.msg).1)
        else (h.timedOut, (answer x h.msg).1)) := by
  have hwrite : hostStep h .writeOk = some ({ h with pc := .again }, some h.msg) := if_pos hpc
  rw [attempt, hwrite, Option.bind_some, Option.bind_some]
  cases f with
  | requestLost => exact timeOut_eq x
  | ackLost => exact timeOut_eq _
  | delivered =>
    dsimp only
    cases hack : (answer x h.msg).2 with
    | none =>
      dsimp only
      rw [if_neg (Option.some_ne_none h.wanted).symm]
      exact timeOut_eq _
    | some ack =>
      have hread : hostStep { h with pc := .again } (.datagram ack.bytes) =
          if { h with pc := .again }.accepts ack.bytes then
            some ({ h with pc := .again }.ioDone, none)
          else some ({ h with pc := .again }, none) := by
        rw [hostStep, if_pos rfl]
      have haccepts := { h with pc := .again }.accepts_bytes ack
      dsimp only
      by_cases hwanted : ack = h.wanted
      · have hdone : { h with pc := .again }.ioDone = h.ioDone := by
          unfold Host.ioDone
          cases h.stage <;> rfl
        have hpc' : h.ioDone.pc ≠ .again := by
          unfold Host.ioDone
          cases h.stage <;> exact Pc.noConfusion
        rw [hread, if_pos (haccepts.mpr hwanted), Option.bind_some, hdone, if_neg hpc',
          if_pos (congrArg some hwanted)]
      · rw [hread, if_neg (fun hacc => hwanted (haccepts.mp hacc)), Option.bind_some, if_pos rfl,
          if_neg (fun he => hwanted (Option.some.inj he))]
        exact timeOut_eq _

/-! ## One call -/

def Host.atTry (h : Host) (k : Nat) : Host := { h with retries := k, pc := .write }

theorem atTry_pc (h : Host) (k : Nat) : (h.atTry k).pc = .write := rfl

def Host.gaveUp (h : Host) : Host := { h with retries := 0, pc := .idle }

theorem linkRun_of_ne {h : Host} (hpc : h.pc ≠ .write) (x : Main) (fs : List Fate) :
    linkRun h x fs = some (h, x) := by
  cases fs with
  | nil => rfl
  | cons f fs => rw [linkRun, if_neg hpc]

theorem nextCall_of_ne {h : Host} (hpc : h.pc ≠ .fread) : nextCall h = some h := if_neg hpc

theorem linkRun_gaveUp {h : Host} {x y : Main} {f : Fate}
    (hatt : attempt (h.atTry 1) x f = some ((h.atTry 1).timedOut, y)) (fs : List Fate) :
    linkRun (h.atTry 1) x (f :: fs) = some (h.gaveUp, y) := by
  have htimed : (h.atTry 1).timedOut = h.gaveUp := rfl
  have hfread : h.gaveUp.pc ≠ .fread := by nofun
  have hwrite : h.gaveUp.pc ≠ .write := by nofun
  rw [linkRun, if_pos (atTry_pc h _), hatt, Option.bind_some, htimed, nextCall_of_ne hfread,
    Option.bind_some, linkRun_of_ne hwrite]

theorem linkRun_retry {h : Host} {k : Nat} {x y : Main} {f : Fate}
    (hatt : attempt (h.atTry (k + 2)) x f = some ((h.atTry (k + 2)).timedOut, y))
    (fs : List Fate) :
    linkRun (h.atTry (k + 2)) x (f :: fs) = linkRun (h.atTry (k + 1)) y fs := by
  have htimed : (h.atTry (k + 2)).timedOut = h.atTry (k + 1) := rfl
  have hfread : (h.atTry (k + 1)).pc ≠ .fread := by nofun
  rw [linkRun, if_pos (atTry_pc h _), hatt, Option.bind_some, htimed, nextCall_of_ne hfread,
    Option.bind_some]

theorem call_fails {h : Host} {Q : Main → Prop}
    (hQ : ∀ x, Q x → Q (answer x h.msg).1 ∧ (answer x h.msg).2 ≠ some h.wanted) (fs : List Fate) :
    ∀ {k : Nat} {x : Main}, Q x →
      ∃ h' y, linkRun (h.atTry (k + 1)) x fs = some (h', y) ∧ h'.pc ≠ .booted ∧ Q y := by
  induction fs with
  | nil => exact fun hx => ⟨_, _, rfl, by nofun, hx⟩
  | cons f fs ih =>
    intro k x hx
    obtain ⟨y, hatt, hy⟩ : ∃ y, attempt (h.atTry (k + 1)) x f =
        some ((h.atTry (k + 1)).timedOut, y) ∧ Q y := by
      rw [attempt_eq rfl]
      cases f with
      | requestLost => exact ⟨x, rfl, hx⟩
      | ackLost => exact ⟨_, rfl, (hQ x hx).1⟩
      | delivered => exact ⟨_, congrArg some (if_neg (hQ x hx).2), (hQ x hx).1⟩
    cases k with
    | zero => exact ⟨_, _, linkRun_gaveUp hatt fs, by nofun, hy⟩
    | succ k =>
      rw [linkRun_retry hatt]
      exact ih hy

/-- How the device answers the message of a host, when it gets it for the first time and after
that. -/
structure Answers (h : Host) (once : Bool) (pre post : Main → Prop) : Prop where
  first : ∀ x, pre x → (answer x h.msg).2 = some h.wanted ∧ post (answer x h.msg).1
  again : ∀ x, post x →
    (answer x h.msg).2 = (if once then none else some h.wanted) ∧ post (answer x h.msg).1

theorem not_reached_nil (k : Nat) : ¬ Reached k [] := by
  rintro ⟨f, hf, -⟩
  rw [List.take_nil] at hf
  cases hf

theorem not_reached_zero (fs : List Fate) : ¬ Reached 0 fs := by
  rintro ⟨f, hf, -⟩
  cases hf

theorem reached_cons {k : Nat} {f : Fate} {fs : List Fate} (hf : f ≠ .requestLost) :
    Reached (k + 1) (f :: fs) := ⟨f, List.mem_cons_self, hf⟩

theorem reached_lost_iff {k : Nat} {fs : List Fate} :
    Reached (k + 1) (.requestLost :: fs) ↔ Reached k fs := by
  constructor
  · rintro ⟨f, hf, hne⟩
    rw [List.take_succ_cons, List.mem_cons] at hf
    exact ⟨f, hf.resolve_left hne, hne⟩
  · rintro ⟨f, hf, hne⟩
    exact ⟨f, by rw [List.take_succ_cons]; exact List.mem_cons_of_mem _ hf, hne⟩

/-- How a call of `io` ends: with its ack, and `xfer` goes on with the fates that are left; or
without it, and then the device has got the message if one of them reached it. -/
structure CallEnds (h : Host) (once : Bool) (pre post : Main → Prop) (k : Nat) (x : Main)
    (fs : List Fate) : Prop where
  acked : ∀ rest, acked once k fs = some rest → ∃ j y, post y ∧
    linkRun (h.atTry k) x fs =
      (nextCall (h.atTry j).ioDone).bind fun h' => linkRun h' y rest
  failed : Netboot.acked once k fs = none → ∃ h' y, linkRun (h.atTry k) x fs = some (h', y) ∧
    h'.pc ≠ .booted ∧ (¬ Reached k fs → pre x → pre y) ∧ (Reached k fs ∨ post x → post y)

section Turns

variable {h : Host} {once : Bool} {pre post : Main → Prop} {k : Nat} {x : Main} {fs : List Fate}

theorem CallEnds.nil : CallEnds h once pre post (k + 1) x [] := by
  refine ⟨by nofun, fun _ => ⟨_, _, rfl, by nofun, fun _ hpre => hpre, ?_⟩⟩
  exact fun h => h.resolve_left (not_reached_nil _)

theorem CallEnds.requestLost (hnext : k ≠ 0 → CallEnds h once pre post k x fs) :
    CallEnds h once pre post (k + 1) x (.requestLost :: fs) := by
  have hatt : attempt (h.atTry (k + 1)) x .requestLost =
      some ((h.atTry (k + 1)).timedOut, x) := attempt_eq rfl x .requestLost
  cases k with
  | zero =>
    refine ⟨by nofun, fun _ => ⟨_, _, linkRun_gaveUp hatt fs, by nofun, fun _ hpre => hpre, ?_⟩⟩
    exact fun h => h.resolve_left fun hr => not_reached_zero fs (reached_lost_iff.mp hr)
  | succ k =>
    obtain ⟨hacked, hfailed⟩ := hnext (Nat.succ_ne_zero k)
    refine ⟨fun rest hrest => ?_, fun hnone => ?_⟩
    · obtain ⟨j, y, hy, hrun⟩ := hacked rest hrest
      exact ⟨j, y, hy, by rw [linkRun_retry hatt, hrun]⟩
    · obtain ⟨h', y, hrun, hpc, hkeep, hgot⟩ := hfailed hnone
      rw [← reached_lost_iff] at hkeep hgot
      exact ⟨h', y, by rw [linkRun_retry hatt, hrun], hpc, hkeep, hgot⟩

/-- The device gets the message, and would ack it again. -/
theorem CallEnds.ackLost (hpost : post (answer x h.msg).1)
    (hnext : k ≠ 0 → CallEnds h false pre post k (answer x h.msg).1 fs) :
    CallEnds h false pre post (k + 1) x (.ackLost :: fs) := by
  have hatt : attempt (h.atTry (k + 1)) x .ackLost =
      some ((h.atTry (k + 1)).timedOut, (answer x h.msg).1) := attempt_eq rfl x .ackLost
  have hreached : Reached (k + 1) (.ackLost :: fs) := reached_cons (by nofun)
  cases k with
  | zero =>
    exact ⟨by nofun, fun _ => ⟨_, _, linkRun_gaveUp hatt fs, by nofun,
      fun hnot => absurd hreached hnot, fun _ => hpost⟩⟩
  | succ k =>
    obtain ⟨hacked, hfailed⟩ := hnext (Nat.succ_ne_zero k)
    refine ⟨fun rest hrest => ?_, fun hnone => ?_⟩
    · obtain ⟨j, y, hy, hrun⟩ := hacked rest hrest
      exact ⟨j, y, hy, by rw [linkRun_retry hatt, hrun]⟩
    · obtain ⟨h', y, hrun, hpc, -, hgot⟩ := hfailed hnone
      exact ⟨h', y, by rw [linkRun_retry hatt, hrun], hpc, fun hnot => absurd hreached hnot,
        fun _ => hgot (.inr hpost)⟩

/-- The device gets the message, and will not ack it again. -/
theorem CallEnds.onlyAckLost (hpost : post (answer x h.msg).1)
    (hsilent : ∀ x, post x → post (answer x h.msg).1 ∧ (answer x h.msg).2 ≠ some h.wanted) :
    CallEnds h true pre post (k + 1) x (.ackLost :: fs) := by
  have hatt : attempt (h.atTry (k + 1)) x .ackLost =
      some ((h.atTry (k + 1)).timedOut, (answer x h.msg).1) := attempt_eq rfl x .ackLost
  have hreached : Reached (k + 1) (.ackLost :: fs) := reached_cons (by nofun)
  refine ⟨by nofun, fun _ => ?_⟩
  cases k with
  | zero =>
    exact ⟨_, _, linkRun_gaveUp hatt fs, by nofun, fun hnot => absurd hreached hnot,
      fun _ => hpost⟩
  | succ k =>
    obtain ⟨h', y, hrun, hpc, hy⟩ := call_fails hsilent fs hpost
    exact ⟨h', y, by rw [linkRun_retry hatt, hrun], hpc, fun hnot => absurd hreached hnot,
      fun _ => hy⟩

theorem CallEnds.delivered (hack : (answer x h.msg).2 = some h.wanted)
    (hpost : post (answer x h.msg).1) :
    CallEnds h once pre post (k + 1) x (.delivered :: fs) := by
  refine ⟨fun rest hrest => ?_, by nofun⟩
  obtain rfl : fs = rest := Option.some.inj hrest
  have hatt : attempt (h.atTry (k + 1)) x .delivered =
      some ((h.atTry (k + 1)).ioDone, (answer x h.msg).1) := by
    rw [attempt_eq rfl]
    exact congrArg some (if_pos hack)
  exact ⟨k + 1, _, hpost, by rw [linkRun, if_pos (atTry_pc h _), hatt, Option.bind_some]⟩

end Turns

theorem call_runs {h : Host} {once : Bool} {pre post : Main → Prop}
    (ha : Answers h once pre post) (fs : List Fate) : ∀ {k : Nat} {x : Main},
      pre x ∨ once = false ∧ post x → CallEnds h once pre post (k + 1) x fs := by
  induction fs with
  | nil => exact fun _ => .nil
  | cons f fs ih =>
    intro k x hx
    obtain ⟨hack, hpost⟩ : (answer x h.msg).2 = some h.wanted ∧ post (answer x h.msg).1 := by
      rcases hx with hpre | ⟨rfl, hpost⟩
      · exact ha.first x hpre
      · exact ha.again x hpost
    -- the rest of the call has one attempt less
    have hrest : ∀ {y}, pre y ∨ once = false ∧ post y → k ≠ 0 →
        CallEnds h once pre post k y fs := by
      intro y hy hk
      obtain ⟨j, rfl⟩ := Nat.exists_eq_succ_of_ne_zero hk
      exact ih hy
    cases f with
    | requestLost => exact .requestLost (hrest hx)
    | ackLost =>
      cases once with
      | true =>
        refine .onlyAckLost hpost fun y hy => ?_
        obtain ⟨hnone, hy'⟩ := ha.again y hy
        exact ⟨hy', by rw [hnone]; exact (Option.some_ne_none _).symm⟩
      | false => exact .ackLost hpost (hrest (.inr ⟨rfl, hpost⟩))
    | delivered => exact .delivered hack hpost

/-! ## The rest of a transfer -/

theorem allAcked_append (calls calls' : List Bool) : ∀ fs,
    allAcked (calls ++ calls') fs = (allAcked calls fs).bind (allAcked calls') := by
  induction calls with
  | nil => exact fun fs => rfl
  | cons once calls ih =>
    intro fs
    rw [List.cons_append, allAcked, allAcked, Option.bind_assoc]
    exact congrArg _ (funext ih)

/-- `efi_main` calls `boot_kernel` for this file. -/
def boots (file : List UInt8) : Bool :=
  decide (32768 ≤ file.length) && !isEfiBinary (ofList file)

/-- How a transfer of `file` ends, with these calls to go before the boot command. -/
def Ends (file : List UInt8) (calls : List Bool) (fs : List Fate)
    (r : Option (Host × Main)) : Prop :=
  ∃ h x, r = some (h, x) ∧
    (h.pc = .booted ↔ file.length ≤ kbufSize ∧ (allAcked (calls ++ [boots file]) fs).isSome) ∧
    ((∃ d, x = .booting d) ↔ boots file = true ∧ file.length ≤ kbufSize ∧
      ∃ rest, allAcked calls fs = some rest ∧ Reached 5 rest) ∧
    (h.pc = .booted ∨ (∃ d, x = .booting d) → Holds file file.length x.device)

/-- The device is in its loop, and `P` holds. -/
def Polling (P : Device → Prop) (x : Main) : Prop := ∃ d, x = .polling d ∧ P d

theorem Polling.not_booting {P : Device → Prop} {x : Main} (h : Polling P x) :
    ¬ ∃ d, x = .booting d := by
  rintro ⟨d, rfl⟩
  obtain ⟨_, he, -⟩ := h
  cases he

theorem ends_failed {file : List UInt8} {calls : List Bool} {fs : List Fate}
    {r : Option (Host × Main)} {h : Host} {x : Main} {P : Device → Prop} (hr : r = some (h, x))
    (hpc : h.pc ≠ .booted) (hx : Polling P x)
    (hnone : file.length ≤ kbufSize → allAcked calls fs = none) : Ends file calls fs r := by
  refine ⟨h, x, hr, iff_of_false hpc ?_, iff_of_false hx.not_booting ?_,
    fun hb => (hb.elim hpc hx.not_booting).elim⟩
  · rintro ⟨hle, hsome⟩
    rw [allAcked_append, hnone hle] at hsome
    cases hsome
  · rintro ⟨-, hle, rest, hrest, -⟩
    rw [hnone hle] at hrest
    cases hrest

theorem ends_call {file : List UInt8} {calls : List Bool} {h : Host} {once : Bool}
    {pre post : Device → Prop} {x : Main} {fs : List Fate}
    (hcall : CallEnds h once (Polling pre) (Polling post) 5 x fs) (hx : Polling pre x)
    (hrest : ∀ j d rest, post d →
      Ends file calls rest
        ((nextCall (h.atTry j).ioDone).bind fun h' => linkRun h' (.polling d) rest)) :
    Ends file (once :: calls) fs (linkRun (h.atTry 5) x fs) := by
  cases hack : acked once 5 fs with
  | none =>
    obtain ⟨h', y, hrun, hpc, hkeep, hgot⟩ := hcall.failed hack
    have hnone : allAcked (once :: calls) fs = none := by rw [allAcked, hack, Option.bind_none]
    by_cases hreached : Reached 5 fs
    · exact ends_failed hrun hpc (hgot (.inl hreached)) fun _ => hnone
    · exact ends_failed hrun hpc (hkeep hreached hx) fun _ => hnone
  | some rest =>
    obtain ⟨j, y, ⟨d, rfl, hd⟩, hrun⟩ := hcall.acked rest hack
    have hends := hrest j d rest hd
    have hcons : ∀ calls', allAcked (once :: calls') fs = allAcked calls' rest := by
      intro calls'
      rw [allAcked, hack, Option.bind_some]
    rw [← hrun] at hends
    unfold Ends
    rw [List.cons_append, hcons, hcons]
    exact hends

theorem acked_reached {once : Bool} (fs : List Fate) : ∀ {k : Nat} {rest : List Fate},
    acked once k fs = some rest → Reached k fs := by
  induction fs with
  | nil =>
    intro k rest h
    cases k <;> cases h
  | cons f fs ih =>
    intro k rest h
    cases k with
    | zero => cases h
    | succ k =>
      cases f with
      | requestLost => exact reached_lost_iff.mpr (ih h)
      | ackLost => exact reached_cons (by nofun)
      | delivered => exact reached_cons (by nofun)

/-! ## The device -/

theorem recv_handled (d : Device) (m : Datagram) :
    Handled d m (recv d m.bytes).dev (recv d m.bytes).ack :=
  udp6Recv_handled d m (ofList m.bytes) (read_ofList _)

theorem recv_bounded {d : Device} (hb : d.Bounded) (m : Datagram) :
    (recv d m.bytes).dev.Bounded := udp6Recv_bounded hb _ _ _

/-- A message that is no boot command leaves the device in its loop. -/
theorem answer_waiting {d : Device} {m : Datagram} (h : (recv d m.bytes).dev.nbBootNow = false) :
    answer (.polling d) m = (.polling (recv d m.bytes).dev, (recv d m.bytes).ack) := by
  have hpoll : netbootPoll d (pollOf m) = ((recv d m.bytes).dev, 0) := by
    show (recv d m.bytes).dev.takeBoot = _
    rw [Device.takeBoot, if_neg (by rw [h]; exact Bool.false_ne_true)]
  rw [answer, mainRound_eq, hpoll, if_neg (fun hone => Int.zero_ne_one hone.1)]

/-- How `udp6_recv` answers the message of a host, when it gets it for the first time and after
that. -/
structure Acks (h : Host) (once : Bool) (pre post : Device → Prop) : Prop where
  first : ∀ d, pre d → (recv d h.msg.bytes).ack = some h.wanted ∧ post (recv d h.msg.bytes).dev
  again : ∀ d, post d → (recv d h.msg.bytes).ack = (if once then none else some h.wanted) ∧
    post (recv d h.msg.bytes).dev

theorem Acks.answers {h : Host} {once : Bool} {pre post : Device → Prop}
    (ha : Acks h once pre post) (hpost : ∀ d, post d → d.nbBootNow = false) :
    Answers h once (Polling pre) (Polling post) := by
  constructor
  · rintro x ⟨d, rfl, hd⟩
    obtain ⟨hack, hd'⟩ := ha.first d hd
    rw [answer_waiting (hpost _ hd')]
    exact ⟨hack, _, rfl, hd'⟩
  · rintro x ⟨d, rfl, hd⟩
    obtain ⟨hack, hd'⟩ := ha.again d hd
    rw [answer_waiting (hpost _ hd')]
    exact ⟨hack, _, rfl, hd'⟩

theorem never_acked {h : Host} {Q : Device → Prop}
    (hQ : ∀ d, Q d → Q (recv d h.msg.bytes).dev ∧ (recv d h.msg.bytes).ack ≠ some h.wanted)
    (hwait : ∀ d, Q d → d.nbBootNow = false) (x : Main) (hx : Polling Q x) :
    Polling Q (answer x h.msg).1 ∧ (answer x h.msg).2 ≠ some h.wanted := by
  obtain ⟨d, rfl, hd⟩ := hx
  obtain ⟨hd', hack⟩ := hQ d hd
  rw [answer_waiting (hwait _ hd')]
  exact ⟨⟨_, rfl, hd'⟩, hack⟩

/-- The device has the first `a` bytes of the file, and was not told to boot. -/
structure Waiting (file : List UInt8) (a : Nat) (d : Device) : Prop where
  holds : Holds file a d
  bounded : d.Bounded
  waiting : d.nbBootNow = false

/-! ### The boot command -/

/-- The device has got the boot command. -/
structure Told (file : List UInt8) (x : Main) : Prop where
  waiting : Waiting file file.length x.device
  booting : (∃ d, x = .booting d) ↔ boots file = true

theorem isEfiBinary_of_holds {file : List UInt8} {d : Device} (h : Holds file file.length d)
    (hsize : 32768 ≤ file.length) :
    isEfiBinary (d.files .nbkernel).data = isEfiBinary (ofList file) := by
  have hread := h.data
  rw [List.take_length] at hread
  have hbyte : ∀ i < 32768, (d.files .nbkernel).data i = ofList file i := by
    intro i hi
    have hg := read_getD (d.files .nbkernel).data 0 file.length i (by omega)
    rw [hread, Nat.zero_add] at hg
    exact hg.symm
  unfold isEfiBinary
  rw [hbyte 0 (by decide), hbyte 1 (by decide), hbyte 0x80 (by decide), hbyte 0x81 (by decide)]

theorem bootable_iff {file : List UInt8} {d : Device} (h : Holds file file.length d) :
    32768 ≤ (d.files .nbkernel).offset ∧ isEfiBinary (d.files .nbkernel).data = false ↔
      boots file = true := by
  rw [h.offset, boots, Bool.and_eq_true, decide_eq_true_iff, Bool.not_eq_true']
  exact and_congr_right fun hsize => by rw [isEfiBinary_of_holds h hsize]

theorem answer_boot {h : Host} {file : List UInt8} {c : UInt32} (hmsg : h.msg = bootRequest c)
    {d : Device} (hd : Waiting file file.length d) :
    (answer (.polling d) h.msg).2 = some h.wanted ∧ Told file (answer (.polling d) h.msg).1 := by
  have hh := recv_handled d h.msg
  have hb := recv_bounded hd.bounded h.msg
  rw [hmsg] at hh hb
  obtain ⟨hdev, hack⟩ := handled_boot hh
  have hpoll : netbootPoll d (pollOf (bootRequest c)) =
      (recv d (bootRequest c).bytes).dev.takeBoot := rfl
  have hone : (recv d (bootRequest c).bytes).dev.takeBoot.2 = 1 := by
    rw [hdev]
    rfl
  have hwait : Waiting file file.length (recv d (bootRequest c).bytes).dev.takeBoot.1 :=
    ⟨hd.holds.congr (by rw [hdev]; rfl) (by rw [hdev]; rfl), Device.takeBoot_bounded hb,
      Device.takeBoot_nbBootNow _⟩
  rw [Host.wanted, hmsg, answer, hack, mainRound_eq, hpoll, hone]
  refine ⟨rfl, ?_⟩
  simp only [true_and, bootable_iff hwait.holds]
  split
  · rename_i hb
    exact ⟨hwait, iff_of_true ⟨_, rfl⟩ hb⟩
  · rename_i hb
    exact ⟨hwait, iff_of_false (by rintro ⟨_, he⟩; cases he) hb⟩

theorem answers_boot {h : Host} {file : List UInt8} {c : UInt32} (hmsg : h.msg = bootRequest c) :
    Answers h (boots file) (Polling (Waiting file file.length)) (Told file) := by
  constructor
  · rintro x ⟨d, rfl, hd⟩
    exact answer_boot hmsg hd
  · intro x hx
    cases hb : boots file with
    | true =>
      obtain ⟨d, rfl⟩ := hx.booting.mpr hb
      exact ⟨rfl, hx⟩
    | false =>
      -- the device is still in its loop
      cases x with
      | polling d => exact answer_boot hmsg hx.waiting
      | booting d =>
        rw [hx.booting.mp ⟨d, rfl⟩] at hb
        cases hb

theorem boot_ends {h : Host} {file : List UInt8} {c : UInt32} (hstage : h.stage = .boot)
    (hmsg : h.msg = bootRequest c) {d : Device} (hd : Waiting file file.length d)
    (fs : List Fate) : Ends file [] fs (linkRun (h.atTry 5) (.polling d) fs) := by
  have hle : file.length ≤ kbufSize := hd.holds.le_kbufSize hd.bounded
  have hpre : Polling (Waiting file file.length) (.polling d) := ⟨d, rfl, hd⟩
  have hcall : CallEnds h (boots file) _ _ 5 (.polling d) fs :=
    call_runs (answers_boot hmsg) fs (.inl hpre)
  have hlast : allAcked ([] ++ [boots file]) fs = acked (boots file) 5 fs := by
    show (acked (boots file) 5 fs).bind some = _
    cases acked (boots file) 5 fs <;> rfl
  unfold Ends
  rw [hlast]
  cases hack : acked (boots file) 5 fs with
  | none =>
    obtain ⟨h', y, hrun, hpc, hkeep, hgot⟩ := hcall.failed hack
    refine ⟨h', y, hrun, iff_of_false hpc (by rintro ⟨-, h⟩; cases h), ?_, ?_⟩
    · by_cases hreached : Reached 5 fs
      · rw [(hgot (.inl hreached)).booting]
        exact ⟨fun hb => ⟨hb, hle, fs, rfl, hreached⟩, fun hb => hb.1⟩
      · refine iff_of_false (hkeep hreached hpre).not_booting ?_
        rintro ⟨-, -, rest, hrest, hr⟩
        obtain rfl := Option.some.inj hrest
        exact hreached hr
    · intro hb
      by_cases hreached : Reached 5 fs
      · exact (hgot (.inl hreached)).waiting.holds
      · exact ((hb.resolve_left hpc |> (hkeep hreached hpre).not_booting)).elim
  | some rest =>
    obtain ⟨j, y, htold, hrun⟩ := hcall.acked rest hack
    have hpc : (h.atTry j).ioDone.pc = .booted := by
      unfold Host.ioDone Host.atTry
      rw [hstage]
    have hfread : (h.atTry j).ioDone.pc ≠ .fread := by
      rw [hpc]
      nofun
    have hwrite : (h.atTry j).ioDone.pc ≠ .write := by
      rw [hpc]
      nofun
    rw [nextCall_of_ne hfread, Option.bind_some, linkRun_of_ne hwrite] at hrun
    refine ⟨_, y, hrun, iff_of_true hpc ⟨hle, rfl⟩, ?_, fun _ => htold.waiting.holds⟩
    rw [htold.booting]
    exact ⟨fun hb => ⟨hb, hle, fs, rfl, acked_reached fs hack⟩, fun hb => hb.1⟩

/-! ### Blocks -/

/-- The device has stored the block at `arg` of the message with this cookie. -/
structure Stored (file : List UInt8) (a : Nat) (c arg : UInt32) (d : Device) : Prop where
  waiting : Waiting file a d
  lastCookie : d.lastCookie = c
  lastCmd : d.lastCmd = nbData
  lastAckCmd : d.lastAckCmd = nbAck
  lastAckArg : d.lastAckArg = arg

/-- What the duplicate test writes does not matter. -/
theorem Stored.unread {file : List UInt8} {a : Nat} {c arg : UInt32} {d : Device}
    (h : Stored file a c arg d) (x : UInt32) (active : Bool) :
    Stored file a c arg { d with lastArg := x, nbActive := active } :=
  ⟨⟨h.waiting.holds.congr rfl rfl, h.waiting.bounded.congr rfl h.waiting.bounded.ack_le,
    h.waiting.waiting⟩, h.lastCookie, h.lastCmd, h.lastAckCmd, h.lastAckArg⟩

section Block

variable {h : Host} {file : List UInt8} {a : Nat} {c arg : UInt32} {payload : List UInt8}

theorem block_stored (hmsg : h.msg = ⟨⟨nbMagic, c, nbData, arg⟩, payload⟩) (harg : arg.toNat = a)
    (hpay : payload = (file.drop a).take payload.length) (hfits : a + payload.length ≤ kbufSize)
    {d : Device} (hd : Waiting file a d) (hcookie : d.lastCookie ≠ c) :
    (recv d h.msg.bytes).ack = some h.wanted ∧
      Stored file (a + payload.length) c arg (recv d h.msg.bytes).dev := by
  have hsize : (d.files .nbkernel).size = kbufSize := hd.bounded.size .nbkernel
  have hh := recv_handled d h.msg
  have hbounded := recv_bounded hd.bounded h.msg
  have hnr : ¬ d.Repeats h.msg.hdr := by
    rw [hmsg]
    exact fun hr => hcookie hr.1
  have hoff := hd.holds.offset
  obtain ⟨hdev, hack⟩ := hh.unique (.appended .nbkernel hnr (by rw [hmsg]) hd.holds.item
    (by rw [hmsg]; dsimp only; omega) (by rw [hmsg]; dsimp only; omega))
  have hholds : Holds file (a + payload.length) (recv d h.msg.bytes).dev := by
    have hblock := hd.holds.block (by rw [hmsg]) (by rw [hmsg]; exact harg)
      (by rw [hmsg]; exact hpay) hnr hh
    rw [hmsg] at hblock
    rw [hmsg]
    rcases hblock with ⟨hholds, -⟩ | ⟨-, hlt, -⟩
    · exact hholds
    · rw [hsize] at hlt
      exact absurd hfits (Nat.not_le.mpr hlt)
  refine ⟨by rw [hack]; rfl, ⟨hholds, hbounded, ?_⟩, ?_, ?_, ?_, ?_⟩
  all_goals rw [hdev, hmsg]
  exacts [hd.waiting, rfl, rfl, rfl, rfl]

/-- The block at 0 is not taken for a retransmission, and it is not at the write pointer. -/
theorem first_block_again (hmsg : h.msg = ⟨⟨nbMagic, c, nbData, 0⟩, payload⟩)
    (hne : 0 < payload.length) {d : Device} (hd : Stored file payload.length c 0 d) :
    (recv d h.msg.bytes).ack = none ∧ Stored file payload.length c 0 (recv d h.msg.bytes).dev := by
  have hmis : ∀ f, d.item = some f → h.msg.hdr.arg.toNat ≠ (d.files f).offset := by
    intro f hf
    obtain rfl : f = .nbkernel := Option.some.inj (hf.symm.trans hd.waiting.holds.item)
    rw [hd.waiting.holds.offset, hmsg]
    exact Nat.ne_of_lt hne
  obtain ⟨hdev, hack⟩ := (recv_handled d h.msg).unique (.misplaced
    (fun hr => hr.2.2 (by rw [hmsg])) (by rw [hmsg]) hmis)
  rw [hack, hdev]
  refine ⟨rfl, ?_⟩
  rcases d.touch_cases h.msg.hdr with ht | ht <;> rw [ht]
  · exact hd
  · exact hd.unread _ d.nbActive

theorem later_block_again (hmsg : h.msg = ⟨⟨nbMagic, c, nbData, arg⟩, payload⟩) (harg : arg ≠ 0)
    {d : Device} (hd : Stored file a c arg d) :
    (recv d h.msg.bytes).ack = some h.wanted ∧ Stored file a c arg (recv d h.msg.bytes).dev := by
  have hr : d.Repeats h.msg.hdr := by
    rw [hmsg]
    exact ⟨hd.lastCookie, hd.lastCmd, harg⟩
  obtain ⟨hdev, hack⟩ := (recv_handled d h.msg).unique (.resend hr)
  rw [hack, hdev]
  refine ⟨?_, hd.unread _ true⟩
  rw [hd.lastAckCmd, hd.lastAckArg, Host.wanted, hmsg]

theorem acks_block (hmsg : h.msg = ⟨⟨nbMagic, c, nbData, arg⟩, payload⟩) (harg : arg.toNat = a)
    (hpay : payload = (file.drop a).take payload.length) (hne : 0 < payload.length)
    (hfits : a + payload.length ≤ kbufSize) :
    Acks h (decide (a = 0)) (fun d => Waiting file a d ∧ d.lastCookie ≠ c)
      (Stored file (a + payload.length) c arg) := by
  refine ⟨fun d hd => block_stored hmsg harg hpay hfits hd.1 hd.2, fun d hd => ?_⟩
  by_cases ha : a = 0
  · obtain rfl : arg = 0 := UInt32.toNat_inj.mp (harg.trans ha)
    rw [ha, Nat.zero_add] at hd ⊢
    exact first_block_again hmsg hne hd
  · have hzero : arg ≠ 0 := by
      rintro rfl
      exact ha harg.symm
    rw [decide_eq_false ha, if_neg Bool.false_ne_true]
    exact later_block_again hmsg hzero hd

end Block

/-- The device has no room for the block with this cookie, and says so if it is asked again. -/
def Refusing (file : List UInt8) (a : Nat) (c : UInt32) (d : Device) : Prop :=
  Waiting file a d ∧ (d.lastCookie = c → d.lastCmd = nbData → d.lastAckCmd = nbErrorTooLarge)

/-- A block that does not fit is refused, and so are its retransmissions. -/
theorem refused_block {h : Host} (file : List UInt8) {a : Nat} {c arg : UInt32}
    {payload : List UInt8} (hmsg : h.msg = ⟨⟨nbMagic, c, nbData, arg⟩, payload⟩)
    (harg : arg.toNat = a) (hlarge : kbufSize < a + payload.length) (d : Device)
    (hd : Refusing file a c d) :
    Refusing file a c (recv d h.msg.bytes).dev ∧ (recv d h.msg.bytes).ack ≠ some h.wanted := by
  obtain ⟨hd, hcached⟩ := hd
  have hsize : (d.files .nbkernel).size = kbufSize := hd.bounded.size .nbkernel
  have hoff := hd.holds.offset
  have hh := recv_handled d h.msg
  have hbounded := recv_bounded hd.bounded h.msg
  have herror : ∀ x, some (h.msg.hdr.ackOf nbErrorTooLarge x) ≠ some h.wanted := by
    intro x he
    have hcmd : nbErrorTooLarge = nbAck := congrArg NbMsg.cmd (Option.some.inj he)
    exact absurd hcmd (by decide)
  by_cases hr : d.Repeats h.msg.hdr
  · obtain ⟨hdev, hack⟩ := hh.unique (.resend hr)
    have hcmd : d.lastAckCmd = nbErrorTooLarge := by
      rw [hmsg] at hr
      exact hcached hr.1 hr.2.1
    rw [hdev] at hbounded ⊢
    refine ⟨⟨⟨hd.holds.congr rfl rfl, hbounded, hd.waiting⟩, fun _ _ => hcmd⟩, ?_⟩
    rw [hack, hcmd]
    exact herror _
  · obtain ⟨hdev, hack⟩ := hh.unique (.tooLarge .nbkernel hr (by rw [hmsg]) hd.holds.item
      (by rw [hmsg]; dsimp only; omega) (by rw [hmsg]; dsimp only; omega))
    rw [hdev] at hbounded ⊢
    rw [hack]
    exact ⟨⟨⟨hd.holds.congr rfl rfl, hbounded, hd.waiting⟩, fun _ _ => rfl⟩, herror _⟩

/-- Between two calls of `io`: host and device have got to `a`. -/
structure Reading (file : List UInt8) (a : Nat) (h : Host) (d : Device) : Prop where
  pc : h.pc = .fread
  file_eq : h.file = file
  pos : h.pos = a
  arg : h.arg.toNat = a
  le : a ≤ file.length
  cookie : h.cookie = d.lastCookie + 1
  device : Waiting file a d

theorem succ_ne_self (c : UInt32) : c ≠ c + 1 := by
  intro h
  have hn := congrArg UInt32.toNat h
  rw [UInt32.toNat_add] at hn
  have hlt := c.toNat_lt
  have hone : (1 : UInt32).toNat = 1 := rfl
  omega

def blockAt (file : List UInt8) (a : Nat) : List UInt8 :=
  (file.drop a).take (min 1024 (file.length - a))

theorem blockAt_length (file : List UInt8) (a : Nat) :
    (blockAt file a).length = min 1024 (file.length - a) := by
  rw [blockAt, List.length_take, List.length_drop]
  omega

section Reading

variable {file : List UInt8} {a : Nat} {h : Host} {d : Device}

theorem Reading.nextCall_boot (hr : Reading file a h d) (ha : a = file.length) :
    nextCall h = some ((h.startIo .boot nbBoot 0 []).atTry 5) := by
  have hlen : h.file.length = file.length := congrArg List.length hr.file_eq
  rw [nextCall, if_pos hr.pc, hlen, hr.pos, if_neg (by omega), hostStep,
    if_pos ⟨hr.pc, by rw [hr.pos, hlen, ha]⟩]
  rfl

theorem Reading.nextCall_block (hr : Reading file a h d) (hlt : a < file.length) :
    nextCall h = some (({ h with pos := a + (blockAt file a).length }.startIo
      .data nbData h.arg (blockAt file a)).atTry 5) := by
  have hlen : h.file.length = file.length := congrArg List.length hr.file_eq
  have hblock := blockAt_length file a
  rw [nextCall, if_pos hr.pc, hlen, hr.pos, if_pos hlt, hostStep,
    if_pos ⟨hr.pc, by omega, by omega, by rw [hr.pos, hlen]; omega⟩, hr.pos, hr.file_eq, hblock]
  rfl

theorem Reading.new_cookie (hr : Reading file a h d) : d.lastCookie ≠ h.cookie := by
  rw [hr.cookie]
  exact succ_ne_self _

/-- The next block was acked. -/
theorem Reading.block (hr : Reading file a h d) (hfits : a + (blockAt file a).length ≤ kbufSize)
    (j : Nat) {d' : Device} (hd : Stored file (a + (blockAt file a).length) h.cookie h.arg d') :
    Reading file (a + (blockAt file a).length)
      (({ h with pos := a + (blockAt file a).length }.startIo
        .data nbData h.arg (blockAt file a)).atTry j).ioDone d' := by
  have hblock := blockAt_length file a
  have hle := hr.le
  refine ⟨rfl, hr.file_eq, rfl, ?_, by omega, ?_, hd.waiting⟩
  · have hmax : kbufSize < 2 ^ 32 := by decide
    have harg := hr.arg
    show (h.arg + UInt32.ofNat (blockAt file a).length).toNat = _
    rw [UInt32.toNat_add, UInt32.toNat_ofNat', harg]
    omega
  · show h.cookie + 1 = _
    rw [hd.lastCookie]

theorem Reading.refused (hr : Reading file a h d) (hlt : a < file.length)
    (hlarge : kbufSize < a + (blockAt file a).length) (calls : List Bool) (fs : List Fate) :
    Ends file calls fs (linkRun (({ h with pos := a + (blockAt file a).length }.startIo
      .data nbData h.arg (blockAt file a)).atTry 5) (.polling d) fs) := by
  have hblock := blockAt_length file a
  have hrefuses := never_acked
    (refused_block file (h := { h with pos := a + (blockAt file a).length }.startIo
      .data nbData h.arg (blockAt file a)) rfl hr.arg hlarge)
    fun d hd => hd.1.waiting
  obtain ⟨h', y, hrun, hpc, hy⟩ := call_fails hrefuses fs (k := 4)
    ⟨d, rfl, hr.device, fun hc => absurd hc hr.new_cookie⟩
  exact ends_failed hrun hpc hy fun hle => by omega

end Reading

theorem reading_ends (file : List UInt8) (n : Nat) : ∀ {a : Nat} {h : Host} {d : Device},
    file.length - a = n → Reading file a h d → ∀ fs : List Fate,
      Ends file (blockCalls file.length a) fs
        ((nextCall h).bind fun h' => linkRun h' (.polling d) fs) := by
  induction n using Nat.strongRecOn with
  | ind n ih =>
    intro a h d hn hr fs
    by_cases hlast : file.length ≤ a
    · -- the file is sent
      have ha : a = file.length := Nat.le_antisymm hr.le hlast
      rw [blockCalls, if_pos hlast, hr.nextCall_boot ha, Option.bind_some]
      exact boot_ends rfl rfl (ha ▸ hr.device) fs
    · have hlt : a < file.length := Nat.not_le.mp hlast
      have hblock := blockAt_length file a
      rw [hr.nextCall_block hlt, Option.bind_some]
      by_cases hfits : a + (blockAt file a).length ≤ kbufSize
      · have hpre : Polling (fun d => Waiting file a d ∧ d.lastCookie ≠ h.cookie) (.polling d) :=
          ⟨d, rfl, hr.device, hr.new_cookie⟩
        have hacks : Acks ({ h with pos := a + (blockAt file a).length }.startIo .data nbData h.arg
            (blockAt file a)) (decide (a = 0)) (fun d => Waiting file a d ∧ d.lastCookie ≠ h.cookie)
            (Stored file (a + (blockAt file a).length) h.cookie h.arg) :=
          acks_block rfl hr.arg (by rw [hblock]; rfl) (by omega) hfits
        rw [blockCalls_next hlt]
        refine ends_call (call_runs (hacks.answers fun d hd => hd.waiting.waiting) fs (.inl hpre))
          hpre fun j d' rest hd' => ?_
        rw [← hblock]
        exact ih (file.length - (a + (blockAt file a).length)) (by omega) rfl
          (hr.block hfits j hd') rest
      · exact hr.refused hlt (Nat.not_le.mp hfits) _ fs

/-! ## The whole transfer -/

theorem acks_request {h : Host} (file : List UInt8) {c : UInt32} (hmsg : h.msg = kernelRequest c) :
    Acks h false (fun d => d.Bounded ∧ d.nbBootNow = false)
      (fun d => Waiting file 0 d ∧ d.lastCookie = c) := by
  have hfirst : ∀ d, d.Bounded ∧ d.nbBootNow = false → (recv d h.msg.bytes).ack = some h.wanted ∧
      Waiting file 0 (recv d h.msg.bytes).dev ∧ (recv d h.msg.bytes).dev.lastCookie = c := by
    rintro d ⟨hb, hd⟩
    have hh := recv_handled d h.msg
    have hbounded := recv_bounded hb h.msg
    rw [hmsg] at hh
    obtain ⟨hdev, hack⟩ := handled_request hh
    rw [hmsg, hdev] at hbounded
    rw [Host.wanted, hmsg, hack, hdev]
    exact ⟨rfl, ⟨holds_open file d _ nbAck 0, hbounded, hd⟩, rfl⟩
  exact ⟨hfirst, fun d hd => hfirst d ⟨hd.1.bounded, hd.1.waiting⟩⟩

/-- The calls of `io` in `xfer` before the boot command, for a file of `n` bytes. -/
def fileCalls (n : Nat) : List Bool := false :: blockCalls n 0

theorem xfer_ends (h : Host) {d : Device} (hb : d.Bounded) (hd : d.nbBootNow = false)
    (file : List UInt8) (fs : List Fate) :
    Ends file (fileCalls file.length) fs (linkRun (h.startXfer file) (.polling d) fs) := by
  have hpre : Polling (fun d => d.Bounded ∧ d.nbBootNow = false) (.polling d) := ⟨d, rfl, hb, hd⟩
  have hacks : Acks (h.startXfer file) false _ _ := acks_request file rfl
  refine ends_call (call_runs (hacks.answers fun d hd => hd.1.waiting) fs (.inl hpre)) hpre
    fun j d' rest hd' => ?_
  refine reading_ends file _ rfl ⟨rfl, rfl, rfl, rfl, Nat.zero_le _, ?_, hd'.1⟩ rest
  show h.cookie + 1 = _
  rw [hd'.2]

/-- **When a transfer completes.**  On a link with these fates, `xfer` gets the ack of its boot
command if and only if the file fits into the buffer and each call of `io` gets an ack in five
attempts, where for the first block, and for the boot command of a file that is booted, it has to be
the ack of the first message that gets through.  The device leaves its loop for `boot_kernel` if and
only if the file is one that is booted, and this is so up to the boot command, and one of five of
those gets through.  In both cases it has the whole file. -/
theorem xfer_completes_iff (h : Host) {d : Device} (hb : d.Bounded) (hd : d.nbBootNow = false)
    (file : List UInt8) (fs : List Fate) :
    ∃ h' x, linkRun (h.startXfer file) (.polling d) fs = some (h', x) ∧
      (h'.pc = .booted ↔ file.length ≤ kbufSize ∧
        (allAcked (fileCalls file.length ++ [boots file]) fs).isSome) ∧
      ((∃ d', x = .booting d') ↔ boots file = true ∧ file.length ≤ kbufSize ∧
        ∃ rest, allAcked (fileCalls file.length) fs = some rest ∧ Reached 5 rest) ∧
      (h'.pc = .booted ∨ (∃ d', x = .booting d') → Holds file file.length x.device) :=
  xfer_ends h hb hd file fs

/-- The smallest kernel that `efi_main` boots. -/
def zeroKernel : List UInt8 := List.replicate 32768 0

theorem zeroKernel_length : zeroKernel.length = 32768 := List.length_replicate

theorem zeroKernel_boots : boots zeroKernel = true := by
  rw [boots, zeroKernel_length]
  decide +kernel

/-- The ack of the boot command is lost at first.  For a file of one byte the next one is sent; for
the kernel there is none, and the device has left. -/
theorem xfer_completes_iff_lost_ack :
    (∃ h' x, linkRun (Host.start.startXfer [77]) (.polling emptyDevice)
        [.delivered, .requestLost, .delivered, .ackLost, .delivered] = some (h', x) ∧
      h'.pc = .booted ∧ (¬ ∃ d', x = .booting d') ∧ Holds [77] 1 x.device) ∧
    ∃ h' x, linkRun (Host.start.startXfer zeroKernel) (.polling emptyDevice)
        (List.replicate 33 .delivered ++ [.ackLost, .delivered]) = some (h', x) ∧
      h'.pc ≠ .booted ∧ (∃ d', x = .booting d') ∧ Holds zeroKernel 32768 x.device := by
  have hb : emptyDevice.Bounded := Device.Reachable.bounded (.of_init ⟨_, _, rfl⟩)
  constructor
  · obtain ⟨h', x, hrun, hpc, hboot, hholds⟩ := xfer_completes_iff Host.start hb rfl [77]
      [.delivered, .requestLost, .delivered, .ackLost, .delivered]
    have hdone : h'.pc = .booted := hpc.mpr ⟨by decide, by decide⟩
    exact ⟨h', x, hrun, hdone, fun hx => absurd (hboot.mp hx).1 (by decide), hholds (.inl hdone)⟩
  · obtain ⟨h', x, hrun, hpc, hboot, hholds⟩ := xfer_completes_iff Host.start hb rfl zeroKernel
      (List.replicate 33 .delivered ++ [.ackLost, .delivered])
    rw [zeroKernel_boots, zeroKernel_length] at hpc hboot
    rw [zeroKernel_length] at hholds
    have hcalls : allAcked (fileCalls 32768)
        (List.replicate 33 .delivered ++ [.ackLost, .delivered]) =
          some [.ackLost, .delivered] := by decide
    have hnone : allAcked (fileCalls 32768 ++ [true])
        (List.replicate 33 .delivered ++ [.ackLost, .delivered]) = none := by decide
    have hleft := hboot.mpr ⟨rfl, by decide, _, hcalls, by decide⟩
    refine ⟨h', x, hrun, fun hdone => ?_, hleft, hholds (.inr hleft)⟩
    have hsome := (hpc.mp hdone).2
    rw [hnone] at hsome
    cases hsome

/-- When the ack of the first block is lost, no number of further tries helps. -/
example :
    allAcked (fileCalls 1) ([.delivered, .ackLost] ++ List.replicate 4 .delivered) = none := by
  decide

end Gigaboot.Netboot
