import Gigaboot.Netboot.Files

/-!
# What the files hold

The contents of the three files as a function of the messages alone: what was accepted for each of
them since the last accepted request for it.  Any number of hosts may send, in any order.

* `Recorded.recv`, `Recorded.event`: one call of `udp6_recv`, and one event;
* `recorded_run`: any run;
* `files_hold_history`: what is in a file's buffer, and that only the file's own messages put it
  there.
-/

namespace Gigaboot.Netboot.Files

open ByteMem

/-- What was accepted for each file since the last request for it. -/
abbrev History := FileId → List UInt8

/-- What a message adds. -/
def record (h : History) (d : Device) : Option Datagram → History
  | none, f => h f
  | some m, f => if Opens d m f then [] else if Extends d m f then h f ++ m.payload else h f

/-- Each file holds its history, up to its write pointer. -/
def Recorded (h : History) (d : Device) : Prop :=
  ∀ f, (d.files f).offset = (h f).length ∧ read (d.files f).data 0 (h f).length = h f

theorem Recorded.congr {h : History} {d d' : Device} (hr : Recorded h d)
    (hfiles : d'.files = d.files) : Recorded h d' := by
  intro f
  rw [hfiles]
  exact hr f

theorem Recorded.recv {h : History} {d : Device} (hr : Recorded h d) (data : Mem) (len : Nat)
    (dport : UInt16) :
    Recorded (record h d (messageOf data len dport)) (udp6Recv d data len dport).dev := by
  intro g
  have hchange := udp6Recv_change d data len dport
  generalize messageOf data len dport = m, (udp6Recv d data len dport).dev = d' at hchange
  cases hchange with
  | restart f hm hitem hfile hother =>
    obtain ⟨x, rfl, hopens⟩ := hm
    by_cases hg : g = f
    · subst hg
      rw [record, if_pos hopens]
      exact ⟨hfile.2.2, rfl⟩
    · rw [record, if_neg (fun ho => hg (hopens.unique ho)), if_neg hopens.not_extends, hother g hg]
      exact hr g
  | extend f x hm hextends hitem hfile hother =>
    subst hm
    have hno : ∀ g, ¬ Opens d x g := fun g ho => ho.not_extends hextends
    by_cases hg : g = f
    · subst hg
      obtain ⟨hoff, hread⟩ := hr g
      rw [record, if_neg (hno g), if_pos hextends, List.length_append]
      refine ⟨by rw [hfile.offset, hoff], ?_⟩
      -- what was there stays, and the payload follows it
      have hkeep : read (d'.files g).data 0 (h g).length = h g := by
        rw [← hread, read_length]
        refine read_congr fun i _ hi => hfile.outside i ?_
        omega
      have hnew := hfile.inside
      rw [hoff] at hnew
      rw [read_add, hkeep, Nat.zero_add, hnew]
    · rw [record, if_neg (hno g), if_neg (fun he => hg (hextends.unique he)), hother g hg]
      exact hr g
  | none hno hfiles =>
    have hsame : record h d m g = h g := by
      cases m with
      | none => rfl
      | some x =>
        obtain ⟨ho, he⟩ := hno x g rfl
        rw [record, if_neg ho, if_neg he]
    rw [hsame, hfiles]
    exact hr g

/-! ## Runs -/

def historyOf (h : History) (d : Device) : List DeviceEvent → History
  | [] => h
  | e :: es => historyOf (record h d e.message) (e.apply d) es

theorem Recorded.event {h : History} {d : Device} (hr : Recorded h d) (e : DeviceEvent) :
    Recorded (record h d e.message) (e.apply d) := by
  cases e with
  | recv data len dport => exact hr.recv data len dport
  | tick => exact hr.congr rfl
  | poll => exact hr.congr d.takeBoot_files

theorem recorded_run (es : List DeviceEvent) : ∀ {h : History} {d : Device}, Recorded h d →
    Recorded (historyOf h d es) (runEvents d es) := by
  induction es with
  | nil => exact fun hr => hr
  | cons e es ih => exact fun hr => ih (hr.event e)

theorem recorded_start (k r : Mem) : Recorded (fun _ => []) (Device.start k r) := by
  intro f
  cases f <;> exact ⟨rfl, rfl⟩

/-- **The files hold what was sent.**  After any sequence of events, with messages of any number of
hosts, each file holds the data that was accepted for it since the last request for it, in the
order in which it came, and this is never more than its buffer takes. -/
theorem files_hold_history (k r : Mem) (es : List DeviceEvent) (f : FileId) :
    (historyOf (fun _ => []) (Device.start k r) es f).length ≤ f.capacity ∧
    ((runEvents (Device.start k r) es).files f).offset =
      (historyOf (fun _ => []) (Device.start k r) es f).length ∧
    read ((runEvents (Device.start k r) es).files f).data 0
        (historyOf (fun _ => []) (Device.start k r) es f).length =
      historyOf (fun _ => []) (Device.start k r) es f := by
  obtain ⟨hoff, hread⟩ := recorded_run es (recorded_start k r) f
  have hb := runEvents_bounded es (Device.Reachable.bounded (.of_init ⟨k, r, rfl⟩))
  exact ⟨hoff ▸ hb.offset_le f, hoff, hread⟩

end Gigaboot.Netboot.Files
