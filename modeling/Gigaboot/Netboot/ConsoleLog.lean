import Gigaboot.Netboot.FileNames
import Gigaboot.Printf.Screen

/-!
# What the network can put on the screen

The lines that `udp6_recv` prints, with names that come out of the messages.  They are followed
from the receive buffer through `_printf` to the screen, over any sequence of messages.

* `udp6RecvPrints_eq`: the call for one message, from the message alone;
* `printCall_shows`: what that call shows;
* `screenRun_shows`: the screen after any number of messages.
-/

namespace Gigaboot.Netboot

open ByteMem CString Console Printf

/-- A call of `printf`: its format and its arguments. -/
abbrev Call := String × List Arg

/-- The calls in the `switch` of `udp6_recv`; `len` is the length of the data alone. -/
def executePrints (msg : NbMsg) (data : Mem) (len : Nat) : Option Call :=
  if msg.cmd = nbSendFile then
    if len = 0 then none
    else
      let data := write data (nbmsgSize + (len - 1)) [0]
      let data := sanitize data nbmsgSize (len - 1)
      let name := stringAt data nbmsgSize len
      match netbootGetBuffer (shift data nbmsgSize) with
      | some _ => some ("netboot: Receive File '%s'...\n", [.string (some name)])
      | none => some ("netboot: Rejected File '%s'...\n", [.string (some name)])
  else if msg.cmd = nbBoot then some ("netboot: Boot Kernel...\n", [])
  else none

/-- The call of `printf` that `udp6_recv` makes, if it makes one. -/
def udp6RecvPrints (d : Device) (data : Mem) (len : Nat) (dport : UInt16) : Option Call :=
  if dport ≠ nbServerPort then none
  else if len < nbmsgSize then none
  else
    let msg := nbmsgAt data
    if d.lastCookie = msg.cookie ∧ d.lastCmd = msg.cmd ∧ msg.arg ≠ 0 then none
    else executePrints msg data (len - nbmsgSize)

def printCall (buf : Vector UInt16 (pcbufMax + 2)) : Option Call → Option (List (List UInt16))
  | none => some []
  | some (fmt, ap) => (printf buf (bytesOf fmt) ap).map Screened.shown

structure Packet where
  data : Mem
  len : Nat
  dport : UInt16

/-- The screen after some packets; each call of `_printf` has a buffer of its own. -/
def screenRun (bufs : Nat → Vector UInt16 (pcbufMax + 2)) :
    Device → List Packet → Option (List (List UInt16))
  | _, [] => some []
  | d, p :: ps =>
    (printCall (bufs ps.length) (udp6RecvPrints d p.data p.len p.dport)).bind fun shown =>
      (screenRun bufs (udp6Recv d p.data p.len p.dport).dev ps).map (shown ++ ·)

/-! ## Lines -/

/-- A line that is printed for a message. -/
inductive Line
  | received (name : List UInt8)
  | rejected (name : List UInt8)
  | boot
  deriving DecidableEq, Repr

def Line.text : Line → List UInt8
  | .received name => bytesOf "netboot: Receive File '" ++ name ++ bytesOf "'...\n"
  | .rejected name => bytesOf "netboot: Rejected File '" ++ name ++ bytesOf "'...\n"
  | .boot => bytesOf "netboot: Boot Kernel...\n"

/-- The line for a message that is carried out. -/
def lineOf (m : Datagram) : Option Line :=
  if m.hdr.cmd = nbSendFile then
    if m.payload = [] then none
    else if (requested m.payload).isSome then some (.received (nameOf m.payload))
    else some (.rejected (nameOf m.payload))
  else if m.hdr.cmd = nbBoot then some .boot
  else none

def announced (d : Device) (p : Packet) : Option Line :=
  (messageOf p.data p.len p.dport).bind fun m => if d.Repeats m.hdr then none else lineOf m

def announcements : Device → List Packet → List Line
  | _, [] => []
  | d, p :: ps =>
    (announced d p).toList ++ announcements (udp6Recv d p.data p.len p.dport).dev ps

def Line.name : Line → List UInt8
  | .received name => name
  | .rejected name => name
  | .boot => []

/-- A line whose name has no character below space or above 127. -/
def Line.Clean (l : Line) : Prop := ∀ c ∈ l.name, 32 ≤ c ∧ c ≤ 127

theorem cleaned_range (b : UInt8) : 32 ≤ cleaned b ∧ cleaned b ≤ 127 := by
  unfold cleaned
  split
  · decide
  · rename_i h
    rw [not_or, UInt8.not_lt, UInt8.not_lt] at h
    exact h

theorem nameOf_clean (payload : List UInt8) : ∀ c ∈ nameOf payload, 32 ≤ c ∧ c ≤ 127 := by
  intro c hc
  obtain ⟨b, -, rfl⟩ := List.mem_map.mp hc
  exact cleaned_range b

theorem lineOf_clean {m : Datagram} {l : Line} (h : lineOf m = some l) : l.Clean := by
  unfold lineOf at h
  split at h
  · split at h
    · cases h
    · split at h
      all_goals
        cases h
        exact nameOf_clean m.payload
  · split at h
    all_goals cases h
    exact fun c hc => nomatch hc

theorem announced_clean {d : Device} {p : Packet} {l : Line} (h : announced d p = some l) :
    l.Clean := by
  obtain ⟨m, -, hl⟩ := Option.bind_eq_some_iff.mp h
  split at hl
  · cases hl
  · exact lineOf_clean hl

/-! ## The calls -/

def Line.call : Line → Call
  | .received name => ("netboot: Receive File '%s'...\n", [.string (some name)])
  | .rejected name => ("netboot: Rejected File '%s'...\n", [.string (some name)])
  | .boot => ("netboot: Boot Kernel...\n", [])

theorem executePrints_eq {data : Mem} {m : Datagram}
    (hread : read data nbmsgSize m.payload.length = m.payload) :
    executePrints m.hdr data m.payload.length = (lineOf m).map Line.call := by
  unfold executePrints lineOf
  by_cases hsend : m.hdr.cmd = nbSendFile
  · rw [if_pos hsend, if_pos hsend]
    by_cases hne : m.payload = []
    · rw [if_pos hne, if_pos (List.length_eq_zero_iff.mpr hne)]
      rfl
    · have hpos := List.length_pos_iff.mpr hne
      have hname : stringAt (sanitize (write data (nbmsgSize + (m.payload.length - 1)) [0])
          nbmsgSize (m.payload.length - 1)) nbmsgSize m.payload.length = nameOf m.payload := by
        refine stringAt_eq (holds_nameOf hne hread) ?_
        rw [nameOf, List.length_map, List.length_dropLast]
        omega
      rw [if_neg hne, if_neg (fun h0 => hne (List.length_eq_zero_iff.mp h0))]
      dsimp only
      rw [hname, netbootGetBuffer_requested data hne hread]
      cases requested m.payload with
      | none => rfl
      | some f => rfl
  · rw [if_neg hsend, if_neg hsend]
    split <;> rfl

theorem udp6RecvPrints_eq (d : Device) (p : Packet) :
    udp6RecvPrints d p.data p.len p.dport = (announced d p).map Line.call := by
  unfold udp6RecvPrints announced messageOf
  by_cases hport : p.dport = nbServerPort
  · by_cases hlen : nbmsgSize ≤ p.len
    · have hmsg : p.dport = nbServerPort ∧ nbmsgSize ≤ p.len := ⟨hport, hlen⟩
      rw [if_neg (not_not_intro hport), if_neg (Nat.not_lt.mpr hlen), if_pos hmsg, Option.bind_some]
      show (if d.Repeats (datagramAt p.data p.len).hdr then none
        else executePrints (nbmsgAt p.data) p.data (p.len - nbmsgSize)) = _
      by_cases hr : d.Repeats (datagramAt p.data p.len).hdr
      · rw [if_pos hr, if_pos hr]
        rfl
      · have hcount : (datagramAt p.data p.len).payload.length = p.len - nbmsgSize :=
          read_length _ _ _
        rw [if_neg hr, if_neg hr, ← hcount]
        exact executePrints_eq (by rw [hcount]; rfl)
    · rw [if_neg (not_not_intro hport), if_pos (Nat.not_le.mp hlen), if_neg (fun h => hlen h.2)]
      rfl
  · rw [if_pos hport, if_neg (fun h => hport h.1)]
    rfl

/-! ## The screen -/

theorem plain_of_range {c : UInt8} (h : 32 ≤ c ∧ c ≤ 127) : Plain c := by
  rw [UInt8.le_iff_toNat_le, UInt8.le_iff_toNat_le] at h
  refine ⟨?_, ?_⟩
  · rintro rfl
    exact absurd h.1 (by decide)
  · rw [UInt8.lt_iff_toNat_lt]
    exact Nat.lt_of_le_of_lt h.2 (by decide)

theorem printCall_named (fmt before : String)
    (hfmt : bytesOf fmt = bytesOf before ++ (37 :: [] ++ 115 :: bytesOf "'...\n"))
    (hplain : ∀ c ∈ bytesOf before, Plain c ∧ c ≠ 37) (hshort : (bytesOf before).length < 2 ^ 16)
    {name : List UInt8} (hname : ∀ c ∈ name, Plain c) (hlen : name.length < 2 ^ 16)
    (buf : Vector UInt16 (pcbufMax + 2)) :
    ∃ shown, printCall buf (some (fmt, [.string (some name)])) = some shown ∧
      shown.flatten = expand (bytesOf before ++ name ++ bytesOf "'...\n") := by
  have hafter : (bytesOf "'...\n").length = 5 := by decide
  have hint : (bytesOf before ++ name ++ bytesOf "'...\n").length < 2 ^ 31 := by
    rw [List.length_append, List.length_append]
    omega
  obtain ⟨p, hp, hshown⟩ := printf_around
    (meaning_string fmt name hfmt (fun hmem => (hplain 37 hmem).2 rfl) (by decide))
    (fun c hc => (hplain c hc).1) hname (by decide +kernel) hint buf
  exact ⟨p.shown, by rw [printCall, hp, Option.map_some], hshown⟩

theorem printCall_shows {l : Line} (hclean : l.Clean) (hlen : l.name.length < 2 ^ 16)
    (buf : Vector UInt16 (pcbufMax + 2)) :
    ∃ shown, printCall buf (some l.call) = some shown ∧ shown.flatten = expand l.text := by
  have hname : ∀ c ∈ l.name, Plain c := fun c hc => plain_of_range (hclean c hc)
  cases l with
  | received name =>
    exact printCall_named "netboot: Receive File '%s'...\n" "netboot: Receive File '"
      (by decide) (by decide +kernel) (by decide) hname hlen buf
  | rejected name =>
    exact printCall_named "netboot: Rejected File '%s'...\n" "netboot: Rejected File '"
      (by decide) (by decide +kernel) (by decide) hname hlen buf
  | boot =>
    obtain ⟨shown, hp, hshown⟩ := printf_shows_text
      (show meaning (bytesOf "netboot: Boot Kernel...\n") [] =
        some ⟨bytesOf "netboot: Boot Kernel...\n", [], []⟩ by decide +kernel)
      (by decide) (by decide +kernel) buf
    exact ⟨shown, by rw [Line.call, printCall, hp, Option.map_some], hshown⟩

theorem count_newline {l : Line} (h : l.Clean) : l.text.count 10 = 1 := by
  have hname : l.name.count 10 = 0 :=
    List.count_eq_zero.mpr fun hmem => absurd (h 10 hmem).1 (by decide)
  have hreceived : (bytesOf "netboot: Receive File '").count 10 = 0 := by decide
  have hrejected : (bytesOf "netboot: Rejected File '").count 10 = 0 := by decide
  have hafter : (bytesOf "'...\n").count 10 = 1 := by decide
  cases l with
  | received name =>
    rw [Line.name] at hname
    rw [Line.text, List.count_append, List.count_append, hreceived, hname, hafter]
  | rejected name =>
    rw [Line.name] at hname
    rw [Line.text, List.count_append, List.count_append, hrejected, hname, hafter]
  | boot => decide

theorem lineOf_length {m : Datagram} {l : Line} (h : lineOf m = some l) :
    l.name.length ≤ m.payload.length := by
  have hlen : (nameOf m.payload).length ≤ m.payload.length := by
    rw [nameOf, List.length_map, List.length_dropLast]
    omega
  unfold lineOf at h
  split at h
  · split at h
    · cases h
    · split at h
      all_goals
        cases h
        exact hlen
  · split at h
    all_goals cases h
    exact Nat.zero_le _

theorem announced_length {d : Device} {p : Packet} {l : Line} (h : announced d p = some l) :
    l.name.length ≤ p.len := by
  obtain ⟨m, hm, hl⟩ := Option.bind_eq_some_iff.mp h
  unfold messageOf at hm
  split at hm
  · cases hm
    split at hl
    · cases hl
    · have hle := lineOf_length hl
      have hcount : (datagramAt p.data p.len).payload.length = p.len - nbmsgSize :=
        read_length _ _ _
      omega
  · cases hm

/-- **The screen shows one line for each request that is announced**, in order and in full, whatever
the packets hold: a name in such a line has no character below space in it, so no packet can end the
line early or make up another one. -/
theorem screenRun_shows (bufs : Nat → Vector UInt16 (pcbufMax + 2)) {ps : List Packet} :
    ∀ d, (∀ p ∈ ps, p.len < 2 ^ 16) →
      ∃ shown, screenRun bufs d ps = some shown ∧
        shown.flatten = expand ((announcements d ps).flatMap Line.text) ∧
        (∀ l ∈ announcements d ps, l.Clean) ∧
        ((announcements d ps).flatMap Line.text).count 10 = (announcements d ps).length := by
  induction ps with
  | nil => exact fun d _ => ⟨[], rfl, rfl, by nofun, rfl⟩
  | cons p ps ih =>
    intro d hlen
    obtain ⟨hp, hps⟩ := List.forall_mem_cons.mp hlen
    obtain ⟨rest, hrest, hshown, hclean, hcount⟩ := ih (udp6Recv d p.data p.len p.dport).dev hps
    rw [screenRun, announcements, udp6RecvPrints_eq]
    cases hl : announced d p with
    | none =>
      refine ⟨rest, ?_, hshown, hclean, hcount⟩
      rw [Option.map_none, printCall, Option.bind_some, hrest]
      rfl
    | some l =>
      have hl' := announced_clean hl
      obtain ⟨shown, hcall, htext⟩ :=
        printCall_shows hl' (Nat.lt_of_le_of_lt (announced_length hl) hp) (bufs ps.length)
      rw [Option.toList_some, List.singleton_append]
      refine ⟨shown ++ rest, ?_, ?_, List.forall_mem_cons.mpr ⟨hl', hclean⟩, ?_⟩
      · rw [Option.map_some, hcall, Option.bind_some, hrest, Option.map_some]
      · rw [List.flatten_append, htext, hshown, ← expand_append, List.flatMap_cons]
      · rw [List.flatMap_cons, List.count_append, count_newline hl', hcount, List.length_cons,
          Nat.add_comm]

/-- A request for a file with a newline in its name. -/
def newlineRequest : Packet :=
  let m : Datagram := ⟨⟨nbMagic, 7, nbSendFile, 0⟩, [97, 10, 98, 0]⟩
  ⟨ofList m.bytes, m.bytes.length, nbServerPort⟩

def noFiles : Device := Device.start (fun _ => 0) (fun _ => 0)

theorem screenRun_shows_newline :
    ∃ shown, screenRun (fun _ => .replicate _ 0) noFiles [newlineRequest] = some shown ∧
      shown.flatten = expand ((announcements noFiles [newlineRequest]).flatMap Line.text) ∧
      (∀ l ∈ announcements noFiles [newlineRequest], l.Clean) ∧
      ((announcements noFiles [newlineRequest]).flatMap Line.text).count 10 =
        (announcements noFiles [newlineRequest]).length :=
  screenRun_shows (fun _ => .replicate _ 0) noFiles (by decide)

end Gigaboot.Netboot
