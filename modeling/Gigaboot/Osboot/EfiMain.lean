import Gigaboot.Netboot.Files
import Gigaboot.Osboot.BootKernel

/-!
# The netboot loop

The loop of `efi_main`, from `netboot_poll` to the call of `boot_kernel`, and the command
line it hands on.  `cmdline` is a static array that is never cleared, and `boot_kernel`
is given its size, not the write pointer of the file.

* `Tracks`, `efiMain_tracks`: in any run the array holds the last command line sent, over
  what it held when that was requested;
* `cmdline_iff`: when the kernel gets the last command line sent.
-/

namespace Gigaboot.Osboot

open ByteMem Netboot

/-- What one round of `netboot_poll` meets: whether the timer has expired, and the
arguments of `udp6_recv` if a datagram has come in. -/
structure Poll where
  timerExpired : Bool
  datagram : Option (Mem × Nat × UInt16)

/-- `netboot_poll` on an active interface. -/
def netbootPoll (d : Device) (p : Poll) : Device × Int :=
  let d := if p.timerExpired then { d with nbActive := false } else d
  let d :=
    match p.datagram with
    | none => d
    | some (data, len, dport) => (udp6Recv d data len dport).dev
  d.takeBoot

/-- The test for an EFI binary. -/
def isEfiBinary (x : Mem) : Bool := x 0 = 77 && x 1 = 90 && x 0x80 = 80 && x 0x81 = 69

/-- `efi_main` is in its loop, or has called `boot_kernel`. -/
inductive Main
  | polling (d : Device)
  | booting (d : Device)

/-- One round of the loop.  An EFI binary is run and comes back, or does not load. -/
def mainRound (d : Device) (p : Poll) : Main :=
  let (d, n) := netbootPoll d p
  if n < 1 then .polling d
  else if (d.files .nbkernel).offset < 32768 then .polling d
  else if isEfiBinary (d.files .nbkernel).data then .polling d
  else .booting d

def efiMain (d : Device) : List Poll → Main
  | [] => .polling d
  | p :: ps =>
    match mainRound d p with
    | .polling d => efiMain d ps
    | .booting d => .booting d

def netbootArgs (ramdisk : UInt64) (d : Device) : BootArgs where
  image := (d.files .nbkernel).data
  sz := UInt64.ofNat (d.files .nbkernel).offset
  ramdisk := ramdisk
  rsz := UInt64.ofNat (d.files .nbramdisk).offset
  cmdline := some (d.files .nbcmdline).data
  csz := UInt64.ofNat cmdlineSize

/-- The command line page as `boot_kernel` leaves it, if `load_kernel` succeeds. -/
def kernelCmdline (sys : System) (pages : Pages) (args : BootArgs) : Option Mem :=
  let loaded := loadKernel sys.bs pages args.image args.sz
  if loaded.ret ≠ 0 then none else some (bootCmdline args loaded.pages.cmdline)

theorem kernelCmdline_started {sys : System} {pages pages' : Pages} {v : MapVars}
    {args : BootArgs} {k : KernelT} (h : bootKernel sys pages v args = .started k pages') :
    kernelCmdline sys pages args = some pages'.cmdline := by
  obtain ⟨-, -, -, hret, -, -, hcmd⟩ := bootKernel_started h
  rw [kernelCmdline, if_neg (not_not_intro hret), hcmd]

/-- The bytes of a page before the first NUL. -/
def cString (page : Mem) : List UInt8 := (read page 0 4096).takeWhile (· ≠ 0)

/-! ## The last command line sent -/

/-- What was sent since the last accepted request for the command line, and what the
array held at that moment. -/
structure Sent where
  stale : Mem
  bytes : List UInt8

def track (s : Option Sent) (d : Device) (m : Datagram) : Option Sent :=
  if Files.Opens d m .nbcmdline then some ⟨(d.files .nbcmdline).data, []⟩
  else if Files.Extends d m .nbcmdline then s.map fun s => { s with bytes := s.bytes ++ m.payload }
  else s

/-- What a round of the loop adds. -/
def trackRound (s : Option Sent) (d : Device) (p : Poll) : Option Sent :=
  match p.datagram with
  | none => s
  | some (data, len, dport) =>
    if dport = nbServerPort ∧ nbmsgSize ≤ len then track s d (datagramAt data len) else s

/-- The command line sent in a run of the loop, up to the call of `boot_kernel`. -/
def sentCmdline (s : Option Sent) (d : Device) : List Poll → Option Sent
  | [] => s
  | p :: ps =>
    match mainRound d p with
    | .polling d' => sentCmdline (trackRound s d p) d' ps
    | .booting _ => trackRound s d p

/-- The array holds what was sent over what it held before, and the write pointer is at
its end. -/
def Tracks : Option Sent → Device → Prop
  | none, d => d.item ≠ some .nbcmdline ∧ (d.files .nbcmdline).data = fun _ => 0
  | some s, d => (d.files .nbcmdline).data = write s.stale 0 s.bytes ∧
      (d.files .nbcmdline).offset = s.bytes.length

theorem Tracks.congr {s : Option Sent} {d d' : Device} (h : Tracks s d)
    (hfile : d'.files .nbcmdline = d.files .nbcmdline)
    (hitem : d'.item = some .nbcmdline → d.item = some .nbcmdline) : Tracks s d' := by
  cases s with
  | none => exact ⟨fun hi => h.1 (hitem hi), by rw [hfile]; exact h.2⟩
  | some s => exact ⟨by rw [hfile]; exact h.1, by rw [hfile]; exact h.2⟩

/-- The three ways in which a message changes the files. -/
theorem Tracks.handled {s : Option Sent} {d d' : Device} {m : Datagram} {a : Option NbMsg}
    (ht : Tracks s d) (h : Handled d m d' a) : Tracks (track s d m) d' := by
  have hitem : ¬ Files.Opens d m .nbcmdline → d'.item = some .nbcmdline →
      d.item = some .nbcmdline := fun ho hi => (Files.handled_item h hi).resolve_right ho
  unfold track
  cases Files.handled_change h with
  | restart f hm hi hfile hother =>
    obtain ⟨x, hx, hopens⟩ := hm
    cases hx
    by_cases hf : f = .nbcmdline
    · subst hf
      rw [if_pos hopens]
      exact ⟨by rw [hfile.1, write_nil], hfile.2.2⟩
    · have hno : ¬ Files.Opens d m .nbcmdline := fun ho => hf (ho.unique hopens)
      rw [if_neg hno, if_neg hopens.not_extends]
      exact ht.congr (hother _ (Ne.symm hf)) (hitem hno)
  | extend f x hx hextends hi hfile hother =>
    cases hx
    have hno : ¬ Files.Opens d m .nbcmdline := fun ho => ho.not_extends hextends
    rw [if_neg hno]
    by_cases hf : f = .nbcmdline
    · subst hf
      rw [if_pos hextends]
      cases s with
      | none => exact absurd hextends.2.2.1 ht.1
      | some s =>
        refine ⟨?_, by rw [hfile.offset, ht.2, List.length_append]⟩
        rw [hfile.data_eq, ht.1, ht.2, write_append _ _ _ _ _ (Nat.zero_add _).symm]
    · rw [if_neg fun he => hf (he.unique hextends)]
      exact ht.congr (hother _ (Ne.symm hf)) (hitem hno)
  | none hno hfiles =>
    obtain ⟨ho, he⟩ := hno m .nbcmdline rfl
    rw [if_neg ho, if_neg he]
    exact ht.congr (by rw [hfiles]) (hitem ho)

theorem netbootPoll_tracks {s : Option Sent} {d : Device} (ht : Tracks s d) (p : Poll) :
    Tracks (trackRound s d p) (netbootPoll d p).1 := by
  -- the timer has no part in what is sent
  have htick : ∀ d' : Device, d' = (if p.timerExpired then { d with nbActive := false } else d) →
      Tracks s d' ∧ ∀ m, track s d' m = track s d m := by
    rintro d' rfl
    cases p.timerExpired with
    | false => exact ⟨ht, fun m => rfl⟩
    | true => exact ⟨ht.congr rfl id, fun m => rfl⟩
  unfold netbootPoll trackRound
  dsimp only
  generalize hd' : (if p.timerExpired then { d with nbActive := false } else d) = d'
  obtain ⟨ht', htrack⟩ := htick d' hd'.symm
  cases p.datagram with
  | none => exact ht'.congr (by rw [Device.takeBoot_files]) (by rw [Device.takeBoot_item]; exact id)
  | some x =>
    obtain ⟨data, len, dport⟩ := x
    dsimp only
    refine Tracks.congr (d := (udp6Recv d' data len dport).dev) ?_ (by rw [Device.takeBoot_files])
      (by rw [Device.takeBoot_item]; exact id)
    rcases udp6Recv_cases d' data len dport with ⟨hf, hdev, -⟩ | ⟨hp, hl, hh⟩
    · have hno : ¬ (dport = nbServerPort ∧ nbmsgSize ≤ len) := by
        rintro ⟨hp, hl⟩
        exact hf.elim (fun h => h hp) (Nat.not_lt.mpr hl)
      rw [if_neg hno, hdev]
      exact ht'
    · rw [if_pos ⟨hp, hl⟩, ← htrack]
      exact ht'.handled hh

def Main.device : Main → Device
  | .polling d => d
  | .booting d => d

theorem mainRound_eq (d : Device) (p : Poll) :
    mainRound d p = if (netbootPoll d p).2 = 1 ∧
        32768 ≤ ((netbootPoll d p).1.files .nbkernel).offset ∧
        isEfiBinary ((netbootPoll d p).1.files .nbkernel).data = false
      then .booting (netbootPoll d p).1 else .polling (netbootPoll d p).1 := by
  have hflag : (netbootPoll d p).2 = 1 ∨ (netbootPoll d p).2 = 0 := Device.takeBoot_snd_cases _
  unfold mainRound
  dsimp only
  grind

theorem mainRound_device (d : Device) (p : Poll) :
    (mainRound d p).device = (netbootPoll d p).1 := by
  rw [mainRound_eq]
  split <;> rfl

/-- What was sent is tracked along every run of the loop. -/
theorem efiMain_tracks (ps : List Poll) : ∀ {s : Option Sent} {d : Device}, Tracks s d →
    Tracks (sentCmdline s d ps) (efiMain d ps).device := by
  induction ps with
  | nil =>
    intro s d ht
    exact ht
  | cons p ps ih =>
    intro s d ht
    have hround := netbootPoll_tracks ht p
    rw [← mainRound_device] at hround
    unfold efiMain sentCmdline
    cases hm : mainRound d p with
    | polling d' =>
      rw [hm] at hround
      exact ih hround
    | booting d' =>
      rw [hm] at hround
      exact hround

/-! ## The command line of the kernel -/

theorem bootCmdline_netbootArgs (ramdisk : UInt64) (d : Device) (page : Mem) :
    bootCmdline (netbootArgs ramdisk d) page =
      write page 0 (read (d.files .nbcmdline).data 0 4095 ++ [0]) := by
  have hcsz : (netbootArgs ramdisk d).csz ≥ 4095 := by
    show UInt64.ofNat cmdlineSize ≥ 4095
    decide
  have hnat : (4095 : UInt64).toNat = 4095 := rfl
  unfold bootCmdline
  simp only [if_pos hcsz, hnat]
  exact write_append page 0 4095 _ [0] (by rw [read_length])

theorem takeWhile_append_nul (bs : List UInt8) :
    (bs ++ [0]).takeWhile (· ≠ 0) = bs.takeWhile (· ≠ 0) := by
  induction bs with
  | nil => rfl
  | cons b bs ih => rw [List.cons_append, List.takeWhile_cons, List.takeWhile_cons, ih]

/-- The page has the string that the array starts with, cut after 4095 bytes. -/
theorem cString_bootCmdline (ramdisk : UInt64) (d : Device) (page : Mem) :
    cString (bootCmdline (netbootArgs ramdisk d) page) =
      (read (d.files .nbcmdline).data 0 4095).takeWhile (· ≠ 0) := by
  rw [bootCmdline_netbootArgs, cString, read_write_self _ _ _ _ (by simp), takeWhile_append_nul]

/-- Bytes without a NUL, and what follows them in memory. -/
theorem takeWhile_read_write {stale : Mem} {bs : List UInt8} (hnul : 0 ∉ bs)
    (hlen : bs.length ≤ 4095) :
    (read (write stale 0 bs) 0 4095).takeWhile (· ≠ 0) =
      bs ++ (read stale bs.length (4095 - bs.length)).takeWhile (· ≠ 0) := by
  have hsplit : read (write stale 0 bs) 0 4095 =
      bs ++ read stale bs.length (4095 - bs.length) := by
    have hadd := read_add (write stale 0 bs) 0 bs.length (4095 - bs.length)
    rw [Nat.add_sub_cancel' hlen] at hadd
    rw [hadd, read_write_self _ _ _ _ rfl, Nat.zero_add,
      read_write_disjoint _ _ _ _ _ (.inr (by omega))]
  rw [hsplit, List.takeWhile_append_of_pos]
  intro b hb
  simp only [ne_eq, decide_not, Bool.not_eq_eq_eq_not, Bool.not_true, decide_eq_false_iff_not]
  rintro rfl
  exact hnul hb

theorem takeWhile_read_eq_nil_iff (m : Mem) (a n : Nat) :
    (read m a n).takeWhile (· ≠ 0) = [] ↔ n = 0 ∨ m a = 0 := by
  cases n with
  | zero => simp
  | succ n =>
    rw [Nat.add_comm, read_add, read_one, List.singleton_append, List.takeWhile_cons]
    by_cases h : m a = 0
    · simp [h]
    · simp [h]

/-- **The kernel gets the last command line sent** if and only if that is 4095 bytes long
or the array held a NUL right behind it when it was requested.  Without a request the
kernel gets the empty one. -/
theorem cmdline_iff {sys : System} {pages : Pages} {ramdisk : UInt64}
    {kernelPages ramdiskPages : Mem} {ps : List Poll} {d : Device} {page : Mem}
    (hmain : efiMain (Device.start kernelPages ramdiskPages) ps = .booting d)
    (hpage : kernelCmdline sys pages (netbootArgs ramdisk d) = some page) :
    (sentCmdline none (Device.start kernelPages ramdiskPages) ps = none → cString page = []) ∧
    ∀ s, sentCmdline none (Device.start kernelPages ramdiskPages) ps = some s →
      0 ∉ s.bytes → s.bytes.length ≤ 4095 →
      (cString page = s.bytes ↔ s.bytes.length = 4095 ∨ s.stale s.bytes.length = 0) := by
  have hstart : Tracks none (Device.start kernelPages ramdiskPages) :=
    ⟨nofun, rfl⟩
  have ht := efiMain_tracks ps hstart
  rw [hmain, Main.device] at ht
  have hstring : cString page = (read (d.files .nbcmdline).data 0 4095).takeWhile (· ≠ 0) := by
    unfold kernelCmdline at hpage
    dsimp only at hpage
    split at hpage
    · cases hpage
    · rw [← Option.some.inj hpage, cString_bootCmdline]
  rw [hstring]
  constructor
  · intro hs
    rw [hs] at ht
    rw [ht.2, takeWhile_read_eq_nil_iff]
    exact .inr rfl
  · intro s hs hnul hlen
    rw [hs] at ht
    rw [ht.1, takeWhile_read_write hnul hlen, List.append_right_eq_self, takeWhile_read_eq_nil_iff]
    have hfull : 4095 - s.bytes.length = 0 ↔ s.bytes.length = 4095 := by omega
    rw [hfull]

/-! ## A shorter command line -/

def pollOf (m : Datagram) : Poll := ⟨false, some (ofList m.bytes, m.bytes.length, nbServerPort)⟩

def sendFile (cookie : UInt32) (name : List UInt8) : Poll :=
  pollOf ⟨⟨nbMagic, cookie, nbSendFile, 0⟩, name ++ [0]⟩

def sendData (cookie arg : UInt32) (payload : List UInt8) : Poll :=
  pollOf ⟨⟨nbMagic, cookie, nbData, arg⟩, payload⟩

/-- A kernel of 32 KiB, in blocks of 1024 bytes, and the request to boot it. -/
def sendKernel (cookie : UInt32) : List Poll :=
  [sendFile cookie kernelBin, sendData (cookie + 1) 0 (read smallImage 0 1024)] ++
    (List.range 31).map (fun i => sendData (cookie + 2 + UInt32.ofNat i)
      (1024 * UInt32.ofNat (i + 1)) (List.replicate 1024 0)) ++
    [pollOf ⟨⟨nbMagic, cookie + 33, nbBoot, 0⟩, []⟩]

/-- The command line "ab", then the command line "c". -/
def shorterCmdline : List Poll :=
  [sendFile 1 cmdlineName, sendData 2 0 [97, 98], sendFile 3 cmdlineName, sendData 4 0 [99]]

def emptyDevice : Device := Device.start (fun _ => 0) (fun _ => 0)

def Main.booted : Main → Option Device
  | .polling _ => none
  | .booting d => some d

def runCmdline (ps : List Poll) : Option (List UInt8) :=
  (efiMain emptyDevice ps).booted.bind fun d =>
    (kernelCmdline (systemWith steadyFirmware) zeroPages (netbootArgs 0 d)).map cString

theorem runCmdline_some {ps : List Poll} {bs : List UInt8} (h : runCmdline ps = some bs) :
    ∃ d page, efiMain emptyDevice ps = .booting d ∧
      kernelCmdline (systemWith steadyFirmware) zeroPages (netbootArgs 0 d) = some page := by
  obtain ⟨d, hd, hpage⟩ := Option.bind_eq_some_iff.mp h
  obtain ⟨page, hpage, -⟩ := Option.map_eq_some_iff.mp hpage
  refine ⟨d, page, ?_, hpage⟩
  cases hm : efiMain emptyDevice ps with
  | polling d' => rw [hm] at hd; cases hd
  | booting d' => rw [hm] at hd; rw [← Option.some.inj hd]

def singleCmdline : List Poll := [sendFile 1 cmdlineName, sendData 2 0 [99]]

theorem cmdline_iff_single : ∃ d page, ∃ s : Sent,
    efiMain emptyDevice (singleCmdline ++ sendKernel 3) = .booting d ∧
    kernelCmdline (systemWith steadyFirmware) zeroPages (netbootArgs 0 d) = some page ∧
    s.bytes = [99] ∧
    (cString page = s.bytes ↔ s.bytes.length = 4095 ∨ s.stale s.bytes.length = 0) := by
  have hrun : runCmdline (singleCmdline ++ sendKernel 3) = some [99] := by decide +kernel
  have hsent : (sentCmdline none emptyDevice (singleCmdline ++ sendKernel 3)).map Sent.bytes =
      some [99] := by decide +kernel
  obtain ⟨d, page, hmain, hpage⟩ := runCmdline_some hrun
  obtain ⟨s, hs, hbytes⟩ := Option.map_eq_some_iff.mp hsent
  have hiff := (cmdline_iff hmain hpage).2 s hs
  exact ⟨d, page, s, hmain, hpage, hbytes,
    hiff (by rw [hbytes]; decide) (by rw [hbytes]; decide)⟩

/-- After "ab" and then "c" were sent the kernel gets "cb". -/
theorem shorter_cmdline_keeps_tail :
    (sentCmdline none emptyDevice (shorterCmdline ++ sendKernel 5)).map Sent.bytes = some [99] ∧
    runCmdline (shorterCmdline ++ sendKernel 5) = some [99, 98] := by
  constructor
  · decide +kernel
  · decide +kernel

end Gigaboot.Osboot
