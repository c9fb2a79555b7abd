import Gigaboot.Lib.CString
import Gigaboot.Netboot.Device

/-!
# File names

How `netboot_get_buffer` tells the three files apart.  A name is cut at its last byte and
cleaned before it is looked up; only the comparison with "kernel.bin" includes the
terminator.

* `udp6Recv_name`: the string that is left in the receive buffer;
* `netbootGetBuffer_matched`: the file as a function of that string;
* `names_exact_iff`: the names for which this is the file of that name.
-/

namespace Gigaboot.Netboot

open ByteMem CString

def cleaned (b : UInt8) : UInt8 := if b < 32 ∨ 127 < b then 46 else b

def nameOf (payload : List UInt8) : List UInt8 := payload.dropLast.map cleaned

theorem cleaned_ne_zero (b : UInt8) : cleaned b ≠ 0 := by
  unfold cleaned
  split
  · decide
  · rename_i h
    rintro rfl
    exact h (.inl (by decide))

/-- The name as it is left in memory. -/
theorem holds_nameOf {data : Mem} {a : Nat} {payload : List UInt8} (hne : payload ≠ [])
    (h : read data a payload.length = payload) :
    Holds (shift (sanitize (write data (a + (payload.length - 1)) [0]) a (payload.length - 1)) a)
      (nameOf payload) := by
  have hpos := List.length_pos_iff.mpr hne
  have hlen : (nameOf payload).length = payload.length - 1 := by
    rw [nameOf, List.length_map, List.length_dropLast]
  refine ⟨?_, ?_, ?_⟩
  · rw [hlen]
    apply List.ext_getElem
    · rw [read_length, hlen]
    · intro i h₁ h₂
      rw [read_length] at h₁
      have hbyte : data (a + i) = payload[i] := by
        have hg := read_getD data a payload.length i (by omega)
        rw [h, List.getD_eq_getElem _ _ (by omega)] at hg
        exact hg.symm
      have hcut : write data (a + (payload.length - 1)) [0] (a + i) = payload[i] := by
        rw [write_outside _ _ _ _ (.inl (by omega)), hbyte]
      have hrange : a ≤ a + i ∧ a + i < a + (payload.length - 1) := by omega
      simp only [nameOf, List.getElem_map, List.getElem_dropLast, cleaned]
      rw [read_getElem, Nat.zero_add, shift, sanitize_apply, hcut]
      simp only [hrange, true_and]
  · rw [hlen, shift, sanitize_apply, if_neg (by omega)]
    exact write_inside _ _ [0] 0 Nat.zero_lt_one
  · intro hmem
    obtain ⟨b, -, hb⟩ := List.mem_map.mp hmem
    exact cleaned_ne_zero b hb

/-- The receive buffer after a request for a file that was carried out. -/
theorem udp6Recv_name {d : Device} {data : Mem} {len : Nat} {dport : UInt16} {m : Datagram}
    (hm : messageOf data len dport = some m) (hcmd : m.hdr.cmd = nbSendFile)
    (hne : m.payload ≠ []) (hr : ¬ d.Repeats m.hdr) :
    Holds (shift (udp6Recv d data len dport).buf nbmsgSize) (nameOf m.payload) := by
  unfold messageOf at hm
  split at hm
  swap
  · cases hm
  rename_i hport
  cases hm
  have hlen : (datagramAt data len).payload.length = len - nbmsgSize := read_length _ _ _
  have hn : len - nbmsgSize ≠ 0 := by
    rw [← hlen]
    exact fun h0 => hne (List.length_eq_zero_iff.mp h0)
  have hpay : read data nbmsgSize (datagramAt data len).payload.length =
      (datagramAt data len).payload := by
    rw [hlen]
    rfl
  have hname := holds_nameOf hne hpay
  rw [hlen] at hname
  have hexec : ∀ d, (execute d (nbmsgAt data) data (len - nbmsgSize)).buf =
      sanitize (write data (nbmsgSize + (len - nbmsgSize - 1)) [0]) nbmsgSize
        (len - nbmsgSize - 1) := by
    intro d
    have hcmd' : (nbmsgAt data).cmd = nbSendFile := hcmd
    rw [execute, if_neg (by rw [hcmd']; decide), if_pos hcmd', if_neg hn]
    dsimp only
    split <;> rfl
  unfold udp6Recv
  rw [if_neg (not_not_intro hport.1), if_neg (Nat.not_lt.mpr hport.2)]
  dsimp only
  split
  · rename_i hsame
    have harg : ¬ (nbmsgAt data).arg ≠ 0 := fun harg => hr ⟨hsame.1, hsame.2, harg⟩
    rw [if_neg harg, hexec]
    exact hname
  · rw [hexec]
    exact hname

/-! ## Lookup -/

def matched (name : List UInt8) : Option FileId :=
  if name = kernelBin then some .nbkernel
  else if ramdiskBin <+: name then some .nbramdisk
  else if cmdlineName <+: name then some .nbcmdline
  else none

def named (name : List UInt8) : Option FileId :=
  if name = kernelBin then some .nbkernel
  else if name = ramdiskBin then some .nbramdisk
  else if name = cmdlineName then some .nbcmdline
  else none

/-- The lookup does not depend on what follows the terminator. -/
theorem netbootGetBuffer_matched {m : Mem} {name : List UInt8} (h : Holds m name) :
    netbootGetBuffer m = matched name := by
  have hk : memcmp m (ofList kernelBin) 0 11 = 0 ↔ name = kernelBin := by
    rw [memcmp_eq_zero_iff]
    exact h.read_succ_eq_iff (t := kernelBin) (by decide)
  have hr : memcmp m (ofList ramdiskBin) 0 11 = 0 ↔ ramdiskBin <+: name := by
    rw [memcmp_eq_zero_iff]
    exact h.read_eq_iff_prefix (t := ramdiskBin) (by decide)
  have hc : memcmp m (ofList cmdlineName) 0 7 = 0 ↔ cmdlineName <+: name := by
    rw [memcmp_eq_zero_iff]
    exact h.read_eq_iff_prefix (t := cmdlineName) (by decide)
  simp only [netbootGetBuffer, matched, hk, hr, hc]

/-- The name goes on after that of a file. -/
def GoesOn (file name : List UInt8) : Prop := file <+: name ∧ name ≠ file

theorem matched_eq_named_iff (name : List UInt8) :
    matched name = named name ↔ ¬ GoesOn ramdiskBin name ∧ ¬ GoesOn cmdlineName name := by
  unfold matched named
  by_cases hk : name = kernelBin
  · subst hk
    rw [if_pos rfl, if_pos rfl]
    exact iff_of_true rfl ⟨fun h => absurd h.1 (by decide), fun h => absurd h.1 (by decide)⟩
  rw [if_neg hk, if_neg hk]
  by_cases hr : name = ramdiskBin
  · subst hr
    rw [if_pos (List.prefix_refl _), if_pos rfl]
    exact iff_of_true rfl ⟨fun h => h.2 rfl, fun h => absurd h.1 (by decide)⟩
  rw [if_neg hr]
  by_cases hc : name = cmdlineName
  · subst hc
    rw [if_neg (by decide), if_pos (List.prefix_refl _), if_pos rfl]
    exact iff_of_true rfl ⟨fun h => absurd h.1 (by decide), fun h => h.2 rfl⟩
  rw [if_neg hc]
  by_cases hr' : ramdiskBin <+: name
  · rw [if_pos hr']
    exact iff_of_false (by nofun) fun h => h.1 ⟨hr', hr⟩
  rw [if_neg hr']
  by_cases hc' : cmdlineName <+: name
  · rw [if_pos hc']
    exact iff_of_false (by nofun) fun h => h.2 ⟨hc', hc⟩
  · rw [if_neg hc']
    exact iff_of_true rfl ⟨fun h => hr' h.1, fun h => hc' h.1⟩

/-- What `udp6_recv` does with a request for the file `f`, or for one that it does not
have. -/
structure Selected (msg : NbMsg) (f : Option FileId) (r : Received) : Prop where
  item : r.dev.item = f
  ack : r.ack = some (msg.ackOf (if f = none then nbErrorBadFile else nbAck) 0)

theorem udp6Recv_selected {d : Device} {data : Mem} {len : Nat} {dport : UInt16} {m : Datagram}
    (hm : messageOf data len dport = some m) (hcmd : m.hdr.cmd = nbSendFile)
    (hne : m.payload ≠ []) (hr : ¬ d.Repeats m.hdr) :
    Selected m.hdr (matched (nameOf m.payload)) (udp6Recv d data len dport) := by
  have hreq : requested m.payload = matched (nameOf m.payload) := by
    have hholds := holds_nameOf (a := 0) hne (read_ofList m.payload)
    rw [← netbootGetBuffer_matched hholds, requested, Nat.zero_add]
    congr 1
    funext i
    rw [shift, Nat.zero_add]
  have hh := udp6Recv_message (d := d) hm
  rw [← hreq]
  cases hreqd : requested m.payload with
  | some f =>
    obtain ⟨hdev, hack⟩ := hh.unique (.accepted f hr hcmd hne hreqd)
    exact ⟨by rw [hdev]; rfl, by rw [hack]; rfl⟩
  | none =>
    obtain ⟨hdev, hack⟩ := hh.unique (.rejected hr hcmd hne hreqd)
    exact ⟨by rw [hdev]; rfl, by rw [hack]; rfl⟩

/-- **File names are matched exactly** except for those that go on after "ramdisk.bin" or
"cmdline".  For every request that is carried out, what is selected depends on the string
alone that is left in the receive buffer. -/
theorem names_exact_iff {d : Device} {data : Mem} {len : Nat} {dport : UInt16} {m : Datagram}
    (hm : messageOf data len dport = some m) (hcmd : m.hdr.cmd = nbSendFile)
    (hne : m.payload ≠ []) (hr : ¬ d.Repeats m.hdr) :
    ∃ name, Holds (shift (udp6Recv d data len dport).buf nbmsgSize) name ∧
      Selected m.hdr (matched name) (udp6Recv d data len dport) ∧
      (Selected m.hdr (named name) (udp6Recv d data len dport) ↔
        ¬ GoesOn ramdiskBin name ∧ ¬ GoesOn cmdlineName name) := by
  have hsel := udp6Recv_selected hm hcmd hne hr
  refine ⟨nameOf m.payload, udp6Recv_name hm hcmd hne hr, hsel, ?_⟩
  rw [← matched_eq_named_iff]
  constructor
  · intro h
    exact hsel.item.symm.trans h.item
  · intro h
    rw [← h]
    exact hsel

theorem names_exact_iff_kernel :
    ∃ name, Holds (shift (recv (Device.start (fun _ => 0) (fun _ => 0))
        (kernelRequest 1).bytes).buf nbmsgSize) name ∧
      Selected (kernelRequest 1).hdr (named name)
        (recv (Device.start (fun _ => 0) (fun _ => 0)) (kernelRequest 1).bytes) := by
  have hm : messageOf (ofList (kernelRequest 1).bytes) (kernelRequest 1).bytes.length
      nbServerPort = some (kernelRequest 1) := by
    rw [messageOf, if_pos ⟨rfl, by decide⟩, datagramAt_ofList]
  obtain ⟨name, hname, -, hiff⟩ := names_exact_iff (d := Device.start (fun _ => 0) (fun _ => 0))
    hm rfl (by decide) (by decide)
  have hstr : name = kernelBin :=
    (hname.read_succ_eq_iff (t := kernelBin) (by decide)).mp (by decide)
  refine ⟨name, hname, hiff.mpr ?_⟩
  rw [hstr]
  exact ⟨fun h => absurd h.1 (by decide), fun h => absurd h.1 (by decide)⟩

/-- A request for "cmdline.old". -/
def oldCmdlineRequest : Datagram :=
  ⟨⟨nbMagic, 1, nbSendFile, 0⟩, cmdlineName ++ [46, 111, 108, 100, 0]⟩

/-- It restarts the command line, where it should be turned down. -/
theorem old_cmdline_selected :
    named (nameOf oldCmdlineRequest.payload) = none ∧
    Holds (shift (recv (Device.start (fun _ => 0) (fun _ => 0)) oldCmdlineRequest.bytes).buf
      nbmsgSize) (nameOf oldCmdlineRequest.payload) ∧
    (recv (Device.start (fun _ => 0) (fun _ => 0)) oldCmdlineRequest.bytes).dev.item =
      some .nbcmdline := by
  refine ⟨by decide, ⟨by decide, by decide, by decide⟩, by decide⟩

end Gigaboot.Netboot
