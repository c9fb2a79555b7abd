import Gigaboot.Inet6.AddressText
import Gigaboot.Osboot.BootKernel

/-!
# The memory map on the screen

`boot_kernel` lists the memory map before it leaves boot services.  The lines are followed through
`_printf` to the screen, read as someone in front of it would read them, and compared with the map
that the kernel finds in its zero page.

* `listEntry_shows`, `listLoop_shows`: what is shown for one entry, and for a table;
* `readLines_lines`: the lines can be read back;
* `listing_installed_iff`: when the map on the screen is the one of the kernel.
-/

namespace Gigaboot.Osboot

open ByteMem Console Digits Printf

/-! ## The listing -/

def e820name : E820Type → String
  | .ignore => "IGNORE"
  | .ram => "RAM"
  | .reserved => "RESERVED"
  | .acpi => "ACPI"
  | .nvs => "NVS"
  | .unusable => "UNUSABLE"

def listEntry (buf : Vector UInt16 (pcbufMax + 2)) (e : E820Entry) : Option Screened :=
  printf buf (bytesOf "%016lx %016lx %s\n")
    [.word e.addr, .word e.size, .string (some (bytesOf (e820name e.type)))]

/-- The loop of `boot_kernel` over the entries; each call of `_printf` has a buffer of its own. -/
def listLoop (bufs : Nat → Vector UInt16 (pcbufMax + 2)) :
    List E820Entry → Option (List (List UInt16))
  | [] => some []
  | e :: entries =>
    (listEntry (bufs entries.length) e).bind fun p =>
      (listLoop bufs entries).map (p.shown ++ ·)

/-- The listing of `boot_kernel`, after the first call of `process_memory_map`.  There are no lines
if the result is negative; `none` if the call does not return. -/
def bootListing (bufs : Nat → Vector UInt16 (pcbufMax + 2)) (fw : Firmware) (v : MapVars) :
    Option (List (List UInt16)) :=
  (processMemoryMap (fw.reply .first) v false).bind fun r =>
    listLoop bufs (r.2.e820table.take r.1.toNat)

/-! ## A reader -/

/-- The text up to the next space, and the text after that. -/
def word (text : List UInt8) : List UInt8 := text.takeWhile (· ≠ 32)

def afterWord (text : List UInt8) : List UInt8 := (text.dropWhile (· ≠ 32)).tail

def readType (name : List UInt8) : Option E820Type :=
  [.ignore, .ram, .reserved, .acpi, .nvs, .unusable].find? fun t => bytesOf (e820name t) = name

def readEntry (line : List UInt8) : Option E820Entry :=
  (value 16 (word line)).bind fun addr =>
    (value 16 (word (afterWord line))).bind fun size =>
      (readType (afterWord (afterWord line))).map fun type =>
        ⟨UInt64.ofNat addr, UInt64.ofNat size, type⟩

/-- The entries of a text, with what was read of the line so far. -/
def readLines : List UInt8 → List UInt8 → Option (List E820Entry)
  | [], line => if line = [] then some [] else none
  | c :: text, line =>
    if c = 10 then (readEntry line).bind fun e => (readLines text []).map (e :: ·)
    else readLines text (line ++ [c])

/-! ## One line -/

def hexWord (w : UInt64) : List UInt8 :=
  List.replicate (16 - (digits byte 16 w.toNat).length) 48 ++ digits byte 16 w.toNat

def lineText (e : E820Entry) : List UInt8 :=
  hexWord e.addr ++ 32 :: hexWord e.size ++ 32 :: bytesOf (e820name e.type)

theorem value_hexWord (w : UInt64) : value 16 (hexWord w) = some w.toNat := by
  rw [hexWord, value_replicate_zero (by decide), value_digits (by decide) byte_spells]

theorem digitVal_hexWord {w : UInt64} {c : UInt8} (h : c ∈ hexWord w) : digitVal c ≠ none :=
  digitVal_of_valueFrom (value_hexWord w) c h

theorem hexWord_length (w : UInt64) : (hexWord w).length = 16 := by
  have hle : (digits byte 16 w.toNat).length ≤ 16 :=
    (digits_length_le_iff (by decide) (by decide)).mpr w.toNat_lt
  rw [hexWord, List.length_append, List.length_replicate]
  omega

theorem loop_hexWord (w : UInt64) (rest t : List UInt8) (ap : List Arg) :
    Meaning.loop (bytesOf "%016lx" ++ rest) none ⟨t, .word w :: ap, []⟩ =
      Meaning.loop rest none ⟨t ++ hexWord w, ap, []⟩ := by
  have hmods : modify {} [48, 49, 54, 108] = some ⟨{ leadzero := true, long := true }, 16⟩ := by
    decide
  have hc : directive ⟨{ leadzero := true, long := true }, 16⟩ 120 = .convert .hex := by decide
  exact loop_converted hmods hc (converts_hex _ w) rest t ap

theorem loop_string (s rest t : List UInt8) (ap : List Arg) :
    Meaning.loop (bytesOf "%s" ++ rest) none ⟨t, .string (some s) :: ap, []⟩ =
      Meaning.loop rest none ⟨t ++ s, ap, []⟩ := by
  have hmods : modify {} [] = some {} := rfl
  have hc : directive {} 115 = .convert .string := by decide
  exact loop_converted hmods hc (converts_string s) rest t ap

theorem meaning_entry (e : E820Entry) :
    meaning (bytesOf "%016lx %016lx %s\n")
        [.word e.addr, .word e.size, .string (some (bytesOf (e820name e.type)))] =
      some ⟨lineText e ++ [10], [], []⟩ := by
  have hfmt : bytesOf "%016lx %016lx %s\n" = bytesOf "%016lx" ++ ([32] ++
      (bytesOf "%016lx" ++ ([32] ++ (bytesOf "%s" ++ ([10] ++ []))))) := by decide
  rw [meaning, hfmt, loop_hexWord, loop_plain (by decide), Meaning.add, loop_hexWord,
    loop_plain (by decide), Meaning.add, loop_string, loop_plain (by decide), Meaning.add,
    Meaning.loop]
  simp only [lineText, List.nil_append, List.append_assoc, List.cons_append]

theorem e820name_plain (t : E820Type) : ∀ c ∈ bytesOf (e820name t), Plain c ∧ c ≠ 10 ∧ c ≠ 32 := by
  cases t <;> decide +kernel

theorem e820name_length (t : E820Type) : (bytesOf (e820name t)).length ≤ 8 := by
  cases t <;> decide

theorem lineText_plain (e : E820Entry) : ∀ c ∈ lineText e, Plain c ∧ c ≠ 10 := by
  have hword : ∀ w, ∀ c ∈ hexWord w, Plain c ∧ c ≠ 10 := fun w c hc =>
    ⟨Inet6.plain_of_digit (digitVal_hexWord hc), by
      rintro rfl
      exact digitVal_hexWord hc (by decide)⟩
  intro c hc
  rw [lineText, List.append_assoc, List.mem_append, List.cons_append, List.mem_cons,
    List.mem_append, List.mem_cons] at hc
  rcases hc with hc | rfl | hc | rfl | hc
  · exact hword _ c hc
  · decide
  · exact hword _ c hc
  · decide
  · exact ⟨(e820name_plain e.type c hc).1, (e820name_plain e.type c hc).2.1⟩

theorem listEntry_shows (buf : Vector UInt16 (pcbufMax + 2)) (e : E820Entry) :
    ∃ p, listEntry buf e = some p ∧ p.shown.flatten = expand (lineText e ++ [10]) := by
  have hlen : (lineText e ++ [10]).length < 2 ^ 31 := by
    have hname := e820name_length e.type
    simp only [lineText, List.length_append, List.length_cons, List.length_nil, hexWord_length]
    omega
  have hplain : ∀ c ∈ lineText e ++ [10], Plain c := by
    intro c hc
    rcases List.mem_append.mp hc with hc | hc
    · exact (lineText_plain e c hc).1
    · rw [List.mem_singleton.mp hc]
      decide
  obtain ⟨shown, hprintf, hshown⟩ := printf_shows_text (meaning_entry e) hlen hplain buf
  exact ⟨_, hprintf, hshown⟩

def linesText (entries : List E820Entry) : List UInt8 :=
  entries.flatMap fun e => lineText e ++ [10]

theorem listLoop_shows (bufs : Nat → Vector UInt16 (pcbufMax + 2)) (entries : List E820Entry) :
    ∃ shown, listLoop bufs entries = some shown ∧ shown.flatten = expand (linesText entries) := by
  induction entries with
  | nil => exact ⟨[], rfl, rfl⟩
  | cons e entries ih =>
    obtain ⟨p, hp, hline⟩ := listEntry_shows (bufs entries.length) e
    obtain ⟨shown, hrest, hlines⟩ := ih
    refine ⟨p.shown ++ shown, ?_, ?_⟩
    · rw [listLoop, hp, Option.bind_some, hrest, Option.map_some]
    · rw [List.flatten_append, hline, hlines, ← expand_append, linesText, linesText,
        List.flatMap_cons]

/-! ## Lines that are read -/

theorem word_append {s : List UInt8} (h : 32 ∉ s) (rest : List UInt8) :
    word (s ++ 32 :: rest) = s ∧ afterWord (s ++ 32 :: rest) = rest := by
  have hall : ∀ c ∈ s, decide (c ≠ 32) = true := fun c hc =>
    decide_eq_true fun he => h (he ▸ hc)
  refine ⟨?_, ?_⟩
  · rw [word, List.takeWhile_append_of_pos hall, List.takeWhile_cons_of_neg (by decide),
      List.append_nil]
  · rw [afterWord, List.dropWhile_append_of_pos hall, List.dropWhile_cons_of_neg (by decide),
      List.tail_cons]

theorem readType_e820name (t : E820Type) : readType (bytesOf (e820name t)) = some t := by
  cases t <;> decide

theorem readEntry_lineText (e : E820Entry) : readEntry (lineText e) = some e := by
  have hspace : ∀ w, 32 ∉ hexWord w := fun w hc => digitVal_hexWord hc (by decide)
  obtain ⟨haddr, hrest⟩ := word_append (hspace e.addr)
    (hexWord e.size ++ 32 :: bytesOf (e820name e.type))
  obtain ⟨hsize, hname⟩ := word_append (hspace e.size) (bytesOf (e820name e.type))
  rw [readEntry, lineText, List.append_assoc, List.cons_append, haddr, hrest, hsize, hname,
    value_hexWord, value_hexWord, readType_e820name]
  simp only [Option.bind_some, Option.map_some, UInt64.ofNat_toNat]

theorem readLines_line {line : List UInt8} (h : 10 ∉ line) (rest : List UInt8) :
    ∀ acc, readLines (line ++ 10 :: rest) acc =
      (readEntry (acc ++ line)).bind fun e => (readLines rest []).map (e :: ·) := by
  induction line with
  | nil =>
    intro acc
    rw [List.nil_append, List.append_nil, readLines, if_pos rfl]
  | cons c line ih =>
    intro acc
    obtain ⟨hc, hline⟩ := not_or.mp fun hmem => h (List.mem_cons.mpr hmem)
    rw [List.cons_append, readLines, if_neg fun he => hc he.symm, ih hline, List.append_assoc,
      List.singleton_append]

theorem readLines_lines (entries : List E820Entry) :
    readLines (linesText entries) [] = some entries := by
  induction entries with
  | nil => rfl
  | cons e entries ih =>
    have hline : 10 ∉ lineText e := fun hmem => (lineText_plain e 10 hmem).2 rfl
    rw [linesText, List.flatMap_cons, List.append_assoc, List.singleton_append,
      readLines_line hline, List.nil_append, readEntry_lineText, Option.bind_some]
    exact congrArg (Option.map (e :: ·)) ih

/-! ## The screen and the zero page -/

/-- The zero page holds these entries, and says how many there are. -/
structure Installed (entries : List E820Entry) (zeropage : Mem) : Prop where
  count : (zeropage zpE820Count).toNat = entries.length
  table : read zeropage zpE820Table (20 * entries.length) = entries.flatMap E820Entry.bytes

theorem toUInt32_injective {s t : E820Type} (h : s.toUInt32 = t.toUInt32) : s = t := by
  cases s <;> cases t <;> first | rfl | exact absurd h (by decide)

theorem E820Entry.bytes_injective {e e' : E820Entry} (h : e.bytes = e'.bytes) : e = e' := by
  rw [bytes, bytes, List.append_assoc, List.append_assoc] at h
  obtain ⟨haddr, hrest⟩ := List.append_inj h (by rw [bytes64_length, bytes64_length])
  obtain ⟨hsize, htype⟩ := List.append_inj hrest (by rw [bytes64_length, bytes64_length])
  cases e
  cases e'
  rw [E820Entry.mk.injEq]
  exact ⟨bytes64_injective haddr, bytes64_injective hsize,
    toUInt32_injective (bytes32_injective htype)⟩

theorem flatMap_bytes_injective (entries : List E820Entry) : ∀ {entries' : List E820Entry},
    entries.length = entries'.length →
    entries.flatMap E820Entry.bytes = entries'.flatMap E820Entry.bytes → entries = entries' := by
  induction entries with
  | nil =>
    intro entries' hlen _
    exact (List.length_eq_zero_iff.mp hlen.symm).symm
  | cons e entries ih =>
    intro entries' hlen h
    cases entries' with
    | nil => cases hlen
    | cons e' entries' =>
      rw [List.flatMap_cons, List.flatMap_cons] at h
      obtain ⟨he, hrest⟩ := List.append_inj h (by rw [e.bytes_length, e'.bytes_length])
      rw [E820Entry.bytes_injective he, ih (Nat.succ.inj hlen) hrest]

theorem Installed.unique {entries entries' : List E820Entry} {zeropage : Mem}
    (h : Installed entries zeropage) (h' : Installed entries' zeropage) : entries = entries' := by
  have hlen : entries.length = entries'.length := h.count.symm.trans h'.count
  refine flatMap_bytes_injective entries hlen ?_
  rw [← h.table, hlen, h'.table]

theorem installed_of_fits {r : MapReply} {v v' : MapVars} {silent : Bool} {n : Int}
    (hs : r.status = efiSuccess) (hfits : Fits r.map)
    (hcall : processMemoryMap r v silent = some (n, v')) (zeropage behind : Mem) :
    Installed (convert r.map)
      (installMemmap zeropage (tableMem v'.e820table behind) (UInt32.ofInt n)) := by
  rw [processMemoryMap_ok hs hfits, Option.some.injEq, Prod.mk.injEq] at hcall
  obtain ⟨rfl, rfl⟩ := hcall
  have hlt : (convert r.map).length < 128 := hfits.entries
  have hcount : (UInt32.ofInt (convert r.map).length).toNat = (convert r.map).length := by
    rw [UInt32.ofInt, UInt32.toNat_ofNat']
    omega
  refine ⟨?_, ?_⟩
  · rw [installMemmap_count, UInt32.toNat_toUInt8, hcount]
    omega
  · have htable := installMemmap_table zeropage
      (tableMem (overlay (convert r.map) v.e820table) behind)
      (UInt32.ofInt (convert r.map).length)
    rw [hcount] at htable
    rw [htable, read_tableMem]

/-- What the first call of `process_memory_map` leaves to be listed. -/
theorem bootListing_shows (bufs : Nat → Vector UInt16 (pcbufMax + 2)) {fw : Firmware}
    {v v' : MapVars} {a : Attempt} {n : Int} (hexit : leaveBootServices fw v = .left a n v') :
    ∃ shown entries, bootListing bufs fw v = some shown ∧
      shown.flatten = expand (linesText entries) ∧ entries.length < e820Max ∧
      (fw.status .first = efiSuccess → Fits (fw.mapOf (fw.mkey .first)) →
        entries = convert (fw.mapOf (fw.mkey .first))) := by
  cases hfirst : processMemoryMap (fw.reply .first) v false with
  | none =>
    rw [leaveBootServices, hfirst] at hexit
    cases hexit
  | some r =>
    obtain ⟨n₁, v₁⟩ := r
    obtain ⟨shown, hloop, hshown⟩ := listLoop_shows bufs (v₁.e820table.take n₁.toNat)
    have hlisting : bootListing bufs fw v = some shown := by
      rw [bootListing, hfirst, Option.bind_some, hloop]
    refine ⟨shown, _, hlisting, hshown, ?_⟩
    by_cases hok : (fw.reply .first).status = efiSuccess ∧ Fits (fw.reply .first).map
    · rw [processMemoryMap_ok hok.1 hok.2, Option.some.injEq, Prod.mk.injEq] at hfirst
      obtain ⟨rfl, rfl⟩ := hfirst
      have htake : (overlay (convert (fw.reply .first).map) v.e820table).take
          ((convert (fw.reply .first).map).length : Int).toNat =
            convert (fw.reply .first).map := by
        rw [overlay, Int.toNat_natCast, List.take_left]
      rw [htake]
      exact ⟨hok.2.entries, fun _ _ => rfl⟩
    · have hn := (processMemoryMap_failed hok hfirst).1
      have hnone : v₁.e820table.take n₁.toNat = [] := by
        rw [hn]
        exact List.take_zero
      rw [hnone]
      exact ⟨by decide, fun hs hfits => absurd ⟨hs, hfits⟩ hok⟩

/-- **The map on the screen and the map of the kernel.**  When a kernel is started, the listing of
`boot_kernel` can be read back.  It is the map in the zero page if and only if the last call of
`GetMemoryMap` succeeded and its map fits and, in case this was a second call, its map converts to
the table that was listed after the first one. -/
theorem listing_installed_iff (bufs : Nat → Vector UInt16 (pcbufMax + 2)) {sys : System}
    {pages pages' : Pages} {v : MapVars} {args : BootArgs} {k : KernelT}
    (h : bootKernel sys pages v args = .started k pages') :
    ∃ a n v' shown text entries, leaveBootServices sys.fw v = .left a n v' ∧
      bootListing bufs sys.fw v = some shown ∧ shown.flatten = expand text ∧
      readLines text [] = some entries ∧
      (Installed entries pages'.zeropage ↔
        sys.fw.status a = efiSuccess ∧ Fits (sys.fw.mapOf (sys.fw.mkey a)) ∧
          (a = .second → entries = convert (sys.fw.mapOf (sys.fw.mkey .second)))) := by
  obtain ⟨a, n, v', -, hexit, hzp, -⟩ := bootKernel_started h
  obtain ⟨⟨v₀, silent, hcall⟩, -⟩ := leaveBootServices_left hexit
  obtain ⟨shown, entries, hlisting, hshown, hlt, hfirst⟩ := bootListing_shows bufs hexit
  refine ⟨a, n, v', shown, _, entries, hexit, hlisting, hshown, readLines_lines entries, ?_⟩
  rw [hzp]
  constructor
  · intro hinst
    by_cases hok : (sys.fw.reply a).status = efiSuccess ∧ Fits (sys.fw.reply a).map
    · refine ⟨hok.1, hok.2, ?_⟩
      rintro rfl
      exact hinst.unique (installed_of_fits hok.1 hok.2 hcall _ _)
    · -- the count is then 255
      have hneg := (processMemoryMap_failed hok hcall).1
      have hcount := hinst.count
      have hmax : e820Max = 128 := rfl
      have h255 : (UInt32.ofInt (-1)).toUInt8.toNat = 255 := by decide
      rw [installMemmap_count, hneg, h255] at hcount
      omega
  · rintro ⟨hs, hfits, hsecond⟩
    have hinst := installed_of_fits (r := sys.fw.reply a) hs hfits hcall
      (bootStores sys args (loadKernel sys.bs pages args.image args.sz).pages.zeropage) sys.behind
    cases a with
    | first =>
      rw [hfirst hs hfits]
      exact hinst
    | second =>
      rw [hsecond rfl]
      exact hinst

/-- A boot that is left at the first attempt. -/
theorem listing_installed_iff_steady : ∃ k pages shown text entries,
    bootKernel (systemWith steadyFirmware) zeroPages (freshVars 0) smallArgs = .started k pages ∧
    bootListing (fun _ => .replicate _ 0) steadyFirmware (freshVars 0) = some shown ∧
    shown.flatten = expand text ∧ readLines text [] = some entries ∧
    Installed entries pages.zeropage := by
  have hcount : (bootKernel (systemWith steadyFirmware) zeroPages (freshVars 0) smallArgs).count =
      some 1 := by decide +kernel
  have hresult : (leaveBootServices steadyFirmware (freshVars 0)).result = some (.first, 1) := by
    decide +kernel
  have hfits : Fits oneRegion := ⟨by decide, .inr (by decide), by decide +kernel⟩
  obtain ⟨k, pages, hstart⟩ := Outcome.started_of_count hcount
  obtain ⟨a, n, v', shown, text, entries, hexit, hlisting, hshown, hread, hiff⟩ :=
    listing_installed_iff (fun _ => .replicate _ 0) hstart
  have ha : a = .first := by
    have hfw : (systemWith steadyFirmware).fw = steadyFirmware := rfl
    rw [hfw] at hexit
    rw [hexit] at hresult
    exact congrArg Prod.fst (Option.some.inj hresult)
  refine ⟨k, pages, shown, text, entries, hstart, hlisting, hshown, hread,
    hiff.mpr ⟨rfl, hfits, fun hsecond => ?_⟩⟩
  rw [ha] at hsecond
  cases hsecond

end Gigaboot.Osboot
