import Gigaboot.Inet6.Address
import Gigaboot.Inet6.Ip6toa
import Gigaboot.Printf.Numbers
import Gigaboot.Printf.Screen

/-!
# Addresses in memory and on the screen

`ip6toa` of `inet6.c` with its calls of `sprintf`, each of which writes over the terminator of the
one before, and the three lines that `ip6_init` prints.

* `emit_wrote`: one call adds its text;
* `colonGroupsOut_wrote`, `middleZerosOut_wrote`, `headGroupsOut_wrote`: so do the loops;
* `ip6toaAt_writes`: the string that is left in memory is the text form of the address;
* `ip6Init_reads_back`: the addresses can be read off the screen.
-/

namespace Gigaboot.Inet6

open ByteMem Digits HexText Console Printf

/-! ## `ip6toa` in memory -/

/-- The pointer `out`, with the memory it points into. -/
structure Cursor where
  mem : Mem
  out : Nat

/-- `out += sprintf(out, fmt, ...)`. -/
def Cursor.emit (c : Cursor) (fmt : String) (ap : List Arg) : Option Cursor :=
  (sprintf c.mem c.out (bytesOf fmt) ap).map fun b => ⟨b.mem, addrOf c.out b.ret⟩

def groupArg (m : Mem) (k : Nat) : List Arg := [.word (group m k).toUInt64]

/-- `while (x < end)`, with a colon before each group. -/
def colonGroupsOut (m : Mem) : Nat → Cursor → Option Cursor
  | 0, c => some c
  | k + 1, c => (c.emit ":%x" (groupArg m (k + 1))).bind (colonGroupsOut m k)

/-- From the label `middle_zeros` on. -/
def middleZerosOut (m : Mem) (k : Nat) (c : Cursor) : Option Cursor :=
  if skipZeros m k = 0 then c.emit ":" [] else colonGroupsOut m (skipZeros m k) c

/-- `while (x < (end - 2))`, with a colon after each group, and what comes after it. -/
def headGroupsOut (m : Mem) : Nat → Cursor → Option Cursor
  | 0, c => c.emit "%x" (groupArg m 0)
  | 1, c => c.emit "%x" (groupArg m 1)
  | k + 2, c =>
    (c.emit "%x:" (groupArg m (k + 2))).bind fun c =>
      if group m (k + 1) = 0 then middleZerosOut m (k + 1) c else headGroupsOut m (k + 1) c

/-- `ip6toa(out, ip6addr)`, for the address at `m`: the memory after it. -/
def ip6toaAt (m mem : Mem) (out : Nat) : Option Mem :=
  let k := skipZeros m 8
  let c : Cursor := ⟨mem, out⟩
  let c' :=
    if 2 * k < 16 then
      -- all 0s - special case
      if k = 0 then c.emit "::" []
      -- we consumed some number of leading 0s
      else (c.emit ":" []).bind (colonGroupsOut m k)
    else headGroupsOut m 8 c
  c'.map Cursor.mem

def encoded (text : List Char) : List UInt8 := text.map Digits.byte

/-- A text with its terminator; there is none before the first call. -/
def terminated (text : List UInt8) : List UInt8 := if text = [] then [] else text ++ [0]

section Wrote

variable {mem₀ : Mem} {out₀ : Nat}

variable (mem₀ out₀) in
/-- So far `text` was written from `out₀` on. -/
structure Wrote (text : List UInt8) (c : Cursor) : Prop where
  out_eq : c.out = out₀ + text.length
  mem_eq : c.mem = write mem₀ out₀ (terminated text)

theorem wrote_nil : Wrote mem₀ out₀ [] ⟨mem₀, out₀⟩ := ⟨rfl, (write_nil mem₀ out₀).symm⟩

theorem write_terminated (t : List UInt8) {u : List UInt8} (hu : u ≠ []) :
    write (write mem₀ out₀ (terminated t)) (out₀ + t.length) (u ++ [0]) =
      write mem₀ out₀ (terminated (t ++ u)) := by
  obtain ⟨x, u, rfl⟩ := List.exists_cons_of_ne_nil hu
  have hne : t ++ x :: u ≠ [] := by simp
  rw [terminated, terminated, if_neg hne]
  by_cases ht : t = []
  · rw [if_pos ht, ht, write_nil, List.nil_append]
    rfl
  · -- its first character goes where the terminator was
    have hmiddle := write_middle mem₀ out₀ _ t [0] [x] [] rfl rfl
    rw [List.append_nil, List.append_nil] at hmiddle
    have hsplit := write_append (write mem₀ out₀ (t ++ [0])) (out₀ + t.length) _ [x] (u ++ [0]) rfl
    rw [hmiddle, List.singleton_append] at hsplit
    rw [if_neg ht, List.cons_append, ← hsplit,
      write_append _ _ _ _ _ (by simp only [List.length_append]; omega)]
    simp only [List.append_assoc, List.cons_append, List.nil_append]

variable (hroom : out₀ + ip6toaMax ≤ 2 ^ 64)
include hroom

theorem emit_wrote {t u : List UInt8} {c : Cursor} {fmt : String} {ap : List Arg}
    (h : Wrote mem₀ out₀ t c) (hmeaning : meaning (bytesOf fmt) ap = some ⟨u, [], []⟩)
    (hu : u ≠ []) (hlen : (t ++ u).length < ip6toaMax) :
    ∃ c', c.emit fmt ap = some c' ∧ Wrote mem₀ out₀ (t ++ u) c' := by
  have hmax : ip6toaMax = 40 := rfl
  have hint : intMax = 2 ^ 31 - 1 := rfl
  rw [List.length_append] at hlen
  have hout := h.out_eq
  have hprint : sprintf c.mem c.out (bytesOf fmt) ap =
      some ⟨write c.mem c.out (u ++ [0]), u.length, []⟩ :=
    sprintf_writes hmeaning (by omega) c.mem (by omega)
  refine ⟨⟨write c.mem c.out (u ++ [0]), c.out + u.length⟩, ?_, ⟨?_, ?_⟩⟩
  · rw [Cursor.emit, hprint, Option.map_some, addrOf_natCast (by omega)]
  · rw [List.length_append]
    dsimp only
    omega
  · dsimp only
    rw [h.mem_eq, h.out_eq, write_terminated t hu]

/-! ### Formats -/

omit hroom in
theorem group_toNat_mod (m : Mem) (k : Nat) :
    (unsignedArg {} (group m k).toUInt64).toNat = (group m k).toNat := by
  have hlt := (group m k).toNat_lt
  rw [unsignedArg_toNat, UInt16.toNat_toUInt64]
  exact Nat.mod_eq_of_lt (Nat.lt_of_lt_of_le hlt (by decide))

omit hroom in
/-- `%x` with a group, between other characters. -/
theorem meaning_group (fmt : String) (before after : List UInt8)
    (hfmt : bytesOf fmt = before ++ (37 :: [] ++ 120 :: after)) (hb : 37 ∉ before)
    (ha : 37 ∉ after) (m : Mem) (k : Nat) :
    meaning (bytesOf fmt) (groupArg m k) =
      some ⟨before ++ encoded (hex (group m k)) ++ after, [], []⟩ := by
  have hfield : hexText {} 0 (unsignedArg {} (group m k).toUInt64) = encoded (hex (group m k)) := by
    rw [hexText, fieldText, group_toNat_mod]
    simp only [Nat.zero_sub, List.replicate_zero]
    rfl
  rw [hfmt, groupArg, ← hfield]
  exact meaning_converted rfl (by decide) (converts_hex {} _) hb ha

theorem emit_colon_group {t : List UInt8} {c : Cursor} (h : Wrote mem₀ out₀ t c) (m : Mem) (k : Nat)
    (hlen : (t ++ encoded (':' :: hex (group m k))).length < ip6toaMax) :
    ∃ c', c.emit ":%x" (groupArg m k) = some c' ∧
      Wrote mem₀ out₀ (t ++ encoded (':' :: hex (group m k))) c' := by
  have hmeaning := meaning_group ":%x" [58] [] (by decide) (by decide) (by decide) m k
  rw [List.append_nil] at hmeaning
  exact emit_wrote hroom h hmeaning (List.cons_ne_nil _ _) hlen

/-! ### The loops -/

theorem colonGroupsOut_wrote (m : Mem) (k : Nat) : ∀ {t : List UInt8} {c : Cursor},
    Wrote mem₀ out₀ t c → (t ++ encoded (colonGroups m k)).length < ip6toaMax →
      ∃ c', colonGroupsOut m k c = some c' ∧
        Wrote mem₀ out₀ (t ++ encoded (colonGroups m k)) c' := by
  induction k with
  | zero =>
    intro t c h _
    exact ⟨c, rfl, by rw [colonGroups, encoded, List.map_nil, List.append_nil]; exact h⟩
  | succ k ih =>
    intro t c h hlen
    have hsplit : t ++ encoded (colonGroups m (k + 1)) =
        t ++ encoded (':' :: hex (group m (k + 1))) ++ encoded (colonGroups m k) := by
      rw [colonGroups, encoded, List.map_append, List.append_assoc]
      rfl
    rw [hsplit] at hlen ⊢
    have hfirst := hlen
    rw [List.length_append] at hfirst
    obtain ⟨c₁, h₁, hc₁⟩ := emit_colon_group hroom h m (k + 1) (by omega)
    obtain ⟨c', h', hc'⟩ := ih hc₁ hlen
    exact ⟨c', by rw [colonGroupsOut, h₁, Option.bind_some, h'], hc'⟩

theorem middleZerosOut_wrote (m : Mem) (k : Nat) {t : List UInt8} {c : Cursor}
    (h : Wrote mem₀ out₀ t c) (hlen : (t ++ encoded (middleZeros m k)).length < ip6toaMax) :
    ∃ c', middleZerosOut m k c = some c' ∧
      Wrote mem₀ out₀ (t ++ encoded (middleZeros m k)) c' := by
  unfold middleZeros at hlen ⊢
  unfold middleZerosOut
  by_cases hz : skipZeros m k = 0
  · rw [if_pos hz] at hlen ⊢
    rw [if_pos hz]
    exact emit_wrote hroom h (by decide) (by decide) hlen
  · rw [if_neg hz] at hlen ⊢
    rw [if_neg hz]
    exact colonGroupsOut_wrote hroom m _ h hlen

theorem emit_group {t : List UInt8} {c : Cursor} (h : Wrote mem₀ out₀ t c) (m : Mem) (k : Nat)
    (hlen : (t ++ encoded (hex (group m k))).length < ip6toaMax) :
    ∃ c', c.emit "%x" (groupArg m k) = some c' ∧
      Wrote mem₀ out₀ (t ++ encoded (hex (group m k))) c' := by
  have hmeaning := meaning_group "%x" [] [] (by decide) (by decide) (by decide) m k
  rw [List.append_nil, List.nil_append] at hmeaning
  refine emit_wrote hroom h hmeaning (fun hnil => ?_) hlen
  have hpos := hex_length_pos (group m k)
  rw [encoded, List.map_eq_nil_iff] at hnil
  rw [hnil] at hpos
  exact Nat.lt_irrefl 0 hpos

theorem headGroupsOut_wrote (m : Mem) (k : Nat) : ∀ {t : List UInt8} {c : Cursor},
    Wrote mem₀ out₀ t c → (t ++ encoded (headGroups m k)).length < ip6toaMax →
      ∃ c', headGroupsOut m k c = some c' ∧
        Wrote mem₀ out₀ (t ++ encoded (headGroups m k)) c' := by
  induction k using headGroups.induct with
  | case1 => exact fun h hlen => emit_group hroom h m 0 hlen
  | case2 => exact fun h hlen => emit_group hroom h m 1 hlen
  | case3 k ih =>
    intro t c h hlen
    -- the text of this round, and what the loop goes on with
    obtain ⟨tail, htail⟩ : ∃ tail, tail =
        if group m (k + 1) = 0 then middleZeros m (k + 1) else headGroups m (k + 1) := ⟨_, rfl⟩
    have hsplit : t ++ encoded (headGroups m (k + 2)) =
        t ++ (encoded (hex (group m (k + 2))) ++ [58]) ++ encoded tail := by
      rw [headGroups, ← htail]
      simp only [encoded, List.map_append, List.map_cons, List.append_assoc, List.singleton_append]
      rfl
    rw [hsplit] at hlen ⊢
    have hfirst := hlen
    rw [List.length_append] at hfirst
    have hmeaning := meaning_group "%x:" [] [58] (by decide) (by decide) (by decide) m
      (k + 2)
    rw [List.nil_append] at hmeaning
    obtain ⟨c₁, h₁, hc₁⟩ := emit_wrote hroom h hmeaning (by simp) (by omega)
    have hrest : ∃ c', (if group m (k + 1) = 0 then middleZerosOut m (k + 1) c₁
        else headGroupsOut m (k + 1) c₁) = some c' ∧
          Wrote mem₀ out₀ (t ++ (encoded (hex (group m (k + 2))) ++ [58]) ++ encoded tail) c' := by
      by_cases hz : group m (k + 1) = 0
      · rw [if_pos hz] at htail ⊢
        rw [htail] at hlen ⊢
        exact middleZerosOut_wrote hroom m (k + 1) hc₁ hlen
      · rw [if_neg hz] at htail ⊢
        rw [htail] at hlen ⊢
        exact ih hc₁ hlen
    obtain ⟨c', h', hc'⟩ := hrest
    exact ⟨c', by rw [headGroupsOut, h₁, Option.bind_some, h'], hc'⟩

omit hroom in
theorem TextOf.ne_nil {gs : List UInt16} {text : List Char} (h : TextOf gs text) (hgs : gs ≠ []) :
    text ≠ [] := by
  cases h with
  | full => exact joined_ne_nil hgs
  | elided before after z hz hsplit => simp

/-- What `ip6toa` leaves in memory is the text form of the address. -/
theorem ip6toaAt_writes (m : Mem) :
    ip6toaAt m mem₀ out₀ = some (write mem₀ out₀ (encoded (ip6toa m) ++ [0])) := by
  have hlen : (ip6toa m).length < ip6toaMax := by
    have h := (ip6toa_cases m).length_lt (groups_ne_nil m (by decide))
    rw [groups_length] at h
    exact h
  have hne : encoded (ip6toa m) ≠ [] := fun hnil =>
    (ip6toa_cases m).ne_nil (groups_ne_nil m (by decide)) (List.map_eq_nil_iff.mp hnil)
  have hlen' : (encoded (ip6toa m)).length < ip6toaMax := by rwa [encoded, List.length_map]
  suffices hwrote : ∃ c', (if 2 * skipZeros m 8 < 16 then
      if skipZeros m 8 = 0 then Cursor.emit ⟨mem₀, out₀⟩ "::" []
      else (Cursor.emit ⟨mem₀, out₀⟩ ":" []).bind (colonGroupsOut m (skipZeros m 8))
      else headGroupsOut m 8 ⟨mem₀, out₀⟩) = some c' ∧
        Wrote mem₀ out₀ (encoded (ip6toa m)) c' by
    obtain ⟨c', hc', hw⟩ := hwrote
    unfold ip6toaAt
    dsimp only
    rw [hc', Option.map_some, hw.mem_eq, terminated, if_neg hne]
  unfold ip6toa at hlen' ⊢
  dsimp only at hlen' ⊢
  by_cases hshort : 2 * skipZeros m 8 < 16
  · rw [if_pos hshort] at hlen' ⊢
    rw [if_pos hshort]
    by_cases hz : skipZeros m 8 = 0
    · rw [if_pos hz] at hlen' ⊢
      rw [if_pos hz]
      exact emit_wrote hroom wrote_nil (by decide) (by decide) hlen'
    · rw [if_neg hz] at hlen' ⊢
      rw [if_neg hz]
      obtain ⟨c₁, h₁, hc₁⟩ := emit_wrote hroom wrote_nil
        (show meaning (bytesOf ":") [] = some ⟨[58], [], []⟩ by decide) (by decide) (by decide)
      obtain ⟨c', h', hc'⟩ := colonGroupsOut_wrote hroom m _ hc₁ hlen'
      exact ⟨c', by rw [h₁, Option.bind_some, h'], hc'⟩
  · rw [if_neg hshort] at hlen' ⊢
    rw [if_neg hshort]
    exact headGroupsOut_wrote hroom m 8 wrote_nil hlen'

end Wrote

/-! ## The lines of `ip6_init` -/

/-- The bytes `x[0]` to `x[5]` of an address as arguments. -/
def macArgs (mac : MacAddr) : List Arg := mac.toList.map fun b => .word b.toUInt64

/-- `printf(fmt, ip6toa(tmp, addr))`, for the address at `m`: the memory after it and what was
shown. -/
def printAddress (fmt : String) (buf : Vector UInt16 (pcbufMax + 2)) (m mem : Mem) (tmp : Nat) :
    Option (Mem × Screened) :=
  (ip6toaAt m mem tmp).bind fun mem =>
    (printf buf (bytesOf fmt) [.string (some (stringAt mem tmp ip6toaMax))]).map fun p => (mem, p)

/-- What `ip6_init` prints, with `tmp` at this address of the memory; `ll` and `snm` are what lies
at the two addresses.  Each call of `_printf` has a buffer of its own. -/
def ip6InitPrint (bufs : Nat → Vector UInt16 (pcbufMax + 2)) (mac : MacAddr) (ll snm mem : Mem)
    (tmp : Nat) : Option (List (List UInt16)) :=
  (printf (bufs 0) (bytesOf "macaddr: %02x:%02x:%02x:%02x:%02x:%02x\n")
    (macArgs mac)).bind fun p₀ =>
  (printAddress "ip6addr: %s\n" (bufs 1) ll mem tmp).bind fun (mem, p₁) =>
  (printAddress "snmaddr: %s\n" (bufs 2) snm mem tmp).bind fun (_, p₂) =>
  some (p₀.shown ++ p₁.shown ++ p₂.shown)

def hexPair (b : UInt8) : List UInt8 :=
  fieldText { leadzero := true } 2 [] (digits Digits.byte 16 b.toNat)

def pairsText : List UInt8 → List UInt8
  | [] => []
  | [b] => hexPair b
  | b :: b' :: bs => hexPair b ++ 58 :: pairsText (b' :: bs)

def parsePairs : List UInt8 → Option (List Nat)
  | [x, y] => (value 16 [x, y]).map fun n => [n]
  | x :: y :: c :: rest =>
    if c = 58 then (value 16 [x, y]).bind fun n => (parsePairs rest).map (n :: ·) else none
  | _ => none

theorem hexPair_reads (b : UInt8) : ∃ x y, hexPair b = [x, y] ∧ value 16 [x, y] = some b.toNat := by
  have hlen : (hexPair b).length = 2 := by
    have hle : (digits Digits.byte 16 b.toNat).length ≤ 2 :=
      (digits_length_le_iff (by decide) (by decide)).mpr b.toNat_lt
    simp only [hexPair, fieldText, List.length_append, List.length_replicate, List.length_nil,
      if_true, if_false, Bool.false_eq_true]
    omega
  have hvalue : value 16 (hexPair b) = some b.toNat := by
    rw [hexPair, fieldText, if_neg (by decide), if_pos rfl, List.nil_append,
      value_replicate_zero (by decide), value_digits (by decide) byte_spells]
  obtain ⟨x, y, hxy⟩ := List.length_eq_two.mp hlen
  exact ⟨x, y, hxy, hxy ▸ hvalue⟩

theorem parsePairs_pairsText {bs : List UInt8} (h : bs ≠ []) :
    parsePairs (pairsText bs) = some (bs.map UInt8.toNat) := by
  induction bs using pairsText.induct with
  | case1 => exact absurd rfl h
  | case2 b =>
    obtain ⟨x, y, hxy, hvalue⟩ := hexPair_reads b
    rw [pairsText, hxy, parsePairs, hvalue]
    rfl
  | case3 b b' bs ih =>
    obtain ⟨x, y, hxy, hvalue⟩ := hexPair_reads b
    rw [pairsText, hxy]
    show parsePairs (x :: y :: 58 :: pairsText (b' :: bs)) = _
    rw [parsePairs, if_pos rfl, hvalue, Option.bind_some, ih (List.cons_ne_nil b' bs)]
    rfl

theorem pairsText_length (bs : List UInt8) : (pairsText bs).length ≤ 3 * bs.length := by
  have hpair : ∀ b, (hexPair b).length = 2 := by
    intro b
    obtain ⟨x, y, hxy, -⟩ := hexPair_reads b
    rw [hxy]
    rfl
  induction bs using pairsText.induct with
  | case1 => exact Nat.le_refl 0
  | case2 b =>
    rw [pairsText, hpair, List.length_singleton]
    decide
  | case3 b b' bs ih =>
    rw [pairsText, List.length_append, List.length_cons, List.length_cons, hpair]
    omega

theorem toList_six (mac : MacAddr) : ∃ a b c d e f, mac.toList = [a, b, c, d, e, f] := by
  have hlen : mac.toList.length = 6 := Vector.length_toList
  match mac.toList, hlen with
  | [a, b, c, d, e, f], _ => exact ⟨a, b, c, d, e, f, rfl⟩

theorem loop_pair (b : UInt8) (rest t : List UInt8) (ap : List Arg) :
    Meaning.loop (bytesOf "%02x" ++ rest) none ⟨t, .word b.toUInt64 :: ap, []⟩ =
      Meaning.loop rest none ⟨t ++ hexPair b, ap, []⟩ := by
  have harg : (unsignedArg { leadzero := true } b.toUInt64).toNat = b.toNat := by
    have hlt := b.toNat_lt
    rw [unsignedArg_toNat, UInt8.toNat_toUInt64]
    exact Nat.mod_eq_of_lt (Nat.lt_of_lt_of_le hlt (by decide))
  have hfield : hexText { leadzero := true } 2 (unsignedArg { leadzero := true } b.toUInt64) =
      hexPair b := by
    rw [hexText, harg]
    rfl
  have hmods : modify {} [48, 50] = some ⟨{ leadzero := true }, 2⟩ := by decide
  have hc : directive ⟨{ leadzero := true }, 2⟩ 120 = .convert .hex := by decide
  rw [← hfield]
  exact loop_converted hmods hc (converts_hex _ _) rest t ap

theorem meaning_mac (mac : MacAddr) :
    meaning (bytesOf "macaddr: %02x:%02x:%02x:%02x:%02x:%02x\n") (macArgs mac) =
      some ⟨bytesOf "macaddr: " ++ pairsText mac.toList ++ [10], [], []⟩ := by
  have hfmt : bytesOf "macaddr: %02x:%02x:%02x:%02x:%02x:%02x\n" =
      bytesOf "macaddr: " ++ (bytesOf "%02x" ++ ([58] ++ (bytesOf "%02x" ++ ([58] ++
        (bytesOf "%02x" ++ ([58] ++ (bytesOf "%02x" ++ ([58] ++ (bytesOf "%02x" ++ ([58] ++
          (bytesOf "%02x" ++ ([10] ++ [])))))))))))) := by decide
  obtain ⟨a, b, c, d, e, f, hmac⟩ := toList_six mac
  rw [meaning, hfmt, loop_plain (by decide), macArgs, hmac]
  simp only [Meaning.add, List.map_cons, loop_pair, loop_plain (show 37 ∉ [(58 : UInt8)] by decide),
    loop_plain (show 37 ∉ [(10 : UInt8)] by decide)]
  rw [Meaning.loop, List.map_nil]
  simp only [pairsText, List.append_assoc, List.nil_append, List.cons_append]

/-! ### Characters -/

theorem plain_of_digit {c : UInt8} (h : digitVal c ≠ none) : Plain c := by
  refine ⟨?_, ?_⟩
  · rintro rfl
    exact h (by decide)
  · by_contra hhigh
    rw [UInt8.lt_iff_toNat_lt] at hhigh
    have hcode : 128 ≤ Coded.code c := Nat.not_lt.mp hhigh
    refine h ?_
    unfold digitVal
    rw [if_neg (by omega), if_neg (by omega), if_neg (by omega)]

theorem plain_encoded_hex (g : UInt16) : ∀ c ∈ encoded (hex g), Plain c := fun _ hc =>
  plain_of_digit (digitVal_of_mem_digits (by decide) byte_spells hc)

theorem plain_encoded_joined (gs : List UInt16) : ∀ c ∈ encoded (joined gs), Plain c := by
  induction gs with
  | nil => exact fun c hc => nomatch hc
  | cons g gs ih =>
    intro c hc
    by_cases hgs : gs = []
    · rw [hgs, joined_singleton] at hc
      exact plain_encoded_hex g c hc
    · rw [joined_cons g hgs, encoded, List.map_append, List.mem_append, List.map_cons,
        List.mem_cons] at hc
      rcases hc with hc | rfl | hc
      · exact plain_encoded_hex g c hc
      · decide
      · exact ih c hc

theorem TextOf.plain {gs : List UInt16} {text : List Char} (h : TextOf gs text) :
    ∀ c ∈ encoded text, Plain c := by
  cases h with
  | full => exact plain_encoded_joined gs
  | elided before after z hz hsplit =>
    intro c hc
    rw [encoded, List.map_append, List.mem_append, List.map_cons, List.map_cons, List.mem_cons,
      List.mem_cons] at hc
    rcases hc with hc | rfl | rfl | hc
    · exact plain_encoded_joined before c hc
    · decide
    · decide
    · exact plain_encoded_joined after c hc

theorem plain_pairsText (bs : List UInt8) : ∀ c ∈ pairsText bs, Plain c := by
  have hpair : ∀ b, ∀ c ∈ hexPair b, Plain c := by
    intro b c hc
    rcases mem_fieldText hc with hc | rfl | rfl
    · exact plain_of_digit (digitVal_of_mem_digits (by decide) byte_spells hc)
    · decide
    · decide
  induction bs using pairsText.induct with
  | case1 => exact fun c hc => nomatch hc
  | case2 b => exact hpair b
  | case3 b b' bs ih =>
    intro c hc
    rw [pairsText, List.mem_append, List.mem_cons] at hc
    rcases hc with hc | rfl | hc
    · exact hpair b c hc
    · decide
    · exact ih c hc

/-! ### The three lines -/

/-- A line with an address, which was put into `tmp`. -/
theorem printf_address (fmt label : String)
    (hfmt : bytesOf fmt = bytesOf label ++ (37 :: [] ++ 115 :: [10]))
    (hplain : ∀ c ∈ bytesOf label, Plain c ∧ c ≠ 37) (hlen : (bytesOf label).length = 9)
    {tmp : Nat} (hroom : tmp + ip6toaMax ≤ 2 ^ 64) (m mem : Mem)
    (buf : Vector UInt16 (pcbufMax + 2)) :
    ∃ mem' p, printAddress fmt buf m mem tmp = some (mem', p) ∧
      p.shown.flatten = expand (bytesOf label ++ encoded (ip6toa m) ++ [10]) := by
  have hshort := (ip6toa_cases m).length_lt (groups_ne_nil m (by decide))
  have htext := (ip6toa_cases m).plain
  rw [groups_length] at hshort
  have hcount : (encoded (ip6toa m)).length = (ip6toa m).length := List.length_map _
  have hstring : stringAt (write mem tmp (encoded (ip6toa m) ++ [0])) tmp ip6toaMax =
      encoded (ip6toa m) :=
    stringAt_eq (holds_shift_write mem tmp fun hzero => (htext 0 hzero).1 rfl)
      (by rw [hcount]; exact hshort)
  obtain ⟨p, hp, hshown⟩ := printf_around
    (meaning_string fmt (encoded (ip6toa m)) hfmt (fun hmem => (hplain 37 hmem).2 rfl) (by decide))
    (fun c hc => (hplain c hc).1) htext (by decide +kernel)
    (by simp only [List.length_append, List.length_singleton]; omega) buf
  refine ⟨write mem tmp (encoded (ip6toa m) ++ [0]), p, ?_, hshown⟩
  rw [printAddress, ip6toaAt_writes hroom m, Option.bind_some, hstring, hp, Option.map_some]

/-- **What `ip6_init` prints can be read back**: whatever the buffers held before, the three lines
on the screen are the hardware address, the link-local address and the solicited-node address
that the stack was set up with. -/
theorem ip6Init_reads_back (bufs : Nat → Vector UInt16 (pcbufMax + 2)) (st : Stack) (mac : MacAddr)
    {ll snm : Mem} (hll : read ll 0 16 = (ip6Init st mac).llIp6Addr.toList)
    (hsnm : read snm 0 16 = (ip6Init st mac).snmIp6Addr.toList) (mem : Mem) {tmp : Nat}
    (hroom : tmp + ip6toaMax ≤ 2 ^ 64) :
    ∃ shown macaddr ip6addr snmaddr,
      ip6InitPrint bufs (ip6Init st mac).llMacAddr ll snm mem tmp = some shown ∧
      shown.flatten = expand (bytesOf "macaddr: " ++ macaddr ++ [10] ++
        (bytesOf "ip6addr: " ++ encoded ip6addr ++ [10]) ++
        (bytesOf "snmaddr: " ++ encoded snmaddr ++ [10])) ∧
      parsePairs macaddr = some (mac.toList.map UInt8.toNat) ∧
      parseIp6 ip6addr = some (ll6addrFromMac mac).toList ∧
      parseIp6 snmaddr = some (snmaddrFromMac mac).toList := by
  have hmac : mac.toList ≠ [] := by
    obtain ⟨a, b, c, d, e, f, hsix⟩ := toList_six mac
    rw [hsix]
    exact List.cons_ne_nil _ _
  have hpairs := pairsText_length mac.toList
  rw [Vector.length_toList] at hpairs
  have hlabel : (bytesOf "macaddr: ").length = 9 := by decide
  obtain ⟨p₀, hp₀, hs₀⟩ := printf_around (meaning_mac mac) (by decide +kernel)
    (plain_pairsText mac.toList) (by decide +kernel)
    (by simp only [List.length_append, List.length_singleton]; omega) (bufs 0)
  obtain ⟨mem₁, p₁, hp₁, hs₁⟩ := printf_address "ip6addr: %s\n" "ip6addr: "
    (by decide) (by decide +kernel) (by decide) hroom ll mem (bufs 1)
  obtain ⟨mem₂, p₂, hp₂, hs₂⟩ := printf_address "snmaddr: %s\n" "snmaddr: "
    (by decide) (by decide +kernel) (by decide) hroom snm mem₁ (bufs 2)
  refine ⟨p₀.shown ++ p₁.shown ++ p₂.shown, pairsText mac.toList, ip6toa ll, ip6toa snm, ?_, ?_,
    parsePairs_pairsText hmac, ?_, ?_⟩
  · show ip6InitPrint bufs mac ll snm mem tmp = _
    rw [ip6InitPrint, hp₀, Option.bind_some, hp₁, Option.bind_some]
    dsimp only
    rw [hp₂, Option.bind_some]
  · rw [List.flatten_append, List.flatten_append, hs₀, hs₁, hs₂, ← expand_append, ← expand_append]
  · rw [parseIp6_ip6toa, hll]
    rfl
  · rw [parseIp6_ip6toa, hsnm]
    rfl

def someMac : MacAddr := #v[0x52, 0x54, 0x00, 0x12, 0x34, 0x56]

theorem ip6Init_reads_back_someMac :
    ∃ shown macaddr ip6addr snmaddr,
      ip6InitPrint (fun _ => .replicate _ 0) someMac (ofList (ll6addrFromMac someMac).toList)
        (ofList (snmaddrFromMac someMac).toList) (fun _ => 7) 0 = some shown ∧
      shown.flatten = expand (bytesOf "macaddr: " ++ macaddr ++ [10] ++
        (bytesOf "ip6addr: " ++ encoded ip6addr ++ [10]) ++
        (bytesOf "snmaddr: " ++ encoded snmaddr ++ [10])) ∧
      parsePairs macaddr = some (someMac.toList.map UInt8.toNat) ∧
      parseIp6 ip6addr = some (ll6addrFromMac someMac).toList ∧
      parseIp6 snmaddr = some (snmaddrFromMac someMac).toList :=
  ip6Init_reads_back (fun _ => .replicate _ 0)
    ⟨someMac, ip6LlAllNodes, someMac, ip6LlAllNodes, someMac, ip6LlAllNodes⟩
    someMac (by decide) (by decide) (fun _ => 7) (by decide)

end Gigaboot.Inet6
