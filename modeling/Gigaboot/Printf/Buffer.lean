import Gigaboot.Lib.CString
import Gigaboot.Printf.Meaning

/-!
# Printing into a buffer

`vsnprintf` and `sprintf` of `lk/src/printf.c`: the engine with `_vsnprintf_output`, which keeps
to the length it was given, and the terminator that is stored after it.

* `outputLoop_eq`: one call of the output function is one write of what still fits;
* `feed_vsnprintfOutput`: so is a sequence of calls;
* `vsnprintf_bounded`, `sprintf_writes`: what is in memory after a call;
* `vsnprintf_confined_iff`: when a call stays inside the buffer.
-/

namespace Gigaboot.Printf

open ByteMem Console

/-- `struct _output_args`, with the memory that `outstr` points into. -/
structure OutputArgs where
  outstr : Nat
  len : Nat
  pos : Nat
  mem : Mem

/-- The loop of `_vsnprintf_output`. -/
def outputLoop (args : OutputArgs) : List UInt8 → OutputArgs
  | [] => args
  | c :: str =>
    outputLoop
      (if args.pos < args.len then
        { args with mem := write args.mem (args.outstr + args.pos) [c], pos := args.pos + 1 }
      else args)
      str

/-- `_vsnprintf_output`, whose count is returned as an `int`. -/
def vsnprintfOutput : Out OutputArgs := fun args str =>
  some (outputLoop args str, intOf str.length)

def addrOf (p : Nat) (i : Int) : Nat := ((p + i) % 2 ^ 64).toNat

/-- What a call leaves: the memory, its result, and what was stored for `%n`. -/
structure Buffered where
  mem : Mem
  ret : Int
  stores : List Store

def vsnprintf (mem : Mem) (str len : Nat) (fmt : List UInt8) (ap : List Arg) : Option Buffered :=
  (printfEngine vsnprintfOutput ⟨str, len, 0, mem⟩ fmt ap).map fun p =>
    -- for no length at all, `len - 1` is the largest `size_t`
    let stop := if p.state.pos ≥ len then addrOf str ((len : Int) - 1) else addrOf str p.ret
    ⟨write p.state.mem stop [0], p.ret, p.stores⟩

/-- `INT_MAX`. -/
def intMax : Nat := 2 ^ 31 - 1

def vsprintf (mem : Mem) (str : Nat) (fmt : List UInt8) (ap : List Arg) : Option Buffered :=
  vsnprintf mem str intMax fmt ap

def sprintf (mem : Mem) (str : Nat) (fmt : List UInt8) (ap : List Arg) : Option Buffered :=
  vsprintf mem str fmt ap

/-! ## The output function -/

/-- What still fits is written where the last call stopped. -/
theorem outputLoop_eq (str : List UInt8) : ∀ args : OutputArgs,
    outputLoop args str =
      { args with
        mem := write args.mem (args.outstr + args.pos) (str.take (args.len - args.pos))
        pos := args.pos + (str.take (args.len - args.pos)).length } := by
  induction str with
  | nil => simp [outputLoop]
  | cons c str ih =>
    intro args
    rw [outputLoop]
    by_cases hpos : args.pos < args.len
    · obtain ⟨k, hk⟩ : ∃ k, args.len - args.pos = k + 1 := ⟨args.len - args.pos - 1, by omega⟩
      have hk' : args.len - (args.pos + 1) = k := by omega
      rw [if_pos hpos, ih, hk, List.take_succ_cons]
      simp only [hk', List.length_cons]
      rw [write_append _ _ _ _ _ (by rw [List.length_singleton]; omega), List.singleton_append]
      congr 1
      omega
    · have hk : args.len - args.pos = 0 := by omega
      rw [if_neg hpos, ih, hk, List.take_zero, List.take_zero]

theorem intOf_of_lt {n : Nat} (h : n < 2 ^ 31) : intOf n = n := by
  unfold intOf
  rw [Int.bmod_def]
  omega

/-- The calls for some pieces of text write what fits of the text. -/
theorem feed_vsnprintfOutput (pieces : List (List UInt8)) : ∀ args : OutputArgs,
    pieces.flatten.length < 2 ^ 31 →
      feed vsnprintfOutput args pieces = some
        { args with
          mem := write args.mem (args.outstr + args.pos)
            (pieces.flatten.take (args.len - args.pos))
          pos := args.pos + (pieces.flatten.take (args.len - args.pos)).length } := by
  induction pieces with
  | nil =>
    intro args _
    simp [feed]
  | cons str pieces ih =>
    intro args h
    rw [List.flatten_cons, List.length_append] at h
    have hcount : intOf str.length = str.length := intOf_of_lt (by omega)
    simp only [feed, vsnprintfOutput, hcount, if_true]
    rw [ih _ (by omega), outputLoop_eq]
    -- the second write starts where the first one ends
    have htake : (str ++ pieces.flatten).take (args.len - args.pos) =
        str.take (args.len - args.pos) ++ pieces.flatten.take
          (args.len - (args.pos + (str.take (args.len - args.pos)).length)) := by
      have hrest : args.len - args.pos - str.length =
          args.len - (args.pos + min (args.len - args.pos) str.length) := by omega
      rw [List.take_append, List.length_take, hrest]
    rw [List.flatten_cons, htake, List.length_append]
    simp only [Option.some.injEq, OutputArgs.mk.injEq, true_and]
    exact ⟨by omega, write_append _ _ _ _ _ (by omega)⟩

/-! ## Calls -/

section Calls

variable {fmt : List UInt8} {ap rest : List Arg} {text : List UInt8}

theorem printfEngine_vsnprintfOutput (h : meaning fmt ap = some ⟨text, rest, []⟩)
    (hint : text.length < 2 ^ 31) (mem : Mem) (str len : Nat) :
    printfEngine vsnprintfOutput ⟨str, len, 0, mem⟩ fmt ap = some
      ⟨⟨str, len, (text.take len).length, write mem str (text.take len)⟩, text.length, []⟩ := by
  obtain ⟨pieces, hflat, hall⟩ := printfEngine_meaning h
  dsimp only at hflat
  have hfeed := feed_vsnprintfOutput pieces ⟨str, len, 0, mem⟩ (by rw [hflat]; exact hint)
  rw [hall vsnprintfOutput _ _ hfeed, intOf_of_lt hint]
  simp only [hflat, Nat.add_zero, Nat.sub_zero, Nat.zero_add]

theorem addrOf_natCast {p i : Nat} (h : p + i < 2 ^ 64) : addrOf p i = p + i := by
  unfold addrOf
  omega

/-- A text is cut off so that it fits with its terminator; the result is its full length. -/
theorem vsnprintf_bounded (h : meaning fmt ap = some ⟨text, rest, []⟩)
    (hint : text.length < 2 ^ 31) (mem : Mem) {str len : Nat} (hlen : 0 < len)
    (hroom : str + min len (text.length + 1) ≤ 2 ^ 64) :
    vsnprintf mem str len fmt ap =
      some ⟨write mem str (text.take (len - 1) ++ [0]), text.length, []⟩ := by
  rw [vsnprintf, printfEngine_vsnprintfOutput h hint, Option.map_some]
  dsimp only
  rw [List.length_take]
  by_cases hfits : text.length < len
  · rw [if_neg (by omega), addrOf_natCast (by omega), List.take_of_length_le (by omega),
      List.take_of_length_le (by omega), write_append _ _ _ _ _ rfl]
  · -- the last character that was written makes room for the terminator
    obtain ⟨k, rfl⟩ : ∃ k, len = k + 1 := ⟨len - 1, by omega⟩
    have hk : k < text.length := by omega
    have haddr : addrOf str (((k + 1 : Nat) : Int) - 1) = str + (text.take k).length := by
      rw [List.length_take, Nat.min_eq_left (by omega)]
      have : (((k + 1 : Nat) : Int) - 1) = k := by omega
      rw [this, addrOf_natCast (by omega)]
    have hmiddle := write_middle mem str _ (text.take k) [text[k]] [0] [] haddr rfl
    rw [List.append_nil, List.append_nil] at hmiddle
    rw [if_pos (by omega), List.take_succ_eq_append_getElem hk, hmiddle, Nat.add_sub_cancel]

/-- With no length at all, the byte before the buffer is overwritten. -/
theorem vsnprintf_zero (h : meaning fmt ap = some ⟨text, rest, []⟩)
    (hint : text.length < 2 ^ 31) (mem : Mem) {str : Nat} (hstr : 0 < str) (hroom : str < 2 ^ 64) :
    vsnprintf mem str 0 fmt ap = some ⟨write mem (str - 1) [0], text.length, []⟩ := by
  have haddr : addrOf str (((0 : Nat) : Int) - 1) = str - 1 := by
    unfold addrOf
    omega
  rw [vsnprintf, printfEngine_vsnprintfOutput h hint, Option.map_some]
  dsimp only
  rw [if_pos (Nat.zero_le _), haddr, List.take_zero, write_nil]

theorem sprintf_writes (h : meaning fmt ap = some ⟨text, rest, []⟩)
    (hint : text.length < intMax) (mem : Mem) {str : Nat} (hroom : str + text.length < 2 ^ 64) :
    sprintf mem str fmt ap = some ⟨write mem str (text ++ [0]), text.length, []⟩ := by
  have hmax : intMax = 2 ^ 31 - 1 := rfl
  rw [sprintf, vsprintf, vsnprintf_bounded h (by omega) mem (by omega) (by omega),
    List.take_of_length_le (by omega)]

theorem holds_shift_write (mem : Mem) (str : Nat) (hzero : 0 ∉ text) :
    CString.Holds (shift (write mem str (text ++ [0])) str) text := by
  have hread := read_eq_append (read_write_self mem str _ (text ++ [0]) rfl)
  refine ⟨?_, ?_, hzero⟩
  · rw [read_shift, Nat.add_zero]
    exact hread.1
  · have hstop := hread.2
    rw [List.length_singleton, read_one] at hstop
    exact (List.cons.inj hstop).1

/-- **A bounded print without `%n` stays inside its buffer** if and only if the buffer has a length,
or the byte before it is zero already.  It leaves the longest front part of the text that fits
there, as a string if there is no NUL in the text, and it returns the length of all of the text. -/
theorem vsnprintf_confined_iff (h : meaning fmt ap = some ⟨text, rest, []⟩)
    (hint : text.length < 2 ^ 31) (mem : Mem) {str len : Nat} (hstr : 0 < str)
    (hroom : str + len ≤ 2 ^ 64) (hlt : str < 2 ^ 64) :
    ∃ mem', vsnprintf mem str len fmt ap = some ⟨mem', text.length, []⟩ ∧
      ((∀ a, a < str ∨ str + len ≤ a → mem' a = mem a) ↔ 0 < len ∨ mem (str - 1) = 0) ∧
      (0 < len → 0 ∉ text → CString.Holds (shift mem' str) (text.take (len - 1))) := by
  rcases Nat.eq_zero_or_pos len with rfl | hlen
  · refine ⟨_, vsnprintf_zero h hint mem hstr hlt, ?_, fun h0 => absurd h0 (Nat.lt_irrefl 0)⟩
    have hbefore : write mem (str - 1) [0] (str - 1) = 0 :=
      write_inside mem (str - 1) [0] 0 (by decide)
    constructor
    · intro hall
      exact .inr ((hall (str - 1) (.inl (by omega))).symm.trans hbefore)
    · rintro (h0 | h0) a -
      · exact absurd h0 (Nat.lt_irrefl 0)
      · by_cases ha : a = str - 1
        · rw [ha, hbefore, h0]
        · exact write_outside _ _ _ _ (by rw [List.length_singleton]; omega)
  · refine ⟨_, vsnprintf_bounded h hint mem hlen (by omega), ?_, fun _ hzero => ?_⟩
    · refine iff_of_true (fun a ha => write_outside _ _ _ _ ?_) (.inl hlen)
      rw [List.length_append, List.length_take, List.length_singleton]
      omega
    · exact holds_shift_write mem str fun hmem => hzero (List.mem_of_mem_take hmem)

end Calls

theorem vsnprintf_confined_iff_three :
    ∃ mem', vsnprintf (fun _ => 7) 16 3 (bytesOf "%x") [.word 0xABCD] = some ⟨mem', 4, []⟩ ∧
      ((∀ a, a < 16 ∨ 16 + 3 ≤ a → mem' a = 7) ↔ 0 < 3 ∨ (7 : UInt8) = 0) ∧
      (0 < 3 → 0 ∉ bytesOf "abcd" →
        CString.Holds (shift mem' 16) ((bytesOf "abcd").take (3 - 1))) :=
  vsnprintf_confined_iff
    (show meaning (bytesOf "%x") [.word 0xABCD] = some ⟨bytesOf "abcd", [], []⟩ by decide +kernel)
    (by decide) (fun _ => 7) (by decide) (by decide) (by decide)

end Gigaboot.Printf
