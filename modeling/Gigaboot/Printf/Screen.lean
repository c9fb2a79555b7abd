import Gigaboot.Printf.Buffer

/-!
# Printing on the screen

`_printf` of `console-printf.c` with its format: the engine with `_printf_console_out`, and the
rest of the buffer after it.

* `feed_printfConsoleOut`: the calls that the engine makes are those of the console;
* `printf_shows_text`: what is shown is the meaning of the format;
* `screen_shows_buffer`: a format prints the same on the screen and into memory.
-/

namespace Gigaboot.Printf

open ByteMem Console

/-- What a call of `_printf` leaves: what was shown, its result, and what was stored for `%n`. -/
structure Screened where
  shown : List (List UInt16)
  ret : Int
  stores : List Store
  deriving DecidableEq

/-- `_printf`; what its buffer holds at first is not known. -/
def printf (buf : Vector UInt16 (pcbufMax + 2)) (fmt : List UInt8) (ap : List Arg) :
    Option Screened :=
  (printfEngine printfConsoleOut (.start buf) fmt ap).bind fun p =>
    if p.state.off ≠ 0 then (output p.state).map fun s => ⟨s.shown, p.ret, p.stores⟩
    else some ⟨p.state.shown, p.ret, p.stores⟩

theorem feed_printfConsoleOut (pieces : List (List UInt8)) : ∀ s : PcState,
    pieces.flatten.length < 2 ^ 31 → feed printfConsoleOut s pieces = runChunks s pieces := by
  induction pieces with
  | nil => exact fun _ _ => rfl
  | cons str pieces ih =>
    intro s h
    rw [List.flatten_cons, List.length_append] at h
    rw [feed, runChunks, printfConsoleOut]
    cases consoleLoop s (taken str) with
    | none => rfl
    | some s' =>
      simp only [Option.map_some, Option.bind_some]
      rw [if_pos (intOf_of_lt (by omega)), ih s' (by omega)]

theorem map_taken {pieces : List (List UInt8)} (h : pieces.flatten.length < 2 ^ 31) :
    pieces.map taken = pieces := by
  refine (List.map_congr_left fun str hstr => ?_).trans (List.map_id _)
  have hle : str.length ≤ pieces.flatten.length := (List.sublist_flatten_of_mem hstr).length_le
  exact (taken_eq_iff str).mpr (by omega)

theorem printf_shows_text {fmt : List UInt8} {ap : List Arg} {m : Meaning}
    (h : meaning fmt ap = some m) (hint : m.text.length < 2 ^ 31) (hplain : ∀ c ∈ m.text, Plain c)
    (buf : Vector UInt16 (pcbufMax + 2)) :
    ∃ shown, printf buf fmt ap = some ⟨shown, m.text.length, m.stores⟩ ∧
      shown.flatten = expand m.text := by
  obtain ⟨pieces, hflat, hall⟩ := printfEngine_meaning h
  rw [← hflat] at hint
  have hpieces : ∀ piece ∈ pieces, ∀ c ∈ piece, Plain c := fun piece hp c hc =>
    hplain c (hflat ▸ List.mem_flatten.mpr ⟨piece, hp, hc⟩)
  obtain ⟨s, hrun, -⟩ := runChunks_shows hpieces (start_shows buf)
  obtain ⟨shown, hprintf, hshown⟩ := printf_shows buf hpieces
  rw [map_taken hint, hflat] at hshown
  refine ⟨shown, ?_, hshown⟩
  have hengine := hall printfConsoleOut (.start buf) s
    (by rw [feed_printfConsoleOut pieces _ hint, hrun])
  rw [Console.printf, hrun, Option.bind_some] at hprintf
  rw [hflat] at hint
  rw [printf, hengine, Option.bind_some, intOf_of_lt hint]
  dsimp only
  by_cases hoff : s.off ≠ 0
  · rw [if_pos hoff] at hprintf ⊢
    obtain ⟨s', hs', rfl⟩ := Option.map_eq_some_iff.mp hprintf
    rw [hs', Option.map_some]
  · rw [if_neg hoff] at hprintf ⊢
    rw [← Option.some.inj hprintf]

theorem printf_around {fmt : List UInt8} {ap : List Arg} {before s after : List UInt8}
    (h : meaning fmt ap = some ⟨before ++ s ++ after, [], []⟩) (hbefore : ∀ c ∈ before, Plain c)
    (hs : ∀ c ∈ s, Plain c) (hafter : ∀ c ∈ after, Plain c)
    (hint : (before ++ s ++ after).length < 2 ^ 31) (buf : Vector UInt16 (pcbufMax + 2)) :
    ∃ p, printf buf fmt ap = some p ∧ p.shown.flatten = expand (before ++ s ++ after) := by
  obtain ⟨shown, hprintf, hshown⟩ := printf_shows_text h hint
    (List.forall_mem_append.mpr ⟨List.forall_mem_append.mpr ⟨hbefore, hs⟩, hafter⟩) buf
  exact ⟨_, hprintf, hshown⟩

/-! ## Strings -/

/-- The string at `a`, of less than `n` bytes. -/
def stringAt (mem : Mem) (a n : Nat) : List UInt8 := (read mem a n).takeWhile (· ≠ 0)

theorem stringAt_eq {mem : Mem} {a n : Nat} {s : List UInt8} (h : CString.Holds (shift mem a) s)
    (hn : s.length < n) : stringAt mem a n = s := by
  have hread := h.takeWhile_read hn
  rwa [read_shift, Nat.add_zero] at hread

theorem meaning_string (fmt : String) {before after : List UInt8} (s : List UInt8)
    (hfmt : bytesOf fmt = before ++ (37 :: [] ++ 115 :: after)) (hbefore : 37 ∉ before)
    (hafter : 37 ∉ after) :
    meaning (bytesOf fmt) [.string (some s)] = some ⟨before ++ s ++ after, [], []⟩ := by
  rw [hfmt]
  exact meaning_converted rfl (by decide) (converts_string s) hbefore hafter

/-! ## The screen and a buffer -/

/-- **The screen and a buffer get the same text**: what a format without `%n` shows, with a carriage
return before each newline, is the string that `sprintf` leaves in memory for it, and both return
its length. -/
theorem screen_shows_buffer {fmt : List UInt8} {ap : List Arg} {m : Meaning}
    (h : meaning fmt ap = some m) (hstores : m.stores = []) (hint : m.text.length < intMax)
    (hplain : ∀ c ∈ m.text, Plain c) (buf : Vector UInt16 (pcbufMax + 2)) (mem : Mem) {str : Nat}
    (hroom : str + m.text.length < 2 ^ 64) :
    ∃ shown mem' text, printf buf fmt ap = some ⟨shown, (text : List UInt8).length, []⟩ ∧
      sprintf mem str fmt ap = some ⟨mem', text.length, []⟩ ∧
      CString.Holds (shift mem' str) text ∧ shown.flatten = expand text := by
  obtain ⟨text, rest, stores⟩ := m
  subst hstores
  dsimp only at hint hplain hroom
  have hmax : intMax = 2 ^ 31 - 1 := rfl
  obtain ⟨shown, hprintf, hshown⟩ := printf_shows_text h (by dsimp only; omega) hplain buf
  refine ⟨shown, _, text, hprintf, sprintf_writes h hint mem hroom, ?_, hshown⟩
  exact holds_shift_write mem str fun hzero => (hplain 0 hzero).1 rfl

theorem screen_shows_buffer_line :
    ∃ shown mem' text, printf (.replicate _ 0) (bytesOf "dvn=%x\n") [.word 1] =
        some ⟨shown, (text : List UInt8).length, []⟩ ∧
      sprintf (fun _ => 7) 0 (bytesOf "dvn=%x\n") [.word 1] = some ⟨mem', text.length, []⟩ ∧
      CString.Holds (shift mem' 0) text ∧ shown.flatten = expand text :=
  screen_shows_buffer
    (show meaning (bytesOf "dvn=%x\n") [.word 1] = some ⟨bytesOf "dvn=1\n", [], []⟩ by
      decide +kernel)
    rfl (by decide) (by decide +kernel) (.replicate _ 0) (fun _ => 7) (by decide)

end Gigaboot.Printf
