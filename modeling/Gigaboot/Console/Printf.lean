import Mathlib.Algebra.Group.Nat.Defs
import Mathlib.Data.List.TakeDrop
import Mathlib.Tactic.Common

/-!
# Output on the console

The buffer of `console-printf.c`: `_printf_console_out` collects characters, with a carriage
return before each newline, and shows them when the buffer is full; `_printf` shows the rest.
A store outside the buffer makes the model fail, so a call that succeeds has made none.

* `push_shows`, `flush_shows`, `putChar_shows`: what one store, one flush and one character do;
* `consoleLoop_shows`, `runChunks_shows`: what the loop and a sequence of calls do;
* `console_lossless_iff`: when all of the text is shown.
-/

namespace Gigaboot.Console

/-- The buffer is two larger to leave room for a `\0` and for a `\r`. -/
def pcbufMax : Nat := 126

/-- `_pcstate`, and the strings that were passed to `OutputString`, oldest first. -/
structure PcState where
  off : Nat
  buf : Vector UInt16 (pcbufMax + 2)
  shown : List (List UInt16)

def store (s : PcState) (c : UInt16) : Option PcState :=
  if h : s.off < pcbufMax + 2 then some { s with buf := s.buf.set s.off c h } else none

def push (s : PcState) (c : UInt16) : Option PcState :=
  (store s c).map fun s => { s with off := s.off + 1 }

/-- What `OutputString` shows: the characters up to the terminator. -/
def outputString (buf : Vector UInt16 (pcbufMax + 2)) : List UInt16 :=
  buf.toList.takeWhile (· ≠ 0)

/-- `buf[i] = 0`, and the call of `OutputString`. -/
def output (s : PcState) : Option PcState :=
  (store s 0).map fun s => { s with shown := s.shown ++ [outputString s.buf] }

/-- A `char`, which is signed, as a `CHAR16`. -/
def char16 (c : UInt8) : UInt16 := if c < 128 then c.toUInt16 else 0xFF00 + c.toUInt16

/-- One round of the loop of `_printf_console_out`; its `i` is `off`. -/
def putChar (s : PcState) (c : UInt8) : Option PcState :=
  (if c = 10 then push s 13 else some s).bind fun s =>
    (push s (char16 c)).bind fun s =>
      if s.off ≥ pcbufMax then (output s).map fun s => { s with off := 0 } else some s

def consoleLoop (s : PcState) : List UInt8 → Option PcState
  | [] => some s
  | c :: cs => (putChar s c).bind fun s => consoleLoop s cs

/-- `int n = len`, for a `size_t`. -/
def intOf (len : Nat) : Int := Int.bmod len (2 ^ 32)

/-- The characters that the loop gets to: none if `n` is negative. -/
def taken (str : List UInt8) : List UInt8 := str.take (intOf str.length).toNat

/-- `_printf_console_out` with its result. -/
def printfConsoleOut (s : PcState) (str : List UInt8) : Option (PcState × Int) :=
  (consoleLoop s (taken str)).map fun s => (s, intOf str.length)

/-- The calls that `_printf_engine` makes. -/
def runChunks (s : PcState) : List (List UInt8) → Option PcState
  | [] => some s
  | chunk :: chunks => (printfConsoleOut s chunk).bind fun r => runChunks r.1 chunks

def PcState.start (buf : Vector UInt16 (pcbufMax + 2)) : PcState := ⟨0, buf, []⟩

/-- `_printf`, for a format that is passed on in these chunks: the strings that are shown. -/
def printf (buf : Vector UInt16 (pcbufMax + 2)) (chunks : List (List UInt8)) :
    Option (List (List UInt16)) :=
  (runChunks (.start buf) chunks).bind fun s =>
    if s.off ≠ 0 then (output s).map PcState.shown else some s.shown

/-! ## The buffer -/

/-- The characters that are not shown yet. -/
def PcState.pending (s : PcState) : List UInt16 := s.buf.toList.take s.off

/-- `text` is what was shown and what is pending, of which there are less than `n`. -/
structure Shows (n : Nat) (s : PcState) (text : List UInt16) : Prop where
  off_lt : s.off < n
  text_eq : s.shown.flatten ++ s.pending = text
  nonzero : 0 ∉ s.pending

theorem Shows.mono {n k : Nat} {s : PcState} {text : List UInt16} (h : Shows n s text)
    (hk : n ≤ k) : Shows k s text :=
  ⟨Nat.lt_of_lt_of_le h.off_lt hk, h.text_eq, h.nonzero⟩

theorem take_set_succ {l : List UInt16} {i : Nat} (hi : i < l.length) (c : UInt16) :
    (l.set i c).take (i + 1) = l.take i ++ [c] := by
  rw [List.take_set, List.take_succ_eq_append_getElem hi,
    List.set_append_right _ _ (by rw [List.length_take]; exact Nat.min_le_left _ _)]
  simp [Nat.min_eq_left (Nat.le_of_lt hi)]

theorem push_shows {n : Nat} {s : PcState} {text : List UInt16} (h : Shows n s text)
    (hn : n ≤ pcbufMax + 2) {c : UInt16} (hc : c ≠ 0) :
    ∃ s', push s c = some s' ∧ Shows (n + 1) s' (text ++ [c]) := by
  have hoff : s.off < pcbufMax + 2 := Nat.lt_of_lt_of_le h.off_lt hn
  have hpending : ((s.buf.set s.off c hoff).toList).take (s.off + 1) = s.pending ++ [c] := by
    rw [Vector.toList_set, take_set_succ (by simpa using hoff)]
    rfl
  refine ⟨_, by rw [push, store, dif_pos hoff]; rfl, Nat.succ_lt_succ h.off_lt, ?_, ?_⟩
  · rw [PcState.pending, hpending, ← List.append_assoc, h.text_eq]
  · rw [PcState.pending, hpending, List.mem_append, List.mem_singleton]
    rintro (hz | hz)
    · exact h.nonzero hz
    · exact hc hz.symm

theorem output_shows {s : PcState} {text : List UInt16} (h : Shows (pcbufMax + 2) s text) :
    ∃ s', output s = some s' ∧ s'.shown.flatten = text := by
  have hlen : s.off < s.buf.toList.length := by
    rw [Vector.length_toList]
    exact h.off_lt
  have hstring : outputString (s.buf.set s.off 0 h.off_lt) = s.pending := by
    rw [outputString, Vector.toList_set, List.set_eq_take_append_cons_drop, if_pos hlen,
      List.takeWhile_append_of_pos]
    · simp [PcState.pending]
    · intro c hc
      rw [decide_eq_true_eq]
      rintro rfl
      exact h.nonzero hc
  refine ⟨_, by rw [output, store, dif_pos h.off_lt]; rfl, ?_⟩
  dsimp only
  rw [hstring, List.flatten_append, List.flatten_singleton, h.text_eq]

theorem flush_shows {s : PcState} {text : List UInt16} (h : Shows (pcbufMax + 2) s text) :
    ∃ s', ((output s).map fun s => { s with off := 0 }) = some s' ∧ Shows pcbufMax s' text := by
  obtain ⟨s', hout, htext⟩ := output_shows h
  refine ⟨{ s' with off := 0 }, by rw [hout]; rfl, show 0 < pcbufMax by decide, ?_, ?_⟩
  · rw [PcState.pending, List.take_zero, List.append_nil]
    exact htext
  · rw [PcState.pending, List.take_zero]
    exact List.not_mem_nil

/-! ## Characters -/

/-- What a character should be shown as. -/
def expandChar (c : UInt8) : List UInt16 := if c = 10 then [13, 10] else [c.toUInt16]

/-- A text with every newline replaced by CR LF. -/
def expand (text : List UInt8) : List UInt16 := text.flatMap expandChar

/-- A 7-bit character that is not NUL. -/
def Plain (c : UInt8) : Prop := c ≠ 0 ∧ c < 128

instance (c : UInt8) : Decidable (Plain c) := inferInstanceAs (Decidable (_ ∧ _))

theorem Plain.char16_eq {c : UInt8} (h : Plain c) : char16 c = c.toUInt16 := if_pos h.2

theorem Plain.char16_ne_zero {c : UInt8} (h : Plain c) : char16 c ≠ 0 := by
  rw [h.char16_eq]
  intro hz
  apply h.1
  apply UInt8.toNat_inj.mp
  rw [← UInt8.toNat_toUInt16, hz]
  rfl

/-- One round of the loop.  A newline adds two characters, and finds room for them and the
terminator even in the last place before a flush. -/
theorem putChar_shows {s : PcState} {text : List UInt16} (h : Shows pcbufMax s text) {c : UInt8}
    (hc : Plain c) : ∃ s', putChar s c = some s' ∧ Shows pcbufMax s' (text ++ expandChar c) := by
  have hfull : ∃ s₁ s₂, (if c = 10 then push s 13 else some s) = some s₁ ∧
      push s₁ (char16 c) = some s₂ ∧ Shows (pcbufMax + 2) s₂ (text ++ expandChar c) := by
    by_cases hnl : c = 10
    · subst hnl
      obtain ⟨s₁, h₁, hs₁⟩ := push_shows h (by decide) (show (13 : UInt16) ≠ 0 by decide)
      obtain ⟨s₂, h₂, hs₂⟩ := push_shows hs₁ (by decide) hc.char16_ne_zero
      rw [List.append_assoc] at hs₂
      exact ⟨s₁, s₂, h₁, h₂, hs₂⟩
    · obtain ⟨s₂, h₂, hs₂⟩ := push_shows h (by decide) hc.char16_ne_zero
      refine ⟨s, s₂, if_neg hnl, h₂, ?_⟩
      rw [hc.char16_eq] at hs₂
      rw [expandChar, if_neg hnl]
      exact hs₂.mono (Nat.le_succ _)
  obtain ⟨s₁, s₂, h₁, h₂, hs₂⟩ := hfull
  rw [putChar, h₁, Option.bind_some, h₂, Option.bind_some]
  by_cases hmax : s₂.off ≥ pcbufMax
  · rw [if_pos hmax]
    exact flush_shows hs₂
  · rw [if_neg hmax]
    exact ⟨s₂, rfl, Nat.lt_of_not_ge hmax, hs₂.text_eq, hs₂.nonzero⟩

theorem consoleLoop_shows {cs : List UInt8} (hcs : ∀ c ∈ cs, Plain c) :
    ∀ {s : PcState} {text : List UInt16}, Shows pcbufMax s text →
      ∃ s', consoleLoop s cs = some s' ∧ Shows pcbufMax s' (text ++ expand cs) := by
  induction cs with
  | nil =>
    intro s text h
    refine ⟨s, rfl, ?_⟩
    rw [expand, List.flatMap_nil, List.append_nil]
    exact h
  | cons c cs ih =>
    intro s text h
    obtain ⟨hc, hrest⟩ := List.forall_mem_cons.mp hcs
    obtain ⟨s₁, h₁, hs₁⟩ := putChar_shows h hc
    obtain ⟨s', h', hs'⟩ := ih hrest hs₁
    refine ⟨s', by rw [consoleLoop, h₁, Option.bind_some, h'], ?_⟩
    rw [List.append_assoc] at hs'
    exact hs'

theorem runChunks_shows {chunks : List (List UInt8)}
    (hch : ∀ chunk ∈ chunks, ∀ c ∈ chunk, Plain c) :
    ∀ {s : PcState} {text : List UInt16}, Shows pcbufMax s text →
      ∃ s', runChunks s chunks = some s' ∧
        Shows pcbufMax s' (text ++ expand (chunks.map taken).flatten) := by
  induction chunks with
  | nil =>
    intro s text h
    refine ⟨s, rfl, ?_⟩
    rw [List.map_nil, List.flatten_nil, expand, List.flatMap_nil, List.append_nil]
    exact h
  | cons chunk chunks ih =>
    intro s text h
    obtain ⟨hc, hrest⟩ := List.forall_mem_cons.mp hch
    obtain ⟨s₁, h₁, hs₁⟩ := consoleLoop_shows (fun c hm => hc c (List.mem_of_mem_take hm)) h
    obtain ⟨s', h', hs'⟩ := ih hrest hs₁
    refine ⟨s', ?_, ?_⟩
    · rw [runChunks, printfConsoleOut, taken, h₁, Option.map_some, Option.bind_some, h']
    · rw [List.append_assoc, expand, expand, ← List.flatMap_append] at hs'
      exact hs'

theorem start_shows (buf : Vector UInt16 (pcbufMax + 2)) : Shows pcbufMax (.start buf) [] :=
  ⟨show 0 < pcbufMax by decide, rfl, List.not_mem_nil⟩

/-- All that the loops got to is shown. -/
theorem printf_shows (buf : Vector UInt16 (pcbufMax + 2)) {chunks : List (List UInt8)}
    (hch : ∀ chunk ∈ chunks, ∀ c ∈ chunk, Plain c) :
    ∃ shown, printf buf chunks = some shown ∧
      shown.flatten = expand (chunks.map taken).flatten := by
  obtain ⟨s, hrun, hs⟩ := runChunks_shows hch (start_shows buf)
  rw [List.nil_append] at hs
  rw [printf, hrun, Option.bind_some]
  by_cases h0 : s.off = 0
  · refine ⟨s.shown, if_neg (not_not_intro h0), ?_⟩
    have htext := hs.text_eq
    rwa [PcState.pending, h0, List.take_zero, List.append_nil] at htext
  · obtain ⟨s', hout, htext⟩ := output_shows (hs.mono (Nat.le_add_right _ 2))
    exact ⟨s'.shown, by rw [if_pos h0, hout]; rfl, htext⟩

/-! ## Long chunks -/

theorem taken_eq_iff (chunk : List UInt8) : taken chunk = chunk ↔ chunk.length < 2 ^ 31 := by
  rw [taken, List.take_eq_self_iff]
  have hlt : intOf chunk.length < (2 ^ 32 + 1) / 2 := Int.bmod_lt (by decide)
  constructor
  · intro hle
    omega
  · intro hshort
    have hexact : intOf chunk.length = chunk.length :=
      Int.bmod_eq_of_le (by omega) (by omega)
    omega

theorem expand_append (xs ys : List UInt8) : expand (xs ++ ys) = expand xs ++ expand ys :=
  List.flatMap_append

theorem length_le_expand (text : List UInt8) : text.length ≤ (expand text).length := by
  induction text with
  | nil => exact Nat.le_refl 0
  | cons c text ih =>
    have hone : 1 ≤ (expandChar c).length := by
      unfold expandChar
      split
      · exact Nat.le_succ 1
      · exact Nat.le_refl 1
    rw [expand, List.flatMap_cons, List.length_append, List.length_cons]
    rw [expand] at ih
    omega

theorem length_expand_taken (chunk : List UInt8) :
    (expand (taken chunk)).length + (chunk.length - (taken chunk).length) ≤
      (expand chunk).length := by
  have hsplit := List.take_append_drop (intOf chunk.length).toNat chunk
  have hrest := length_le_expand (chunk.drop (intOf chunk.length).toNat)
  rw [List.length_drop] at hrest
  have hlen := congrArg (fun t => (expand t).length) hsplit
  rw [expand_append, List.length_append] at hlen
  rw [taken, List.length_take]
  omega

/-- Nothing is missing exactly if nothing is left out of any chunk. -/
theorem expand_taken_eq_iff (chunks : List (List UInt8)) :
    expand (chunks.map taken).flatten = expand chunks.flatten ↔
      ∀ chunk ∈ chunks, taken chunk = chunk := by
  have hle : (expand (chunks.map taken).flatten).length ≤ (expand chunks.flatten).length ∧
      ((expand (chunks.map taken).flatten).length = (expand chunks.flatten).length →
        ∀ chunk ∈ chunks, taken chunk = chunk) := by
    induction chunks with
    | nil => exact ⟨Nat.le_refl _, fun _ => by nofun⟩
    | cons chunk chunks ih =>
      have hone := length_expand_taken chunk
      simp only [List.map_cons, List.flatten_cons, expand_append, List.length_append]
      refine ⟨by omega, fun heq => List.forall_mem_cons.mpr ⟨?_, ih.2 (by omega)⟩⟩
      have hprefix : taken chunk <+: chunk := List.take_prefix _ _
      have htaken := hprefix.length_le
      exact hprefix.eq_of_length (by omega)
  constructor
  · intro h
    exact hle.2 (congrArg List.length h)
  · intro h
    rw [List.map_congr_left h, List.map_id']

/-- **Output on the console** stays inside the buffer, with room in it between calls.  All of
the text is shown, however it was cut, exactly if no chunk is longer than an `int` can say. -/
theorem console_lossless_iff (buf : Vector UInt16 (pcbufMax + 2)) {chunks : List (List UInt8)}
    (hch : ∀ chunk ∈ chunks, ∀ c ∈ chunk, Plain c) :
    (∀ k, ∃ s, runChunks (.start buf) (chunks.take k) = some s ∧ s.off < pcbufMax) ∧
    ∃ shown, printf buf chunks = some shown ∧
      (shown.flatten = expand chunks.flatten ↔ ∀ chunk ∈ chunks, chunk.length < 2 ^ 31) := by
  constructor
  · intro k
    obtain ⟨s, hrun, hs⟩ := runChunks_shows (fun chunk hm => hch chunk (List.mem_of_mem_take hm))
      (start_shows buf)
    exact ⟨s, hrun, hs.off_lt⟩
  · obtain ⟨shown, hprintf, htext⟩ := printf_shows buf hch
    refine ⟨shown, hprintf, ?_⟩
    rw [htext, expand_taken_eq_iff]
    exact forall₂_congr fun chunk _ => taken_eq_iff chunk

/-- "Hi", a newline, and "!" in a second chunk. -/
theorem console_lossless_iff_hi :
    (∀ chunk ∈ [[72, 105, 10], [33]], ∀ c ∈ chunk, Plain c) ∧
    ∃ shown, printf (Vector.replicate _ 0) [[72, 105, 10], [33]] = some shown ∧
      shown.flatten = [72, 105, 13, 10, 33] := by
  have hch : ∀ chunk ∈ [[72, 105, 10], [33]], ∀ c ∈ chunk, Plain c := by
    decide +kernel
  obtain ⟨-, shown, hprintf, hiff⟩ := console_lossless_iff (Vector.replicate _ 0) hch
  exact ⟨hch, shown, hprintf, hiff.mpr (by decide)⟩

/-- A chunk of 2 GiB is not shown at all. -/
theorem long_chunk_lost :
    printf (Vector.replicate _ 0) [List.replicate (2 ^ 31) 97] = some [] ∧
    expand [List.replicate (2 ^ 31) 97].flatten ≠ [] := by
  have hneg : (intOf (2 ^ 31)).toNat = 0 := by decide
  have hnone : taken (List.replicate (2 ^ 31) 97) = [] := by
    rw [taken, List.length_replicate, hneg, List.take_zero]
  constructor
  · rw [printf, runChunks, printfConsoleOut, hnone]
    rfl
  · intro hnil
    have hlen := length_le_expand [List.replicate (2 ^ 31) 97].flatten
    rw [hnil, List.flatten_singleton, List.length_replicate] at hlen
    exact absurd hlen (by decide)

end Gigaboot.Console
