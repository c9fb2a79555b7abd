import Gigaboot.Console.Printf
import Gigaboot.Printf.Convert

/-!
# The engine of `printf`

`_printf_engine` of `lk/src/printf.c` with any output function.  A format and the strings
among its arguments are given by their characters up to the terminator.

The engine is an interpreter: it goes through the format one character at a time, either over
text that is passed on as it is or inside a field, whose flags and width it collects until it
gets to the conversion.
-/

namespace Gigaboot.Printf

open Console

/-- An argument: an integer or a pointer in its slot of 64 bits, a string or `NULL`, or the bits
of a `double`. -/
inductive Arg
  | word (n : UInt64)
  | string (s : Option (List UInt8))
  | double (bits : UInt64)
  deriving DecidableEq, Repr

/-- What `%n` stores: where, how many bytes, and the value. -/
structure Store where
  ptr : UInt64
  bytes : Nat
  value : UInt64
  deriving DecidableEq, Repr

/-- An output function: the state after the call and its result.  It fails where it would store
outside a buffer. -/
abbrev Out (σ : Type) := σ → List UInt8 → Option (σ × Int)

/-- The variables of the engine that live from one field to the next. -/
structure Run (σ : Type) where
  state : σ
  ap : List Arg
  charsWritten : UInt64
  stores : List Store

/-- How a piece of the engine ends: it goes on, or goes to `exit` with an error; or it has done
something undefined, that is read an argument that is not there or stored outside a buffer. -/
inductive Outcome (σ α : Type)
  | undefined
  | exit (r : Run σ) (err : Int)
  | next (a : α)

def Outcome.bind {σ α β : Type} (x : Outcome σ α) (f : α → Outcome σ β) : Outcome σ β :=
  match x with
  | .undefined => .undefined
  | .exit r err => .exit r err
  | .next a => f a

def Outcome.ofOption {σ α : Type} : Option α → Outcome σ α
  | none => .undefined
  | some a => .next a

instance {σ : Type} : Monad (Outcome σ) where
  pure := .next
  bind := .bind

section Output

variable {σ : Type} (out : Out σ)

/-- `OUTPUT_STRING`, with the value of `err` after it. -/
def outputString (r : Run σ) (str : List UInt8) : Outcome σ (Run σ × Int) :=
  match out r.state str with
  | none => .undefined
  | some (s, err) =>
    if err < 0 then .exit { r with state := s } err
    else
      .next ({ r with state := s, charsWritten := r.charsWritten + UInt64.ofNat err.toNat }, err)

def outputChar (r : Run σ) (c : UInt8) : Outcome σ (Run σ) := do
  let (r, _) ← outputString out r [c]
  return r

/-- `if (p) OUTPUT_CHAR(c)`. -/
def outputCharIf (r : Run σ) (p : Prop) [Decidable p] (c : UInt8) : Outcome σ (Run σ) :=
  if p then outputChar out r c else .next r

/-- `for (; format_num > n; format_num--) OUTPUT_CHAR(c)`. -/
def padLoop (c : UInt8) (n : Nat) : Nat → Run σ → Outcome σ (Run σ)
  | 0, r => .next r
  | formatNum + 1, r =>
    if formatNum + 1 > n then do
      let r ← outputChar out r c
      padLoop c n formatNum r
    else .next r

/-- The output code that the conversions share, from the label `_output_string` on. -/
def outputField (flags : Flags) (formatNum : UInt32) (signchar : UInt8) (s : List UInt8)
    (r : Run σ) : Outcome σ (Run σ) :=
  if flags.leftformat then do
    let (r, err) ← outputString out r s
    padLoop out 32 err.toNat formatNum.toNat r
  else do
    let formatNum := if signchar ≠ 0 ∧ formatNum > 0 then formatNum - 1 else formatNum
    let r ← outputCharIf out r (flags.leadzero ∧ signchar ≠ 0) signchar
    let r ← padLoop out (if flags.leadzero then 48 else 32) s.length formatNum.toNat r
    let r ← outputCharIf out r (¬ flags.leadzero ∧ signchar ≠ 0) signchar
    let (r, _) ← outputString out r s
    return r

end Output

/-! ## Arguments -/

section Arguments

variable {σ : Type}

def vaWord (r : Run σ) : Outcome σ (Run σ × UInt64) :=
  match r.ap with
  | .word n :: ap => .next ({ r with ap := ap }, n)
  | _ => .undefined

def vaString (r : Run σ) : Outcome σ (Run σ × Option (List UInt8)) :=
  match r.ap with
  | .string s :: ap => .next ({ r with ap := ap }, s)
  | _ => .undefined

def vaDouble (r : Run σ) : Outcome σ (Run σ × UInt64) :=
  match r.ap with
  | .double bits :: ap => .next ({ r with ap := ap }, bits)
  | _ => .undefined

end Arguments

/-- The argument of `%d`, as a `long long`; an `ssize_t` is an `int` here. -/
def signedArg (flags : Flags) (w : UInt64) : UInt64 :=
  if flags.longlong then w
  else if flags.long then w
  else if flags.halfhalf then w.toInt64.toInt8.toInt64.toUInt64
  else if flags.half then w.toInt64.toInt16.toInt64.toUInt64
  else if flags.sizet then w.toInt64.toInt32.toInt64.toUInt64
  else if flags.intmax then w
  else if flags.ptrdiff then w
  else w.toInt64.toInt32.toInt64.toUInt64

/-- The argument of `%u` and of `%x`, as an `unsigned long long`. -/
def unsignedArg (flags : Flags) (w : UInt64) : UInt64 :=
  if flags.longlong then w
  else if flags.long then w
  else if flags.halfhalf then w.toUInt8.toUInt64
  else if flags.half then w.toUInt16.toUInt64
  else if flags.sizet then w
  else if flags.intmax then w
  else if flags.ptrdiff then w
  else w.toUInt32.toUInt64

def storeBytes (flags : Flags) : Nat :=
  if flags.longlong then 8
  else if flags.long then 8
  else if flags.halfhalf then 1
  else if flags.half then 2
  else if flags.sizet then 8
  else 4

/-! ## Fields -/

/-- The format state: `flags` and `format_num`. -/
structure Spec where
  flags : Flags := {}
  formatNum : UInt32 := 0
  deriving DecidableEq, Repr

inductive Conversion
  | percent
  | char
  | string
  | signed
  | unsigned
  | pointer
  | capsHex
  | hex
  | count
  | capsFixed
  | fixed
  | capsHexFloat
  | hexFloat
  /-- a character that the `switch` does not know -/
  | unknown (c : UInt8)
  deriving DecidableEq, Repr

/-- What to do after a character of a field: `goto next_format`, or a conversion. -/
inductive Directive
  | more (sp : Spec)
  | convert (k : Conversion)
  deriving DecidableEq, Repr

def directive (sp : Spec) (c : UInt8) : Directive :=
  let flags := sp.flags
  if 48 ≤ c ∧ c ≤ 57 then
    .more ⟨if c = 48 ∧ sp.formatNum = 0 then { flags with leadzero := true } else flags,
      sp.formatNum * 10 + (c - 48).toUInt32⟩
  else
    match Char.ofNat c.toNat with
    | '.' => .more sp
    | '%' => .convert .percent
    | 'c' => .convert .char
    | 's' => .convert .string
    | '-' => .more { sp with flags := { flags with leftformat := true } }
    | '+' => .more { sp with flags := { flags with showsign := true } }
    | ' ' => .more { sp with flags := { flags with blankpos := true } }
    | '#' => .more { sp with flags := { flags with alt := true } }
    | 'l' =>
      .more { sp with flags :=
        { flags with long := true, longlong := flags.longlong || flags.long } }
    | 'h' =>
      .more { sp with flags :=
        { flags with half := true, halfhalf := flags.halfhalf || flags.half } }
    | 'z' => .more { sp with flags := { flags with sizet := true } }
    | 'j' => .more { sp with flags := { flags with intmax := true } }
    | 't' => .more { sp with flags := { flags with ptrdiff := true } }
    | 'i' => .convert .signed
    | 'd' => .convert .signed
    | 'u' => .convert .unsigned
    | 'p' => .convert .pointer
    | 'X' => .convert .capsHex
    | 'x' => .convert .hex
    | 'n' => .convert .count
    | 'F' => .convert .capsFixed
    | 'f' => .convert .fixed
    | 'A' => .convert .capsHexFloat
    | 'a' => .convert .hexFloat
    | _ => .convert (.unknown c)

def nullText : List UInt8 := bytesOf "<null>"

section Engine

variable {σ : Type} (out : Out σ)

/-- The label `hex`. -/
def outputHex (flags : Flags) (formatNum : UInt32) (r : Run σ) : Outcome σ (Run σ) := do
  let (r, w) ← vaWord r
  let s ← .ofOption (longlongToHexstring (unsignedArg flags w) numBufferSize flags)
  let r ← outputCharIf out r flags.alt 48
  let r ← outputCharIf out r flags.alt (if flags.caps then 88 else 120)
  outputField out flags formatNum 0 s r

/-- One conversion of the `switch`, up to `continue`. -/
def convert (sp : Spec) (r : Run σ) : Conversion → Outcome σ (Run σ)
  | .percent => outputChar out r 37
  | .char => do
    let (r, w) ← vaWord r
    outputChar out r w.toUInt8
  | .string => do
    let (r, s) ← vaString r
    -- leading zeros do not make sense for strings
    outputField out { sp.flags with leadzero := false } sp.formatNum 0 (s.getD nullText) r
  | .signed => do
    let (r, w) ← vaWord r
    let flags := { sp.flags with signed := true }
    let (s, signchar) ← .ofOption (longlongToString (signedArg flags w) numBufferSize flags)
    outputField out flags sp.formatNum signchar s r
  | .unsigned => do
    let (r, w) ← vaWord r
    let (s, signchar) ←
      .ofOption (longlongToString (unsignedArg sp.flags w) numBufferSize sp.flags)
    outputField out sp.flags sp.formatNum signchar s r
  | .pointer => outputHex out { sp.flags with long := true, alt := true } sp.formatNum r
  | .capsHex => outputHex out { sp.flags with caps := true } sp.formatNum r
  | .hex => outputHex out sp.flags sp.formatNum r
  | .count => do
    let (r, ptr) ← vaWord r
    return { r with stores := r.stores ++ [⟨ptr, storeBytes sp.flags, r.charsWritten⟩] }
  | .capsFixed => do
    let (r, d) ← vaDouble r
    let flags := { sp.flags with caps := true }
    let s ← .ofOption (doubleToString d flags)
    outputField out flags sp.formatNum 0 s r
  | .fixed => do
    let (r, d) ← vaDouble r
    let s ← .ofOption (doubleToString d sp.flags)
    outputField out sp.flags sp.formatNum 0 s r
  | .capsHexFloat => do
    let (r, d) ← vaDouble r
    let flags := { sp.flags with caps := true }
    outputField out flags sp.formatNum 0 (doubleToHexstring d flags) r
  | .hexFloat => do
    let (r, d) ← vaDouble r
    outputField out sp.flags sp.formatNum 0 (doubleToHexstring d sp.flags) r
  | .unknown c => do
    let r ← outputChar out r 37
    outputChar out r c

/-- Where the engine is in the format: in regular characters, of which it has seen these, or in
a field. -/
inductive Mode
  | text (seen : List UInt8)
  | field (sp : Spec)

/-- The loop over the format. -/
def engineLoop : List UInt8 → Mode → Run σ → Outcome σ (Run σ)
  | [], .text seen, r => do
    let (r, _) ← outputString out r seen
    return r
  | [], .field _, r => .next r
  | c :: fmt, .text seen, r =>
    if c = 37 then do
      let (r, _) ← outputString out r seen
      engineLoop fmt (.field {}) r
    else engineLoop fmt (.text (seen ++ [c])) r
  | c :: fmt, .field sp, r =>
    match directive sp c with
    | .more sp => engineLoop fmt (.field sp) r
    | .convert k => do
      let r ← convert out sp r k
      engineLoop fmt (.text []) r

/-- The end of a call: the state of the output function, the result, and what `%n` stored. -/
structure Printed (σ : Type) where
  state : σ
  ret : Int
  stores : List Store

def printfEngine (state : σ) (fmt : List UInt8) (ap : List Arg) : Option (Printed σ) :=
  match engineLoop out fmt (.text []) ⟨state, ap, 0, []⟩ with
  | .undefined => none
  | .exit r err => some ⟨r.state, err, r.stores⟩
  | .next r => some ⟨r.state, intOf r.charsWritten.toNat, r.stores⟩

end Engine

end Gigaboot.Printf
