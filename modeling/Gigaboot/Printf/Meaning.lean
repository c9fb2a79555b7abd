import Gigaboot.Printf.Engine

/-!
# The meaning of a format

What a format prints for its arguments, as one text that is put together field by field, with
no output function.  The engine hands this text over in pieces.

* `padLoop_tells`, `outputField_tells`, `convert_tells`: what the pieces of the engine hand over;
* `engineLoop_tells`: all that the engine hands over is the meaning of the format;
* `engineLoop_mirrors`: every output function that takes what it is given gets the same pieces;
* `printfEngine_meaning`: both together.
-/

namespace Gigaboot.Printf

open Console Digits

/-! ## Fields -/

/-- The text of a field: `s` with its sign, in at least `width` places.  A field that is justified
to the left is printed without its sign. -/
def fieldText (flags : Flags) (width : Nat) (sign s : List UInt8) : List UInt8 :=
  if flags.leftformat then s ++ List.replicate (width - s.length) 32
  else if flags.leadzero then
    sign ++ List.replicate (width - sign.length - s.length) 48 ++ s
  else List.replicate (width - sign.length - s.length) 32 ++ sign ++ s

def signOf (signchar : UInt8) : List UInt8 := if signchar ≠ 0 then [signchar] else []

def decimalText (flags : Flags) (width : Nat) (n : UInt64) : List UInt8 :=
  fieldText flags width (signOf (signcharOf flags n)) (digits byte 10 (magnitude flags n))

/-- A hexadecimal number, with `0x` before the field. -/
def hexText (flags : Flags) (width : Nat) (n : UInt64) : List UInt8 :=
  (if flags.alt then [48, if flags.caps then 88 else 120] else []) ++
    fieldText flags width [] (digits (hexByte flags) 16 n.toNat)

/-! ## Formats -/

/-- What was printed, the arguments that are left, and what was stored for `%n`. -/
structure Meaning where
  text : List UInt8
  ap : List Arg
  stores : List Store
  deriving DecidableEq, Repr

namespace Meaning

def add (m : Meaning) (s : List UInt8) : Meaning := { m with text := m.text ++ s }

/-- Go on with the next argument, if it is an integer or a pointer. -/
def withWord (m : Meaning) (f : UInt64 → Meaning → Option Meaning) : Option Meaning :=
  match m.ap with
  | .word w :: ap => f w { m with ap := ap }
  | _ => none

def withString (m : Meaning) (f : Option (List UInt8) → Meaning → Option Meaning) :
    Option Meaning :=
  match m.ap with
  | .string s :: ap => f s { m with ap := ap }
  | _ => none

def withDouble (m : Meaning) (f : UInt64 → Meaning → Option Meaning) : Option Meaning :=
  match m.ap with
  | .double bits :: ap => f bits { m with ap := ap }
  | _ => none

def hex (m : Meaning) (flags : Flags) (width : Nat) : Option Meaning :=
  m.withWord fun w m => some (m.add (hexText flags width (unsignedArg flags w)))

def double (m : Meaning) (flags : Flags) (width : Nat)
    (toText : UInt64 → Flags → Option (List UInt8)) : Option Meaning :=
  m.withDouble fun d m => (toText d flags).map fun s => m.add (fieldText flags width [] s)

/-- A field with the conversion `k`. -/
def convert (m : Meaning) (sp : Spec) : Conversion → Option Meaning
  | .percent => some (m.add [37])
  | .char => m.withWord fun w m => some (m.add [w.toUInt8])
  | .string => m.withString fun s m =>
    some (m.add (fieldText { sp.flags with leadzero := false } sp.formatNum.toNat []
      (s.getD nullText)))
  | .signed => m.withWord fun w m =>
    let flags := { sp.flags with signed := true }
    some (m.add (decimalText flags sp.formatNum.toNat (signedArg flags w)))
  | .unsigned => m.withWord fun w m =>
    some (m.add (decimalText sp.flags sp.formatNum.toNat (unsignedArg sp.flags w)))
  | .pointer => m.hex { sp.flags with long := true, alt := true } sp.formatNum.toNat
  | .capsHex => m.hex { sp.flags with caps := true } sp.formatNum.toNat
  | .hex => m.hex sp.flags sp.formatNum.toNat
  | .count => m.withWord fun ptr m =>
    some { m with stores :=
      m.stores ++ [⟨ptr, storeBytes sp.flags, UInt64.ofNat m.text.length⟩] }
  | .capsFixed => m.double { sp.flags with caps := true } sp.formatNum.toNat doubleToString
  | .fixed => m.double sp.flags sp.formatNum.toNat doubleToString
  | .capsHexFloat =>
    m.double { sp.flags with caps := true } sp.formatNum.toNat fun d f =>
      some (doubleToHexstring d f)
  | .hexFloat =>
    m.double sp.flags sp.formatNum.toNat fun d f => some (doubleToHexstring d f)
  | .unknown c => some (m.add [37, c])

/-- Go through a format; `sp` is there inside a field. -/
def loop : List UInt8 → Option Spec → Meaning → Option Meaning
  | [], _, m => some m
  | c :: fmt, none, m => if c = 37 then loop fmt (some {}) m else loop fmt none (m.add [c])
  | c :: fmt, some sp, m =>
    match directive sp c with
    | .more sp => loop fmt (some sp) m
    | .convert k => (m.convert sp k).bind (loop fmt none)

end Meaning

/-- What a format means for these arguments; nothing if they do not fit it. -/
def meaning (fmt : List UInt8) (ap : List Arg) : Option Meaning :=
  Meaning.loop fmt none ⟨[], ap, []⟩

/-! ## The pieces -/

/-- The output function that writes down what it is given. -/
def tally : Out (List (List UInt8)) := fun pieces str => some (pieces ++ [str], str.length)

/-- The engine has handed over the text of `m`. -/
structure Tells (r : Run (List (List UInt8))) (m : Meaning) : Prop where
  text : r.state.flatten = m.text
  ap : r.ap = m.ap
  charsWritten : r.charsWritten = UInt64.ofNat m.text.length
  stores : r.stores = m.stores

@[simp] theorem Outcome.next_bind {σ α β : Type} (a : α) (f : α → Outcome σ β) :
    (Outcome.next a).bind f = f a := rfl

@[simp] theorem Outcome.bind_eq {σ α β : Type} (x : Outcome σ α) (f : α → Outcome σ β) :
    x >>= f = x.bind f := rfl

@[simp] theorem Outcome.pure_eq {σ α : Type} (a : α) : (pure a : Outcome σ α) = .next a := rfl

theorem Meaning.add_add (m : Meaning) (s t : List UInt8) : (m.add s).add t = m.add (s ++ t) := by
  simp [Meaning.add]

theorem Meaning.add_nil (m : Meaning) : m.add [] = m := by
  simp [Meaning.add]

section Tally

variable {r : Run (List (List UInt8))} {m : Meaning}

theorem outputString_tells (h : Tells r m) (str : List UInt8) :
    ∃ r', outputString tally r str = .next (r', str.length) ∧ Tells r' (m.add str) := by
  have hpos : ¬ (str.length : Int) < 0 := Int.not_lt.mpr (Int.natCast_nonneg _)
  refine ⟨⟨r.state ++ [str], r.ap, r.charsWritten + UInt64.ofNat str.length, r.stores⟩,
    by simp only [outputString, tally, if_neg hpos, Int.toNat_natCast], ?_, h.ap, ?_, h.stores⟩
  · rw [List.flatten_append, List.flatten_singleton, h.text]
    rfl
  · dsimp only
    rw [h.charsWritten, ← UInt64.ofNat_add, ← List.length_append]
    rfl

theorem outputChar_tells (h : Tells r m) (c : UInt8) :
    ∃ r', outputChar tally r c = .next r' ∧ Tells r' (m.add [c]) := by
  obtain ⟨r', hout, hr'⟩ := outputString_tells h [c]
  exact ⟨r', by simp [outputChar, hout], hr'⟩

theorem outputCharIf_tells (h : Tells r m) (c : UInt8) (p : Prop) [Decidable p] :
    ∃ r', outputCharIf tally r p c = .next r' ∧
      Tells r' (m.add (if p then [c] else [])) := by
  unfold outputCharIf
  by_cases hp : p
  · rw [if_pos hp, if_pos hp]
    exact outputChar_tells h c
  · rw [if_neg hp, if_neg hp, m.add_nil]
    exact ⟨r, rfl, h⟩

/-- The loop prints as many characters as there are places left. -/
theorem padLoop_tells (c : UInt8) (n formatNum : Nat) :
    ∀ {r : Run (List (List UInt8))} {m : Meaning}, Tells r m →
      ∃ r', padLoop tally c n formatNum r = .next r' ∧
        Tells r' (m.add (List.replicate (formatNum - n) c)) := by
  induction formatNum with
  | zero =>
    intro r m h
    rw [Nat.zero_sub, List.replicate_zero, m.add_nil]
    exact ⟨r, rfl, h⟩
  | succ k ih =>
    intro r m h
    rw [padLoop]
    by_cases hn : k + 1 > n
    · obtain ⟨r₁, h₁, hr₁⟩ := outputChar_tells h c
      obtain ⟨r', h', hr'⟩ := ih hr₁
      have hk : k + 1 - n = (k - n) + 1 := by omega
      refine ⟨r', by rw [if_pos hn]; simp [h₁, h'], ?_⟩
      rw [m.add_add] at hr'
      rwa [hk, List.replicate_succ]
    · have hk : k + 1 - n = 0 := by omega
      rw [if_neg hn, hk, List.replicate_zero, m.add_nil]
      exact ⟨r, rfl, h⟩

theorem formatNum_sign (formatNum : UInt32) (signchar : UInt8) :
    (if signchar ≠ 0 ∧ formatNum > 0 then formatNum - 1 else formatNum).toNat =
      formatNum.toNat - (signOf signchar).length := by
  unfold signOf
  by_cases hs : signchar ≠ 0
  · by_cases hf : formatNum > 0
    · have hle : (1 : UInt32) ≤ formatNum := by
        rw [UInt32.le_iff_toNat_le]
        exact UInt32.lt_iff_toNat_lt.mp hf
      rw [if_pos ⟨hs, hf⟩, if_pos hs, UInt32.toNat_sub_of_le _ _ hle]
      rfl
    · have hz : formatNum.toNat = 0 := by
        have h0 : ¬ (0 : UInt32).toNat < formatNum.toNat := fun h =>
          hf (UInt32.lt_iff_toNat_lt.mpr h)
        exact Nat.eq_zero_of_not_pos h0
      rw [if_neg (fun h => hf h.2), hz, Nat.zero_sub]
  · rw [if_neg (fun h => hs h.1), if_neg hs]
    rfl

theorem outputField_tells (h : Tells r m) (flags : Flags) (formatNum : UInt32) (signchar : UInt8)
    (s : List UInt8) :
    ∃ r', outputField tally flags formatNum signchar s r = .next r' ∧
      Tells r' (m.add (fieldText flags formatNum.toNat (signOf signchar) s)) := by
  unfold outputField fieldText
  by_cases hleft : flags.leftformat = true
  · obtain ⟨r₁, h₁, hr₁⟩ := outputString_tells h s
    obtain ⟨r', h', hr'⟩ := padLoop_tells 32 s.length formatNum.toNat hr₁
    rw [m.add_add] at hr'
    rw [if_pos hleft, if_pos hleft]
    exact ⟨r', by simp [h₁, h'], hr'⟩
  · obtain ⟨r₁, h₁, hr₁⟩ := outputCharIf_tells h signchar (flags.leadzero = true ∧ signchar ≠ 0)
    obtain ⟨r₂, h₂, hr₂⟩ := padLoop_tells (if flags.leadzero then 48 else 32) s.length
      (formatNum.toNat - (signOf signchar).length) hr₁
    obtain ⟨r₃, h₃, hr₃⟩ := outputCharIf_tells hr₂ signchar (¬ flags.leadzero = true ∧ signchar ≠ 0)
    obtain ⟨r', h', hr'⟩ := outputString_tells hr₃ s
    rw [if_neg hleft, if_neg hleft]
    refine ⟨r', by simp only [Outcome.bind_eq, formatNum_sign, h₁, h₂, h₃, h', Outcome.next_bind,
      Outcome.pure_eq], ?_⟩
    simp only [m.add_add] at hr'
    unfold signOf at hr' ⊢
    by_cases hzero : flags.leadzero = true
    · simpa [hzero] using hr'
    · simpa [hzero] using hr'

theorem vaWord_tells (h : Tells r m) {f : UInt64 → Meaning → Option Meaning} {m' : Meaning}
    (hm : m.withWord f = some m') :
    ∃ r₁ w m₁, vaWord r = .next (r₁, w) ∧ Tells r₁ m₁ ∧ f w m₁ = some m' := by
  unfold Meaning.withWord at hm
  split at hm
  · rename_i w ap hap
    refine ⟨{ r with ap := ap }, w, { m with ap := ap }, ?_,
      ⟨h.text, rfl, h.charsWritten, h.stores⟩, hm⟩
    rw [vaWord, h.ap, hap]
  · cases hm

theorem vaString_tells (h : Tells r m) {f : Option (List UInt8) → Meaning → Option Meaning}
    {m' : Meaning} (hm : m.withString f = some m') :
    ∃ r₁ s m₁, vaString r = .next (r₁, s) ∧ Tells r₁ m₁ ∧ f s m₁ = some m' := by
  unfold Meaning.withString at hm
  split at hm
  · rename_i s ap hap
    refine ⟨{ r with ap := ap }, s, { m with ap := ap }, ?_,
      ⟨h.text, rfl, h.charsWritten, h.stores⟩, hm⟩
    rw [vaString, h.ap, hap]
  · cases hm

theorem vaDouble_tells (h : Tells r m) {f : UInt64 → Meaning → Option Meaning} {m' : Meaning}
    (hm : m.withDouble f = some m') :
    ∃ r₁ d m₁, vaDouble r = .next (r₁, d) ∧ Tells r₁ m₁ ∧ f d m₁ = some m' := by
  unfold Meaning.withDouble at hm
  split at hm
  · rename_i d ap hap
    refine ⟨{ r with ap := ap }, d, { m with ap := ap }, ?_,
      ⟨h.text, rfl, h.charsWritten, h.stores⟩, hm⟩
    rw [vaDouble, h.ap, hap]
  · cases hm

theorem outputHex_tells (h : Tells r m) {flags : Flags} {formatNum : UInt32} {m' : Meaning}
    (hm : m.hex flags formatNum.toNat = some m') :
    ∃ r', outputHex tally flags formatNum r = .next r' ∧ Tells r' m' := by
  obtain ⟨r₁, w, m₁, h₁, hr₁, hm₁⟩ := vaWord_tells h hm
  obtain ⟨r₂, h₂, hr₂⟩ := outputCharIf_tells hr₁ 48 (flags.alt = true)
  obtain ⟨r₃, h₃, hr₃⟩ := outputCharIf_tells hr₂ (if flags.caps then 88 else 120) (flags.alt = true)
  obtain ⟨r', h', hr'⟩ := outputField_tells hr₃ flags formatNum 0
    (digits (hexByte flags) 16 (unsignedArg flags w).toNat)
  refine ⟨r', ?_, ?_⟩
  · simp only [outputHex, Outcome.bind_eq, h₁, Outcome.next_bind,
      longlongToHexstring_eq _ (show 17 ≤ numBufferSize by decide), Outcome.ofOption, h₂, h₃, h']
  · obtain rfl := Option.some.inj hm₁
    rw [m₁.add_add, m₁.add_add] at hr'
    unfold hexText
    by_cases halt : flags.alt = true
    · simpa [halt, signOf] using hr'
    · simpa [halt, signOf] using hr'

theorem outputDouble_tells (h : Tells r m) {flags : Flags} {formatNum : UInt32} {m' : Meaning}
    {toText : UInt64 → Flags → Option (List UInt8)}
    (hm : m.double flags formatNum.toNat toText = some m') :
    ∃ r₁ d s r', vaDouble r = .next (r₁, d) ∧ toText d flags = some s ∧
      outputField tally flags formatNum 0 s r₁ = .next r' ∧ Tells r' m' := by
  obtain ⟨r₁, d, m₁, h₁, hr₁, hm₁⟩ := vaDouble_tells h hm
  obtain ⟨s, hs, rfl⟩ := Option.map_eq_some_iff.mp hm₁
  obtain ⟨r', h', hr'⟩ := outputField_tells hr₁ flags formatNum 0 s
  exact ⟨r₁, d, s, r', h₁, hs, h', hr'⟩

theorem convert_tells (h : Tells r m) {sp : Spec} {k : Conversion} {m' : Meaning}
    (hm : m.convert sp k = some m') :
    ∃ r', convert tally sp r k = .next r' ∧ Tells r' m' := by
  cases k with
  | percent =>
    obtain rfl := Option.some.inj hm
    exact outputChar_tells h 37
  | char =>
    rw [Meaning.convert] at hm
    obtain ⟨r₁, w, m₁, h₁, hr₁, hm₁⟩ := vaWord_tells h hm
    obtain rfl := Option.some.inj hm₁
    obtain ⟨r', h', hr'⟩ := outputChar_tells hr₁ w.toUInt8
    exact ⟨r', by simp [convert, h₁, h'], hr'⟩
  | string =>
    rw [Meaning.convert] at hm
    obtain ⟨r₁, s, m₁, h₁, hr₁, hm₁⟩ := vaString_tells h hm
    obtain rfl := Option.some.inj hm₁
    obtain ⟨r', h', hr'⟩ := outputField_tells hr₁ { sp.flags with leadzero := false } sp.formatNum 0
      (s.getD nullText)
    exact ⟨r', by simp [convert, h₁, h'], hr'⟩
  | signed =>
    rw [Meaning.convert] at hm
    obtain ⟨r₁, w, m₁, h₁, hr₁, hm₁⟩ := vaWord_tells h hm
    obtain rfl := Option.some.inj hm₁
    obtain ⟨r', h', hr'⟩ := outputField_tells hr₁ { sp.flags with signed := true } sp.formatNum
      (signcharOf { sp.flags with signed := true } (signedArg { sp.flags with signed := true } w))
      (digits byte 10 (magnitude { sp.flags with signed := true }
        (signedArg { sp.flags with signed := true } w)))
    refine ⟨r', ?_, hr'⟩
    simp only [convert, Outcome.bind_eq, h₁, Outcome.next_bind,
      longlongToString_eq _ (show 21 ≤ numBufferSize by decide), Outcome.ofOption, h']
  | unsigned =>
    rw [Meaning.convert] at hm
    obtain ⟨r₁, w, m₁, h₁, hr₁, hm₁⟩ := vaWord_tells h hm
    obtain rfl := Option.some.inj hm₁
    obtain ⟨r', h', hr'⟩ := outputField_tells hr₁ sp.flags sp.formatNum
      (signcharOf sp.flags (unsignedArg sp.flags w))
      (digits byte 10 (magnitude sp.flags (unsignedArg sp.flags w)))
    refine ⟨r', ?_, hr'⟩
    simp only [convert, Outcome.bind_eq, h₁, Outcome.next_bind,
      longlongToString_eq _ (show 21 ≤ numBufferSize by decide), Outcome.ofOption, h']
  | pointer => exact outputHex_tells h hm
  | capsHex => exact outputHex_tells h hm
  | hex => exact outputHex_tells h hm
  | count =>
    rw [Meaning.convert] at hm
    obtain ⟨r₁, w, m₁, h₁, hr₁, hm₁⟩ := vaWord_tells h hm
    obtain rfl := Option.some.inj hm₁
    refine ⟨{ r₁ with stores := r₁.stores ++ [⟨w, storeBytes sp.flags, r₁.charsWritten⟩] },
      by simp [convert, h₁], hr₁.text, hr₁.ap, hr₁.charsWritten, ?_⟩
    dsimp only
    rw [hr₁.stores, hr₁.charsWritten]
  | capsFixed =>
    rw [Meaning.convert] at hm
    obtain ⟨r₁, d, s, r', h₁, hs, h', hr'⟩ := outputDouble_tells h hm
    exact ⟨r', by simp [convert, h₁, hs, Outcome.ofOption, h'], hr'⟩
  | fixed =>
    rw [Meaning.convert] at hm
    obtain ⟨r₁, d, s, r', h₁, hs, h', hr'⟩ := outputDouble_tells h hm
    exact ⟨r', by simp [convert, h₁, hs, Outcome.ofOption, h'], hr'⟩
  | capsHexFloat =>
    rw [Meaning.convert] at hm
    obtain ⟨r₁, d, s, r', h₁, hs, h', hr'⟩ := outputDouble_tells h hm
    obtain rfl := Option.some.inj hs
    exact ⟨r', by simp [convert, h₁, h'], hr'⟩
  | hexFloat =>
    rw [Meaning.convert] at hm
    obtain ⟨r₁, d, s, r', h₁, hs, h', hr'⟩ := outputDouble_tells h hm
    obtain rfl := Option.some.inj hs
    exact ⟨r', by simp [convert, h₁, h'], hr'⟩
  | unknown c =>
    obtain rfl := Option.some.inj hm
    obtain ⟨r₁, h₁, hr₁⟩ := outputChar_tells h 37
    obtain ⟨r', h', hr'⟩ := outputChar_tells hr₁ c
    rw [m.add_add] at hr'
    exact ⟨r', by simp [convert, h₁, h'], hr'⟩

end Tally

/-- Where the loop is, and what it has yet to hand over. -/
def Mode.seen : Mode → List UInt8
  | .text seen => seen
  | .field _ => []

def Mode.spec : Mode → Option Spec
  | .text _ => none
  | .field sp => some sp

/-- The whole loop.  Regular characters are handed over when they end; until then the meaning is
ahead by those that were seen. -/
theorem engineLoop_tells (fmt : List UInt8) : ∀ (mode : Mode) {r : Run (List (List UInt8))}
    {m m' : Meaning}, Tells r m → Meaning.loop fmt mode.spec (m.add mode.seen) = some m' →
      ∃ r', engineLoop tally fmt mode r = .next r' ∧ Tells r' m' := by
  induction fmt with
  | nil =>
    intro mode r m m' h hm
    obtain rfl := Option.some.inj hm
    cases mode with
    | text seen =>
      obtain ⟨r', h', hr'⟩ := outputString_tells h seen
      exact ⟨r', by simp [engineLoop, h'], hr'⟩
    | field sp =>
      rw [Mode.seen, m.add_nil]
      exact ⟨r, rfl, h⟩
  | cons c fmt ih =>
    intro mode r m m' h hm
    cases mode with
    | text seen =>
      rw [Mode.spec, Meaning.loop] at hm
      rw [engineLoop]
      by_cases hc : c = 37
      · rw [if_pos hc] at hm
        obtain ⟨r₁, h₁, hr₁⟩ := outputString_tells h seen
        rw [← Meaning.add_nil (m.add (Mode.text seen).seen)] at hm
        obtain ⟨r', h', hr'⟩ := ih (.field {}) hr₁ hm
        exact ⟨r', by simp [if_pos hc, h₁, h'], hr'⟩
      · rw [if_neg hc, m.add_add] at hm
        rw [if_neg hc]
        exact ih (.text (seen ++ [c])) h hm
    | field sp =>
      rw [Mode.spec, Mode.seen, m.add_nil, Meaning.loop] at hm
      rw [engineLoop]
      cases hd : directive sp c with
      | more sp' =>
        rw [hd] at hm
        rw [← m.add_nil] at hm
        exact ih (.field sp') h hm
      | convert k =>
        rw [hd] at hm
        obtain ⟨m₁, hm₁, hloop⟩ := Option.bind_eq_some_iff.mp hm
        obtain ⟨r₁, h₁, hr₁⟩ := convert_tells h hm₁
        rw [← m₁.add_nil] at hloop
        obtain ⟨r', h', hr'⟩ := ih (.text []) hr₁ hloop
        exact ⟨r', by simp [h₁, h'], hr'⟩

/-! ## Formats piece by piece -/

/-- The state after characters of a field that are not its conversion. -/
def modify (sp : Spec) : List UInt8 → Option Spec
  | [] => some sp
  | c :: cs =>
    match directive sp c with
    | .more sp => modify sp cs
    | .convert _ => none

theorem loop_modify {sp' : Spec} (cs : List UInt8) : ∀ {sp : Spec}, modify sp cs = some sp' →
    ∀ (rest : List UInt8) (m : Meaning),
      Meaning.loop (cs ++ rest) (some sp) m = Meaning.loop rest (some sp') m := by
  induction cs with
  | nil =>
    intro sp h rest m
    obtain rfl := Option.some.inj h
    rfl
  | cons c cs ih =>
    intro sp h rest m
    rw [modify] at h
    rw [List.cons_append, Meaning.loop]
    cases hd : directive sp c with
    | more sp₁ =>
      rw [hd] at h
      exact ih h rest m
    | convert k =>
      rw [hd] at h
      cases h

/-- A field with its modifiers and its conversion. -/
theorem loop_field {mods : List UInt8} {sp : Spec} {c : UInt8} {k : Conversion}
    (hmods : modify {} mods = some sp) (hc : directive sp c = .convert k) (rest : List UInt8)
    (m : Meaning) :
    Meaning.loop (37 :: mods ++ c :: rest) none m =
      (m.convert sp k).bind (Meaning.loop rest none) := by
  rw [List.cons_append, Meaning.loop, if_pos rfl, loop_modify mods hmods, Meaning.loop, hc]

theorem loop_plain {s : List UInt8} (h : 37 ∉ s) (rest : List UInt8) : ∀ m : Meaning,
    Meaning.loop (s ++ rest) none m = Meaning.loop rest none (m.add s) := by
  induction s with
  | nil => exact fun m => by rw [List.nil_append, m.add_nil]
  | cons c s ih =>
    intro m
    obtain ⟨hc, hs⟩ := not_or.mp fun hmem => h (List.mem_cons.mpr hmem)
    rw [List.cons_append, Meaning.loop, if_neg fun he => hc he.symm, ih hs, m.add_add,
      List.singleton_append]

/-- A field in which the argument `a` is printed as `s`. -/
def Converts (sp : Spec) (k : Conversion) (a : Arg) (s : List UInt8) : Prop :=
  ∀ t ap, Meaning.convert ⟨t, a :: ap, []⟩ sp k = some ⟨t ++ s, ap, []⟩

theorem converts_hex (sp : Spec) (w : UInt64) :
    Converts sp .hex (.word w)
      (hexText sp.flags sp.formatNum.toNat (unsignedArg sp.flags w)) := fun _ _ => rfl

theorem converts_string (s : List UInt8) : Converts {} .string (.string (some s)) s := by
  intro t ap
  have hfield : fieldText {} 0 [] s = s := by simp [fieldText]
  show some (Meaning.add _ (fieldText {} 0 [] s)) = _
  rw [hfield]
  rfl

section Converted

variable {mods : List UInt8} {sp : Spec} {c : UInt8} {k : Conversion} {a : Arg} {s : List UInt8}

theorem loop_converted (hmods : modify {} mods = some sp) (hc : directive sp c = .convert k)
    (h : Converts sp k a s) (rest t : List UInt8) (ap : List Arg) :
    Meaning.loop (37 :: mods ++ c :: rest) none ⟨t, a :: ap, []⟩ =
      Meaning.loop rest none ⟨t ++ s, ap, []⟩ := by
  rw [loop_field hmods hc, h, Option.bind_some]

theorem meaning_converted (hmods : modify {} mods = some sp) (hc : directive sp c = .convert k)
    (h : Converts sp k a s) {before after : List UInt8} (hbefore : 37 ∉ before)
    (hafter : 37 ∉ after) :
    meaning (before ++ (37 :: mods ++ c :: after)) [a] = some ⟨before ++ s ++ after, [], []⟩ := by
  rw [meaning, loop_plain hbefore, Meaning.add, List.nil_append, loop_converted hmods hc h,
    ← List.append_nil after, loop_plain hafter, List.append_nil]
  rfl

end Converted

/-! ## Any output function -/

/-- Hand the pieces over one after the other, as long as each is taken in full. -/
def feed {σ : Type} (out : Out σ) : σ → List (List UInt8) → Option σ
  | s, [] => some s
  | s, str :: pieces =>
    match out s str with
    | none => none
    | some (s', err) => if err = str.length then feed out s' pieces else none

theorem feed_append_singleton {σ : Type} {out : Out σ} {str : List UInt8}
    (pieces : List (List UInt8)) : ∀ {s s' : σ}, feed out s (pieces ++ [str]) = some s' →
      ∃ s₁, feed out s pieces = some s₁ ∧ out s₁ str = some (s', (str.length : Int)) := by
  induction pieces with
  | nil =>
    intro s s' h
    rw [List.nil_append, feed] at h
    cases hout : out s str with
    | none =>
      rw [hout] at h
      cases h
    | some x =>
      obtain ⟨s₁, err⟩ := x
      rw [hout] at h
      dsimp only at h
      by_cases herr : err = str.length
      · rw [if_pos herr, feed] at h
        obtain rfl := Option.some.inj h
        exact ⟨s, rfl, by rw [hout, herr]⟩
      · rw [if_neg herr] at h
        cases h
  | cons p pieces ih =>
    intro s s' h
    rw [List.cons_append, feed] at h
    rw [feed]
    cases hout : out s p with
    | none =>
      rw [hout] at h
      cases h
    | some x =>
      obtain ⟨s₁, err⟩ := x
      rw [hout] at h
      dsimp only at h ⊢
      by_cases herr : err = p.length
      · rw [if_pos herr] at h ⊢
        exact ih h
      · rw [if_neg herr] at h
        cases h

/-- The variables of the engine with another state of the output function. -/
def Run.at {σ τ : Type} (r : Run σ) (s : τ) : Run τ := ⟨s, r.ap, r.charsWritten, r.stores⟩

section Mirrors

variable {σ : Type} (out : Out σ) (s₀ : σ)

/-- Where `P` goes on after it was written down what it hands over, `P'` goes on with the output
function `out`, if that takes it all. -/
def Mirrors {β : Type}
    (P : Run (List (List UInt8)) → Outcome (List (List UInt8)) (Run (List (List UInt8)) × β))
    (P' : Run σ → Outcome σ (Run σ × β)) : Prop :=
  ∀ ⦃r rr : Run (List (List UInt8))⦄ ⦃b : β⦄ ⦃s' : σ⦄, P r = .next (rr, b) →
    feed out s₀ rr.state = some s' →
      ∃ s, feed out s₀ r.state = some s ∧ P' (r.at s) = .next (rr.at s', b)

/-- The same without a value. -/
def MirrorsRun
    (P : Run (List (List UInt8)) → Outcome (List (List UInt8)) (Run (List (List UInt8))))
    (P' : Run σ → Outcome σ (Run σ)) : Prop :=
  ∀ ⦃r rr : Run (List (List UInt8))⦄ ⦃s' : σ⦄, P r = .next rr →
    feed out s₀ rr.state = some s' →
      ∃ s, feed out s₀ r.state = some s ∧ P' (r.at s) = .next (rr.at s')

theorem Outcome.bind_eq_next {σ α β : Type} {x : Outcome σ α} {f : α → Outcome σ β} {b : β}
    (h : x.bind f = .next b) : ∃ a, x = .next a ∧ f a = .next b := by
  cases x with
  | undefined => cases h
  | exit r err => cases h
  | next a => exact ⟨a, rfl, h⟩

variable {out s₀}

theorem mirrorsRun_next : MirrorsRun out s₀ .next .next := by
  intro r rr s' h hf
  cases h
  exact ⟨s', hf, rfl⟩

theorem Mirrors.bind {β : Type}
    {P : Run (List (List UInt8)) → Outcome (List (List UInt8)) (Run (List (List UInt8)) × β)}
    {P' : Run σ → Outcome σ (Run σ × β)}
    {Q : β → Run (List (List UInt8)) → Outcome (List (List UInt8)) (Run (List (List UInt8)))}
    {Q' : β → Run σ → Outcome σ (Run σ)} (hP : Mirrors out s₀ P P')
    (hQ : ∀ b, MirrorsRun out s₀ (Q b) (Q' b)) :
    MirrorsRun out s₀ (fun r => (P r).bind fun x => Q x.2 x.1)
      (fun r => (P' r).bind fun x => Q' x.2 x.1) := by
  intro r rr s' h hf
  obtain ⟨⟨r₁, b⟩, h₁, h₂⟩ := Outcome.bind_eq_next h
  obtain ⟨s₁, hf₁, hq⟩ := hQ b h₂ hf
  obtain ⟨s, hfs, hp⟩ := hP h₁ hf₁
  exact ⟨s, hfs, by simp only [hp, Outcome.next_bind, hq]⟩

theorem MirrorsRun.bind
    {P Q : Run (List (List UInt8)) → Outcome (List (List UInt8)) (Run (List (List UInt8)))}
    {P' Q' : Run σ → Outcome σ (Run σ)} (hP : MirrorsRun out s₀ P P')
    (hQ : MirrorsRun out s₀ Q Q') :
    MirrorsRun out s₀ (fun r => (P r).bind Q) (fun r => (P' r).bind Q') := by
  intro r rr s' h hf
  obtain ⟨r₁, h₁, h₂⟩ := Outcome.bind_eq_next h
  obtain ⟨s₁, hf₁, hq⟩ := hQ h₂ hf
  obtain ⟨s, hfs, hp⟩ := hP h₁ hf₁
  exact ⟨s, hfs, by simp only [hp, Outcome.next_bind, hq]⟩

theorem MirrorsRun.ofOption {α : Type} {o : Option α}
    {Q : α → Run (List (List UInt8)) → Outcome (List (List UInt8)) (Run (List (List UInt8)))}
    {Q' : α → Run σ → Outcome σ (Run σ)} (hQ : ∀ a, MirrorsRun out s₀ (Q a) (Q' a)) :
    MirrorsRun out s₀ (fun r => (Outcome.ofOption o).bind fun a => Q a r)
      (fun r => (Outcome.ofOption o).bind fun a => Q' a r) := by
  intro r rr s' h hf
  cases o with
  | none => cases h
  | some a => exact hQ a h hf

theorem outputString_mirrors (str : List UInt8) :
    Mirrors out s₀ (fun r => outputString tally r str) (fun r => outputString out r str) := by
  intro r rr b s' h hf
  have hpos : ¬ (str.length : Int) < 0 := Int.not_lt.mpr (Int.natCast_nonneg _)
  simp only [outputString, tally, if_neg hpos, Outcome.next.injEq, Prod.mk.injEq] at h
  obtain ⟨rfl, rfl⟩ := h
  obtain ⟨s, hs, hout⟩ := feed_append_singleton r.state hf
  refine ⟨s, hs, ?_⟩
  simp only [outputString, Run.at, hout, if_neg hpos]

theorem vaWord_mirrors : Mirrors out s₀ vaWord vaWord := by
  intro r rr b s' h hf
  unfold vaWord at h
  split at h
  · rename_i n ap hap
    cases h
    exact ⟨s', hf, by rw [vaWord, Run.at, hap]; rfl⟩
  · cases h

theorem vaString_mirrors : Mirrors out s₀ vaString vaString := by
  intro r rr b s' h hf
  unfold vaString at h
  split at h
  · rename_i n ap hap
    cases h
    exact ⟨s', hf, by rw [vaString, Run.at, hap]; rfl⟩
  · cases h

theorem vaDouble_mirrors : Mirrors out s₀ vaDouble vaDouble := by
  intro r rr b s' h hf
  unfold vaDouble at h
  split at h
  · rename_i n ap hap
    cases h
    exact ⟨s', hf, by rw [vaDouble, Run.at, hap]; rfl⟩
  · cases h

theorem outputChar_mirrors (c : UInt8) :
    MirrorsRun out s₀ (fun r => outputChar tally r c) (fun r => outputChar out r c) :=
  (outputString_mirrors [c]).bind fun _ => mirrorsRun_next

theorem outputCharIf_mirrors (p : Prop) [Decidable p] (c : UInt8) :
    MirrorsRun out s₀ (fun r => outputCharIf tally r p c) (fun r => outputCharIf out r p c) := by
  unfold outputCharIf
  by_cases hp : p
  · simp only [if_pos hp]
    exact outputChar_mirrors c
  · simp only [if_neg hp]
    exact mirrorsRun_next

theorem padLoop_mirrors (c : UInt8) (n formatNum : Nat) :
    MirrorsRun out s₀ (padLoop tally c n formatNum) (padLoop out c n formatNum) := by
  induction formatNum with
  | zero => exact mirrorsRun_next
  | succ k ih =>
    by_cases hn : k + 1 > n
    · have hstep := (@outputChar_mirrors _ out s₀ c).bind ih
      intro r rr s' h hf
      rw [padLoop, if_pos hn] at h
      obtain ⟨s, hs, hout⟩ := hstep h hf
      exact ⟨s, hs, by rw [padLoop, if_pos hn]; exact hout⟩
    · intro r rr s' h hf
      rw [padLoop, if_neg hn] at h
      obtain ⟨s, hs, hout⟩ := mirrorsRun_next h hf
      exact ⟨s, hs, by rw [padLoop, if_neg hn]; exact hout⟩

theorem outputField_mirrors (flags : Flags) (formatNum : UInt32) (signchar : UInt8)
    (s : List UInt8) :
    MirrorsRun out s₀ (outputField tally flags formatNum signchar s)
      (outputField out flags formatNum signchar s) := by
  by_cases hleft : flags.leftformat = true
  · have hstep := (@outputString_mirrors _ out s₀ s).bind fun err =>
      padLoop_mirrors 32 err.toNat formatNum.toNat
    intro r rr s' h hf
    rw [outputField, if_pos hleft] at h
    obtain ⟨s, hs, hout⟩ := hstep h hf
    exact ⟨s, hs, by rw [outputField, if_pos hleft]; exact hout⟩
  · have hstep := (@outputCharIf_mirrors _ out s₀
      (flags.leadzero = true ∧ signchar ≠ 0) _ signchar).bind
      ((padLoop_mirrors (if flags.leadzero then 48 else 32) s.length
        (if signchar ≠ 0 ∧ formatNum > 0 then formatNum - 1 else formatNum).toNat).bind
      ((outputCharIf_mirrors (¬ flags.leadzero = true ∧ signchar ≠ 0) signchar).bind
      ((outputString_mirrors s).bind fun _ => mirrorsRun_next)))
    intro r rr s' h hf
    rw [outputField, if_neg hleft] at h
    obtain ⟨s, hs, hout⟩ := hstep h hf
    exact ⟨s, hs, by rw [outputField, if_neg hleft]; exact hout⟩

theorem outputHex_mirrors (flags : Flags) (formatNum : UInt32) :
    MirrorsRun out s₀ (outputHex tally flags formatNum) (outputHex out flags formatNum) :=
  vaWord_mirrors.bind fun w =>
    .ofOption (o := longlongToHexstring (unsignedArg flags w) numBufferSize flags) fun s =>
      (outputCharIf_mirrors (flags.alt = true) 48).bind
        ((outputCharIf_mirrors (flags.alt = true) (if flags.caps then 88 else 120)).bind
          (outputField_mirrors flags formatNum 0 s))

theorem outputDecimal_mirrors (flags : Flags) (formatNum : UInt32) (n : UInt64) :
    MirrorsRun out s₀
      (fun r => (Outcome.ofOption (longlongToString n numBufferSize flags)).bind fun x =>
        outputField tally flags formatNum x.2 x.1 r)
      (fun r => (Outcome.ofOption (longlongToString n numBufferSize flags)).bind fun x =>
        outputField out flags formatNum x.2 x.1 r) :=
  .ofOption fun x => outputField_mirrors flags formatNum x.2 x.1

theorem outputDouble_mirrors (flags : Flags) (formatNum : UInt32) (d : UInt64) :
    MirrorsRun out s₀
      (fun r => (Outcome.ofOption (doubleToString d flags)).bind fun s =>
        outputField tally flags formatNum 0 s r)
      (fun r => (Outcome.ofOption (doubleToString d flags)).bind fun s =>
        outputField out flags formatNum 0 s r) :=
  .ofOption fun s => outputField_mirrors flags formatNum 0 s

theorem convert_mirrors (sp : Spec) (k : Conversion) :
    MirrorsRun out s₀ (fun r => convert tally sp r k) (fun r => convert out sp r k) := by
  cases k with
  | percent => exact outputChar_mirrors 37
  | char => exact vaWord_mirrors.bind fun w => outputChar_mirrors w.toUInt8
  | string =>
    exact vaString_mirrors.bind fun s =>
      outputField_mirrors { sp.flags with leadzero := false } sp.formatNum 0 (s.getD nullText)
  | signed =>
    exact vaWord_mirrors.bind fun w =>
      outputDecimal_mirrors { sp.flags with signed := true } sp.formatNum
        (signedArg { sp.flags with signed := true } w)
  | unsigned =>
    exact vaWord_mirrors.bind fun w =>
      outputDecimal_mirrors sp.flags sp.formatNum (unsignedArg sp.flags w)
  | pointer => exact outputHex_mirrors _ _
  | capsHex => exact outputHex_mirrors _ _
  | hex => exact outputHex_mirrors _ _
  | count =>
    intro r rr s' h hf
    obtain ⟨⟨r₁, ptr⟩, h₁, h₂⟩ := Outcome.bind_eq_next h
    cases h₂
    obtain ⟨s, hs, hout⟩ := vaWord_mirrors h₁ hf
    exact ⟨s, hs, by simp only [convert, Outcome.bind_eq, hout, Outcome.next_bind]; rfl⟩
  | capsFixed =>
    exact vaDouble_mirrors.bind fun d =>
      outputDouble_mirrors { sp.flags with caps := true } sp.formatNum d
  | fixed => exact vaDouble_mirrors.bind fun d => outputDouble_mirrors sp.flags sp.formatNum d
  | capsHexFloat =>
    exact vaDouble_mirrors.bind fun d =>
      outputField_mirrors { sp.flags with caps := true } sp.formatNum 0
        (doubleToHexstring d { sp.flags with caps := true })
  | hexFloat =>
    exact vaDouble_mirrors.bind fun d =>
      outputField_mirrors sp.flags sp.formatNum 0 (doubleToHexstring d sp.flags)
  | unknown c => exact (outputChar_mirrors 37).bind (outputChar_mirrors c)

theorem engineLoop_mirrors (fmt : List UInt8) : ∀ mode : Mode,
    MirrorsRun out s₀ (engineLoop tally fmt mode) (engineLoop out fmt mode) := by
  induction fmt with
  | nil =>
    intro mode
    cases mode with
    | text seen => exact (outputString_mirrors seen).bind fun _ => mirrorsRun_next
    | field sp => exact mirrorsRun_next
  | cons c fmt ih =>
    intro mode
    cases mode with
    | text seen =>
      by_cases hc : c = 37
      · have hstep := (@outputString_mirrors _ out s₀ seen).bind fun _ =>
          ih (.field {})
        intro r rr s' h hf
        rw [engineLoop, if_pos hc] at h
        obtain ⟨s, hs, hout⟩ := hstep h hf
        exact ⟨s, hs, by rw [engineLoop, if_pos hc]; exact hout⟩
      · intro r rr s' h hf
        rw [engineLoop, if_neg hc] at h
        obtain ⟨s, hs, hout⟩ := ih _ h hf
        exact ⟨s, hs, by rw [engineLoop, if_neg hc]; exact hout⟩
    | field sp =>
      intro r rr s' h hf
      rw [engineLoop] at h
      cases hd : directive sp c with
      | more sp' =>
        rw [hd] at h
        obtain ⟨s, hs, hout⟩ := ih _ h hf
        exact ⟨s, hs, by rw [engineLoop, hd]; exact hout⟩
      | convert k =>
        rw [hd] at h
        obtain ⟨s, hs, hout⟩ := (convert_mirrors sp k).bind (ih (.text [])) h hf
        exact ⟨s, hs, by rw [engineLoop, hd]; exact hout⟩

end Mirrors

theorem intOf_ofNat (n : Nat) : intOf (UInt64.ofNat n).toNat = intOf n := by
  unfold intOf
  rw [UInt64.toNat_ofNat', Int.natCast_emod, ← Int.emod_bmod,
    Int.emod_emod_of_dvd _ (by decide), Int.emod_bmod]

/-- **What `_printf_engine` prints** is the meaning of the format, whatever the output function:
the text is cut into pieces in the same way for all of them, and if they are taken in full the
result is the length of the text. -/
theorem printfEngine_meaning {fmt : List UInt8} {ap : List Arg} {m : Meaning}
    (h : meaning fmt ap = some m) :
    ∃ pieces : List (List UInt8), pieces.flatten = m.text ∧
      ∀ {σ : Type} (out : Out σ) (s s' : σ), feed out s pieces = some s' →
        printfEngine out s fmt ap = some ⟨s', intOf m.text.length, m.stores⟩ := by
  have hstart : Tells ⟨[], ap, 0, []⟩ ⟨[], ap, []⟩ := ⟨rfl, rfl, rfl, rfl⟩
  obtain ⟨r, hrun, hr⟩ := engineLoop_tells fmt (.text []) hstart h
  refine ⟨r.state, hr.text, fun out s s' hf => ?_⟩
  obtain ⟨s₁, hs₁, hout⟩ := (@engineLoop_mirrors _ out s fmt (.text [])) hrun hf
  obtain rfl := Option.some.inj hs₁
  have hloop : engineLoop out fmt (.text []) ⟨s, ap, 0, []⟩ = .next (r.at s') := hout
  rw [printfEngine, hloop]
  simp only [Run.at, hr.charsWritten, intOf_ofNat, hr.stores]

theorem feed_tally (ps : List (List UInt8)) : ∀ qs : List (List UInt8),
    feed tally qs ps = some (qs ++ ps) := by
  induction ps with
  | nil => exact fun qs => by rw [feed, List.append_nil]
  | cons p ps ih =>
    intro qs
    simp only [feed, tally, if_true, ih]
    rw [List.append_assoc]
    rfl

/-- A number in three places, with another in two. -/
example : (printfEngine tally [] (bytesOf "at %3d%%, %02x") [.word 42, .word 255]).map
    (fun p => (p.state.flatten, p.ret)) = some (bytesOf "at  42%, ff", 11) := by
  decide +kernel

end Gigaboot.Printf
