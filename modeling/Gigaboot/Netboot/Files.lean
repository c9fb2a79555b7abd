import Gigaboot.Netboot.Device

/-!
# What a datagram may change

The effect of one call of `udp6_recv` on the three files, and on the receive buffer that the
datagram lies in.

* `handled_change`: a message restarts a file, extends the item, or leaves all files alone;
* `execute_buf`, `udp6Recv_buf`: the edits of a message stay in its data;
* `writes_confined`: both, for every datagram in every state that can be reached.
-/

namespace Gigaboot.Netboot.Files

open ByteMem

/-- The message is an accepted request to send the file `f`. -/
def Opens (d : Device) (m : Datagram) (f : FileId) : Prop :=
  ¬ d.Repeats m.hdr ∧ m.hdr.cmd = nbSendFile ∧ m.payload ≠ [] ∧ requested m.payload = some f

/-- The message is an accepted block of the item `f`. -/
def Extends (d : Device) (m : Datagram) (f : FileId) : Prop :=
  ¬ d.Repeats m.hdr ∧ m.hdr.cmd = nbData ∧ d.item = some f ∧
    m.hdr.arg.toNat = (d.files f).offset ∧
    (d.files f).offset + m.payload.length ≤ (d.files f).size

instance (d : Device) (m : Datagram) (f : FileId) : Decidable (Opens d m f) :=
  inferInstanceAs (Decidable (_ ∧ _))

instance (d : Device) (m : Datagram) (f : FileId) : Decidable (Extends d m f) :=
  inferInstanceAs (Decidable (_ ∧ _))

theorem Opens.unique {d : Device} {m : Datagram} {f g : FileId} (hf : Opens d m f)
    (hg : Opens d m g) : g = f := by
  have h := hg.2.2.2
  rw [hf.2.2.2] at h
  exact (Option.some.inj h).symm

theorem Extends.unique {d : Device} {m : Datagram} {f g : FileId} (hf : Extends d m f)
    (hg : Extends d m g) : g = f := by
  have h := hg.2.2.1
  rw [hf.2.2.1] at h
  exact (Option.some.inj h).symm

theorem Opens.not_extends {d : Device} {m : Datagram} {f g : FileId} (hf : Opens d m f) :
    ¬ Extends d m g := by
  intro hg
  have h := hg.2.1
  rw [hf.2.1] at h
  exact absurd h (by decide)

/-- A restarted file: only its write pointer changes. -/
def Restarted (old new : NbFile) : Prop :=
  new.data = old.data ∧ new.size = old.size ∧ new.offset = 0

/-- An extended file: the bytes from its old write pointer on are `payload`, no other byte
changes, and the new write pointer is after them and inside the buffer. -/
structure Extended (payload : List UInt8) (old new : NbFile) : Prop where
  size : new.size = old.size
  offset : new.offset = old.offset + payload.length
  fits : new.offset ≤ new.size
  inside : read new.data old.offset payload.length = payload
  outside : ∀ i, ¬ (old.offset ≤ i ∧ i < old.offset + payload.length) → new.data i = old.data i

theorem Extended.data_eq {payload : List UInt8} {old new : NbFile} (h : Extended payload old new) :
    new.data = write old.data old.offset payload := by
  funext i
  by_cases hi : old.offset ≤ i ∧ i < old.offset + payload.length
  · have hbyte := read_getD new.data old.offset payload.length (i - old.offset) (by omega)
    have hwrite := read_getD (write old.data old.offset payload) old.offset payload.length
      (i - old.offset) (by omega)
    rw [h.inside, Nat.add_sub_cancel' hi.1] at hbyte
    rw [read_write_self _ _ _ _ rfl, Nat.add_sub_cancel' hi.1] at hwrite
    rw [← hbyte, hwrite]
  · rw [h.outside i hi, write_outside _ _ _ _ (by omega)]

/-- What happens to the files. -/
inductive Change (d : Device) (m : Option Datagram) (d' : Device) : Prop
  | restart (f : FileId) : (∃ x, m = some x ∧ Opens d x f) → d'.item = some f →
      Restarted (d.files f) (d'.files f) → (∀ g ≠ f, d'.files g = d.files g) → Change d m d'
  | extend (f : FileId) (x : Datagram) : m = some x → Extends d x f → d'.item = some f →
      Extended x.payload (d.files f) (d'.files f) → (∀ g ≠ f, d'.files g = d.files g) →
      Change d m d'
  | none : (∀ x f, m = some x → ¬ Opens d x f ∧ ¬ Extends d x f) → d'.files = d.files →
      Change d m d'

theorem restarted_open (d : Device) (f : FileId) :
    Restarted (d.files f) ((d.open f).files f) := by
  simp [Restarted]

theorem extended_append {d : Device} {f : FileId} {payload : List UInt8}
    (h : (d.files f).offset + payload.length ≤ (d.files f).size) :
    Extended payload (d.files f) ((d.append f payload).files f) := by
  simp only [Device.append_files, Function.update_self]
  refine ⟨rfl, rfl, h, read_write_self _ _ _ _ rfl, fun i hi => write_outside _ _ _ _ ?_⟩
  omega

/-- What a message does to the files. -/
theorem handled_change {d d' : Device} {m : Datagram} {a : Option NbMsg} (h : Handled d m d' a) :
    Change d (some m) d' := by
  have hsend : nbSendFile ≠ nbCommand ∧ nbSendFile ≠ nbData ∧ nbSendFile ≠ nbBoot := by decide
  have hdata : nbData ≠ nbCommand ∧ nbData ≠ nbBoot := by decide
  -- in all but two cases the files stay, and neither condition holds
  have hkeep : (∀ f, ¬ Opens d m f ∧ ¬ Extends d m f) → d'.files = d.files →
      Change d (some m) d' := by
    intro hno hfiles
    refine .none (fun x f hx => ?_) hfiles
    cases hx
    exact hno f
  cases h with
  | resend hr => exact hkeep (fun f => ⟨fun ho => ho.1 hr, fun he => he.1 hr⟩) rfl
  | empty hr hc hp => exact hkeep (by grind [Opens, Extends]) (d.touch_files m.hdr)
  | command hr hc hp => exact hkeep (by grind [Opens, Extends]) rfl
  | accepted f hr hc hp hf =>
    refine .restart f ⟨m, rfl, hr, hc, hp, hf⟩ rfl (restarted_open d f) fun g hg => ?_
    simp [Function.update_of_ne hg]
  | rejected hr hc hp hf => exact hkeep (by grind [Opens, Extends]) rfl
  | misplaced hr hc ho => exact hkeep (by grind [Opens, Extends]) (d.touch_files m.hdr)
  | tooLarge f hr hc hi ho hs => exact hkeep (by grind [Opens, Extends]) rfl
  | appended f hr hc hi ho hs =>
    refine .extend f m rfl ⟨hr, hc, hi, ho, hs⟩ hi (extended_append hs) fun g hg => ?_
    simp [Function.update_of_ne hg]
  | boot hr hc => exact hkeep (by grind [Opens, Extends]) rfl
  | badCmd hr h₁ h₂ h₃ h₄ => exact hkeep (by grind [Opens, Extends]) rfl

theorem handled_item {d d' : Device} {m : Datagram} {a : Option NbMsg} (h : Handled d m d' a)
    {f : FileId} (hf : d'.item = some f) : d.item = some f ∨ Opens d m f := by
  cases h with
  | accepted g hr hc hp hg =>
    obtain rfl : g = f := Option.some.inj hf
    exact .inr ⟨hr, hc, hp, hg⟩
  | rejected => cases hf
  | empty | misplaced =>
    rw [Device.touch_item] at hf
    exact .inl hf
  | resend | command | tooLarge | appended | boot | badCmd => exact .inl hf

theorem udp6Recv_change (d : Device) (data : Mem) (len : Nat) (dport : UInt16) :
    Change d (messageOf data len dport) (udp6Recv d data len dport).dev := by
  cases hm : messageOf data len dport with
  | none =>
    rw [udp6Recv_no_message d hm]
    exact .none (fun x f hx => nomatch hx) rfl
  | some m => exact handled_change (udp6Recv_message hm)

/-! ## The receive buffer -/

/-- A message of `len` bytes is edited within its data, and only if that is a text. -/
structure Edited (cmd : UInt32) (len : Nat) (data buf : Mem) : Prop where
  outside : ∀ i, ¬ (nbmsgSize ≤ i ∧ i < len) → buf i = data i
  text : buf ≠ data → cmd = nbCommand ∨ cmd = nbSendFile

theorem Edited.refl (cmd : UInt32) (len : Nat) (data : Mem) : Edited cmd len data data :=
  ⟨fun _ _ => rfl, fun h => absurd rfl h⟩

theorem execute_buf (d : Device) (msg : NbMsg) (data : Mem) (n : Nat) :
    Edited msg.cmd (nbmsgSize + n) data (execute d msg data n).buf := by
  have hcut : n ≠ 0 → ∀ i, ¬ (nbmsgSize ≤ i ∧ i < nbmsgSize + n) →
      write data (nbmsgSize + (n - 1)) [0] i = data i := by
    intro hn i hi
    refine write_outside _ _ _ _ ?_
    simp only [List.length_singleton]
    omega
  have hname : n ≠ 0 → ∀ i, ¬ (nbmsgSize ≤ i ∧ i < nbmsgSize + n) →
      sanitize (write data (nbmsgSize + (n - 1)) [0]) nbmsgSize (n - 1) i = data i := by
    intro hn i hi
    rw [sanitize_apply, if_neg (by omega)]
    exact hcut hn i hi
  unfold execute
  split
  · rename_i hc
    split
    · exact .refl _ _ _
    · rename_i hn
      exact ⟨hcut hn, fun _ => .inl hc⟩
  split
  · rename_i hc
    split
    · exact .refl _ _ _
    · rename_i hn
      dsimp only
      split <;> exact ⟨hname hn, fun _ => .inr hc⟩
  split
  · split
    · exact .refl _ _ _
    · dsimp only
      split
      · exact .refl _ _ _
      · split <;> exact .refl _ _ _
  split <;> exact .refl _ _ _

theorem udp6Recv_buf (d : Device) (data : Mem) (len : Nat) (dport : UInt16) :
    Edited (nbmsgAt data).cmd len data (udp6Recv d data len dport).buf := by
  unfold udp6Recv
  split
  · exact .refl _ _ _
  split
  · exact .refl _ _ _
  rename_i hlen
  have hexec : ∀ d, Edited (nbmsgAt data).cmd len data
      (execute d (nbmsgAt data) data (len - nbmsgSize)).buf := by
    intro d
    have h := execute_buf d (nbmsgAt data) data (len - nbmsgSize)
    rwa [Nat.add_sub_cancel' (Nat.not_lt.mp hlen)] at h
  dsimp only
  split
  · split
    · exact .refl _ _ _
    · exact hexec _
  · exact hexec _

/-- **Writes are confined.**  In a state that can be reached every write pointer is inside its
buffer.  A datagram restarts the file it asks for, or writes its data at the write pointer
of the item and within its buffer, and then leaves the other two files alone; any other
datagram leaves all three alone.  What it edits in the receive buffer is its own data. -/
theorem writes_confined {d : Device} (hd : d.Reachable) (data : Mem) (len : Nat) (dport : UInt16) :
    (∀ f, (d.files f).offset ≤ (d.files f).size) ∧
    Change d (messageOf data len dport) (udp6Recv d data len dport).dev ∧
    Edited (nbmsgAt data).cmd len data (udp6Recv d data len dport).buf := by
  refine ⟨fun f => ?_, udp6Recv_change d data len dport, udp6Recv_buf d data len dport⟩
  rw [hd.bounded.size f]
  exact hd.bounded.offset_le f

def oneByte : Device := runEvents (Device.start (fun _ => 0) (fun _ => 0))
  [deliver (kernelRequest 1), deliver ⟨⟨nbMagic, 2, nbData, 0⟩, [7]⟩]

def twoBytes : Datagram := ⟨⟨nbMagic, 3, nbData, 1⟩, [8, 9]⟩

theorem writes_confined_next_block :
    Change oneByte (messageOf (ofList twoBytes.bytes) 18 nbServerPort)
      (recv oneByte twoBytes.bytes).dev ∧
    ((recv oneByte twoBytes.bytes).dev.files .nbkernel).offset = 3 ∧
    read ((recv oneByte twoBytes.bytes).dev.files .nbkernel).data 0 3 = [7, 8, 9] := by
  have hd : oneByte.Reachable := runEvents_reachable _ (.of_init ⟨_, _, rfl⟩)
  exact ⟨(writes_confined hd (ofList twoBytes.bytes) 18 nbServerPort).2.1, by decide +kernel,
    by decide +kernel⟩

end Gigaboot.Netboot.Files
