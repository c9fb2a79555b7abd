import Gigaboot.Inet6.Send
import Gigaboot.Lib.FreeList

/-!
# The pool of transmit buffers

The 16 blocks that `netifc_open` makes out of 8 pages, and where they are: in the free
list, with the interface, or in the hands of a function that fills one.

* `Pool`: every block is in exactly one of these places and has its magic word;
* `Pool.pop`, `Pool.packet`, `Pool.put`, `Pool.send`: what is done with a block keeps it;
* `netifcOpenLoop_region`: `netifc_open` starts with all blocks in the free list;
* `udp6Send_sends`, `icmp6Send_sends`, `Pool.sends`: the ways in which a packet is sent, and
  that all of them keep the pool.
-/

namespace Gigaboot.Netifc

open ByteMem FreeList Inet6

/-! ## Blocks -/

/-- The pages at `eth_buffers_base`, as `AllocatePages` returns them. -/
structure Region where
  base : Nat
  aligned : base % 4096 = 0
  nonnull : base ≠ 0
  fits : base + 32768 ≤ 2 ^ 64

def numBufferPages : Nat := 8

def blocksFrom (ptr : Nat) : Nat → List Nat
  | 0 => []
  | k + 1 => ptr :: blocksFrom (ptr + 2048) k

def Region.blocks (r : Region) : List Nat := blocksFrom r.base (numBufferPages * 2)

def nextOf (heap : Mem) (buf : Nat) : Nat := (ld64 heap (buf + nextOff)).toNat

theorem mem_blocksFrom {b k : Nat} : ∀ {ptr : Nat}, b ∈ blocksFrom ptr k ↔
    ∃ i < k, b = ptr + 2048 * i := by
  induction k with
  | zero => simp [blocksFrom]
  | succ k ih =>
    intro ptr
    rw [blocksFrom, List.mem_cons, ih]
    constructor
    · rintro (rfl | ⟨i, hi, rfl⟩)
      · exact ⟨0, by omega, by omega⟩
      · exact ⟨i + 1, by omega, by omega⟩
    · rintro ⟨i, hi, rfl⟩
      cases i with
      | zero => exact .inl (by omega)
      | succ i => exact .inr ⟨i, by omega, by omega⟩

theorem blocksFrom_nodup (k : Nat) : ∀ ptr, (blocksFrom ptr k).Nodup := by
  induction k with
  | zero => exact fun _ => List.nodup_nil
  | succ k ih =>
    intro ptr
    refine List.nodup_cons.mpr ⟨fun hmem => ?_, ih _⟩
    obtain ⟨i, -, hi⟩ := mem_blocksFrom.mp hmem
    omega

/-- What is known of the address of a block. -/
structure IsBlock (b : Nat) : Prop where
  aligned : b % 2048 = 0
  nonnull : b ≠ 0
  lt : b < 2 ^ 64

/-- A write inside one block is not seen in the header of another. -/
theorem header_apart {b c : Nat} (hb : IsBlock b) (hc : IsBlock c) (hne : c ≠ b) :
    ∀ i, c ≤ i → i < c + 16 → i < b ∨ b + 2048 ≤ i := by
  intro i h₁ h₂
  have := hb.aligned
  have := hc.aligned
  omega

theorem nextOf_congr {heap heap' : Mem} {b : Nat} (h : ∀ i, b ≤ i → i < b + 16 → heap' i = heap i) :
    nextOf heap' b = nextOf heap b := by
  unfold nextOf nextOff
  rw [ld64_congr fun i _ _ => h i (by omega) (by omega)]

/-! ## The invariant -/

/-- Every block is in the free list, with the interface, or in `held`, and in only one of
these; every magic word is intact. -/
structure Pool (blocks held : List Nat) (nic : Nic) : Prop where
  nodup : blocks.Nodup
  isBlock : ∀ b ∈ blocks, IsBlock b
  conserved : ∃ free, Chain 0 (nextOf nic.heap) nic.ethBuffers free ∧
    (held ++ free ++ nic.owned.map blockOf).Perm blocks
  magic : ∀ b ∈ blocks, ld64 nic.heap b = ethBufferMagic

section Pool

variable {blocks held : List Nat} {nic : Nic}

theorem Pool.held_mem (h : Pool blocks held nic) {b : Nat} (hb : b ∈ held) : b ∈ blocks := by
  obtain ⟨free, -, hperm⟩ := h.conserved
  exact hperm.mem_iff.mp (by simp [hb])

theorem Pool.head_cases (h : Pool blocks held nic) :
    nic.ethBuffers = 0 ∨ nic.ethBuffers ∈ blocks := by
  obtain ⟨free, hchain, hperm⟩ := h.conserved
  rcases hchain.head_cases with h0 | hmem
  · exact .inl h0
  · exact .inr (hperm.mem_iff.mp (by simp [hmem]))

/-- A change of one block's link, or of what comes after it, is not seen elsewhere. -/
theorem Pool.header_kept (h : Pool blocks held nic) {b : Nat} (hb : b ∈ blocks) {heap : Mem}
    (hw : ∀ i, ¬ (b + 8 ≤ i ∧ i < b + 1532) → heap i = nic.heap i) {c : Nat} (hc : c ∈ blocks) :
    ld64 heap c = ld64 nic.heap c ∧ (c ≠ b → nextOf heap c = nextOf nic.heap c) := by
  have hapart := header_apart (h.isBlock b hb) (h.isBlock c hc)
  constructor
  · refine ld64_congr fun i h₁ h₂ => hw i ?_
    by_cases hne : c = b
    · omega
    · have := hapart hne i h₁ (by omega)
      omega
  · intro hne
    refine nextOf_congr fun i h₁ h₂ => hw i ?_
    have := hapart hne i h₁ h₂
    omega

/-- `eth_get_buffer` takes a block into the hands of its caller. -/
theorem Pool.pop (h : Pool blocks held nic) (hfree : nic.ethBuffers ≠ 0) :
    Pool blocks (nic.ethBuffers :: held) nic.pop := by
  obtain ⟨free, hchain, hperm⟩ := h.conserved
  have hnodup := hperm.nodup_iff.mpr h.nodup
  have hkept : ∀ {c}, c ∈ blocks → _ := h.header_kept (h.head_cases.resolve_left hfree)
    fun i hi => write_outside nic.heap (nic.ethBuffers + nextOff) (bytes64 0) i (by
      rw [bytes64_length]
      unfold nextOff
      omega)
  have hpop : ∃ rest, free = nic.ethBuffers :: rest ∧
      Chain 0 (nextOf nic.pop.heap) nic.pop.ethBuffers rest :=
    hchain.pop hfree (List.nodup_append.mp (List.nodup_append.mp hnodup).1).2.1
      fun c hc hne => (hkept (hperm.mem_iff.mp (by simp [hc]))).2 hne
  obtain ⟨rest, rfl, hrest⟩ := hpop
  refine ⟨h.nodup, h.isBlock, ⟨rest, hrest, List.Perm.trans ?_ hperm⟩, fun c hc => ?_⟩
  · rw [List.cons_append, List.cons_append, List.append_assoc, List.append_assoc]
    exact List.perm_middle.symm
  · exact (hkept hc).1.trans (h.magic c hc)

/-- The change is confined to bytes 16 to 1532 of the block, where packets are built. -/
def PacketWrite (b : Nat) (heap heap' : Mem) : Prop :=
  ∀ i, ¬ (b + 16 ≤ i ∧ i < b + 1532) → heap' i = heap i

theorem Pool.packet (h : Pool blocks held nic) {b : Nat} (hb : b ∈ blocks) {heap : Mem}
    (hw : PacketWrite b nic.heap heap) : Pool blocks held (nic.withHeap heap) := by
  obtain ⟨free, hchain, hperm⟩ := h.conserved
  have hkept : ∀ {c}, c ∈ blocks → _ := h.header_kept hb fun i hi => hw i (by omega)
  refine ⟨h.nodup, h.isBlock, ⟨free, ?_, hperm⟩, fun c hc => (hkept hc).1.trans (h.magic c hc)⟩
  refine hchain.congr fun c hc => ?_
  by_cases hne : c = b
  · subst hne
    exact nextOf_congr fun i h₁ h₂ => hw i (by omega)
  · exact (hkept (hperm.mem_iff.mp (by simp [hc]))).2 hne

/-- `eth_put_buffer` takes a block back, from any pointer into it. -/
theorem Pool.put {b data : Nat} (h : Pool blocks (b :: held) nic) (hdata : blockOf data = b) :
    ∃ nic', ethPutBuffer nic data = some nic' ∧ Pool blocks held nic' := by
  have hmem := h.held_mem List.mem_cons_self
  obtain ⟨free, hchain, hperm⟩ := h.conserved
  have hnodup := hperm.nodup_iff.mpr h.nodup
  have hmagic : ¬ ld64 nic.heap b ≠ ethBufferMagic := not_not_intro (h.magic b hmem)
  have hkept : ∀ {c}, c ∈ blocks → _ := h.header_kept hmem
    fun i hi => write_outside nic.heap (b + nextOff) (bytes64 (UInt64.ofNat nic.ethBuffers)) i (by
      rw [bytes64_length]
      unfold nextOff
      omega)
  unfold ethPutBuffer
  rw [hdata]
  dsimp only
  rw [if_neg hmagic]
  refine ⟨_, rfl, h.nodup, h.isBlock, ⟨b :: free, ?_, ?_⟩, fun c hc => ?_⟩
  · refine hchain.push (h.isBlock b hmem).nonnull ?_ fun c hc => ?_
    · -- the old head survives the conversion to a pointer
      have hlt : nic.ethBuffers < 2 ^ 64 := by
        rcases h.head_cases with h0 | hm
        · omega
        · exact (h.isBlock _ hm).lt
      unfold nextOf
      rw [ld64_write64]
      exact Nat.mod_eq_of_lt hlt
    · refine (hkept (hperm.mem_iff.mp (by simp [hc]))).2 ?_
      rintro rfl
      rw [List.cons_append, List.cons_append, List.nodup_cons] at hnodup
      exact hnodup.1 (by simp [hc])
  · refine List.Perm.trans ?_ hperm
    rw [List.cons_append, List.cons_append, List.append_assoc, List.append_assoc]
    exact List.perm_middle
  · exact (hkept hc).1.trans (h.magic c hc)

/-- `Transmit` takes the block over, or `eth_send` puts it back. -/
theorem Pool.send {b data : Nat} (h : Pool blocks (b :: held) nic) (hdata : blockOf data = b)
    (len : Nat) : ∃ nic' ret, ethSend nic data len = some (nic', ret) ∧ Pool blocks held nic' := by
  cases hok : nic.txStatus nic.transmitted.length with
  | true =>
    refine ⟨_, _, ethSend_ok hok, h.nodup, h.isBlock, ?_, h.magic⟩
    obtain ⟨free, hchain, hperm⟩ := h.conserved
    refine ⟨free, hchain, List.Perm.trans ?_ hperm⟩
    show (held ++ free ++ (nic.owned ++ [data]).map blockOf).Perm _
    rw [List.map_append, List.map_singleton, hdata, ← List.append_assoc]
    exact List.perm_append_comm
  | false =>
    have h₁ : Pool blocks (b :: held) (transmit nic data len).1 := by
      refine ⟨h.nodup, h.isBlock, ?_, h.magic⟩
      simp only [transmit, hok]
      exact h.conserved
    obtain ⟨nic', hput, hpool⟩ := h₁.put hdata
    have hno : (transmit nic data len).2 = false := hok
    refine ⟨nic', -1, ?_, hpool⟩
    unfold ethSend
    dsimp only
    rw [hno, hput]
    rfl

end Pool

/-! ## Opening the interface -/

/-- The loop of `netifc_open` over the blocks from `ptr` on. -/
def netifcOpenLoop (nic : Nic) (ptr : Nat) : Nat → Option Nic
  | 0 => some nic
  | k + 1 =>
    match ethPutBuffer (nic.withHeap (write nic.heap ptr (bytes64 ethBufferMagic))) ptr with
    | none => none
    | some nic => netifcOpenLoop nic (ptr + 2048) k

/-- A block gets its magic word; it is not in the list yet. -/
theorem Pool.stamp {blocks : List Nat} {nic : Nic} {ptr : Nat} (h : Pool blocks [] nic)
    (hptr : IsBlock ptr) (hnew : ptr ∉ blocks) :
    Pool (ptr :: blocks) [ptr] (nic.withHeap (write nic.heap ptr (bytes64 ethBufferMagic))) := by
  obtain ⟨free, hchain, hperm⟩ := h.conserved
  have hkept : ∀ c ∈ blocks, ∀ i, c ≤ i → i < c + 16 →
      write nic.heap ptr (bytes64 ethBufferMagic) i = nic.heap i := by
    intro c hc i h₁ h₂
    have hne : c ≠ ptr := by
      rintro rfl
      exact hnew hc
    have := header_apart hptr (h.isBlock c hc) hne i h₁ h₂
    refine write_outside _ _ _ _ ?_
    rw [bytes64_length]
    omega
  refine ⟨List.nodup_cons.mpr ⟨hnew, h.nodup⟩, ?_, ⟨free, ?_, hperm.cons ptr⟩, ?_⟩
  · intro b hb
    rcases List.mem_cons.mp hb with rfl | hb
    · exact hptr
    · exact h.isBlock b hb
  · exact hchain.congr fun c hc => nextOf_congr (hkept c (hperm.mem_iff.mp (by simp [hc])))
  · intro b hb
    rcases List.mem_cons.mp hb with rfl | hb
    · exact ld64_write64 _ _ _
    · refine Eq.trans (ld64_congr fun i h₁ h₂ => ?_) (h.magic b hb)
      exact hkept b hb i h₁ (by omega)

/-- The loop puts its blocks in front of those that are there. -/
theorem netifcOpenLoop_pool (k : Nat) : ∀ {blocks : List Nat} {nic : Nic} {ptr : Nat},
    Pool blocks [] nic → (∀ b ∈ blocks, b < ptr) → (∀ b ∈ blocksFrom ptr k, IsBlock b) →
    ∃ nic', netifcOpenLoop nic ptr k = some nic' ∧
      Pool ((blocksFrom ptr k).reverse ++ blocks) [] nic' := by
  induction k with
  | zero =>
    intro blocks nic ptr h _ _
    exact ⟨nic, rfl, h⟩
  | succ k ih =>
    intro blocks nic ptr h hbelow hblocks
    have hptr : IsBlock ptr := hblocks ptr List.mem_cons_self
    have hnew : ptr ∉ blocks := fun hmem => absurd (hbelow ptr hmem) (Nat.lt_irrefl _)
    have hself : blockOf ptr = ptr := blockOf_add (k := 0) hptr.aligned (by omega)
    obtain ⟨nic₁, hput, hpool⟩ := (h.stamp hptr hnew).put hself
    have hbelow' : ∀ b ∈ ptr :: blocks, b < ptr + 2048 := by
      intro b hb
      rcases List.mem_cons.mp hb with rfl | hb
      · omega
      · exact Nat.lt_add_right _ (hbelow b hb)
    obtain ⟨nic', hloop, hpool'⟩ := ih hpool hbelow' fun b hb =>
      hblocks b (List.mem_cons_of_mem _ hb)
    refine ⟨nic', ?_, ?_⟩
    · rw [netifcOpenLoop, hput]
      exact hloop
    · rw [blocksFrom, List.reverse_cons, List.append_assoc]
      exact hpool'

theorem Region.isBlock {r : Region} {b : Nat} (h : b ∈ r.blocks) : IsBlock b := by
  obtain ⟨i, hi, rfl⟩ := mem_blocksFrom.mp h
  have haligned := r.aligned
  have hnonnull := r.nonnull
  have hfits := r.fits
  have : numBufferPages * 2 = 16 := rfl
  exact ⟨by omega, by omega, by omega⟩

/-- The free list before `netifc_open`, and an interface that was given nothing. -/
structure Nic.Fresh (nic : Nic) : Prop where
  ethBuffers : nic.ethBuffers = 0
  owned : nic.owned = []

theorem netifcOpenLoop_region (r : Region) {nic : Nic} (h : nic.Fresh) :
    ∃ nic', netifcOpenLoop nic r.base (numBufferPages * 2) = some nic' ∧
      Pool r.blocks [] nic' := by
  have hempty : Pool [] [] nic := by
    refine ⟨List.nodup_nil, nofun, ⟨[], h.ethBuffers, ?_⟩, nofun⟩
    rw [h.owned]
    exact .refl _
  obtain ⟨nic', hloop, hpool⟩ := netifcOpenLoop_pool (numBufferPages * 2) hempty nofun
    fun b hb => r.isBlock hb
  refine ⟨nic', hloop, blocksFrom_nodup _ _, fun b => r.isBlock, ?_, fun b hb => ?_⟩
  · obtain ⟨free, hchain, hperm⟩ := hpool.conserved
    rw [List.append_nil] at hperm
    exact ⟨free, hchain, hperm.trans (List.reverse_perm _)⟩
  · refine hpool.magic b ?_
    rw [List.append_nil, List.mem_reverse]
    exact hb

/-! ## Sending -/

/-- The ways in which a packet is sent: there is no free block, the block is put back
unused, or a packet is built in it and given to `eth_send`. -/
inductive Sends (nic : Nic) : Option (Nic × Int) → Prop
  | noBuffer : nic.ethBuffers = 0 → Sends nic (some (nic, -1))
  | dropped : nic.ethBuffers ≠ 0 →
      Sends nic ((ethPutBuffer nic.pop (nic.ethBuffers + dataOff)).map fun nic => (nic, -1))
  | sent (heap : Mem) (len : Nat) : nic.ethBuffers ≠ 0 →
      PacketWrite nic.ethBuffers nic.pop.heap heap → dataOff + 2 + len ≤ 1532 →
      Sends nic (ethSend (nic.pop.withHeap heap) (nic.ethBuffers + dataOff + 2) len)

theorem packetWrite_write (heap : Mem) {b a : Nat} {bs : List UInt8} (hlo : b + 16 ≤ a)
    (hhi : a + bs.length ≤ b + 1532) : PacketWrite b heap (write heap a bs) :=
  fun _ hi => write_outside _ _ _ _ (by omega)

theorem udp6Send_sends (st : Stack) (nic : Nic) (data : Mem) (dlen : Nat) (daddr : Ip6Addr)
    (dport sport : UInt16) : Sends nic (udp6Send st nic data dlen daddr dport sport) := by
  have hoff : dataOff = 16 := rfl
  rcases udp6Send_cases st nic data dlen daddr dport sport with
    ⟨hfree, h⟩ | ⟨hfree, h⟩ | ⟨dmac, c, hfree, hlen, -, h⟩ <;> rw [h]
  · exact .noBuffer hfree
  · exact .dropped hfree
  · refine .sent _ _ hfree (packetWrite_write _ (by omega) ?_) (by omega)
    rw [udpFrame_length, read_length]
    omega

theorem icmp6Send_sends (st : Stack) (nic : Nic) (data : Mem) (length : Nat) (daddr : Ip6Addr) :
    Sends nic (icmp6Send st nic data length daddr) := by
  have hoff : dataOff = 16 := rfl
  rcases icmp6Send_cases st nic data length daddr with
    ⟨hfree, h⟩ | ⟨hfree, h⟩ | ⟨dmac, c, hfree, hlen, -, h⟩ <;> rw [h]
  · exact .noBuffer hfree
  · exact .dropped hfree
  · refine .sent _ _ hfree (fun i hi => ?_) (by omega)
    -- the message, and the checksum at its place
    rw [packetWrite_write _ (by omega) (by rw [bytes16_length]; omega) i hi,
      packetWrite_write _ (by omega) ?_ i hi]
    rw [List.length_append, header_length, read_length]
    omega

theorem Pool.sends {blocks held : List Nat} {nic : Nic} {res : Option (Nic × Int)}
    (h : Pool blocks held nic) (hs : Sends nic res) :
    ∃ nic' ret, res = some (nic', ret) ∧ Pool blocks held nic' := by
  cases hs with
  | noBuffer hfree => exact ⟨nic, -1, rfl, h⟩
  | dropped hfree =>
    have hblock := h.isBlock _ (h.head_cases.resolve_left hfree)
    obtain ⟨nic', hput, hpool⟩ := (h.pop hfree).put
      (blockOf_add (k := dataOff) hblock.aligned (by decide))
    exact ⟨nic', -1, by rw [hput]; rfl, hpool⟩
  | sent heap len hfree hw _ =>
    have hmem := h.head_cases.resolve_left hfree
    have hblock := h.isBlock _ hmem
    exact ((h.pop hfree).packet hmem hw).send
      (blockOf_add (k := dataOff + 2) hblock.aligned (by decide)) len

end Gigaboot.Netifc
