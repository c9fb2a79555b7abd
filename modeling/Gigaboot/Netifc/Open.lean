import Gigaboot.Netifc.Pool

/-!
# Opening the interface

`netifc_open` of `netifc.c`, with the multicast filters that `ip6_init` asks for.  An
interface may have room for fewer filters than are asked for: `eth_add_mcast_filter` then
fails, which is not noticed, and the list that is verified is the shorter one.

* `findFilter_iff`, `confirmed_iff`: what the two loops over the filters check;
* `netifcOpen_succeeds`: what was called when the interface was opened;
* `multicast_received_iff`: when the multicast frames that are needed are received.
-/

namespace Gigaboot.Netifc

open ByteMem Inet6

/-! ## Filters -/

def maxFilter : Nat := 8

/-- The static variables `mcast_filters` and `mcast_filter_count`. -/
structure Filters where
  addrs : List MacAddr
  le : addrs.length ≤ maxFilter

/-- `eth_add_mcast_filter` with its result; `max` is `MaxMCastFilterCount`. -/
def ethAddMcastFilter (max : UInt32) (filters : Filters) (addr : MacAddr) : Int × Filters :=
  if h : filters.addrs.length ≥ maxFilter then (-1, filters)
  else if filters.addrs.length ≥ max.toNat then (-1, filters)
  else (0, ⟨filters.addrs ++ [addr], by rw [List.length_append]; exact Nat.lt_of_not_ge h⟩)

def snmMac (mac : MacAddr) : MacAddr := multicastFromIp6 (snmaddrFromMac mac)

def allNodesMac : MacAddr := multicastFromIp6 ip6LlAllNodes

/-- The filters that `ip6_init` asks for; the results of the calls are dropped. -/
def ip6InitFilters (max : UInt32) (mac : MacAddr) (filters : Filters) : Filters :=
  let filters := (ethAddMcastFilter max filters (snmMac mac)).2
  (ethAddMcastFilter max filters allNodesMac).2

/-! ## The interface -/

inductive SnpState
  | stopped | started | initialized
  deriving DecidableEq, Repr

def receiveUnicast : UInt32 := 0x01
def receiveMulticast : UInt32 := 0x02
def receivePromiscuous : UInt32 := 0x08
def receivePromiscuousMulticast : UInt32 := 0x10

/-- The answers of the firmware and of the interface in the course of `netifc_open`. -/
structure Snp where
  /-- what `CreateEvent` leaves in `net_timer` -/
  timer : UInt64
  locateHandle : UInt64
  openProtocol : UInt64
  state : SnpState
  /-- the state after a call of `Start` -/
  startState : SnpState
  initStatus : UInt64
  allocatePages : Option Region
  currentAddress : MacAddr
  maxMCastFilterCount : UInt32
  /-- the status of `ReceiveFilters` for the filters, and the mode after it -/
  receiveFilters : UInt64
  mcastFilterCount : UInt32
  mcastFilter : Nat → MacAddr
  /-- the status of `ReceiveFilters` for the promiscuous mode -/
  promiscuous : UInt64

structure FilterCall where
  enable : UInt32
  filters : List MacAddr
  status : UInt64
  deriving DecidableEq, Repr

/-- What `netifc_open` leaves. -/
structure OpenResult where
  ret : Int
  timer : UInt64
  nic : Nic
  st : Stack
  filters : Filters
  calls : List FilterCall

/-- The inner loop: is `addr` one of the `n` filters reported from `j` on? -/
def findFilter (snp : Snp) (addr : MacAddr) (j : Nat) : Nat → Bool
  | 0 => false
  | n + 1 => if addr = snp.mcastFilter j then true else findFilter snp addr (j + 1) n

/-- The outer loop, with `count` filters in all. -/
def findFilters (snp : Snp) (count : Nat) : List MacAddr → Bool
  | [] => true
  | addr :: addrs => if findFilter snp addr 0 count then findFilters snp count addrs else false

/-- The two checks after `ReceiveFilters`; without them `force_promisc` is next. -/
def filtersConfirmed (snp : Snp) (filters : Filters) : Bool :=
  if snp.mcastFilterCount.toNat ≠ filters.addrs.length then false
  else findFilters snp filters.addrs.length filters.addrs

/-- `netifc_open` from the call of `ip6_init` on. -/
def openFilters (snp : Snp) (nic : Nic) (st : Stack) (filters : Filters) : OpenResult :=
  let st := ip6Init st snp.currentAddress
  let filters := ip6InitFilters snp.maxMCastFilterCount snp.currentAddress filters
  let first : FilterCall :=
    ⟨receiveUnicast ||| receiveMulticast, filters.addrs, snp.receiveFilters⟩
  if snp.receiveFilters ≠ 0 then ⟨-1, snp.timer, nic, st, filters, [first]⟩
  else if filtersConfirmed snp filters then ⟨0, snp.timer, nic, st, filters, [first]⟩
  else
    let second : FilterCall :=
      ⟨receiveUnicast ||| receivePromiscuous ||| receivePromiscuousMulticast, [],
        snp.promiscuous⟩
    if snp.promiscuous ≠ 0 then ⟨-1, snp.timer, nic, st, filters, [first, second]⟩
    else ⟨0, snp.timer, nic, st, filters, [first, second]⟩

/-- `netifc_open`; `none` if it hangs in `eth_put_buffer`. -/
def netifcOpen (snp : Snp) (nic : Nic) (st : Stack) (filters : Filters) : Option OpenResult :=
  let fail : Option OpenResult := some ⟨-1, snp.timer, nic, st, filters, []⟩
  if snp.locateHandle ≠ 0 then fail
  else if snp.openProtocol ≠ 0 then fail
  else if snp.state ≠ .started ∧ snp.startState ≠ .started then fail
  else if snp.state ≠ .started ∧ snp.initStatus ≠ 0 then fail
  else
    match snp.allocatePages with
    | none => fail
    | some region =>
      match netifcOpenLoop nic region.base (numBufferPages * 2) with
      | none => none
      | some nic => some (openFilters snp nic st filters)

/-! ## What is checked -/

/-- `addr` is in the list of filters that the interface reports. -/
def Snp.Reports (snp : Snp) (addr : MacAddr) : Prop :=
  ∃ j < snp.mcastFilterCount.toNat, addr = snp.mcastFilter j

theorem findFilter_iff (snp : Snp) (addr : MacAddr) (n : Nat) : ∀ j,
    findFilter snp addr j n = true ↔ ∃ i < n, addr = snp.mcastFilter (j + i) := by
  induction n with
  | zero =>
    intro j
    exact iff_of_false (by nofun) (by rintro ⟨i, hi, -⟩; cases hi)
  | succ n ih =>
    intro j
    rw [findFilter]
    by_cases h : addr = snp.mcastFilter j
    · rw [if_pos h]
      exact iff_of_true rfl ⟨0, Nat.zero_lt_succ n, h⟩
    · rw [if_neg h, ih]
      constructor
      · rintro ⟨i, hi, hadr⟩
        exact ⟨i + 1, Nat.succ_lt_succ hi, by rw [hadr, Nat.add_assoc, Nat.add_comm 1 i]⟩
      · rintro ⟨i, hi, hadr⟩
        cases i with
        | zero => exact absurd hadr h
        | succ i =>
          exact ⟨i, Nat.lt_of_succ_lt_succ hi, by rw [hadr, Nat.add_assoc, Nat.add_comm 1 i]⟩

theorem findFilters_iff (snp : Snp) (count : Nat) (addrs : List MacAddr) :
    findFilters snp count addrs = true ↔
      ∀ addr ∈ addrs, ∃ j < count, addr = snp.mcastFilter j := by
  induction addrs with
  | nil => exact iff_of_true rfl (by nofun)
  | cons addr addrs ih =>
    have hone := findFilter_iff snp addr count 0
    simp only [Nat.zero_add] at hone
    rw [findFilters, List.forall_mem_cons, ← ih, ← hone]
    cases findFilter snp addr 0 count <;> simp

theorem confirmed_iff (snp : Snp) (filters : Filters) :
    filtersConfirmed snp filters = true ↔
      snp.mcastFilterCount.toNat = filters.addrs.length ∧
        ∀ addr ∈ filters.addrs, snp.Reports addr := by
  unfold filtersConfirmed
  by_cases h : snp.mcastFilterCount.toNat = filters.addrs.length
  · rw [if_neg (not_not_intro h), findFilters_iff, ← h]
    exact (and_iff_right rfl).symm
  · rw [if_pos h]
    exact iff_of_false (by nofun) fun hc => h hc.1

def noFilters : Filters := ⟨[], Nat.zero_le _⟩

theorem ethAddMcastFilter_room {max : UInt32} {filters : Filters} (addr : MacAddr)
    (h8 : filters.addrs.length < maxFilter) (h : filters.addrs.length < max.toNat) :
    (ethAddMcastFilter max filters addr).2.addrs = filters.addrs ++ [addr] := by
  rw [ethAddMcastFilter, dif_neg (Nat.not_le.mpr h8), if_neg (Nat.not_le.mpr h)]

theorem ethAddMcastFilter_full {max : UInt32} {filters : Filters} (addr : MacAddr)
    (h : max.toNat ≤ filters.addrs.length) : (ethAddMcastFilter max filters addr).2 = filters := by
  by_cases h8 : filters.addrs.length ≥ maxFilter
  · rw [ethAddMcastFilter, dif_pos h8]
  · rw [ethAddMcastFilter, dif_neg h8, if_pos h]

/-- With room for both filters both are in the list, otherwise at most one is. -/
theorem ip6InitFilters_addrs (max : UInt32) (mac : MacAddr) :
    (2 ≤ max.toNat ∧ (ip6InitFilters max mac noFilters).addrs = [snmMac mac, allNodesMac]) ∨
    (max.toNat < 2 ∧ (ip6InitFilters max mac noFilters).addrs.length ≤ 1) := by
  unfold ip6InitFilters
  dsimp only
  cases hmax : max.toNat with
  | zero =>
    right
    have hnone : max.toNat ≤ noFilters.addrs.length := Nat.le_of_eq hmax
    rw [ethAddMcastFilter_full _ hnone, ethAddMcastFilter_full _ hnone]
    exact ⟨Nat.zero_lt_two, Nat.zero_le 1⟩
  | succ room =>
    have hone : (ethAddMcastFilter max noFilters (snmMac mac)).2.addrs = [snmMac mac] :=
      ethAddMcastFilter_room _ (by decide) (by rw [hmax]; exact Nat.zero_lt_succ room)
    have hlen : (ethAddMcastFilter max noFilters (snmMac mac)).2.addrs.length = 1 := by
      rw [hone]
      rfl
    cases room with
    | zero =>
      right
      rw [ethAddMcastFilter_full _ (by omega)]
      exact ⟨Nat.one_lt_two, Nat.le_of_eq hlen⟩
    | succ room =>
      left
      rw [ethAddMcastFilter_room _ (by rw [hlen]; decide) (by omega), hone]
      exact ⟨by omega, rfl⟩

theorem netifcOpen_reaches_filters {snp : Snp} {nic : Nic} {st : Stack} {filters : Filters}
    {o : OpenResult} (h : netifcOpen snp nic st filters = some o) (hret : o.ret = 0) :
    ∃ nic', o = openFilters snp nic' st filters := by
  have hfail : some (⟨-1, snp.timer, nic, st, filters, []⟩ : OpenResult) ≠ some o := by
    rintro ⟨⟩
    cases hret
  unfold netifcOpen at h
  dsimp only at h
  split at h
  · exact absurd h hfail
  split at h
  · exact absurd h hfail
  split at h
  · exact absurd h hfail
  split at h
  · exact absurd h hfail
  cases halloc : snp.allocatePages with
  | none =>
    rw [halloc] at h
    exact absurd h hfail
  | some region =>
    rw [halloc] at h
    dsimp only at h
    cases hloop : netifcOpenLoop nic region.base (numBufferPages * 2) with
    | none =>
      rw [hloop] at h
      cases h
    | some nic' =>
      rw [hloop] at h
      exact ⟨nic', (Option.some.inj h).symm⟩

/-- An interface that was opened has its filters confirmed, or is in promiscuous mode. -/
theorem netifcOpen_succeeds {snp : Snp} {nic : Nic} {st : Stack} {filters : Filters}
    {o : OpenResult} (h : netifcOpen snp nic st filters = some o) (hret : o.ret = 0) :
    ∃ first : FilterCall, first.enable = receiveUnicast ||| receiveMulticast ∧
      ((filtersConfirmed snp (ip6InitFilters snp.maxMCastFilterCount snp.currentAddress filters) =
          true ∧ o.calls = [first]) ∨
      (filtersConfirmed snp (ip6InitFilters snp.maxMCastFilterCount snp.currentAddress filters) =
          false ∧ ∃ second : FilterCall, o.calls = [first, second] ∧ second.status = 0 ∧
            second.enable =
              receiveUnicast ||| receivePromiscuous ||| receivePromiscuousMulticast)) := by
  obtain ⟨nic', ho⟩ := netifcOpen_reaches_filters h hret
  unfold openFilters at ho
  dsimp only at ho
  split at ho
  · subst ho
    cases hret
  split at ho
  · rename_i hconf
    subst ho
    exact ⟨_, rfl, .inl ⟨hconf, rfl⟩⟩
  rename_i hconf
  split at ho
  · subst ho
    cases hret
  · rename_i hprom
    subst ho
    exact ⟨_, rfl, .inr ⟨Bool.eq_false_iff.mpr hconf, _, rfl, not_not.mp hprom, rfl⟩⟩

/-! ## What is received -/

/-- A setting that lets all multicast frames through was installed. -/
def OpenResult.Promiscuous (o : OpenResult) : Prop :=
  ∃ c ∈ o.calls, c.enable &&& receivePromiscuousMulticast ≠ 0 ∧ c.status = 0

/-- The frames for neighbour discovery get through: all multicast frames do, or the two
filters are in the list that the interface reports. -/
def MulticastReceived (snp : Snp) (o : OpenResult) : Prop :=
  o.Promiscuous ∨ (snp.Reports (snmMac snp.currentAddress) ∧ snp.Reports allNodesMac)

theorem snmMac_ne_allNodesMac (mac : MacAddr) : snmMac mac ≠ allNodesMac := by
  intro h
  have hsnm : (snmMac mac)[2] = 0xFF := rfl
  have hall : allNodesMac[2] = 0 := rfl
  rw [h, hall] at hsnm
  cases hsnm

theorem not_reports_both {snp : Snp} (h : snp.mcastFilterCount.toNat ≤ 1) (mac : MacAddr) :
    ¬ (snp.Reports (snmMac mac) ∧ snp.Reports allNodesMac) := by
  rintro ⟨⟨i, hi, hsnm⟩, ⟨j, hj, hall⟩⟩
  have hij : i = j := by omega
  rw [hij, ← hall] at hsnm
  exact snmMac_ne_allNodesMac mac hsnm

/-- **After a successful open the needed multicast frames are received** if the interface has
room for two filters; otherwise exactly if its answer to the one it was given sends
`netifc_open` to the promiscuous mode. -/
theorem multicast_received_iff {snp : Snp} {nic : Nic} {st : Stack} {o : OpenResult}
    (h : netifcOpen snp nic st noFilters = some o) (hret : o.ret = 0) :
    MulticastReceived snp o ↔
      2 ≤ snp.maxMCastFilterCount.toNat ∨
        filtersConfirmed snp
          (ip6InitFilters snp.maxMCastFilterCount snp.currentAddress noFilters) = false := by
  obtain ⟨first, hfirst, ⟨hconf, hcalls⟩ | ⟨hconf, second, hcalls, hok, hsecond⟩⟩ :=
    netifcOpen_succeeds h hret
  · have hnot : ¬ o.Promiscuous := by
      rintro ⟨c, hc, hbit, -⟩
      rw [hcalls, List.mem_singleton] at hc
      rw [hc, hfirst] at hbit
      exact hbit (by decide)
    obtain ⟨hcount, hall⟩ := (confirmed_iff _ _).mp hconf
    rcases ip6InitFilters_addrs snp.maxMCastFilterCount snp.currentAddress with
      ⟨hmax, haddrs⟩ | ⟨hmax, hlen⟩
    · rw [haddrs] at hall
      refine iff_of_true (.inr ⟨?_, ?_⟩) (.inl hmax)
      · exact hall _ List.mem_cons_self
      · exact hall _ (List.mem_cons_of_mem _ List.mem_cons_self)
    · refine iff_of_false ?_ ?_
      · rintro (hprom | hboth)
        · exact hnot hprom
        · exact not_reports_both (hcount ▸ hlen) _ hboth
      · rintro (hroom | hbad)
        · omega
        · rw [hconf] at hbad
          cases hbad
  · refine iff_of_true (.inl ⟨second, ?_, ?_, hok⟩) (.inr hconf)
    · rw [hcalls]
      exact List.mem_cons_of_mem _ List.mem_cons_self
    · rw [hsecond]
      decide

/-- An interface with room for `room` filters, which reports those it was given. -/
def honestSnp (room : UInt32) : Snp where
  timer := 1
  locateHandle := 0
  openProtocol := 0
  state := .started
  startState := .started
  initStatus := 0
  allocatePages := some ⟨0x200000, by decide, by decide, by decide⟩
  currentAddress := Vector.replicate 6 2
  maxMCastFilterCount := room
  receiveFilters := 0
  mcastFilterCount := room
  mcastFilter j := if j = 0 then snmMac (Vector.replicate 6 2) else allNodesMac
  promiscuous := 0

def idleNic : Nic := ⟨fun _ => 0, 0, fun _ => true, [], []⟩

def unsetStack : Stack where
  llMacAddr := Vector.replicate 6 0
  llIp6Addr := Vector.replicate 16 0
  snmMacAddr := Vector.replicate 6 0
  snmIp6Addr := Vector.replicate 16 0
  rxMacAddr := Vector.replicate 6 0
  rxIp6Addr := Vector.replicate 16 0

theorem honest_open (room : UInt32) : ∃ nic,
    netifcOpen (honestSnp room) idleNic unsetStack noFilters =
      some (openFilters (honestSnp room) nic unsetStack noFilters) := by
  have hfresh : idleNic.Fresh := ⟨rfl, rfl⟩
  obtain ⟨nic, hloop, -⟩ :=
    netifcOpenLoop_region ⟨0x200000, by decide, by decide, by decide⟩ hfresh
  refine ⟨nic, ?_⟩
  rw [netifcOpen, if_neg (fun h => h rfl), if_neg (fun h => h rfl), if_neg (fun h => h.1 rfl),
    if_neg (fun h => h.1 rfl)]
  dsimp only [honestSnp]
  rw [hloop]

theorem multicast_received_iff_two : ∃ o,
    netifcOpen (honestSnp 2) idleNic unsetStack noFilters = some o ∧ o.ret = 0 ∧
    MulticastReceived (honestSnp 2) o := by
  obtain ⟨nic, hopen⟩ := honest_open 2
  have hret : (openFilters (honestSnp 2) nic unsetStack noFilters).ret = 0 := rfl
  exact ⟨_, hopen, hret, (multicast_received_iff hopen hret).mpr (.inl (by decide))⟩

/-- With room for one filter the interface is opened without the filter for all nodes. -/
theorem all_nodes_missed : ∃ o,
    netifcOpen (honestSnp 1) idleNic unsetStack noFilters = some o ∧ o.ret = 0 ∧
    ¬ (honestSnp 1).Reports allNodesMac ∧ ¬ MulticastReceived (honestSnp 1) o := by
  obtain ⟨nic, hopen⟩ := honest_open 1
  have hall : ¬ (honestSnp 1).Reports allNodesMac := by
    rintro ⟨j, hj, hadr⟩
    obtain rfl : j = 0 := by
      have h1 : (honestSnp 1).mcastFilterCount.toNat = 1 := rfl
      omega
    exact snmMac_ne_allNodesMac _ hadr.symm
  refine ⟨_, hopen, rfl, hall, ?_⟩
  rintro (⟨c, hc, hbit, -⟩ | hboth)
  · have hcalls : (openFilters (honestSnp 1) nic unsetStack noFilters).calls =
        [⟨receiveUnicast ||| receiveMulticast, [snmMac (Vector.replicate 6 2)], 0⟩] := rfl
    rw [hcalls, List.mem_singleton] at hc
    rw [hc] at hbit
    exact hbit (by decide)
  · exact hall hboth.2

end Gigaboot.Netifc
