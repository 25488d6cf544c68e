/-
Which addresses a list that `init` filled contains.

The entries of a device are of several families: beside the IPv4 addresses there is the
link itself, and there are the IPv6 addresses.  All of them are read as IPv4 addresses
and put into the list (`addresses_init`), and an empty list still contains its first
slot.  So the list is right about the IPv4 addresses of the device only when there is
one, and no entry reads as an address that none of them is (`contains_init_iff`).  Nothing
stops the copy at the end of the array (`isFilled_iff`).
-/
import Ntmd.Proofs.SameKey

namespace Ntmd

namespace IPList

/-- The addresses of the device's entries, each read as one of IPv4. -/
def entryAddresses (device : Bytes) (interfaces : List IfAddr) : List UInt32 :=
  interfaces.filterMap fun interface =>
    if interface.name = device then interface.addr.map (·.sinAddr) else none

/-- The IPv4 addresses of the device. -/
def inetAddresses (device : Bytes) (interfaces : List IfAddr) : List UInt32 :=
  interfaces.filterMap fun interface =>
    if interface.name = device then
      (interface.addr.filter (·.family == afInet)).map (·.sinAddr)
    else none

/-- The list is filled, and contains the IPv4 addresses of the device and no other. -/
def ContainsInet (device : Bytes) (interfaces : List IfAddr) : Prop :=
  ∃ l, init device (some interfaces) = .ok l ∧
    ∀ ip, l.contains ip = true ↔ ip ∈ inetAddresses device interfaces

/-! ### The addresses collected -/

theorem collect_perm (device : Bytes) (tmp : List UInt32) (interface : IfAddr) :
    (collect device tmp interface).Perm (entryAddresses device [interface] ++ tmp) := by
  rw [collect, entryAddresses, List.filterMap_cons, List.filterMap_nil]
  cases interface.addr with
  | none => simp
  | some addr =>
      by_cases hname : interface.name = device
      · simp only [hname, ne_eq, not_true_eq_false, if_false, if_true, Option.map_some]
        split
        · exact List.Perm.refl _
        · exact List.perm_append_comm
      · simp [hname]

/-- **None is lost or doubled**, wherever it is put. -/
theorem foldl_collect_perm (device : Bytes) : ∀ (interfaces : List IfAddr) (tmp : List UInt32),
    (interfaces.foldl (collect device) tmp).Perm (entryAddresses device interfaces ++ tmp) := by
  intro interfaces
  induction interfaces with
  | nil => intro tmp; exact List.Perm.refl _
  | cons interface interfaces ih =>
      intro tmp
      have hcons : entryAddresses device (interface :: interfaces) =
          entryAddresses device [interface] ++ entryAddresses device interfaces := by
        rw [entryAddresses, entryAddresses, entryAddresses, ← List.filterMap_append]
        rfl
      rw [List.foldl_cons, hcons]
      refine (ih _).trans (((collect_perm device tmp interface).append_left _).trans ?_)
      rw [← List.append_assoc]
      exact List.perm_append_comm.append_right tmp

/-! ### The addresses copied -/

theorem store_of_lt {l : IPList} (h : l.mSize < 64) (ip : UInt32) :
    ∃ l', l.store ip = .ok l' ∧ l'.mSize = l.mSize + 1 ∧ l'.addresses = l.addresses ++ [ip] := by
  refine ⟨_, dif_pos h, rfl, ?_⟩
  have hlen : l.mSize < (l.mIPs.toList.set l.mSize ip).length := by
    rw [List.length_set, Vector.length_toList]
    exact h
  show (l.mIPs.set l.mSize ip h).toList.take (l.mSize + 1) = l.mIPs.toList.take l.mSize ++ [ip]
  rw [Vector.toList_set, List.take_succ_eq_append_getElem hlen, List.getElem_set_self,
    List.take_set_of_le (Nat.le_refl _)]

/-- The copy succeeds while there are slots. -/
theorem foldlM_store : ∀ (tmp : List UInt32) {l : IPList}, l.mSize + tmp.length ≤ 64 →
    ∃ l', tmp.foldlM store l = .ok l' ∧ l'.mSize = l.mSize + tmp.length ∧
      l'.addresses = l.addresses ++ tmp := by
  intro tmp
  induction tmp with
  | nil => intro l _; exact ⟨l, rfl, rfl, (List.append_nil _).symm⟩
  | cons ip tmp ih =>
      intro l h
      rw [List.length_cons] at h
      obtain ⟨l₁, hstore, hsize, haddresses⟩ := store_of_lt (l := l) (by omega) ip
      obtain ⟨l', hfold, hsize', haddresses'⟩ := ih (l := l₁) (by omega)
      refine ⟨l', ?_, by rw [hsize', hsize, List.length_cons]; omega, ?_⟩
      · rw [List.foldlM_cons, hstore]
        exact hfold
      · rw [haddresses', haddresses, List.append_assoc]
        rfl

/-- Without a slot for each address the copy goes on past the end of the array. -/
theorem foldlM_store_overflow : ∀ {tmp : List UInt32} {l : IPList}, 64 < l.mSize + tmp.length →
    tmp.foldlM store l = .error .overflow := by
  intro tmp
  induction tmp with
  | nil => intro l h; exact absurd l.size_le (Nat.not_le.mpr h)
  | cons ip tmp ih =>
      intro l h
      rw [List.length_cons] at h
      rw [List.foldlM_cons]
      by_cases hroom : l.mSize < 64
      · obtain ⟨l₁, hstore, hsize, -⟩ := store_of_lt hroom ip
        rw [hstore]
        exact ih (by omega)
      · rw [store, dif_neg hroom]
        rfl

/-- **The list holds the addresses of the device's entries**, in some order. -/
theorem addresses_init {device : Bytes} {interfaces : List IfAddr}
    (h : (entryAddresses device interfaces).length ≤ 64) :
    ∃ l, init device (some interfaces) = .ok l ∧
      l.mSize = (entryAddresses device interfaces).length ∧
      l.addresses.Perm (entryAddresses device interfaces) := by
  have hperm := foldl_collect_perm device interfaces []
  rw [List.append_nil] at hperm
  have hroom : ({} : IPList).mSize + (interfaces.foldl (collect device) []).length ≤ 64 := by
    rw [hperm.length_eq]
    show 0 + _ ≤ 64
    omega
  obtain ⟨l, hfold, hsize, haddresses⟩ := foldlM_store _ hroom
  refine ⟨l, hfold, ?_, ?_⟩
  · rw [hsize, hperm.length_eq]
    exact Nat.zero_add _
  · rw [haddresses]
    exact hperm

theorem init_overflow {device : Bytes} {interfaces : List IfAddr}
    (h : 64 < (entryAddresses device interfaces).length) :
    init device (some interfaces) = .error .overflow := by
  have hperm := foldl_collect_perm device interfaces []
  rw [List.append_nil] at hperm
  refine foldlM_store_overflow ?_
  rw [hperm.length_eq]
  exact Nat.lt_add_left _ h

/-- The array is filled inside its bounds, with the addresses of the device and in some order. -/
def IsFilled (device : Bytes) (interfaces : List IfAddr) : Prop :=
  ∃ l, init device (some interfaces) = .ok l ∧
    l.mSize = (entryAddresses device interfaces).length ∧
    l.addresses.Perm (entryAddresses device interfaces)

/-- **The array is written inside its bounds** exactly if it has a slot for each address. -/
theorem isFilled_iff (device : Bytes) (interfaces : List IfAddr) :
    IsFilled device interfaces ↔ (entryAddresses device interfaces).length ≤ 64 := by
  constructor
  · rintro ⟨l, hinit, -⟩
    by_contra hlarge
    rw [init_overflow (Nat.lt_of_not_le hlarge)] at hinit
    exact absurd hinit (by simp)
  · exact addresses_init

/-- A device with sixty-five addresses, as containers or aliases make them. -/
theorem not_isFilled_aliases :
    ¬ IsFilled (Bytes.ascii "eth0")
        (List.replicate 65 ⟨Bytes.ascii "eth0", some ⟨afInet, localEnd.ip⟩⟩) ∧
      init (Bytes.ascii "eth0")
        (some (List.replicate 65 ⟨Bytes.ascii "eth0", some ⟨afInet, localEnd.ip⟩⟩)) =
          .error .overflow := by
  have hlength : (entryAddresses (Bytes.ascii "eth0")
      (List.replicate 65 ⟨Bytes.ascii "eth0", some ⟨afInet, localEnd.ip⟩⟩)).length = 65 := by
    decide +kernel
  have hoverflow := init_overflow (Nat.lt_of_lt_of_eq (by decide : 64 < 65) hlength.symm)
  refine ⟨?_, hoverflow⟩
  rintro ⟨l, hinit, -⟩
  rw [hoverflow] at hinit
  exact absurd hinit (by simp)

/-- Without an entry the list stays as it was made, and contains its first slot all the same. -/
theorem contains_zero_of_no_entry {device : Bytes} {interfaces : List IfAddr}
    (h : entryAddresses device interfaces = []) :
    ∃ l, init device (some interfaces) = .ok l ∧ l.contains 0 = true := by
  have hperm := foldl_collect_perm device interfaces []
  rw [h, List.append_nil] at hperm
  refine ⟨{}, ?_, by decide⟩
  rw [init]
  simp only [hperm.eq_nil]
  rfl

theorem inetAddresses_subset {device : Bytes} {interfaces : List IfAddr} {ip : UInt32}
    (h : ip ∈ inetAddresses device interfaces) : ip ∈ entryAddresses device interfaces := by
  obtain ⟨interface, hmem, heq⟩ := List.mem_filterMap.mp h
  refine List.mem_filterMap.mpr ⟨interface, hmem, ?_⟩
  split at heq
  · rename_i hname
    obtain ⟨addr, haddr, rfl⟩ := Option.map_eq_some_iff.mp heq
    rw [if_pos hname, (Option.filter_eq_some_iff.mp haddr).1]
    rfl
  · exact absurd heq (by simp)

/-- **When the list contains the IPv4 addresses of the device and no other.** -/
theorem contains_init_iff (device : Bytes) (interfaces : List IfAddr)
    (h : (entryAddresses device interfaces).length ≤ 64) :
    ContainsInet device interfaces ↔
      inetAddresses device interfaces ≠ [] ∧
        ∀ ip ∈ entryAddresses device interfaces, ip ∈ inetAddresses device interfaces := by
  obtain ⟨l, hinit, hsize, hperm⟩ := addresses_init h
  have hinet : ContainsInet device interfaces ↔
      ∀ ip, l.contains ip = true ↔ ip ∈ inetAddresses device interfaces := by
    constructor
    · rintro ⟨l', hinit', hcontains⟩
      obtain rfl : l' = l := Except.ok.inj (hinit'.symm.trans hinit)
      exact hcontains
    · exact fun hcontains => ⟨l, hinit, hcontains⟩
  rw [hinet]
  by_cases hsome : 0 < l.mSize
  · have hmem : ∀ ip, l.contains ip = true ↔ ip ∈ entryAddresses device interfaces := fun ip =>
      (contains_iff hsome ip).trans hperm.mem_iff
    constructor
    · intro hcontains
      refine ⟨fun hnil => ?_, fun ip hip => (hcontains ip).mp ((hmem ip).mpr hip)⟩
      obtain ⟨ip, hip⟩ := List.exists_mem_of_length_pos (hsize ▸ hsome)
      rw [← hmem, hcontains, hnil] at hip
      exact absurd hip (by simp)
    · rintro ⟨-, hall⟩ ip
      rw [hmem]
      exact ⟨hall ip, inetAddresses_subset⟩
  · have hnil : entryAddresses device interfaces = [] :=
      List.eq_nil_of_length_eq_zero (by omega)
    have hinetnil : inetAddresses device interfaces = [] :=
      List.eq_nil_iff_forall_not_mem.mpr fun ip hip => by
        have := inetAddresses_subset hip
        rw [hnil] at this
        exact absurd this (by simp)
    refine iff_of_false (fun hcontains => ?_) fun hne => hne.1 hinetnil
    obtain ⟨l', hinit', hzero⟩ := contains_zero_of_no_entry hnil
    obtain rfl : l' = l := Except.ok.inj (hinit'.symm.trans hinit)
    rw [hcontains, hinetnil] at hzero
    exact absurd hzero (by simp)

/-- A device of three entries: the link, whose index stands where an address would, and the two
addresses 192.168.0.2 and fe80::1. -/
def eth0 : List IfAddr :=
  [⟨Bytes.ascii "eth0", some ⟨17, 2⟩⟩, ⟨Bytes.ascii "eth0", some ⟨afInet, localEnd.ip⟩⟩,
   ⟨Bytes.ascii "eth0", some ⟨10, 0⟩⟩]

/-- The device `tun0` has its IPv4 address alone. -/
theorem containsInet_tun0 :
    ContainsInet (Bytes.ascii "tun0") (⟨Bytes.ascii "tun0", some ⟨afInet, localEnd.ip⟩⟩ :: eth0) :=
  (contains_init_iff (Bytes.ascii "tun0") _ (by decide)).mpr ⟨by decide, fun _ hip => hip⟩

/-- The index of the link and the flow of the IPv6 address count as addresses of the device. -/
theorem not_containsInet_eth0 :
    ¬ ContainsInet (Bytes.ascii "eth0") eth0 ∧
      ∃ l, init (Bytes.ascii "eth0") (some eth0) = .ok l ∧ l.contains 0 = true := by
  have hinit : ∃ l, init (Bytes.ascii "eth0") (some eth0) = .ok l ∧ l.contains 0 = true :=
    ⟨_, rfl, by decide⟩
  refine ⟨?_, hinit⟩
  rintro ⟨l, hl, hcontains⟩
  obtain ⟨l', hl', hzero⟩ := hinit
  obtain rfl : l' = l := Except.ok.inj (hl'.symm.trans hl)
  exact absurd ((hcontains 0).mp hzero) (by decide)

end IPList

end Ntmd
