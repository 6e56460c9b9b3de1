import Inspector.Base.Gaps
import Inspector.Netguard.Builder

open sweep

namespace inspector.netguard

/-- The ranges of the excludes, which are sorted by their addresses. -/
def cidrs : Ranges CIDR where
  first := fun c => inet2long c.getStart
  key := fun c => inet2long c.address
  last := fun c => inet2long c.getEnd
  n := 2 ^ 32

namespace CIDR

variable {c : CIDR} (hc : c.prefixLength ≤ 32)

include hc

/-- The address of a block lies in it. -/
theorem contains_address : c.Contains c.address := by
  have hpos := Nat.two_pow_pos (32 - c.prefixLength)
  have hdiv := Nat.div_add_mod (inet2long c.address) (2 ^ (32 - c.prefixLength))
  have hmod := Nat.mod_lt (inet2long c.address) hpos
  rw [Nat.mul_comm, ← inet2long_getStart hc] at hdiv
  rw [Contains, inet2long_getEnd hc]
  omega

/-- A block of at most half the addresses lies in one half. -/
theorem half_le (hone : 1 ≤ c.prefixLength) (hend : 2 ^ 31 ≤ inet2long c.getEnd) : 2 ^ 31 ≤ inet2long c.getStart := by
  have hsplit : 2 ^ (c.prefixLength - 1) * 2 ^ (32 - c.prefixLength) = 2 ^ 31 := by
    rw [← Nat.pow_add]
    congr 1
    omega
  have hpos := Nat.two_pow_pos (32 - c.prefixLength)
  rw [inet2long_getEnd hc, inet2long_getStart hc] at hend
  rw [inet2long_getStart hc, ← hsplit]
  apply Nat.mul_le_mul_right
  by_contra hlt
  have hle := Nat.mul_le_mul_right (2 ^ (32 - c.prefixLength)) (Nat.lt_of_not_le hlt)
  rw [hsplit, Nat.succ_mul] at hle
  omega

end CIDR

/-- The routes of the loop are those of the gaps between the excludes. -/
theorem exists_mem_routeLoop (start : InetAddress) (excludes : List CIDR) (a : InetAddress) :
    (∃ c ∈ Device.routeLoop start excludes, c.Contains a) ↔
      ∃ g ∈ cidrs.gaps (inet2long start) excludes, g.1 ≤ inet2long a ∧ inet2long a ≤ g.2 := by
  induction excludes generalizing start with
  | nil => simp [Device.routeLoop, Ranges.gaps]
  | cons exclude rest ih =>
    rw [Device.routeLoop, Ranges.gaps, List.exists_mem_cons_iff]
    simp only [List.mem_append, or_and_right, exists_or]
    rw [exists_mem_toCIDR, ih, inet2long_minus1, inet2long_plus1]
    rfl

/-- Routes are disjoint where the gaps are. -/
theorem pairwise_routeLoop {start : InetAddress} {excludes : List CIDR}
    (hgaps : (cidrs.gaps (inet2long start) excludes).Pairwise fun g g' => g.2 < g'.1) :
    (Device.routeLoop start excludes).Pairwise Apart := by
  induction excludes generalizing start with
  | nil => exact List.Pairwise.nil
  | cons exclude rest ih =>
    rw [Ranges.gaps, List.pairwise_cons] at hgaps
    obtain ⟨hfirst, hrest⟩ := hgaps
    rw [show (cidrs.last exclude + 1) % cidrs.n = inet2long (plus1 exclude.getEnd) from
      (inet2long_plus1 exclude.getEnd).symm] at hfirst hrest
    rw [Device.routeLoop, List.pairwise_append]
    refine ⟨pairwise_toCIDR _ _, ih hrest, fun c hc c' hc' a ha ha' => ?_⟩
    have hgap := (exists_mem_toCIDR _ _ a).mp ⟨c, hc, ha⟩
    obtain ⟨g, hg, hfrom, -⟩ := (exists_mem_routeLoop _ _ a).mp ⟨c', hc', ha'⟩
    have hless := hfirst g hg
    rw [show cidrs.first exclude + (cidrs.n - 1) = inet2long exclude.getStart + (2 ^ 32 - 1) from rfl] at hless
    rw [inet2long_minus1] at hgap
    exact absurd (Nat.le_trans hfrom hgap.2) (Nat.not_le_of_lt hless)

namespace Device

variable (device : Device)

theorem mem_sorted {c : CIDR} : c ∈ device.sorted ↔ c ∈ device.listExclude := List.mem_insertionSort _

theorem sorted_ranges : cidrs.Sorted device.sorted where
  first_le := fun _ hc => (CIDR.contains_address (device.prefixLength_of_mem (device.mem_sorted.mp hc)).2).1
  key_le := fun _ hc => (CIDR.contains_address (device.prefixLength_of_mem (device.mem_sorted.mp hc)).2).2
  last_lt := fun c _ => inet2long_lt c.getEnd
  sorted := List.pairwise_insertionSort _ _

theorem covered_iff (a : InetAddress) : cidrs.Covered device.sorted (inet2long a) ↔ device.Excluded a := by
  constructor
  · rintro ⟨c, hc, ha⟩
    exact ⟨c, device.mem_sorted.mp hc, ha⟩
  · rintro ⟨c, hc, ha⟩
    exact ⟨c, device.mem_sorted.mpr hc, ha⟩

/-- Wherever there is room between two excludes that follow each other in the order of their
addresses, neither the address after the end of the first nor the one before the start of
the second is excluded; the address before the first exclude is not excluded either. No
exclude starts at 0.0.0.0, and none follows one that ends at 255.255.255.255. -/
def ClearRoom : Prop := cidrs.Clear device.sorted

theorem localhost_mem : (⟨ip 127 0 0 0, 8⟩ : CIDR) ∈ device.listExclude := by simp [listExclude]

theorem broadcast_mem : (⟨ip 224 0 0 0, 3⟩ : CIDR) ∈ device.listExclude := by simp [listExclude]

/-- The routes that are added before the last ones are those of the gaps. -/
theorem exists_mem_routes (a : InetAddress) : (∃ c ∈ device.routes, c.Contains a) ↔
    (∃ g ∈ cidrs.gaps 0 device.sorted, g.1 ≤ inet2long a ∧ inet2long a ≤ g.2) ∨
      inet2long (ip 224 0 0 0) ≤ inet2long a := by
  have hle : inet2long a ≤ inet2long (ip 255 255 255 255) := Nat.le_of_lt_succ (inet2long_lt a)
  rw [routes]
  simp only [List.mem_append, or_and_right, exists_or]
  rw [exists_mem_toCIDR, exists_mem_routeLoop, and_iff_left hle]
  rfl

/-- An address that is not excluded is in a gap. -/
theorem exists_gap {a : InetAddress} (ha : inet2long a < inet2long (ip 224 0 0 0)) (hnot : ¬ device.Excluded a) :
    ∃ g ∈ cidrs.gaps 0 device.sorted, g.1 ≤ inet2long a ∧ inet2long a ≤ g.2 := by
  refine Ranges.exists_gap device.sorted_ranges (Nat.zero_le _) (fun h => hnot ((device.covered_iff a).mp h)) ?_
  exact ⟨_, device.mem_sorted.mpr device.broadcast_mem, ha⟩

theorem complement_of_clearRoom (hclear : device.ClearRoom) : device.Complement := by
  have hbelow : ∀ a, (∃ g ∈ cidrs.gaps 0 device.sorted, g.1 ≤ inet2long a ∧ inet2long a ≤ g.2) →
      inet2long a < inet2long (ip 224 0 0 0) ∧ ¬ device.Excluded a := by
    rintro a ⟨g, hg, hfrom, hto⟩
    have hnot := hclear.not_covered device.sorted_ranges hg hfrom hto
    rw [covered_iff] at hnot
    refine ⟨?_, hnot⟩
    by_contra hle
    exact hnot ⟨_, device.broadcast_mem, Nat.le_of_not_lt hle, Nat.le_of_lt_succ (inet2long_lt a)⟩
  constructor
  · rw [routes, List.pairwise_append]
    refine ⟨pairwise_routeLoop (hclear.pairwise device.sorted_ranges), pairwise_toCIDR _ _, ?_⟩
    intro c hc c' hc' a ha ha'
    have hgap := (exists_mem_routeLoop _ _ a).mp ⟨c, hc, ha⟩
    have hlast := (exists_mem_toCIDR _ _ a).mp ⟨c', hc', ha'⟩
    exact absurd hlast.1 (Nat.not_le_of_lt (hbelow a hgap).1)
  · intro a
    rw [exists_mem_routes]
    refine or_congr_left ⟨hbelow a, ?_⟩
    rintro ⟨ha, hnot⟩
    exact device.exists_gap ha hnot

theorem clearRoom_of_complement (hcomplement : device.Complement) : device.ClearRoom := by
  have hlow : cidrs.Covered device.sorted (inet2long (ip 127 0 0 0)) :=
    (device.covered_iff _).mpr ⟨_, device.localhost_mem, CIDR.contains_address (by decide)⟩
  have htop : cidrs.Covered device.sorted (inet2long (ip 255 255 255 255)) :=
    (device.covered_iff _).mpr ⟨_, device.broadcast_mem, by decide, by decide⟩
  refine Ranges.clear_of_not_covered (2 ^ 31) device.sorted_ranges htop hlow (by decide) (by decide) ?_ ?_
  · intro c hc hend
    obtain ⟨hone, hle⟩ := device.prefixLength_of_mem (device.mem_sorted.mp hc)
    exact CIDR.half_le hle hone hend
  · intro g hg n hfrom hto hcovered
    have hlast : n < 2 ^ 32 := by
      obtain ⟨exclude, -, -, hend⟩ := hcovered
      exact Nat.lt_of_le_of_lt hend (inet2long_lt exclude.getEnd)
    have hn : inet2long (long2inet n) = n := inet2long_long2inet hlast
    rw [← hn] at hcovered hfrom hto
    have hgap : ∃ c ∈ routeLoop (ip 0 0 0 0) device.sorted, c.Contains (long2inet n) :=
      (exists_mem_routeLoop _ _ _).mpr ⟨g, hg, hfrom, hto⟩
    obtain ⟨c, hc, ha⟩ := hgap
    rcases (hcomplement.union _).mp ⟨c, List.mem_append_left _ hc, ha⟩ with ⟨-, hnot⟩ | hle
    · exact hnot ((device.covered_iff _).mp hcovered)
    · obtain ⟨c', hc', ha'⟩ : ∃ c' ∈ toCIDR (ip 224 0 0 0) (ip 255 255 255 255), c'.Contains (long2inet n) :=
        (exists_mem_toCIDR _ _ _).mpr ⟨hle, Nat.le_of_lt_succ (inet2long_lt _)⟩
      exact (List.pairwise_append.mp hcomplement.disjoint).2.2 c hc c' hc' _ ha ha'

/-- The routes are the complement of the excludes exactly when there is clear room between
the excludes. -/
theorem complement_iff : device.Complement ↔ device.ClearRoom :=
  ⟨device.clearRoom_of_complement, device.complement_of_clearRoom⟩

/-- A device in a local network, with a DNS server elsewhere. -/
example : Complement {
    dns := [ip 8 8 8 8]
    interfaces := [⟨ip 192 168 1 5, 24, by decide, by decide⟩]
    mcc := 262
    mnc := 1 } := by
  refine complement_of_clearRoom _ ⟨?_, ?_, ?_⟩
  · decide +kernel
  · decide +kernel
  · decide +kernel

/-- A device with the DNS server 192.168.42.129, which is in the range for USB tethering. -/
def tethered : Device := { dns := [ip 192 168 42 129], interfaces := [], mcc := 262, mnc := 1 }

/-- There is a route for the address 192.168.43.1, although it is excluded. -/
theorem excluded_address_routed : tethered.Excluded (ip 192 168 43 1) ∧
    (∃ c ∈ tethered.routes, c.Contains (ip 192 168 43 1)) ∧ ¬ tethered.Complement := by
  have hexcluded : tethered.Excluded (ip 192 168 43 1) := by
    refine ⟨⟨ip 192 168 42 0, 23⟩, ?_, by decide, by decide⟩
    simp [listExclude]
  have hgap : ∃ g ∈ cidrs.gaps 0 tethered.sorted,
      g.1 ≤ inet2long (ip 192 168 43 1) ∧ inet2long (ip 192 168 43 1) ≤ g.2 := by
    decide +kernel
  have hrouted : ∃ c ∈ tethered.routes, c.Contains (ip 192 168 43 1) :=
    (tethered.exists_mem_routes _).mpr (Or.inl hgap)
  refine ⟨hexcluded, hrouted, fun hcomplement => ?_⟩
  rcases (hcomplement.union _).mp hrouted with ⟨-, hnot⟩ | hle
  · exact hnot hexcluded
  · exact absurd hle (by decide)

end Device

end inspector.netguard
