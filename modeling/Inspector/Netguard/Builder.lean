import Mathlib.Data.List.Sort
import Inspector.Netguard.IPUtil

namespace inspector.netguard

def ip (a b c d : BitVec 8) : InetAddress := a ++ b ++ c ++ d

/-- An IPv4 address of a network interface that is up. -/
structure InterfaceAddress where
  address : InetAddress
  networkPrefixLength : Nat
  one_le : 1 ≤ networkPrefixLength
  le : networkPrefixLength ≤ 32

/-- What `getBuilder` finds out about the device: its IPv4 DNS servers, its IPv4 addresses,
and its country and network codes. -/
structure Device where
  dns : List InetAddress
  interfaces : List InterfaceAddress
  mcc : Nat
  mnc : Nat

namespace Device

variable (device : Device)

def tMobile : Bool :=
  device.mcc = 310 && device.mnc ∈ [160, 200, 210, 220, 230, 240, 250, 260, 270, 310, 490, 660, 800]

def verizon : Bool :=
  (device.mcc = 310 && device.mnc ∈ [4, 5, 6, 10, 12, 13, 350, 590, 820, 890, 910]) ||
  (device.mcc = 311 && (device.mnc = 12 || device.mnc = 110 || (270 ≤ device.mnc && device.mnc ≤ 289) ||
    device.mnc = 390 || (480 ≤ device.mnc && device.mnc ≤ 489) || device.mnc = 590)) ||
  (device.mcc = 312 && device.mnc = 770)

def tMobileExcludes : List CIDR :=
  [⟨ip 66 94 2 0, 24⟩, ⟨ip 66 94 6 0, 23⟩, ⟨ip 66 94 8 0, 22⟩, ⟨ip 208 54 0 0, 16⟩]

def verizonExcludes : List CIDR :=
  [⟨ip 66 174 0 0, 16⟩, ⟨ip 66 82 0 0, 15⟩, ⟨ip 69 96 0 0, 13⟩, ⟨ip 70 192 0 0, 11⟩, ⟨ip 97 128 0 0, 9⟩,
    ⟨ip 174 192 0 0, 9⟩, ⟨ip 72 96 0 0, 9⟩, ⟨ip 75 192 0 0, 9⟩, ⟨ip 97 0 0 0, 10⟩]

def listExclude : List CIDR :=
  device.dns.map (fun dns => ⟨dns, 24⟩) ++
  [⟨ip 127 0 0 0, 8⟩, ⟨ip 192 168 42 0, 23⟩, ⟨ip 192 168 49 0, 24⟩] ++
  device.interfaces.map (fun ia => ⟨ia.address, ia.networkPrefixLength⟩) ++
  (if device.tMobile then tMobileExcludes else []) ++
  (if device.verizon then verizonExcludes else []) ++
  [⟨ip 224 0 0 0, 3⟩]

/-- The excludes in the order of their addresses, as a stable sort leaves them. -/
def sorted : List CIDR :=
  device.listExclude.insertionSort fun c other => inet2long c.address ≤ inet2long other.address

/-- The loop over the excludes. -/
def routeLoop : InetAddress → List CIDR → List CIDR
  | _, [] => []
  | start, exclude :: rest => toCIDR start (minus1 exclude.getStart) ++ routeLoop (plus1 exclude.getEnd) rest

/-- The IPv4 routes that are added. -/
def routes : List CIDR :=
  routeLoop (ip 0 0 0 0) device.sorted ++ toCIDR (ip 224 0 0 0) (ip 255 255 255 255)

/-- Whether an address is in an excluded range. -/
def Excluded (a : InetAddress) : Prop := ∃ c ∈ device.listExclude, c.Contains a

/-- The routes are the complement of the excludes below 224.0.0.0, and all from there on. -/
structure Complement : Prop where
  disjoint : device.routes.Pairwise Apart
  union : ∀ a, (∃ c ∈ device.routes, c.Contains a) ↔
    inet2long a < inet2long (ip 224 0 0 0) ∧ ¬ device.Excluded a ∨ inet2long (ip 224 0 0 0) ≤ inet2long a

theorem prefixLength_of_mem {c : CIDR} (hc : c ∈ device.listExclude) : 1 ≤ c.prefixLength ∧ c.prefixLength ≤ 32 := by
  have htMobile : ∀ c ∈ tMobileExcludes, 1 ≤ c.prefixLength ∧ c.prefixLength ≤ 32 := by decide
  have hverizon : ∀ c ∈ verizonExcludes, 1 ≤ c.prefixLength ∧ c.prefixLength ≤ 32 := by decide
  simp only [listExclude, List.mem_append, List.mem_map, or_assoc] at hc
  rcases hc with ⟨dns, -, rfl⟩ | hfixed | ⟨ia, -, rfl⟩ | hcarrier | hcarrier | hlast
  · dsimp only
    omega
  · revert c
    decide
  · exact ⟨ia.one_le, ia.le⟩
  · split at hcarrier
    · exact htMobile c hcarrier
    · cases hcarrier
  · split at hcarrier
    · exact hverizon c hcarrier
    · cases hcarrier
  · revert c
    decide

end Device

end inspector.netguard
