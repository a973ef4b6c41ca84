import Mathlib.Data.List.Pairwise
import Mathlib.Order.MinMax
import Mathlib.Tactic.Common

/-! Which addresses `plumgrid_plugin.py` gives to the ports of a subnet. Addresses are the numbers
that `netaddr` has for them. -/
namespace CompassAdapters.Plumgrid

/-- The addresses of a network, `first` and `last` included. -/
structure IPNetwork where
  first : ℤ
  last : ℤ
  nonneg : 0 ≤ first
  le : first ≤ last

structure Pool where
  start : ℤ
  stop : ℤ
  deriving DecidableEq, Repr

/-- `gateway_ip` of a request: left out, without a gateway, or an address. -/
inductive GatewayIp
  | notSpecified
  | absent
  | address (ip : ℤ)
  deriving DecidableEq, Repr

/-- What a request says of a subnet; `none` for pools that are left out. -/
structure Subnet where
  cidr : IPNetwork
  gateway_ip : GatewayIp
  allocation_pools : Option (List Pool)

/-- `subnet['gateway_ip'] or net.last` -/
def boundary (net : IPNetwork) : GatewayIp → ℤ
  | .address ip => ip
  | _ => net.last

/-- `_allocate_pools_for_subnet` -/
def allocatePoolsForSubnet (net : IPNetwork) (gateway_ip : GatewayIp) : List Pool :=
  let potential_dhcp_ip := net.first + 1
  let (first_ip, boundary) :=
    if boundary net gateway_ip = potential_dhcp_ip then (net.first + 3, net.first + 2)
    else (net.first + 2, boundary net gateway_ip)
  let last_ip := net.last - 1
  let split_ip := min (max boundary net.first) net.last
  (if split_ip > first_ip then [⟨first_ip, split_ip - 1⟩] else []) ++
    (if split_ip < last_ip then [⟨split_ip + 1, last_ip⟩] else [])

/-- The gateway in `create_subnet`: `none` when the address that it should get is negative. -/
def withGateway (s : Subnet) : Option Subnet :=
  if s.gateway_ip = .notSpecified then
    if 0 ≤ s.cidr.last - 1 then some { s with gateway_ip := .address (s.cidr.last - 1) }
    else none
  else some s

def withPools (s : Subnet) : Subnet :=
  if s.allocation_pools = none then
    { s with allocation_pools := some (allocatePoolsForSubnet s.cidr s.gateway_ip) }
  else s

/-- What `create_subnet` puts into the database. -/
def withDefaults (s : Subnet) : Option Subnet := (withGateway s).map withPools

/-- An address is in one of some pools. -/
def InPools (pools : List Pool) (x : ℤ) : Prop := ∃ p ∈ pools, p.start ≤ x ∧ x ≤ p.stop

section Allocate

variable (net : IPNetwork) (gateway_ip : GatewayIp)

/-- The first address that the pools may have. -/
def lowest : ℤ :=
  if boundary net gateway_ip ≤ net.first then net.first + 1
  else if boundary net gateway_ip = net.first + 1 then net.first + 3
  else net.first + 2

theorem inPools_pair {a b c d x : ℤ} {p q : Prop} [Decidable p] [Decidable q] :
    InPools ((if p then [⟨a, b⟩] else []) ++ (if q then [⟨c, d⟩] else [])) x ↔
      (p ∧ a ≤ x ∧ x ≤ b) ∨ (q ∧ c ≤ x ∧ x ≤ d) := by
  by_cases hp : p <;> by_cases hq : q <;> simp [InPools, hp, hq]

/-- The addresses of the pools: those from the lowest one on, without the gateway and the last address
of the network. -/
theorem inPools_allocate (x : ℤ) : InPools (allocatePoolsForSubnet net gateway_ip) x ↔
    lowest net gateway_ip ≤ x ∧ x < net.last ∧ x ≠ boundary net gateway_ip := by
  have hle := net.le
  rw [allocatePoolsForSubnet, lowest]
  generalize boundary net gateway_ip = b
  by_cases hdhcp : b = net.first + 1
  · simp only [if_pos hdhcp, inPools_pair]
    omega
  · simp only [if_neg hdhcp, inPools_pair]
    split <;> omega

/-- The pools lie inside the network, one after another. -/
theorem pools_apart : (∀ p ∈ allocatePoolsForSubnet net gateway_ip,
      net.first < p.start ∧ p.start ≤ p.stop ∧ p.stop < net.last) ∧
    (allocatePoolsForSubnet net gateway_ip).Pairwise fun p q => p.stop < q.start := by
  have hle := net.le
  rw [allocatePoolsForSubnet]
  generalize boundary net gateway_ip = b
  generalize hpair : (if b = net.first + 1 then (net.first + 3, net.first + 2)
    else (net.first + 2, b)) = pair
  have hfirst : net.first + 2 ≤ pair.1 := by
    rw [← hpair]
    split <;> simp
  generalize hsplit : min (max pair.2 net.first) net.last = split_ip
  have hlow : net.first ≤ split_ip := by omega
  simp only [hsplit]
  by_cases hp : split_ip > pair.1 <;> by_cases hq : split_ip < net.last - 1 <;>
    simp [hp, hq] <;> omega

end Allocate

section Create

variable {s t : Subnet}

/-- Only a request may put the gateway before the address that the DHCP server gets. -/
theorem withDefaults_cases (h : withDefaults s = some t) (hpools : s.allocation_pools = none) :
    t.allocation_pools = some (allocatePoolsForSubnet s.cidr t.gateway_ip) ∧
      (s.gateway_ip ≠ .notSpecified ∧ t.gateway_ip = s.gateway_ip ∨
        s.gateway_ip = .notSpecified ∧ t.gateway_ip = .address (s.cidr.last - 1)) := by
  obtain ⟨u, hu, rfl⟩ := Option.map_eq_some_iff.mp h
  rw [withGateway] at hu
  split at hu
  next hgateway =>
    split at hu
    next =>
      obtain rfl := Option.some.inj hu
      exact ⟨by simp [withPools, hpools], Or.inr ⟨hgateway, by simp [withPools, hpools]⟩⟩
    next => cases hu
  next hgateway =>
    obtain rfl := Option.some.inj hu
    exact ⟨by simp [withPools, hpools], Or.inl ⟨hgateway, by simp [withPools, hpools]⟩⟩

/-- The pools of a new subnet are apart and inside the network. They have every address between the
lowest one and the last one of the network but the gateway, and so the one of the DHCP server just
when the request puts the gateway at or before the address of the network. -/
theorem createSubnet_pools (h : withDefaults s = some t) (hpools : s.allocation_pools = none) :
    ∃ pools, t.allocation_pools = some pools ∧
      (∀ p ∈ pools, s.cidr.first < p.start ∧ p.start ≤ p.stop ∧ p.stop < s.cidr.last) ∧
      pools.Pairwise (fun p q => p.stop < q.start) ∧
      (∀ x, InPools pools x ↔ lowest s.cidr t.gateway_ip ≤ x ∧ x < s.cidr.last ∧
        x ≠ boundary s.cidr t.gateway_ip) ∧
      (InPools pools (s.cidr.first + 1) ↔ ∃ ip, s.gateway_ip = .address ip ∧
        ip ≤ s.cidr.first ∧ s.cidr.first + 1 < s.cidr.last) := by
  obtain ⟨hallocated, hgateway⟩ := withDefaults_cases h hpools
  obtain ⟨hinside, hpairs⟩ := pools_apart s.cidr t.gateway_ip
  refine ⟨_, hallocated, hinside, hpairs, inPools_allocate s.cidr t.gateway_ip, ?_⟩
  have hlowest : lowest s.cidr t.gateway_ip ≤ s.cidr.first + 1 ↔
      boundary s.cidr t.gateway_ip ≤ s.cidr.first := by
    rw [lowest]
    split
    next hle => simp [hle]
    next => split <;> omega
  rw [inPools_allocate, hlowest]
  rcases hgateway with ⟨hgiven, hsame⟩ | ⟨hnone, hlast⟩
  · rw [hsame]
    cases hip : s.gateway_ip with
    | notSpecified => exact absurd hip hgiven
    | absent => simp [boundary]; omega
    | address ip => simp [boundary]; omega
  · rw [hlast, hnone]
    simp [boundary]
    omega

/-- 10.0.0.0/24, with the gateway left out. -/
def smallSubnet : Subnet := ⟨⟨167772160, 167772415, by decide, by decide⟩, .notSpecified, none⟩

theorem createSubnet_pools_smallSubnet : ∃ t pools, withDefaults smallSubnet = some t ∧
    t.allocation_pools = some pools ∧ ¬ InPools pools 167772161 ∧ InPools pools 167772162 := by
  obtain ⟨pools, hpools, -, -, hmem, hdhcp⟩ := createSubnet_pools (s := smallSubnet)
    (t := withPools { smallSubnet with gateway_ip := .address 167772414 }) rfl rfl
  refine ⟨_, pools, rfl, hpools, fun h => ?_, (hmem _).mpr (by decide)⟩
  obtain ⟨ip, hip, -⟩ := hdhcp.mp h
  cases hip

end Create

end CompassAdapters.Plumgrid
