import CompassAdapters.Network.StaticRoutes
import Mathlib.Order.CompletePartialOrder

/-! The lines that `preseed_post_install_network_config` writes to `/etc/network/interfaces` for
each interface of the configuration, and the default routes in them. -/
namespace CompassAdapters.Network
open Effects Python

namespace Preseed

/-- The variables of the system that the loop reads. -/
structure Settings where
  promisc_nics : String
  gateway : String
  name_servers : List String
  name_servers_search : List String

def promiscInterfaces (promisc_nics : String) : List String :=
  if promisc_nics ≠ "" then
    ((split ',' promisc_nics).filter fun promisc => strip promisc ≠ "").map strip
  else []

inductive Line
  | plain (text : String)
  /-- The script writes it if it has found an address. -/
  | hwaddress
  | ifGateway (if_gateway : String)
  /-- The default route from the gateway of the system. -/
  | gateway (gateway : String)
  deriving DecidableEq, Repr

def isSlave (i : InterfaceData) : Bool :=
  lower i.interface_type ∈ ["slave", "bond_slave", "bridge_slave", "bonded_bridge_slave"]

def isStatic (i : InterfaceData) : Bool := i.static || isSlave i

/-- `key=value` for each of the options. -/
def optionLines (start opts : String) : Except Error (List Line) :=
  if opts ≠ "" then
    (split ' ' opts).mapM fun opt =>
      match split '=' opt with
      | [key, value] => .ok (.plain (start ++ key ++ " " ++ value))
      | _ => .error .valueError
  else .ok []

/-- The interfaces with this master, each with a space after it. -/
def slavesOf (interfaces : List InterfaceData) (iname : String) : String :=
  interfaces.foldl (fun slaves i =>
    if i.interface_master = iname then slaves ++ i.iname ++ " " else slaves) ""

def hwaddressLines (i : InterfaceData) : List Line :=
  if i.isMaster || (patternGroup '.' i.iname).isSome then [] else [.hwaddress]

def bondLines (interfaces : List InterfaceData) (i : InterfaceData) : Except Error (List Line) :=
  if lower i.interface_type ∈ ["master", "bond", "bonded_bridge_slave"] then
    (optionLines "   bond-" i.bonding_opts).map fun options =>
      .plain ("   bond-slaves " ++ slavesOf interfaces i.iname) :: options
  else if lower i.interface_type ∈ ["slave", "bond_slave"] ∧ i.interface_master ≠ "" then
    .ok [.plain ("   bond-master " ++ i.interface_master)]
  else .ok []

def bridgeLines (interfaces : List InterfaceData) (i : InterfaceData) : Except Error (List Line) :=
  if lower i.interface_type = "bridge" then
    (optionLines "   bridge_" i.bridge_opts).map fun options =>
      .plain ("\tbridge_ports " ++ slavesOf interfaces i.iname) :: options
  else .ok []

def promiscLines (iname : String) : List Line :=
  [.plain "   address 0.0.0.0", .plain ("   up ip link set " ++ iname ++ " up"),
    .plain ("   up ip link set " ++ iname ++ " promisc on"),
    .plain ("   down ip link set " ++ iname ++ " promisc off"),
    .plain ("   down ip link set " ++ iname ++ " down")]

def netmaskOf (i : InterfaceData) : String :=
  if i.netmask = "" then "255.255.255.0" else i.netmask

def mtuLines (i : InterfaceData) : List Line :=
  if i.mtu ≠ "" then [.plain ("   mtu " ++ i.mtu)] else []

section
variable (netaddr : Netaddr) (settings : Settings)

def gatewayLines (i : InterfaceData) (interface_network : netaddr.IPNetwork) :
    Except Error (List Line) :=
  if i.if_gateway ≠ "" then .ok [.ifGateway i.if_gateway]
  else if settings.gateway ≠ "" then
    match netaddr.ipAddress settings.gateway with
    | none => .error .addrFormatError
    | some gateway_address =>
      if netaddr.contains interface_network gateway_address then .ok [.gateway settings.gateway]
      else .ok []
  else .ok []

def addressLines (i : InterfaceData) : Except Error (List Line) :=
  if isStatic i then
    if i.iname ∈ promiscInterfaces settings.promisc_nics then .ok (promiscLines i.iname)
    else if i.ip_address ≠ "" then
      match netaddr.ipNetwork (i.ip_address ++ "/" ++ netmaskOf i) with
      | none => .error .addrFormatError
      | some interface_network =>
        (gatewayLines netaddr settings i interface_network).map fun gateway =>
          .plain ("   address " ++ i.ip_address) :: .plain ("   netmask " ++ netmaskOf i) :: gateway
    else .ok []
  else .ok []

/-- The name servers stand in one stanza; the flag is `nameserver_set`. -/
def dnsLines (nameserver_set : Bool) (i : InterfaceData) : List Line × Bool :=
  if !nameserver_set && !isSlave i then
    let nameservers := " ".intercalate settings.name_servers
    let nameserver_search := " ".intercalate settings.name_servers_search
    ((if nameservers ≠ "" then [.plain ("   dns-nameservers " ++ nameservers)] else []) ++
      if nameserver_search ≠ "" then [.plain ("   dns-search " ++ nameserver_search)] else [], true)
  else ([], nameserver_set)

def routeLines (i : InterfaceData) : Except Error (List Line) :=
  (renderRoutes routes i).map fun items => items.map fun item =>
    match item with
    | .entry line => .plain line
    | .warning text => .plain text

def renderStanza (interfaces : List InterfaceData) (nameserver_set : Bool) (i : InterfaceData) :
    Except Error (List Line × Bool) := do
  let bond ← bondLines interfaces i
  let bridge ← bridgeLines interfaces i
  let address ← addressLines netaddr settings i
  let dns := dnsLines settings nameserver_set i
  let static_routes ← routeLines i
  let method := if isStatic i then " inet static" else " inet dhcp"
  pure (.plain ("auto " ++ i.iname) :: .plain ("iface " ++ i.iname ++ method) ::
    (hwaddressLines i ++ bond ++ bridge ++ address ++ mtuLines i ++ dns.1 ++ static_routes ++
      [.plain ""]), dns.2)

def renderStanzas (interfaces : List InterfaceData) (nameserver_set : Bool) :
    List InterfaceData → Except Error (List (List Line))
  | [] => pure []
  | i :: rest => do
    let s ← renderStanza netaddr settings interfaces nameserver_set i
    let stanzas ← renderStanzas interfaces s.2 rest
    pure (s.1 :: stanzas)

/-- The stanzas after the one for `lo`. -/
def interfacesFile (interfaces : List InterfaceData) : Except Error (List (List Line)) :=
  renderStanzas netaddr settings interfaces false interfaces

end

def Line.isGateway : Line → Bool
  | .gateway _ => true
  | _ => false

def hasGateway (stanza : List Line) : Bool := stanza.any Line.isGateway

/-- At most one stanza has a default route from the gateway of the system. -/
def OneDefaultRoute (file : List (List Line)) : Prop := file.countP hasGateway ≤ 1

section
variable (netaddr : Netaddr) (settings : Settings)

/-- The address of the gateway is in the network of the interface. -/
def inNetwork (i : InterfaceData) : Bool :=
  match netaddr.ipNetwork (i.ip_address ++ "/" ++ netmaskOf i),
    netaddr.ipAddress settings.gateway with
  | some interface_network, some gateway_address =>
    netaddr.contains interface_network gateway_address
  | _, _ => false

/-- The interface has an address that is set, none of its own for a gateway, and a network with that
of the system in it. -/
def takesGateway (i : InterfaceData) : Bool :=
  isStatic i && decide (i.iname ∉ promiscInterfaces settings.promisc_nics) && i.ip_address != "" &&
    i.if_gateway == "" && settings.gateway != "" && inNetwork netaddr settings i

end

theorem countP_le_one_iff {α : Type*} {p : α → Bool} {l : List α} :
    l.countP p ≤ 1 ↔ l.Pairwise fun a b => ¬ (p a = true ∧ p b = true) := by
  induction l with
  | nil => simp
  | cons a l ih =>
    rw [List.pairwise_cons, ← ih, List.countP_cons]
    by_cases ha : p a = true
    · have hrest : (∀ b ∈ l, ¬ (p a = true ∧ p b = true)) ↔ l.countP p = 0 := by
        rw [List.countP_eq_zero]
        simp [ha]
      rw [if_pos ha, hrest]
      omega
    · simp [ha]

section Lines

theorem hasGateway_append (u v : List Line) :
    hasGateway (u ++ v) = (hasGateway u || hasGateway v) := List.any_append

theorem hasGateway_cons_plain (text : String) (lines : List Line) :
    hasGateway (.plain text :: lines) = hasGateway lines := rfl

theorem hasGateway_optionLines {start opts : String} {lines : List Line}
    (h : optionLines start opts = .ok lines) : hasGateway lines = false := by
  rw [optionLines] at h
  split at h
  next =>
    rw [hasGateway, List.any_eq_false]
    refine forall_of_mapM (fun opt line hline => ?_) h
    split at hline
    next =>
      cases hline
      exact Bool.false_ne_true
    next => cases hline
  next =>
    cases h
    rfl

variable {interfaces : List InterfaceData} {i : InterfaceData} {lines : List Line}

theorem hasGateway_bondLines (h : bondLines interfaces i = .ok lines) :
    hasGateway lines = false := by
  rw [bondLines] at h
  split at h
  next =>
    obtain ⟨options, hoptions, rfl⟩ := map_eq_ok.mp h
    rw [hasGateway_cons_plain, hasGateway_optionLines hoptions]
  next =>
    split at h
    next =>
      cases h
      rfl
    next =>
      cases h
      rfl

theorem hasGateway_bridgeLines (h : bridgeLines interfaces i = .ok lines) :
    hasGateway lines = false := by
  rw [bridgeLines] at h
  split at h
  next =>
    obtain ⟨options, hoptions, rfl⟩ := map_eq_ok.mp h
    rw [hasGateway_cons_plain, hasGateway_optionLines hoptions]
  next =>
    cases h
    rfl

theorem hasGateway_routeLines (h : routeLines i = .ok lines) : hasGateway lines = false := by
  rw [routeLines] at h
  obtain ⟨items, -, rfl⟩ := map_eq_ok.mp h
  rw [hasGateway, List.any_map, List.any_eq_false]
  intro item _
  cases item with
  | entry line => exact Bool.false_ne_true
  | warning text => exact Bool.false_ne_true

theorem hasGateway_hwaddressLines (i : InterfaceData) : hasGateway (hwaddressLines i) = false := by
  rw [hwaddressLines]
  split <;> rfl

theorem hasGateway_mtuLines (i : InterfaceData) : hasGateway (mtuLines i) = false := by
  rw [mtuLines]
  split <;> rfl

variable {netaddr : Netaddr} {settings : Settings}

theorem hasGateway_dnsLines (nameserver_set : Bool) :
    hasGateway (dnsLines settings nameserver_set i).1 = false := by
  rw [dnsLines]
  split
  next =>
    dsimp only
    rw [hasGateway_append]
    split <;> split <;> rfl
  next => rfl

theorem hasGateway_gatewayLines {interface_network : netaddr.IPNetwork}
    (hnetwork : netaddr.ipNetwork (i.ip_address ++ "/" ++ netmaskOf i) = some interface_network)
    (h : gatewayLines netaddr settings i interface_network = .ok lines) :
    hasGateway lines =
      (i.if_gateway == "" && settings.gateway != "" && inNetwork netaddr settings i) := by
  rw [inNetwork, hnetwork]
  rw [gatewayLines] at h
  split at h
  next hif =>
    cases h
    rw [beq_false_of_ne hif]
    rfl
  next hif =>
    rw [not_not] at hif
    rw [hif]
    split at h
    next hsystem =>
      rw [bne_iff_ne.mpr hsystem]
      split at h
      next => cases h
      next gateway_address haddress =>
        rw [haddress]
        dsimp only
        split at h
        next hin =>
          cases h
          rw [hin]
          rfl
        next hin =>
          cases h
          rw [Bool.eq_false_of_not_eq_true hin]
          rfl
    next hsystem =>
      cases h
      rw [not_not] at hsystem
      rw [hsystem]
      rfl

/-- The only lines with the gateway of the system. -/
theorem hasGateway_addressLines (h : addressLines netaddr settings i = .ok lines) :
    hasGateway lines = takesGateway netaddr settings i := by
  rw [addressLines] at h
  rw [takesGateway, Bool.and_assoc, Bool.and_assoc, Bool.and_assoc, Bool.and_assoc]
  split at h
  next hstatic =>
    rw [hstatic, Bool.true_and]
    split at h
    next hpromisc =>
      cases h
      rw [decide_eq_false (not_not_intro hpromisc)]
      rfl
    next hpromisc =>
      rw [decide_eq_true hpromisc, Bool.true_and]
      split at h
      next haddress =>
        rw [bne_iff_ne.mpr haddress, Bool.true_and]
        split at h
        next => cases h
        next interface_network hnetwork =>
          obtain ⟨gateway, hgateway, rfl⟩ := map_eq_ok.mp h
          rw [hasGateway_cons_plain, hasGateway_cons_plain,
            hasGateway_gatewayLines hnetwork hgateway, Bool.and_assoc]
      next haddress =>
        cases h
        rw [not_not] at haddress
        rw [haddress]
        rfl
  next hstatic =>
    cases h
    rw [Bool.eq_false_of_not_eq_true hstatic]
    rfl

/-- One stanza. -/
theorem hasGateway_renderStanza {nameserver_set : Bool} {s : List Line × Bool}
    (h : renderStanza netaddr settings interfaces nameserver_set i = .ok s) :
    hasGateway s.1 = takesGateway netaddr settings i := by
  rw [renderStanza] at h
  obtain ⟨bond, hbond, h⟩ := bind_eq_ok.mp h
  obtain ⟨bridge, hbridge, h⟩ := bind_eq_ok.mp h
  obtain ⟨address, haddress, h⟩ := bind_eq_ok.mp h
  obtain ⟨static_routes, hroutes, h⟩ := bind_eq_ok.mp h
  cases h
  dsimp only
  rw [hasGateway_cons_plain, hasGateway_cons_plain]
  simp only [hasGateway_append, hasGateway_hwaddressLines, hasGateway_bondLines hbond,
    hasGateway_bridgeLines hbridge, hasGateway_addressLines haddress, hasGateway_mtuLines,
    hasGateway_dnsLines, hasGateway_routeLines hroutes, hasGateway_cons_plain, Bool.false_or,
    Bool.or_false]
  exact Bool.or_false _

/-- The loop over the interfaces. -/
theorem countP_renderStanzas {nameserver_set : Bool} {rest : List InterfaceData}
    {file : List (List Line)}
    (h : renderStanzas netaddr settings interfaces nameserver_set rest = .ok file) :
    file.countP hasGateway = rest.countP (takesGateway netaddr settings) := by
  induction rest generalizing nameserver_set file with
  | nil =>
    cases h
    rfl
  | cons i rest ih =>
    rw [renderStanzas] at h
    obtain ⟨s, hs, h⟩ := bind_eq_ok.mp h
    obtain ⟨stanzas, hstanzas, h⟩ := bind_eq_ok.mp h
    cases h
    rw [List.countP_cons, List.countP_cons, ih hstanzas, hasGateway_renderStanza hs]

end Lines

section Gateway

variable {netaddr : Netaddr} {settings : Settings} {interfaces : List InterfaceData}
  {file : List (List Line)}

/-- There is one default route at most exactly if no two interfaces take the gateway. -/
theorem oneDefaultRoute_iff (h : interfacesFile netaddr settings interfaces = .ok file) :
    OneDefaultRoute file ↔ interfaces.Pairwise fun i j =>
      ¬ (takesGateway netaddr settings i = true ∧ takesGateway netaddr settings j = true) := by
  rw [OneDefaultRoute, countP_renderStanzas h, countP_le_one_iff]

/-- Two networks in one system, and the gateway in the first of them. -/
def twoNetworks : List InterfaceData :=
  [⟨⟨"eth0", "", ""⟩, true, "", "10.0.0.2", "255.255.255.0", "", [], "", "", ""⟩,
    ⟨⟨"eth1", "", ""⟩, true, "", "10.0.1.2", "", "", [], "", "", ""⟩]

/-- The second interface is an alias of the first one. -/
def aliasNetwork : List InterfaceData :=
  [⟨⟨"eth0", "", ""⟩, true, "", "10.0.0.2", "255.255.255.0", "", [], "", "", ""⟩,
    ⟨⟨"eth0:1", "", ""⟩, true, "", "10.0.0.3", "", "", [], "", "", ""⟩]

def gatewaySettings : Settings := ⟨"", "10.0.0.1", ["10.0.0.1"], []⟩

def twoNetworksFile : List (List Line) :=
  [[.plain "auto eth0", .plain "iface eth0 inet static", .hwaddress,
      .plain "   address 10.0.0.2", .plain "   netmask 255.255.255.0", .gateway "10.0.0.1",
      .plain "   dns-nameservers 10.0.0.1", .plain ""],
    [.plain "auto eth1", .plain "iface eth1 inet static", .hwaddress,
      .plain "   address 10.0.1.2", .plain "   netmask 255.255.255.0", .plain ""]]

def aliasFile : List (List Line) :=
  [[.plain "auto eth0", .plain "iface eth0 inet static", .hwaddress,
      .plain "   address 10.0.0.2", .plain "   netmask 255.255.255.0", .gateway "10.0.0.1",
      .plain "   dns-nameservers 10.0.0.1", .plain ""],
    [.plain "auto eth0:1", .plain "iface eth0:1 inet static", .hwaddress,
      .plain "   address 10.0.0.3", .plain "   netmask 255.255.255.0", .gateway "10.0.0.1",
      .plain ""]]

theorem twoNetworks_oneDefaultRoute :
    interfacesFile ipv4 gatewaySettings twoNetworks = .ok twoNetworksFile ∧
      OneDefaultRoute twoNetworksFile := by
  have hfile : interfacesFile ipv4 gatewaySettings twoNetworks = .ok twoNetworksFile := by decide
  exact ⟨hfile, (oneDefaultRoute_iff hfile).mpr (by decide)⟩

theorem aliasFile_not_oneDefaultRoute :
    interfacesFile ipv4 gatewaySettings aliasNetwork = .ok aliasFile ∧
      ¬ OneDefaultRoute aliasFile :=
  ⟨by decide, Nat.not_le_of_lt (by decide)⟩

/-- The addresses in the network of an interface. -/
def addresses (netaddr : Netaddr) (i : InterfaceData) : Set netaddr.IPAddress :=
  {a | ∃ interface_network,
    netaddr.ipNetwork (i.ip_address ++ "/" ++ netmaskOf i) = some interface_network ∧
      netaddr.contains interface_network a = true}

theorem inNetwork_iff {i : InterfaceData} : inNetwork netaddr settings i = true ↔
    ∃ a ∈ addresses netaddr i, netaddr.ipAddress settings.gateway = some a := by
  rw [inNetwork]
  cases hnetwork : netaddr.ipNetwork (i.ip_address ++ "/" ++ netmaskOf i) with
  | none => simp [addresses, hnetwork]
  | some interface_network =>
    cases haddress : netaddr.ipAddress settings.gateway with
    | none => simp
    | some a => simp [addresses, hnetwork]

/-- Whatever the gateway is, interfaces in networks without a common address have one default route
at most. -/
theorem oneDefaultRoute_of_disjoint (h : interfacesFile netaddr settings interfaces = .ok file)
    (hdisjoint : interfaces.Pairwise fun i j =>
      Disjoint (addresses netaddr i) (addresses netaddr j)) : OneDefaultRoute file := by
  rw [OneDefaultRoute, countP_renderStanzas h, countP_le_one_iff]
  refine hdisjoint.imp fun {i j} hij htakes => ?_
  have hin {i : InterfaceData} (hi : takesGateway netaddr settings i = true) :
      ∃ a ∈ addresses netaddr i, netaddr.ipAddress settings.gateway = some a := by
    rw [takesGateway, Bool.and_eq_true] at hi
    exact inNetwork_iff.mp hi.2
  obtain ⟨a, hi, ha⟩ := hin htakes.1
  obtain ⟨b, hj, hb⟩ := hin htakes.2
  rw [ha, Option.some.injEq] at hb
  exact Set.disjoint_left.mp hij hi (hb ▸ hj)

end Gateway

end Preseed

end CompassAdapters.Network
