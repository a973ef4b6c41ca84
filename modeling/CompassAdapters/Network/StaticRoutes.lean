import CompassAdapters.Effects.Results
import CompassAdapters.Network.Interfaces
import CompassAdapters.Ruby.Regex
import CompassAdapters.Shell.Echo
import CompassAdapters.Template.Python

/-! The loop over `static_routes` in the three network snippets: strings that begin as the pattern
says are split, the others become a comment. -/
namespace CompassAdapters.Network
open Effects Python

/-- `$interfaces[$iname]`, as far as the loops over the interfaces read it. -/
structure InterfaceData extends Interface where
  /-- Whether the value counts as true. -/
  static : Bool := false
  mtu : String := ""
  ip_address : String := ""
  netmask : String := ""
  if_gateway : String := ""
  static_routes : List String := []
  interface_master : String := ""
  bonding_opts : String := ""
  bridge_opts : String := ""

/-- What the snippets use of the package `netaddr`; a value it rejects is an exception. -/
structure Netaddr where
  IPNetwork : Type
  IPAddress : Type
  ipNetwork : String → Option IPNetwork
  ipAddress : String → Option IPAddress
  ip : IPNetwork → String
  netmask : IPNetwork → String
  contains : IPNetwork → IPAddress → Bool

/-- The number that an address in dotted form stands for. -/
def dottedQuad (s : String) : Option ℕ :=
  match (split '.' s).map fun part => digits part.toList with
  | [some a, some b, some c, some d] =>
    if a < 256 ∧ b < 256 ∧ c < 256 ∧ d < 256 then some (((a * 256 + b) * 256 + c) * 256 + d)
    else none
  | _ => none

/-- A mask in dotted form, or the length of the prefix. -/
def dottedMask (s : String) : Option ℕ :=
  match digits s.toList with
  | some n => if n ≤ 32 then some (2 ^ 32 - 2 ^ (32 - n)) else none
  | none => dottedQuad s

def dottedText (n : ℕ) : String :=
  toString (n / 2 ^ 24) ++ "." ++ toString (n / 2 ^ 16 % 256) ++ "." ++
    toString (n / 2 ^ 8 % 256) ++ "." ++ toString (n % 256)

/-- IPv4 addresses in dotted form. A network is the address in it and the mask. -/
def ipv4 : Netaddr where
  IPNetwork := ℕ × ℕ
  IPAddress := ℕ
  ipNetwork s :=
    match split '/' s with
    | [address] => (dottedQuad address).map fun n => (n, 2 ^ 32 - 1)
    | [address, mask] => (dottedQuad address).bind fun n => (dottedMask mask).map fun m => (n, m)
    | _ => none
  ipAddress := dottedQuad
  ip net := dottedText net.1
  netmask net := dottedText net.2
  contains net a := a &&& net.2 == net.1 &&& net.2

inductive Error
  | valueError
  | addrFormatError
  deriving DecidableEq, Repr

def isNetworkChar (c : Char) : Bool := c.isDigit || c == '/' || c == '.'

def isRouterChar (c : Char) : Bool := c.isDigit || c == '.'

/-- `[0-9/.]+:[0-9.]+`. -/
def routepattern : List Ruby.Item := [.plus isNetworkChar, .char (· == ':'), .plus isRouterChar]

/-- `routepattern.match(route)`, at the head of the string only. -/
def matchesRoute (route : String) : Bool :=
  (Ruby.Regex.run routepattern route.toList route.toList).head?.isSome

/-- What one string of `static_routes` becomes. -/
inductive RouteItem (ρ : Type)
  | entry (r : ρ)
  | warning (text : String)
  deriving DecidableEq, Repr

/-- What a snippet writes for a route and for a string that is none. -/
structure Snippet (ρ : Type) where
  entry : String → String → String → Except Error ρ
  warning : String → String

section
variable {ρ : Type} (snippet : Snippet ρ)

def renderRoute (iname route : String) : Except Error (RouteItem ρ) :=
  if matchesRoute route then
    match split ':' route with
    | [network, router] => (snippet.entry iname network router).map RouteItem.entry
    | _ => .error .valueError
  else .ok (.warning (snippet.warning route))

def renderRoutes (i : InterfaceData) : Except Error (List (RouteItem ρ)) :=
  i.static_routes.mapM (renderRoute snippet i.iname)

def staticRoutes (interfaces : List InterfaceData) : Except Error (List (List (RouteItem ρ))) :=
  interfaces.mapM (renderRoutes snippet)

end

namespace Preseed

def routeLine (iname network router : String) : String :=
  "   up ip route add " ++ network ++ " via " ++ router ++ " dev " ++ iname

def routeWarning (route : String) : String := "   # Warning: invalid route: " ++ route

/-- The lines go to `/etc/network/interfaces`. -/
def routes : Snippet String :=
  ⟨fun iname network router => .ok (routeLine iname network router), routeWarning⟩

end Preseed

namespace Kickstart

/-- `$routesfile`. -/
def routesfile (iname : String) : String :=
  "/etc/sysconfig/network-scripts/cobbler/route-" ++ iname

def routeLine (network router : String) : String := network ++ " via " ++ router

def routeWarning (route : String) : String := "# Warning: invalid route \"" ++ route ++ "\""

structure RouteEntry where
  routesfile : String
  line : String
  deriving DecidableEq, Repr

def routes : Snippet RouteEntry :=
  ⟨fun iname network router => .ok ⟨routesfile iname, routeLine network router⟩, routeWarning⟩

end Kickstart

namespace Suse

/-- The element `route` of `/tmp/profile/network.xml`, with the line for `$routesfile`. -/
structure RouteEntry where
  destination : String
  netmask : String
  device : String
  gateway : String
  routesfile : String
  line : String
  deriving DecidableEq, Repr

/-- `$routesfile` is left from the loop before, where the last interface has set it. -/
def routesfile (interfaces : List InterfaceData) : String :=
  Kickstart.routesfile ((interfaces.getLast?.map fun i => i.iname).getD "")

def routes (netaddr : Netaddr) (interfaces : List InterfaceData) : Snippet RouteEntry where
  entry iname network router :=
    match netaddr.ipNetwork network with
    | none => .error .addrFormatError
    | some interface_network =>
      .ok ⟨netaddr.ip interface_network, netaddr.netmask interface_network, iname, router,
        routesfile interfaces, Kickstart.routeLine network router⟩
  warning := Kickstart.routeWarning

end Suse

/-- A string of the form `network:router`. -/
structure IsRoute (route network router : String) : Prop where
  text : route = network ++ ":" ++ router
  network_ne : network ≠ ""
  network_chars : ∀ c ∈ network.toList, isNetworkChar c = true
  router_ne : router ≠ ""
  router_chars : ∀ c ∈ router.toList, isRouterChar c = true

section Exact

variable {ρ : Type} (snippet : Snippet ρ) (carries : String → String → String → ρ → Prop)
  (inert : String → Prop)

/-- One entry for a route, and for any other string a comment that comes out as one. -/
structure Yields (iname route : String) (item : RouteItem ρ) : Prop where
  entry : ∀ network router, IsRoute route network router →
    ∃ r, item = .entry r ∧ carries iname network router r
  warning : (¬ ∃ network router, IsRoute route network router) →
    item = .warning (snippet.warning route) ∧ inert route

/-- There is no exception, and each string yields what it should. -/
def ParsesExactly (interfaces : List InterfaceData) : Prop :=
  ∃ items, staticRoutes snippet interfaces = .ok items ∧
    List.Forall₂ (fun i rendered =>
      List.Forall₂ (Yields snippet carries inert i.iname) i.static_routes rendered)
      interfaces items

/-- A string that begins as a route is one, for an accepted network, and any other string is taken
as it is in a comment. -/
def Plain (accepted : String → Prop) (route : String) : Prop :=
  if matchesRoute route then
    ∃ network router, IsRoute route network router ∧ accepted network
  else inert route

end Exact

theorem matchesRoute_iff {route : String} : matchesRoute route = true ↔
    ∃ network router rest : List Char, route.toList = network ++ ':' :: router ++ rest ∧
      (network ≠ [] ∧ ∀ c ∈ network, isNetworkChar c = true) ∧
      (router ≠ [] ∧ ∀ c ∈ router, isRouterChar c = true) := by
  have hplain : ∀ i ∈ routepattern, ∃ p : Char → Bool, i = .char p ∨ i = .plus p := by
    simp [routepattern]
  rw [matchesRoute, Ruby.Regex.head?_run_isSome hplain]
  constructor
  · rintro ⟨u, rest, hroute, network, v, rfl, hne, hnetwork, c, router, rfl, hc, hrouter⟩
    rw [beq_iff_eq.mp hc] at hroute
    exact ⟨network, router, rest, hroute, ⟨hne, hnetwork⟩, Ruby.Regex.accepts_plus.mp hrouter⟩
  · rintro ⟨network, router, rest, hroute, ⟨hne, hnetwork⟩, hrouter⟩
    exact ⟨network ++ ':' :: router, rest, hroute, network, ':' :: router, rfl, hne, hnetwork, ':',
      router, rfl, rfl, Ruby.Regex.accepts_plus.mpr hrouter⟩

namespace IsRoute

variable {route network router : String} (h : IsRoute route network router)
include h

theorem toList : route.toList = network.toList ++ ':' :: router.toList := by
  rw [h.text, String.toList_append, String.toList_append, List.append_assoc]
  rfl

theorem begins : matchesRoute route = true := by
  rw [matchesRoute_iff]
  refine ⟨network.toList, router.toList, [], ?_, ⟨?_, h.network_chars⟩, ?_, h.router_chars⟩
  · rw [List.append_nil, h.toList]
  · exact fun hnil => h.network_ne (String.toList_eq_nil_iff.mp hnil)
  · exact fun hnil => h.router_ne (String.toList_eq_nil_iff.mp hnil)

/-- Neither part has a colon, so these are the pieces. -/
theorem split : Python.split ':' route = [network, router] := by
  have hnetwork : ∀ c ∈ network.toList, (c == ':') = false := by
    intro c hc
    refine beq_false_of_ne fun hcolon => ?_
    have hchar := h.network_chars c hc
    rw [hcolon] at hchar
    exact absurd hchar (by decide)
  have hrouter : ∀ c ∈ router.toList, (c == ':') = false := by
    intro c hc
    refine beq_false_of_ne fun hcolon => ?_
    have hchar := h.router_chars c hc
    rw [hcolon] at hchar
    exact absurd hchar (by decide)
  rw [Python.split, h.toList, List.splitOnP_append_cons_of_forall_mem hnetwork ':' rfl,
    List.splitOnP_eq_singleton hrouter]
  simp

theorem unique {network' router' : String} (h' : IsRoute route network' router') :
    network' = network ∧ router' = router := by
  have hpieces := h'.split.symm.trans h.split
  rw [List.cons.injEq, List.cons.injEq] at hpieces
  exact ⟨hpieces.1, hpieces.2.1⟩

end IsRoute

section Exact

variable {ρ : Type} {snippet : Snippet ρ} {carries : String → String → String → ρ → Prop}
  {inert accepted : String → Prop}

theorem renderRoute_isRoute (iname : String) {route network router : String}
    (h : IsRoute route network router) : renderRoute snippet iname route =
      (snippet.entry iname network router).map RouteItem.entry := by
  rw [renderRoute, if_pos h.begins, h.split]

/-- A string that begins as a route never becomes a comment. -/
theorem renderRoute_ne_warning (iname : String) {route text : String}
    (h : matchesRoute route = true) : renderRoute snippet iname route ≠ .ok (.warning text) := by
  rw [renderRoute, if_pos h]
  split
  next network router hpieces =>
    cases snippet.entry iname network router with
    | error e => exact nofun
    | ok r => exact nofun
  next => exact nofun

section Strings

variable (hentry : ∀ iname network router,
  (∃ r, snippet.entry iname network router = .ok r ∧ carries iname network router r) ↔
    accepted network) (iname : String) {route : String}

include hentry in
/-- A string that begins as a route. -/
theorem yields_iff_of_matches (hmatch : matchesRoute route = true) :
    (∃ item, renderRoute snippet iname route = .ok item ∧
      Yields snippet carries inert iname route item) ↔
      ∃ network router, IsRoute route network router ∧ accepted network := by
  constructor
  · rintro ⟨item, hitem, hyields⟩
    by_cases hroute : ∃ network router, IsRoute route network router
    · obtain ⟨network, router, hroute⟩ := hroute
      obtain ⟨r, rfl, hcarries⟩ := hyields.entry network router hroute
      rw [renderRoute_isRoute iname hroute] at hitem
      obtain ⟨r', hr, heq⟩ := map_eq_ok.mp hitem
      cases heq
      exact ⟨network, router, hroute, (hentry iname network router).mp ⟨r, hr, hcarries⟩⟩
    · rw [(hyields.warning hroute).1] at hitem
      exact absurd hitem (renderRoute_ne_warning iname hmatch)
  · rintro ⟨network, router, hroute, haccepted⟩
    obtain ⟨r, hr, hcarries⟩ := (hentry iname network router).mpr haccepted
    refine ⟨.entry r, ?_, ?_, fun h => absurd ⟨network, router, hroute⟩ h⟩
    · rw [renderRoute_isRoute iname hroute]
      exact map_eq_ok.mpr ⟨r, hr, rfl⟩
    · intro network' router' hroute'
      obtain ⟨rfl, rfl⟩ := hroute.unique hroute'
      exact ⟨r, rfl, hcarries⟩

/-- Any other string. -/
theorem yields_iff_of_not_matches (hmatch : ¬ matchesRoute route = true) :
    (∃ item, renderRoute snippet iname route = .ok item ∧
      Yields snippet carries inert iname route item) ↔ inert route := by
  have hnone : ¬ ∃ network router, IsRoute route network router :=
    fun ⟨_, _, h⟩ => hmatch h.begins
  rw [renderRoute, if_neg hmatch]
  constructor
  · rintro ⟨item, -, hyields⟩
    exact (hyields.warning hnone).2
  · intro hinert
    exact ⟨_, rfl, fun network router h => absurd ⟨network, router, h⟩ hnone,
      fun _ => ⟨rfl, hinert⟩⟩

include hentry in
theorem renderRoute_yields_iff (route : String) :
    (∃ item, renderRoute snippet iname route = .ok item ∧
      Yields snippet carries inert iname route item) ↔ Plain inert accepted route := by
  rw [Plain]
  split
  next hmatch => exact yields_iff_of_matches hentry iname hmatch
  next hmatch => exact yields_iff_of_not_matches iname hmatch

end Strings

theorem parsesExactly_iff (hentry : ∀ iname network router,
    (∃ r, snippet.entry iname network router = .ok r ∧ carries iname network router r) ↔
      accepted network) (interfaces : List InterfaceData) :
    ParsesExactly snippet carries inert interfaces ↔
      ∀ i ∈ interfaces, ∀ route ∈ i.static_routes, Plain inert accepted route := by
  rw [ParsesExactly, staticRoutes, exists_mapM_forall₂]
  refine forall₂_congr fun i _ => ?_
  rw [renderRoutes, exists_mapM_forall₂]
  exact forall₂_congr fun route _ => renderRoute_yields_iff hentry i.iname route

end Exact

section Snippets

/-- A text on one line. -/
def OneLine (text : String) : Prop := '\n' ∉ text.toList

/-- Every string of the interfaces is plain. -/
def AllPlain (inert accepted : String → Prop) (interfaces : List InterfaceData) : Prop :=
  ∀ i ∈ interfaces, ∀ route ∈ i.static_routes, Plain inert accepted route

/-- The comment comes from `echo` in the script, which writes it as it is. -/
def Preseed.WritesWarning (route : String) : Prop :=
  Shell.echo (Preseed.routeWarning route) = some (Preseed.routeWarning route ++ "\n") ∧
    OneLine (Preseed.routeWarning route)

def Preseed.RoutesExact : List InterfaceData → Prop :=
  ParsesExactly Preseed.routes
    (fun iname network router line => line = Preseed.routeLine iname network router)
    Preseed.WritesWarning

/-- The comment is one of the script itself. -/
def Kickstart.WritesWarning (route : String) : Prop := OneLine (Kickstart.routeWarning route)

def Kickstart.RoutesExact : List InterfaceData → Prop :=
  ParsesExactly Kickstart.routes
    (fun iname network router r =>
      r = ⟨Kickstart.routesfile iname, Kickstart.routeLine network router⟩) Kickstart.WritesWarning

/-- The element has the address and the mask of the network. -/
def Suse.RoutesExact (netaddr : Netaddr) (interfaces : List InterfaceData) : Prop :=
  ParsesExactly (Suse.routes netaddr interfaces)
    (fun iname network router r => r.device = iname ∧ r.gateway = router ∧
      ∃ interface_network, netaddr.ipNetwork network = some interface_network ∧
        r.destination = netaddr.ip interface_network ∧
        r.netmask = netaddr.netmask interface_network) Kickstart.WritesWarning interfaces

theorem Suse.entry_ok_iff (netaddr : Netaddr) (interfaces : List InterfaceData)
    (iname network router : String) :
    (∃ r, (Suse.routes netaddr interfaces).entry iname network router = .ok r ∧
      r.device = iname ∧ r.gateway = router ∧
      ∃ interface_network, netaddr.ipNetwork network = some interface_network ∧
        r.destination = netaddr.ip interface_network ∧
        r.netmask = netaddr.netmask interface_network) ↔
      (netaddr.ipNetwork network).isSome = true := by
  cases hnetwork : netaddr.ipNetwork network with
  | none => exact iff_of_false (fun ⟨_, _, _, _, _, h, _⟩ => nomatch h) nofun
  | some interface_network =>
    refine iff_of_true ⟨⟨netaddr.ip interface_network, netaddr.netmask interface_network, iname,
      router, Suse.routesfile interfaces, Kickstart.routeLine network router⟩, ?_, rfl, rfl,
      interface_network, rfl, rfl, rfl⟩ rfl
    rw [Suse.routes]
    dsimp only
    rw [hnetwork]

theorem oneLine_append {text : String} (h : OneLine text) (route : String) :
    OneLine (text ++ route) ↔ OneLine route := by
  rw [OneLine, OneLine, String.toList_append, List.mem_append]
  exact not_congr (or_iff_right h)

theorem Preseed.writesWarning_iff (route : String) :
    Preseed.WritesWarning route ↔ Shell.isVerbatim route = true ∧ OneLine route := by
  have hline : OneLine "   # Warning: invalid route: " := by simp [OneLine]
  have hplain : "   # Warning: invalid route: ".toList.all Shell.isPlainEchoed = true := by decide
  unfold Preseed.WritesWarning
  rw [Shell.echo_eq_iff]
  unfold Preseed.routeWarning
  rw [Shell.isVerbatim_append hplain]
  exact and_congr_right' (oneLine_append hline route)

theorem Kickstart.writesWarning_iff (route : String) :
    Kickstart.WritesWarning route ↔ OneLine route := by
  have hline : OneLine "# Warning: invalid route \"" := by simp [OneLine]
  have hquote : '\n' ∉ "\"".toList := by decide
  unfold Kickstart.WritesWarning Kickstart.routeWarning
  rw [String.append_assoc]
  refine (oneLine_append hline _).trans ?_
  unfold OneLine
  rw [String.toList_append, List.mem_append]
  exact not_congr (or_iff_left hquote)

theorem allPlain_congr {inert inert' accepted : String → Prop}
    (h : ∀ route, inert route ↔ inert' route) (interfaces : List InterfaceData) :
    AllPlain inert accepted interfaces ↔ AllPlain inert' accepted interfaces := by
  simp only [AllPlain, Plain, h]

variable (netaddr : Netaddr) (interfaces : List InterfaceData)

theorem Preseed.routesExact_iff : Preseed.RoutesExact interfaces ↔
    AllPlain (fun route => Shell.isVerbatim route = true ∧ OneLine route) (fun _ => True)
      interfaces := by
  rw [← allPlain_congr Preseed.writesWarning_iff]
  refine parsesExactly_iff (fun iname network router => ?_) interfaces
  exact iff_of_true ⟨Preseed.routeLine iname network router, rfl, rfl⟩ trivial

theorem Kickstart.routesExact_iff : Kickstart.RoutesExact interfaces ↔
    AllPlain OneLine (fun _ => True) interfaces := by
  rw [← allPlain_congr Kickstart.writesWarning_iff]
  refine parsesExactly_iff (fun iname network router => ?_) interfaces
  exact iff_of_true ⟨⟨Kickstart.routesfile iname, Kickstart.routeLine network router⟩, rfl, rfl⟩
    trivial

theorem Suse.routesExact_iff : Suse.RoutesExact netaddr interfaces ↔
    AllPlain OneLine (fun network => (netaddr.ipNetwork network).isSome = true) interfaces := by
  rw [← allPlain_congr Kickstart.writesWarning_iff]
  exact parsesExactly_iff (Suse.entry_ok_iff netaddr interfaces) interfaces

end Snippets

def routedInterface (static_routes : List String) : List InterfaceData :=
  [⟨⟨"eth0", "", ""⟩, true, "", "10.0.0.2", "", "", static_routes, "", "", ""⟩]

/-- Two routes, the second of which has a port. -/
def portRoutes : List InterfaceData :=
  routedInterface ["10.1.0.0/16:10.0.0.1", "10.2.0.0/16:10.0.0.1:8"]

end CompassAdapters.Network
