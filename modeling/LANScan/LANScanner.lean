import LANScan.IPAddress
import LANScan.Reactive.CombineLatest
import Mathlib.Data.List.Nodup

/-!
# The scan pipeline

`scanNetworkForHosts` pings the 254 addresses of the WiFi subnet, looks up the
names of those that answered, and asks a web service for their vendors.  Each of
the three stages fans out over a list and is joined by `combineLatest`; the first
stage marks an address that did not answer with an in-band text, which the second
stage filters out; and two hand-written bridges (`forwardNext`) pass on values
only.  What the outside world answers is a `World`.

## Main definitions

* `Obj`, `Request`, `World` — what crosses the streams, and what is asked.
* `scan`, `signalForHostnamesAndMAC`, `signalForManufacturers` — the stages.
* `scanNetworkForHosts` — their composition.
* `foundAddresses`, `World.attributed` — who answered, and what is known of them.

## Main results

* `outcome_scanNetworkForHosts` — **one tuple of attributed hosts and a
  completion, or nothing at all when no address answered.**
* `scan_targets_subnet_iff` — the scan goes to the 254 addresses of the WiFi
  subnet exactly when `InetLast` holds of the interfaces.
* `scanNetworkForHosts_attributes` — the hosts of every interleaving.
-/

namespace LANScan

open Reactive

/-! ### Objects, requests and answers -/

/-- The objects that cross the streams. -/
inductive Obj
  | string (s : String)
  | host (h : Host)
  | hosts (hs : List Host)
  | strings (ss : List String)

/-- The asynchronous operations the pipeline starts. -/
inductive Request
  /-- A `PingWrapper` for the host name. -/
  | ping (hostName : String)
  /-- A reverse lookup on the global queue. -/
  | hostname (ip : String)
  /-- A web request on behalf of a host. -/
  | manufacturer (url : String) (host : Host)

/-- The response of a web request. -/
inductive AFResult
  | success (value : String)
  | failure
  deriving DecidableEq, Repr

/-- What each operation answers with. -/
abbrev Answer : Request → Type
  | .ping _ => Bool
  | .hostname _ => Option String
  | .manufacturer _ _ => AFResult

/-- The outside world, as the operations see it. -/
structure World where
  found : String → Bool
  getHostFromIPAddress : String → Option String
  responseString : String → Host → AFResult

/-- The answer to each operation. -/
def World.answer (w : World) : (q : Request) → Answer q
  | .ping hostName => w.found hostName
  | .hostname ip => w.getHostFromIPAddress ip
  | .manufacturer url host => w.responseString url host

/-- The streams of the program. -/
abbrev RACSignal := Signal Request Answer Obj

/-! ### Forced casts -/

/-- The cast to a tuple; `none` is a trap. -/
def asTuple : Value Obj → Option (List (Value Obj))
  | .tuple vs => some vs
  | _ => none

/-- The cast to a string; `none` is a trap. -/
def asString : Value Obj → Option String
  | .obj (.string s) => some s
  | _ => none

/-- The cast to a host; `none` is a trap. -/
def asHost : Value Obj → Option Host
  | .obj (.host h) => some h
  | _ => none

theorem mapM_asString (ss : List String) :
    (ss.map fun s => Value.obj (.string s)).mapM asString = some ss := by
  rw [List.mapM_map]
  exact List.mapM_pure.trans (by simp)

theorem mapM_asHost (hs : List Host) :
    (hs.map fun h => Value.obj (.host h)).mapM asHost = some hs := by
  rw [List.mapM_map]
  exact List.mapM_pure.trans (by simp)

/-! ### The first stage: pings -/

/-- The address if it answers a ping, the marker if not. -/
def signalForPing (hostName : String) : RACSignal :=
  .request (.ping hostName) fun found =>
    if found then [.next (.obj (.string hostName)), .completed]
    else [.next (.obj (.string Constants.pingHostNotFound)), .completed]

/-- The addresses `1...254` of a subnet. -/
def targets (ipPrefix : String) : List String := (List.range' 1 254).map (address ipPrefix)

/-- The pings of all addresses of the subnet, as one signal. -/
def scan (getnameinfo : NumericHost) (getifaddrs : Option (List Ifaddrs)) : RACSignal :=
  match getIPPrefix getnameinfo getifaddrs with
  | .error c => .just [.crash c]
  | .ok ipPrefix =>
    if ipPrefix != Constants.noWifiAddress then
      .combineLatest ((targets ipPrefix).map signalForPing)
    else .base

/-! ### The second stage: names -/

/-- The host of an address, with the name that the resolver gives. -/
def getHost (ip : String) : RACSignal :=
  .request (.hostname ip) fun hostname =>
    [.next (.obj (.host
      { ipAddress := some ip
        hostname := if hostname == some ip then some "Generic device" else hostname
        macAddress := none
        manufacturer := none })), .completed]

/-- The body that asked the routing table is commented out in the source. -/
def ipToMac (_host : String) : Option String := some "<MAC not available>"

/-- The host with its MAC address; `none` if it has no address. -/
def addMacToHost (host : Host) : Option Host := do
  let ipAddress ← host.ipAddress
  return { ipAddress := host.ipAddress
           hostname := host.hostname
           macAddress := ipToMac ipAddress
           manufacturer := host.manufacturer }

/-- The block of the `map` of the second stage. -/
def addMacToHosts (hosts : Value Obj) : Option (Value Obj) := do
  let hosts ← asTuple hosts
  let hosts ← hosts.mapM fun v => asHost v >>= addMacToHost
  return .obj (.hosts hosts)

/-- The hosts of the addresses that have answered, as one signal. -/
def signalForHostnamesAndMAC (hosts : Value Obj) : RACSignal :=
  match asTuple hosts >>= List.mapM asString with
  | none => .trap
  | some ips =>
    let found := ips.filter fun ip => ip != Constants.pingHostNotFound
    .forwardNext some ((Signal.combineLatest (found.map getHost)).map addMacToHosts)

/-! ### The third stage: vendors -/

/-- The vendor service. -/
def macAPIAddress : String := "https://api.macvendors.com/"

/-- The host with the manufacturer that the vendor service gives. -/
def signalForManufacturer (host : Host) : RACSignal :=
  .subscribeOn <| match host.macAddress with
    | none => .trap
    | some macAddress =>
      -- the response is sent without a completion after it
      .request (.manufacturer (macAPIAddress ++ macAddress) host) fun response =>
        [.next (.obj (.host
          { ipAddress := host.ipAddress
            hostname := host.hostname
            macAddress := host.macAddress
            manufacturer := match response with
              | .success value => some value
              | .failure => some Constants.manufacturerNotFound }))]

/-- All hosts with their manufacturers, as one signal. -/
def signalForManufacturers (hosts : Value Obj) : RACSignal :=
  let hosts := match hosts with
    | .obj (.hosts hs) => hs
    | _ => []
  .combineLatest (hosts.map signalForManufacturer)

/-- The scan: pings, then names and MAC addresses, then manufacturers. -/
def scanNetworkForHosts (getnameinfo : NumericHost) (getifaddrs : Option (List Ifaddrs)) :
    RACSignal :=
  .forwardNext some <| .deliverOnMainThread <|
    ((scan getnameinfo getifaddrs).flattenMap signalForHostnamesAndMAC).flattenMap
      signalForManufacturers

/-! ### What the stages send -/

variable (w : World)

/-- The addresses of a subnet that answer, in ascending order. -/
def foundAddresses (ipPrefix : String) : List String := (targets ipPrefix).filter w.found

/-- What the second stage makes of an address. -/
def World.resolved (ip : String) : Host where
  ipAddress := some ip
  hostname :=
    if w.getHostFromIPAddress ip == some ip then some "Generic device"
    else w.getHostFromIPAddress ip
  macAddress := ipToMac ip
  manufacturer := none

/-- What the web service answers for a host, before its vendor is filled in. -/
def World.response (host : Host) : AFResult :=
  w.responseString (macAPIAddress ++ host.macAddress.getD "") { host with manufacturer := none }

/-- The vendor text the third stage makes of a response. -/
def AFResult.vendor : AFResult → String
  | success value => value
  | failure => Constants.manufacturerNotFound

/-- What the pipeline makes of an address. -/
def World.attributed (ip : String) : Host :=
  { w.resolved ip with manufacturer := some (w.response (w.resolved ip)).vendor }

/-- The value the first stage sends for an address. -/
def World.pingText (ip : String) : String :=
  if w.found ip then ip else Constants.pingHostNotFound

theorem ne_pingHostNotFound_of_mem_targets {p ip : String} (h : ip ∈ targets p) :
    ip ≠ Constants.pingHostNotFound := by
  obtain ⟨n, -, rfl⟩ := List.mem_map.mp h
  exact address_ne_pingHostNotFound p n

theorem nodup_targets (p : String) : (targets p).Nodup :=
  List.Nodup.map (fun _ _ h => address_injective p h) List.nodup_range'

theorem targets_ne_nil (p : String) : targets p ≠ [] := by simp [targets]

/-- Dropping the markers leaves the addresses that answered. -/
theorem filter_pingText {l : List String} (hl : ∀ ip ∈ l, ip ≠ Constants.pingHostNotFound) :
    (l.map w.pingText).filter (fun ip => ip != Constants.pingHostNotFound) =
      l.filter w.found := by
  induction l with
  | nil => rfl
  | cons ip l ih =>
    have ih := ih fun y hy => hl y (List.mem_cons_of_mem _ hy)
    have hip := hl ip List.mem_cons_self
    by_cases hf : w.found ip = true
    · simp [World.pingText, hf, hip, ih]
    · simp [World.pingText, hf, ih]

theorem outcome_signalForPing (ip : String) :
    (signalForPing ip).outcome w.answer =
      some (.settled (some (.obj (.string (w.pingText ip)))) true) := by
  cases hf : w.found ip <;>
    simp [signalForPing, Signal.outcome, World.answer, World.pingText, hf, Outcome.ofEvents]

theorem scan_of_ok {gni : NumericHost} {ifs : Option (List Ifaddrs)} {p : String}
    (hp : getIPPrefix gni ifs = .ok p) (hne : p ≠ Constants.noWifiAddress) :
    scan gni ifs = .combineLatest ((targets p).map signalForPing) := by
  simp [scan, hp, hne]

/-- The first stage sends one tuple, an address or the marker in each position. -/
theorem outcome_scan {gni : NumericHost} {ifs : Option (List Ifaddrs)} {p : String}
    (hp : getIPPrefix gni ifs = .ok p) (hne : p ≠ Constants.noWifiAddress) :
    (scan gni ifs).outcome w.answer =
      some (.settled (some (.tuple ((targets p).map fun ip =>
        .obj (.string (w.pingText ip))))) true) := by
  rw [scan_of_ok hp hne]
  exact outcome_combineLatest (targets_ne_nil p) fun ip _ => outcome_signalForPing w ip

theorem outcome_getHost (ip : String) :
    (getHost ip).outcome w.answer =
      some (.settled (some (.obj (.host { w.resolved ip with macAddress := none }))) true) := rfl

theorem addMacToHosts_resolved (ips : List String) :
    addMacToHosts (.tuple (ips.map fun ip =>
        .obj (.host { w.resolved ip with macAddress := none }))) =
      some (.obj (.hosts (ips.map w.resolved))) := by
  have hcast : (ips.map fun ip =>
      Value.obj (.host { w.resolved ip with macAddress := none })).mapM
        (fun v => asHost v >>= addMacToHost) = some (ips.map w.resolved) := by
    rw [List.mapM_map]
    exact List.mapM_pure
  exact congrArg (fun hosts => hosts >>= fun hs => some (Value.obj (Obj.hosts hs))) hcast

/-- The second stage sends the resolved hosts in order, and nothing at all, not
even a completion, when no address answered. -/
theorem outcome_signalForHostnamesAndMAC (ss : List String) :
    (signalForHostnamesAndMAC (.tuple (ss.map fun s => .obj (.string s)))).outcome w.answer =
      some (match ss.filter fun ip => ip != Constants.pingHostNotFound with
        | [] => .settled none false
        | ips => .settled (some (.obj (.hosts (ips.map w.resolved)))) true) := by
  have hcast : asTuple (.tuple (ss.map fun s => .obj (.string s))) >>= List.mapM asString =
      some ss := mapM_asString ss
  simp only [signalForHostnamesAndMAC, hcast]
  split
  next hnil =>
    have hempty : (Signal.combineLatest ([] : List RACSignal)).outcome w.answer =
        some (.settled none true) := outcome_combineLatest_nil
    rw [hnil, List.map_nil, Signal.outcome, Signal.map, outcome_flattenMap_silent _ hempty]
    rfl
  next ips hne =>
    have hjoin := outcome_combineLatest hne fun ip _ => outcome_getHost w ip
    rw [Signal.outcome, outcome_map hjoin (addMacToHosts_resolved w _)]
    rfl

theorem outcome_signalForManufacturer (ip : String) :
    (signalForManufacturer (w.resolved ip)).outcome w.answer =
      some (.settled (some (.obj (.host (w.attributed ip)))) false) := by
  have hans : w.answer (.manufacturer (macAPIAddress ++ "<MAC not available>") (w.resolved ip)) =
      w.response (w.resolved ip) := rfl
  have hmac : (w.resolved ip).macAddress = some "<MAC not available>" := rfl
  simp only [signalForManufacturer, hmac, Signal.outcome, hans, Outcome.ofEvents,
    World.attributed]
  cases w.response (w.resolved ip) <;> rfl

/-- The third stage sends the attributed hosts in order, and does not complete. -/
theorem outcome_signalForManufacturers {ips : List String} (hne : ips ≠ []) :
    (signalForManufacturers (.obj (.hosts (ips.map w.resolved)))).outcome w.answer =
      some (.settled (some (.tuple (ips.map fun ip => .obj (.host (w.attributed ip))))) false) := by
  rw [signalForManufacturers, List.map_map]
  exact outcome_combineLatest hne fun ip _ => outcome_signalForManufacturer w ip

/-- **The pipeline sends one tuple of attributed hosts and completes; when no
address answered it sends nothing at all.** -/
theorem outcome_scanNetworkForHosts {gni : NumericHost} {ifs : Option (List Ifaddrs)} {p : String}
    (hp : getIPPrefix gni ifs = .ok p) (hne : p ≠ Constants.noWifiAddress) :
    (scanNetworkForHosts gni ifs).outcome w.answer =
      some (match foundAddresses w p with
        | [] => .settled none false
        | ips => .settled (some (.tuple (ips.map fun ip => .obj (.host (w.attributed ip))))) true) := by
  have hscan := outcome_scan w hp hne
  have hnames := outcome_signalForHostnamesAndMAC w ((targets p).map w.pingText)
  rw [filter_pingText w fun ip h => ne_pingHostNotFound_of_mem_targets h, List.map_map] at hnames
  have hfirst := outcome_flattenMap hscan hnames
  rw [scanNetworkForHosts, Signal.outcome, Signal.outcome, foundAddresses]
  cases hfound : (targets p).filter w.found with
  | nil =>
    rw [hfound] at hfirst
    rw [outcome_flattenMap_silent _ hfirst]
    rfl
  | cons ip ips =>
    rw [hfound] at hfirst
    rw [outcome_flattenMap hfirst (outcome_signalForManufacturers w (List.cons_ne_nil ip ips))]
    rfl

/-! ### The targets of a scan -/

/-- **The scan goes to the 254 addresses of the WiFi subnet exactly when no entry
is `NULL` and no IPv6 entry of `en0` comes after the IPv4 one**, and what else is in
the list then does not matter. -/
theorem scan_targets_subnet_iff (gni : NumericHost) {a b c d : UInt8} {l : List Ifaddrs}
    (hone : l.filter Ifaddrs.isWifiInet = [⟨"en0", some (.inet a b c d)⟩]) :
    ((getIPPrefix gni (some l) = .ok (subnet a b c) ∧
        scan gni (some l) = .combineLatest
          ((List.range' 1 254).map fun n => signalForPing (address (subnet a b c) n))) ↔
      InetLast a b c d l) ∧
    ∀ l' : List Ifaddrs, l'.filter Ifaddrs.isWifiInet = [⟨"en0", some (.inet a b c d)⟩] →
      InetLast a b c d l → InetLast a b c d l' →
        getIPPrefix gni (some l') = getIPPrefix gni (some l) ∧
          scan gni (some l') = scan gni (some l) := by
  have hscan : ∀ l : List Ifaddrs, getIPPrefix gni (some l) = .ok (subnet a b c) →
      scan gni (some l) = .combineLatest
        ((List.range' 1 254).map fun n => signalForPing (address (subnet a b c) n)) := by
    intro l hp
    rw [scan_of_ok hp (subnet_ne_noWifiAddress a b c), targets, List.map_map]
    rfl
  refine ⟨⟨fun h => (getIPPrefix_eq_subnet_iff gni hone).mp h.1, fun h => ?_⟩, ?_⟩
  · have hp := (getIPPrefix_eq_subnet_iff gni hone).mpr h
    exact ⟨hp, hscan l hp⟩
  · intro l' hone' hl hl'
    have hp := (getIPPrefix_eq_subnet_iff gni hone).mpr hl
    have hp' := (getIPPrefix_eq_subnet_iff gni hone').mpr hl'
    exact ⟨hp'.trans hp.symm, (hscan l' hp').trans (hscan l hp).symm⟩

/-- The interfaces of a phone: loopback, a link-level entry, a tunnel.  The IPv6 addresses have
no zero groups to shorten and no scope. -/
def phoneInterfaces : List Ifaddrs :=
  [⟨"lo0", some (.inet 127 0 0 1)⟩, ⟨"en0", some .other⟩,
    ⟨"en0", some (.inet6 #v[0x2001, 0xdb8, 7, 1, 1, 2, 3, 4] 0)⟩,
    ⟨"en0", some (.inet 192 168 1 5)⟩,
    ⟨"utun0", some (.inet6 #v[0x2001, 0xdb8, 8, 1, 5, 6, 7, 8] 0)⟩]

theorem scan_targets_phone :
    (getIPPrefix .uncompressed (some phoneInterfaces) = .ok (subnet 192 168 1) ∧
      scan .uncompressed (some phoneInterfaces) = .combineLatest
        ((List.range' 1 254).map fun n => signalForPing (address (subnet 192 168 1) n))) :=
  (scan_targets_subnet_iff .uncompressed (d := 5) (by decide)).1.mpr
    ⟨by decide, phoneInterfaces.take 3, phoneInterfaces.drop 4, rfl, by decide⟩

/-- A phone whose IPv6 address is listed after the IPv4 one. -/
def inet6AfterInet : List Ifaddrs :=
  [⟨"en0", some (.inet 192 168 1 5)⟩,
    ⟨"en0", some (.inet6 #v[0x2001, 0xdb8, 1, 2, 3, 4, 5, 6] 0)⟩]

/-- A later IPv6 address leaves no dotted component, and a `NULL` address traps. -/
theorem getIPPrefix_inet6AfterInet :
    (inet6AfterInet.filter Ifaddrs.isWifiInet = [⟨"en0", some (.inet 192 168 1 5)⟩] ∧
      getIPPrefix .uncompressed (some inet6AfterInet) = .ok "" ∧
      getIPPrefix .uncompressed (some inet6AfterInet) ≠ .ok (subnet 192 168 1)) ∧
    getIPPrefix .uncompressed (some [⟨"utun0", none⟩, ⟨"en0", some (.inet 192 168 1 5)⟩]) =
      .error .forced := by
  decide

/-! ### The hosts of a scan -/

/-- What the hosts sent say of the address `ip`: its own answers, and the two
fallback texts in the place of a lookup or a response that gave nothing. -/
structure Attributes (ip : String) (h : Host) : Prop where
  ipAddress : h.ipAddress = some ip
  found : w.found ip = true
  ne_marker : ip ≠ Constants.pingHostNotFound
  hostname : h.hostname =
    if w.getHostFromIPAddress ip = some ip then some "Generic device"
    else w.getHostFromIPAddress ip
  genericDevice : h.hostname = some "Generic device" ↔
    w.getHostFromIPAddress ip = some ip ∨ w.getHostFromIPAddress ip = some "Generic device"
  macAddress : h.macAddress ≠ none
  manufacturer : h.manufacturer = some (w.response h).vendor
  manufacturerNotFound : h.manufacturer = some Constants.manufacturerNotFound ↔
    w.response h = .failure ∨ w.response h = .success Constants.manufacturerNotFound

theorem response_attributed (ip : String) :
    w.response (w.attributed ip) = w.response (w.resolved ip) := rfl

theorem vendor_eq_manufacturerNotFound_iff (r : AFResult) :
    r.vendor = Constants.manufacturerNotFound ↔
      r = .failure ∨ r = .success Constants.manufacturerNotFound := by
  cases r <;> simp [AFResult.vendor]

theorem attributes_attributed {p ip : String} (h : ip ∈ foundAddresses w p) :
    Attributes w ip (w.attributed ip) := by
  obtain ⟨hmem, hfound⟩ := List.mem_filter.mp h
  have hname : (w.attributed ip).hostname =
      if w.getHostFromIPAddress ip = some ip then some "Generic device"
      else w.getHostFromIPAddress ip := by
    simp [World.attributed, World.resolved]
  refine
    { ipAddress := rfl
      found := hfound
      ne_marker := ne_pingHostNotFound_of_mem_targets hmem
      hostname := hname
      genericDevice := ?_
      macAddress := by simp [World.attributed, World.resolved, ipToMac]
      manufacturer := rfl
      manufacturerNotFound := ?_ }
  · rw [hname]
    split
    next heq => simp [heq]
    next hne => simp [hne]
  · rw [response_attributed, ← vendor_eq_manufacturerNotFound_iff, World.attributed,
      Option.some.injEq]

theorem ipAddress_attributed (ips : List String) :
    (ips.map w.attributed).map Host.ipAddress = ips.map some := by
  rw [List.map_map]
  rfl

theorem foundAddresses_ne_nil {p : String}
    (h : ∃ n ∈ List.range' 1 254, w.found (address p n) = true) : foundAddresses w p ≠ [] := by
  obtain ⟨n, hn, hfound⟩ := h
  exact List.ne_nil_of_mem (List.mem_filter.mpr ⟨List.mem_map_of_mem hn, hfound⟩)

/-- **The pipeline attributes results correctly under every order of events.**  Every
interleaving ends, and sends one value and a completion; the value lists one host
for each address that answered, in ascending order, with its own answers. -/
theorem scanNetworkForHosts_attributes (gni : NumericHost) (ifs : Option (List Ifaddrs))
    {a b c : UInt8} (hp : getIPPrefix gni ifs = .ok (subnet a b c))
    (hfound : ∃ n ∈ List.range' 1 254, w.found (address (subnet a b c) n) = true) :
    Terminates w.answer (.starting (scanNetworkForHosts gni ifs)) ∧
    ∃ hosts : List Host,
      Sends w.answer (.starting (scanNetworkForHosts gni ifs))
        [.next (.tuple (hosts.map fun h => .obj (.host h))), .completed] ∧
      hosts.map Host.ipAddress =
        (((List.range' 1 254).map (address (subnet a b c))).filter w.found).map some ∧
      (hosts.map Host.ipAddress).Nodup ∧
      ∀ h ∈ hosts, ∃ ip, Attributes w ip h := by
  have hne := foundAddresses_ne_nil w hfound
  have hout := outcome_scanNetworkForHosts w hp (subnet_ne_noWifiAddress a b c)
  refine ⟨terminates_starting _ _, (foundAddresses w (subnet a b c)).map w.attributed,
    ?_, ipAddress_attributed w _, ?_, ?_⟩
  · rw [List.map_map]
    split at hout
    next hnil => exact absurd hnil hne
    next => exact sends_of_outcome w.answer _ hout
  · rw [ipAddress_attributed]
    exact ((nodup_targets _).filter _).map fun _ _ h => Option.some.inj h
  · intro h hmem
    obtain ⟨ip, hip, rfl⟩ := List.mem_map.mp hmem
    exact ⟨ip, attributes_attributed w hip⟩

/-- Two hosts answer: the first has no name of its own, the second is named, and
no vendor is known for the first. -/
def twoHosts : World where
  found ip := ip == "192.168.1.1" || ip == "192.168.1.7"
  getHostFromIPAddress ip := if ip == "192.168.1.1" then some ip else some "printer.local"
  responseString _ h := if h.ipAddress == some "192.168.1.1" then .failure else .success "HP"

theorem scanNetworkForHosts_attributes_twoHosts :
    Terminates twoHosts.answer
      (.starting (scanNetworkForHosts .uncompressed (some phoneInterfaces))) ∧
    ∃ hosts : List Host,
      Sends twoHosts.answer (.starting (scanNetworkForHosts .uncompressed (some phoneInterfaces)))
        [.next (.tuple (hosts.map fun h => .obj (.host h))), .completed] ∧
      hosts.map Host.ipAddress =
        (((List.range' 1 254).map (address (subnet 192 168 1))).filter twoHosts.found).map some ∧
      (hosts.map Host.ipAddress).Nodup ∧
      ∀ h ∈ hosts, ∃ ip, Attributes twoHosts ip h :=
  scanNetworkForHosts_attributes twoHosts .uncompressed (some phoneInterfaces) (by decide)
    ⟨7, by decide, by decide⟩

/-- A network where a device is called "Generic device", and where the vendor text
of the web service is the fallback text. -/
def namedAlike : World where
  found ip := ip == "192.168.1.1"
  getHostFromIPAddress _ := some "Generic device"
  responseString _ _ := .success Constants.manufacturerNotFound

/-- The fallback texts do not say that there was nothing to show. -/
theorem scanNetworkForHosts_namedAlike :
    (∃ x, Run namedAlike.answer
        (.starting (scanNetworkForHosts .uncompressed (some phoneInterfaces))) x
        [.next (.tuple [.obj (.host ⟨some "192.168.1.1", some "Generic device",
          some "<MAC not available>", some Constants.manufacturerNotFound⟩)]), .completed] ∧
      Quiet x) ∧
    namedAlike.getHostFromIPAddress "192.168.1.1" ≠ some "192.168.1.1" ∧
    namedAlike.response ⟨some "192.168.1.1", some "Generic device",
      some "<MAC not available>", some Constants.manufacturerNotFound⟩ ≠ .failure := by
  have hp : getIPPrefix .uncompressed (some phoneInterfaces) = .ok (subnet 192 168 1) := by decide
  have hout := outcome_scanNetworkForHosts namedAlike hp (by decide)
  have hfound : foundAddresses namedAlike (subnet 192 168 1) = ["192.168.1.1"] := by
    decide +kernel
  rw [hfound] at hout
  exact ⟨exists_run_of_outcome hout, by decide, by decide⟩

end LANScan
