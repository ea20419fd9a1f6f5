import LANScan.LANScanner

/-!
# The port scan

`scanPortsOn` connects to the ports `1...100` of a host one after the other, each
from a signal that sends its answer while it is subscribed to; a port that does not
answer is marked in-band, and the bridge filters the markers out.  A host without an
address gives the abstract base signal, as a phone without one does in `scan`.

## Main definitions

* `signalForPort`, `scanPortsOn`.
* `openPorts` — the ports that accept a connection.

## Main results

* `outcome_scanPortsOn` — one list of port numbers and a completion.
* `missing_address_ends_in_event_iff` — **when a scan ends in an event.**
-/

namespace LANScan

open Reactive

/-- Why a connection fails. -/
inductive SocketError
  | queryFailed
  | connectionClosed
  | connectionTimeout
  | unknownError
  deriving DecidableEq, Repr

/-- The result of an attempt to connect. -/
inductive ConnectResult
  | success
  | failure (error : SocketError)
  deriving DecidableEq, Repr

/-- `connect address port` is what an attempt to connect ends with. -/
abbrev Connect := String → ℕ → ConnectResult

/-- The port if it accepts a connection, the marker if not. -/
def signalForPort (connect : Connect) (port : ℕ) (ipAddress : String) : RACSignal :=
  .just [.next (.obj (.string (match connect ipAddress port with
    | .success => toString port
    | .failure _ => Constants.noService))), .completed]

/-- The block of the subscription of the port scan. -/
def finalServices (services : Value Obj) : Option (Value Obj) := do
  let services ← asTuple services
  let services ← services.mapM asString
  return .obj (.strings (services.filter fun service => service != Constants.noService))

/-- The ports of a host that accept connections; a host without an address has the signal of the
base class. -/
def scanPortsOn (connect : Connect) (host : Host) : RACSignal :=
  match host.ipAddress with
  | none => .base
  | some ip =>
    .subscribeOn <| .forwardNext finalServices <| .deliverOnMainThread <|
      .combineLatest ((List.range' 1 100).map fun port => signalForPort connect port ip)

/-! ### What a port scan sends -/

variable (w : World) (connect : Connect)

/-- The ports that accept a connection, in ascending order. -/
def openPorts (ip : String) : List ℕ :=
  (List.range' 1 100).filter fun port => connect ip port = .success

theorem mem_openPorts {ip : String} {port : ℕ} :
    port ∈ openPorts connect ip ↔ 1 ≤ port ∧ port ≤ 100 ∧ connect ip port = .success := by
  rw [openPorts, List.mem_filter, List.mem_range'_1, decide_eq_true_iff]
  constructor
  · rintro ⟨⟨h1, h2⟩, hs⟩
    exact ⟨h1, by omega, hs⟩
  · rintro ⟨h1, h2, hs⟩
    exact ⟨⟨h1, by omega⟩, hs⟩

theorem pairwise_openPorts (ip : String) : (openPorts connect ip).Pairwise (· < ·) :=
  (List.pairwise_lt_range' 1 (Nat.zero_lt_one)).filter _

/-- The text a port sends. -/
def portText (ip : String) (port : ℕ) : String :=
  match connect ip port with
  | .success => toString port
  | .failure _ => Constants.noService

/-- Dropping the markers leaves the open ports. -/
theorem filter_portText (ip : String) (l : List ℕ) :
    (l.map (portText connect ip)).filter (fun service => service != Constants.noService) =
      (l.filter fun port => connect ip port = .success).map toString := by
  induction l with
  | nil => rfl
  | cons port l ih =>
    have hne : port.repr ≠ Constants.noService := toString_ne_noService port
    cases hc : connect ip port with
    | success => simp [portText, hc, hne, ih]
    | failure error => simp [portText, hc, ih]

theorem finalServices_portText (ip : String) (l : List ℕ) :
    finalServices (.tuple (l.map fun port => .obj (.string (portText connect ip port)))) =
      some (.obj (.strings ((l.filter fun port => connect ip port = .success).map toString))) := by
  have hcast : (l.map fun port => Value.obj (.string (portText connect ip port))).mapM asString =
      some (l.map (portText connect ip)) := by
    rw [← mapM_asString, List.map_map]
    rfl
  rw [← filter_portText]
  exact congrArg (fun services => services >>= fun ss => some (Value.obj (Obj.strings
    (ss.filter fun service => service != Constants.noService)))) hcast

/-- **A port scan sends the list of the open ports and completes.** -/
theorem outcome_scanPortsOn {host : Host} {ip : String} (hip : host.ipAddress = some ip) :
    (scanPortsOn connect host).outcome w.answer =
      some (.settled (some (.obj (.strings ((openPorts connect ip).map toString)))) true) := by
  have hports : ∀ port ∈ List.range' 1 100, (signalForPort connect port ip).outcome w.answer =
      some (.settled (some (.obj (.string (portText connect ip port)))) true) :=
    fun _ _ => rfl
  have hjoin := outcome_combineLatest (by decide) hports
  simp only [scanPortsOn, hip]
  rw [Signal.outcome, Signal.outcome, Signal.outcome, hjoin, Option.map_some, Outcome.forward,
    finalServices_portText]
  rfl

theorem outcome_scanPortsOn_none {host : Host} (hip : host.ipAddress = none) :
    (scanPortsOn connect host).outcome w.answer = some (.crashed .abstractSubscribe) := by
  simp only [scanPortsOn, hip]
  rfl

/-! ### Missing addresses -/

theorem outcome_scanNetworkForHosts_of_error {gni : NumericHost} {ifs : Option (List Ifaddrs)}
    {c : Crash} (h : getIPPrefix gni ifs = .error c) :
    (scanNetworkForHosts gni ifs).outcome w.answer = some (.crashed c) := by
  have hscan : (scan gni ifs).outcome w.answer = some (.crashed c) := by
    rw [scan, h]
    rfl
  rw [scanNetworkForHosts, Signal.outcome, Signal.outcome,
    outcome_flattenMap_crashed _ (outcome_flattenMap_crashed _ hscan)]
  rfl

theorem outcome_scanNetworkForHosts_of_noWifiAddress {gni : NumericHost}
    {ifs : Option (List Ifaddrs)} (h : getIPPrefix gni ifs = .ok Constants.noWifiAddress) :
    (scanNetworkForHosts gni ifs).outcome w.answer = some (.crashed .abstractSubscribe) := by
  have hscan : (scan gni ifs).outcome w.answer = some (.crashed .abstractSubscribe) := by
    rw [scan, h]
    rfl
  rw [scanNetworkForHosts, Signal.outcome, Signal.outcome,
    outcome_flattenMap_crashed _ (outcome_flattenMap_crashed _ hscan)]
  rfl

/-- The interfaces and the network give a scan something to send: no entry is
`NULL`, `en0` has an address, and one of the 254 addresses made from the text of the
last one answers. -/
def FindsHostVia (gni : NumericHost) (l : List Ifaddrs) : Prop :=
  (∀ e ∈ l, e.ifa_addr ≠ none) ∧
    ∃ ip, (l.filterMap (wifiText gni)).getLast? = some ip ∧
      ∃ n ∈ List.range' 1 254, w.found (address (prefixOf ip) n) = true

theorem prefixOf_last_ne_noWifiAddress {gni : NumericHost} {l : List Ifaddrs} {ip : String}
    (h : (l.filterMap (wifiText gni)).getLast? = some ip) :
    prefixOf ip ≠ Constants.noWifiAddress := by
  obtain ⟨e, -, he⟩ := List.mem_filterMap.mp (List.mem_of_getLast? h)
  exact prefixOf_wifiText_ne_noWifiAddress he

/-- A host scan ends in an event exactly when it finds a host. -/
theorem endsInEvent_scanNetworkForHosts_iff (gni : NumericHost) (ifs : Option (List Ifaddrs)) :
    EndsInEvent w.answer (scanNetworkForHosts gni ifs) ↔
      ∃ l, ifs = some l ∧ FindsHostVia w gni l := by
  cases ifs with
  | none =>
    rw [endsInEvent_iff (outcome_scanNetworkForHosts_of_noWifiAddress w rfl)]
    simp
  | some l =>
    have hwalk := getWiFiAddress_eq gni l
    by_cases hnull : ∃ e ∈ l, e.ifa_addr = none
    · -- the walk traps
      rw [if_pos hnull] at hwalk
      rw [endsInEvent_iff (outcome_scanNetworkForHosts_of_error w (getIPPrefix_of_error hwalk))]
      obtain ⟨e, he, hnone⟩ := hnull
      apply iff_of_false (by simp)
      rintro ⟨l', hl', hsome, -⟩
      cases hl'
      exact hsome e he hnone
    rw [if_neg hnull] at hwalk
    have hsome : ∀ e ∈ l, e.ifa_addr ≠ none := fun e he h => hnull ⟨e, he, h⟩
    have hprefix := getIPPrefix_of_ok hwalk
    cases hlast : (l.filterMap (wifiText gni)).getLast? with
    | none =>
      -- no address: the base signal
      rw [hlast] at hprefix
      rw [endsInEvent_iff (outcome_scanNetworkForHosts_of_noWifiAddress w hprefix)]
      apply iff_of_false (by simp)
      rintro ⟨l', hl', -, ip, hip, -⟩
      cases hl'
      rw [hlast] at hip
      cases hip
    | some ip =>
      rw [hlast, Option.elim_some] at hprefix
      rw [endsInEvent_iff
        (outcome_scanNetworkForHosts w hprefix (prefixOf_last_ne_noWifiAddress hlast))]
      by_cases hfound : ∃ n ∈ List.range' 1 254, w.found (address (prefixOf ip) n) = true
      · refine iff_of_true ?_ ⟨l, rfl, hsome, ip, hlast, hfound⟩
        split
        next hnil => exact absurd hnil (foundAddresses_ne_nil w hfound)
        next => exact ⟨.completed, by simp, rfl⟩
      · have hnil : foundAddresses w (prefixOf ip) = [] := by
          rw [foundAddresses, List.filter_eq_nil_iff, targets, List.forall_mem_map]
          exact fun n hn h => hfound ⟨n, hn, h⟩
        rw [hnil]
        apply iff_of_false (by simp)
        rintro ⟨l', hl', -, ip', hip', hfound'⟩
        cases hl'
        rw [hlast] at hip'
        cases hip'
        exact hfound hfound'

/-- **A scan ends in a value, an error or a completion, without a subscription to
the base class, exactly when it has something to send**: a host scan when it finds a
host, a port scan when the host has an address. -/
theorem missing_address_ends_in_event_iff (gni : NumericHost) (ifs : Option (List Ifaddrs))
    (host : Host) :
    (EndsInEvent w.answer (scanNetworkForHosts gni ifs) ↔
      ∃ l, ifs = some l ∧ (∀ e ∈ l, e.ifa_addr ≠ none) ∧
        ∃ ip, (l.filterMap (wifiText gni)).getLast? = some ip ∧
          ∃ n ∈ List.range' 1 254, w.found (address (prefixOf ip) n) = true) ∧
    (EndsInEvent w.answer (scanPortsOn connect host) ↔ host.ipAddress ≠ none) := by
  refine ⟨endsInEvent_scanNetworkForHosts_iff w gni ifs, ?_⟩
  cases hip : host.ipAddress with
  | none =>
    rw [endsInEvent_iff (outcome_scanPortsOn_none w connect hip)]
    simp
  | some ip =>
    rw [endsInEvent_iff (outcome_scanPortsOn w connect hip)]
    simp

/-- Without an address on `en0`, and for a host without one, the base class is
subscribed to and nothing is heard. -/
theorem missing_address_crashes :
    (∃ x, Run twoHosts.answer
        (.starting (scanNetworkForHosts .uncompressed (some [⟨"lo0", some (.inet 127 0 0 1)⟩]))) x
        [.crash .abstractSubscribe] ∧ Quiet x) ∧
    ∃ x, Run twoHosts.answer
        (.starting (scanPortsOn (fun _ _ => .success) ⟨none, none, none, none⟩)) x
        [.crash .abstractSubscribe] ∧ Quiet x :=
  ⟨exists_run_of_outcome (outcome_scanNetworkForHosts_of_noWifiAddress _ (by decide)),
    exists_run_of_outcome (outcome_scanPortsOn_none _ _ rfl)⟩

end LANScan
