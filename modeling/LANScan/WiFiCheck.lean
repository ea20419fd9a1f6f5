import LANScan.ScanViewController

/-!
# The check for WiFi

Each press of a scan button asks the system how it would reach a host.  The answer is a word
of flags, from which `Reachability` makes a status.

## Main definitions

* `networkStatusForFlags`, `isOnWiFi` — the check.

## Main results

* `isOnWiFi_iff` — the flags with which it says yes.
* `press_starts_scan_iff` — **with no others a press starts a scan.**
-/

namespace LANScan

/-! ### Flags -/

-- the flags of a host that the check looks at
namespace SCNetworkReachabilityFlags

/-- `kSCNetworkReachabilityFlagsReachable`. -/
def reachable : BitVec 32 := 1#32 <<< 1

/-- `kSCNetworkReachabilityFlagsConnectionRequired`. -/
def connectionRequired : BitVec 32 := 1#32 <<< 2

/-- `kSCNetworkReachabilityFlagsConnectionOnTraffic`. -/
def connectionOnTraffic : BitVec 32 := 1#32 <<< 3

/-- `kSCNetworkReachabilityFlagsInterventionRequired`. -/
def interventionRequired : BitVec 32 := 1#32 <<< 4

/-- `kSCNetworkReachabilityFlagsConnectionOnDemand`. -/
def connectionOnDemand : BitVec 32 := 1#32 <<< 5

/-- `kSCNetworkReachabilityFlagsIsWWAN`. -/
def isWWAN : BitVec 32 := 1#32 <<< 18

end SCNetworkReachabilityFlags

open SCNetworkReachabilityFlags

/-- How a host can be reached. -/
inductive NetworkStatus
  | notReachable
  | reachableViaWiFi
  | reachableViaWWAN
  deriving DecidableEq, Repr

/-- The status that the flags of a host mean. -/
def networkStatusForFlags (flags : BitVec 32) : NetworkStatus :=
  if flags &&& reachable = 0 then .notReachable
  else
    let returnValue : NetworkStatus := .notReachable
    let returnValue :=
      if flags &&& connectionRequired = 0 then .reachableViaWiFi else returnValue
    let returnValue :=
      if flags &&& connectionOnDemand ≠ 0 ∨ flags &&& connectionOnTraffic ≠ 0 then
        if flags &&& interventionRequired = 0 then .reachableViaWiFi else returnValue
      else returnValue
    if flags &&& isWWAN = isWWAN then .reachableViaWWAN else returnValue

/-- What the system knows of a host; `none` are flags that it does not give. -/
structure Reachability where
  flags : Option (BitVec 32)

/-- The status as it is now; without an answer the host is not reachable. -/
def Reachability.currentReachabilityStatus (reachability : Reachability) : NetworkStatus :=
  match reachability.flags with
  | none => .notReachable
  | some flags => networkStatusForFlags flags

/-- `none` is a host for which the system gives no object. -/
def isOnWiFi (hostReachability : Option Reachability) : Bool :=
  hostReachability.map Reachability.currentReachabilityStatus == some .reachableViaWiFi

/-! ### What the check says -/

/-- A mask of one bit takes out that bit. -/
theorem and_flag (flags : BitVec 32) (i : ℕ) :
    flags &&& 1#32 <<< i = if flags.getLsbD i = true then 1#32 <<< i else 0 := by
  rw [← BitVec.twoPow_eq]
  exact BitVec.and_twoPow flags i

/-- A host is reached over WiFi. -/
structure ViaWiFi (flags : BitVec 32) : Prop where
  reachable : flags.getLsbD 1 = true
  /-- No connection has to be made first, or one that is made on demand. -/
  connected : flags.getLsbD 2 = false ∨
    (flags.getLsbD 3 = true ∨ flags.getLsbD 5 = true) ∧ flags.getLsbD 4 = false
  not_wwan : flags.getLsbD 18 = false

theorem and_flag_eq_zero_iff (flags : BitVec 32) {i : ℕ} (hi : i < 32) :
    flags &&& 1#32 <<< i = 0 ↔ flags.getLsbD i = false := by
  have hne : ∀ i < 32, (1#32 <<< i : BitVec 32) ≠ 0 := by decide
  rw [and_flag]
  cases flags.getLsbD i with
  | true => simpa using hne i hi
  | false => simp

theorem networkStatusForFlags_eq_reachableViaWiFi_iff (flags : BitVec 32) :
    networkStatusForFlags flags = .reachableViaWiFi ↔ ViaWiFi flags := by
  have hreachable : flags &&& reachable = 0 ↔ flags.getLsbD 1 = false :=
    and_flag_eq_zero_iff flags (by decide)
  have hrequired : flags &&& connectionRequired = 0 ↔ flags.getLsbD 2 = false :=
    and_flag_eq_zero_iff flags (by decide)
  have htraffic : flags &&& connectionOnTraffic = 0 ↔ flags.getLsbD 3 = false :=
    and_flag_eq_zero_iff flags (by decide)
  have hintervention : flags &&& interventionRequired = 0 ↔ flags.getLsbD 4 = false :=
    and_flag_eq_zero_iff flags (by decide)
  have hdemand : flags &&& connectionOnDemand = 0 ↔ flags.getLsbD 5 = false :=
    and_flag_eq_zero_iff flags (by decide)
  have hwwan : flags &&& isWWAN = isWWAN ↔ flags.getLsbD 18 = true := by
    rw [isWWAN, and_flag]
    cases flags.getLsbD 18 with
    | true => simp
    | false => decide
  have hbits : networkStatusForFlags flags = .reachableViaWiFi ↔ flags.getLsbD 1 = true ∧
      (flags.getLsbD 2 = false ∨
        (flags.getLsbD 3 = true ∨ flags.getLsbD 5 = true) ∧ flags.getLsbD 4 = false) ∧
      flags.getLsbD 18 = false := by
    simp only [networkStatusForFlags, hreachable, hrequired, htraffic, hintervention, hdemand,
      hwwan, ne_eq]
    generalize flags.getLsbD 1 = b₁, flags.getLsbD 2 = b₂, flags.getLsbD 3 = b₃,
      flags.getLsbD 4 = b₄, flags.getLsbD 5 = b₅, flags.getLsbD 18 = b₁₈
    revert b₁ b₂ b₃ b₄ b₅ b₁₈
    decide
  rw [hbits]
  constructor
  · rintro ⟨hreachable, hconnected, hnot⟩
    exact ⟨hreachable, hconnected, hnot⟩
  · intro h
    exact ⟨h.reachable, h.connected, h.not_wwan⟩

/-- The check says yes just for a host that is reached over WiFi. -/
theorem isOnWiFi_iff (hostReachability : Option Reachability) :
    isOnWiFi hostReachability = true ↔
      ∃ flags, hostReachability = some ⟨some flags⟩ ∧ ViaWiFi flags := by
  rw [isOnWiFi, beq_iff_eq]
  constructor
  · intro h
    obtain ⟨⟨flags⟩, rfl, hstatus⟩ := Option.map_eq_some_iff.mp h
    cases flags with
    | none => cases hstatus
    | some flags => exact ⟨flags, rfl, (networkStatusForFlags_eq_reachableViaWiFi_iff _).mp hstatus⟩
  · rintro ⟨flags, rfl, hflags⟩
    exact congrArg some ((networkStatusForFlags_eq_reachableViaWiFi_iff _).mpr hflags)

/-- **A press starts a scan exactly if the phone is on WiFi**, and otherwise changes nothing and
warns. -/
theorem press_starts_scan_iff (vc : ScanViewController) (hostReachability : Option Reachability)
    {r : ScanViewController × List Effect}
    (hr : r = vc.didPressInitialScan (isOnWiFi hostReachability) ∨
      r = vc.didPressScan (isOnWiFi hostReachability)) :
    (.subscribe ∈ r.2 ↔ ∃ flags, hostReachability = some ⟨some flags⟩ ∧ ViaWiFi flags) ∧
      (.subscribe ∉ r.2 → r = (vc, ScanViewController.presentNoWiFiWarning)) := by
  rw [← isOnWiFi_iff]
  cases hcheck : isOnWiFi hostReachability with
  | true =>
    have hsubscribes : .subscribe ∈ r.2 := by
      rw [hcheck] at hr
      rcases hr with rfl | rfl
      · simp [ScanViewController.didPressInitialScan]
      · simp [ScanViewController.didPressScan]
    exact ⟨iff_of_true hsubscribes rfl, fun hnot => absurd hsubscribes hnot⟩
  | false =>
    have hwarns : r = (vc, ScanViewController.presentNoWiFiWarning) := by
      rw [hcheck] at hr
      rcases hr with rfl | rfl
      · rfl
      · rfl
    refine ⟨iff_of_false ?_ (by decide), fun _ => hwarns⟩
    rw [hwarns]
    simp [ScanViewController.presentNoWiFiWarning]

end LANScan
