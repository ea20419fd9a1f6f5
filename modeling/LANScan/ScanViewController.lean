import LANScan.LANScanner
import LANScan.Machine

/-!
# The scan session

The state of a scan session is spread over three objects: `TopView` and `ScanView`
each have a scan button, and the hosts found are kept both in `ScanView`, for its
table, and in `ScanViewController`, for the taps.  The handlers are functions on
that state which return what they ask the system for as a list of effects; a
`Session` adds what the system still owes them.

## Main definitions

* `TopView`, `ScanView`, `ScanViewController` and their handlers.
* `Session`, `session` — touches, scan results and animations, in any order.
* `Consistent` — the invariant.

## Main results

* `Consistent.step` — every handler keeps the invariant.
* `session_consistent` — **at most one scan is outstanding, and every tap opens the
  host shown in its row.**
-/

namespace LANScan

open Reactive

/-! ### The views -/

/-- The properties of a button that decide whether it is touched. -/
structure Button where
  isHidden : Bool
  isEnabled : Bool
  /-- Only whether it is zero matters. -/
  alpha : ℕ
  deriving DecidableEq, Repr

/-- No touch is delivered to a hidden, disabled or fully transparent button. -/
def Button.isTouchable (button : Button) : Bool :=
  !button.isHidden && button.isEnabled && button.alpha != 0

/-- The bar at the top: the status and the second scan button. -/
structure TopView where
  statusText : String
  scanButton : Button
  deriving DecidableEq, Repr

/-- The rest of the screen: the first scan button, the spinner and the table. -/
structure ScanView where
  scanButton : Button
  scanningListAlpha : ℕ
  spinnerIsHidden : Bool
  foundHosts : List Host
  /-- The rows of the table as it was last reloaded. -/
  rows : List Host
  deriving DecidableEq, Repr

namespace TopView

/-- A new view. -/
def new : TopView where
  statusText := Constants.statusTitleIdle
  scanButton := { isHidden := true, isEnabled := true, alpha := 1 }

/-- Shows a status. -/
def setStatusText (view : TopView) (text : String) : TopView := { view with statusText := text }

/-- A scan has started: the second button is disabled. -/
def setUIModeToScanning (view : TopView) : TopView :=
  let view := view.setStatusText Constants.statusTitleScanning
  { view with scanButton := { view.scanButton with isEnabled := false } }

/-- A scan has found hosts: the second button is enabled. -/
def setUIModeToFinished (view : TopView) (hostCount : ℕ) : TopView :=
  let view := view.setStatusText s!"{hostCount} {Constants.statusTitleHostsFound}"
  { view with scanButton := { view.scanButton with isEnabled := true } }

/-- The first scan has started: the second button is there from now on. -/
def initScanView (view : TopView) : TopView :=
  setUIModeToScanning { view with scanButton := { view.scanButton with isHidden := false } }

end TopView

namespace ScanView

/-- A new view. -/
def new : ScanView where
  scanButton := { isHidden := false, isEnabled := true, alpha := 1 }
  scanningListAlpha := 0
  spinnerIsHidden := true
  foundHosts := []
  rows := []

/-- The table shows the hosts found. -/
def reloadData (view : ScanView) : ScanView := { view with rows := view.foundHosts }

/-- Assigning to `foundHosts` reloads the table. -/
def setFoundHosts (view : ScanView) (foundHosts : List Host) : ScanView :=
  reloadData { view with foundHosts := foundHosts }

/-- Shows or hides the spinner. -/
def showLoadingSpinner (view : ScanView) (isShown : Bool) : ScanView :=
  { view with spinnerIsHidden := !isShown }

/-- The animated properties take their new values at once. -/
def initScanView (view : ScanView) : ScanView :=
  { view with
    scanButton := { view.scanButton with alpha := 0 }
    scanningListAlpha := 1 }

/-- The completion of the animation of `initScanView`. -/
def initScanViewCompletion (view : ScanView) : ScanView := view.showLoadingSpinner true

/-- A scan has found hosts: the spinner is hidden. -/
def setUIModeToFinished (view : ScanView) : ScanView := view.showLoadingSpinner false

/-- A scan has started: the table is emptied and the spinner shown. -/
def setUIModeToScanning (view : ScanView) : ScanView :=
  ((view.setFoundHosts []).reloadData).showLoadingSpinner true

end ScanView

/-! ### The view controller -/

/-- The view controller, with its views and the hosts it knows. -/
structure ScanViewController where
  topView : TopView
  scanView : ScanView
  hosts : List Host
  deriving DecidableEq, Repr

/-- An alert with one button. -/
structure UIAlertController where
  title : String
  message : String
  defaultButton : String
  deriving DecidableEq, Repr

/-- What a handler asks the system for. -/
inductive Effect
  /-- A subscription to `scanNetworkForHosts`. -/
  | subscribe
  /-- The animation of `initScanView`. -/
  | animate
  | presentAlert (alert : UIAlertController)
  /-- The view controller of a host. -/
  | presentDevice (host : Host)
  deriving DecidableEq, Repr

namespace ScanViewController

/-- A new view controller. -/
def new : ScanViewController where
  topView := .new
  scanView := .new
  hosts := []

/-- The warning that there is no WiFi. -/
def noWiFiWarning : UIAlertController where
  title := Constants.notificationNoWifiTitle
  message := Constants.notificationNoWifiBody
  defaultButton := Constants.okButtonLabel

/-- The effect of presenting it. -/
def presentNoWiFiWarning : List Effect := [.presentAlert noWiFiWarning]

/-- Both views are told that a scan has started. -/
def setUIToScanning (vc : ScanViewController) : ScanViewController :=
  { vc with
    topView := vc.topView.setUIModeToScanning
    scanView := vc.scanView.setUIModeToScanning }

/-- Both views are told how many hosts a scan has found. -/
def setUIToFinished (vc : ScanViewController) (hostCount : ℕ) : ScanViewController :=
  { vc with
    topView := vc.topView.setUIModeToFinished hostCount
    scanView := vc.scanView.setUIModeToFinished }

/-- A press of the first scan button. -/
def didPressInitialScan (vc : ScanViewController) (isOnWiFi : Bool) :
    ScanViewController × List Effect :=
  if isOnWiFi then
    ({ vc with
        scanView := vc.scanView.initScanView
        topView := vc.topView.initScanView }, [.animate, .subscribe])
  else (vc, presentNoWiFiWarning)

/-- A press of the second scan button. -/
def didPressScan (vc : ScanViewController) (isOnWiFi : Bool) : ScanViewController × List Effect :=
  if isOnWiFi then (vc.setUIToScanning, [.subscribe]) else (vc, presentNoWiFiWarning)

/-- The block `startScanning` subscribes with.  Neither a completion nor an error
has a block. -/
def scanned (vc : ScanViewController) (hosts : Value Obj) : ScanViewController :=
  match asTuple hosts >>= List.mapM asHost with
  | none => vc
  | some fHosts =>
    let vc := vc.setUIToFinished fHosts.length
    { vc with
      hosts := fHosts
      scanView := vc.scanView.setFoundHosts fHosts }

/-- `none` is an index out of range. -/
def didSelectTargetDevice (vc : ScanViewController) (index : ℕ) : Option (List Effect) :=
  vc.hosts[index]?.map fun host => [.presentDevice host]

theorem scanned_hosts (vc : ScanViewController) (hs : List Host) :
    vc.scanned (.tuple (hs.map fun h => .obj (.host h))) =
      { topView := vc.topView.setUIModeToFinished hs.length
        scanView := vc.scanView.setUIModeToFinished.setFoundHosts hs
        hosts := hs } := by
  have hcast : asTuple (.tuple (hs.map fun h => .obj (.host h))) >>= List.mapM asHost = some hs :=
    mapM_asHost hs
  rw [scanned, hcast]
  rfl

end ScanViewController

/-! ### Sessions -/

/-- The view controller, and what the system owes it. -/
structure Session where
  vc : ScanViewController
  /-- Subscriptions that have not sent their value. -/
  outstanding : ℕ
  /-- Animations that have not ended. -/
  animations : ℕ
  deriving DecidableEq, Repr

/-- What the system does to a session. -/
inductive SessionEvent
  | initialScanPressed (isOnWiFi : Bool)
  | scanPressed (isOnWiFi : Bool)
  | rowTapped (row : ℕ)
  /-- An outstanding scan sends its value. -/
  | scanSent (hosts : List Host)
  | animationEnded
  deriving DecidableEq, Repr

namespace Session

/-- What the system owes after carrying out some effects. -/
def perform (s : Session) (r : ScanViewController × List Effect) : Session where
  vc := r.1
  outstanding := s.outstanding + r.2.count .subscribe
  animations := s.animations + r.2.count .animate

/-- The events that can occur: touches of what can be touched, taps of rows that
are shown, and what is owed. -/
def Enabled (s : Session) : SessionEvent → Prop
  | .initialScanPressed _ => s.vc.scanView.scanButton.isTouchable = true
  | .scanPressed _ => s.vc.topView.scanButton.isTouchable = true
  | .rowTapped row => row < s.vc.scanView.rows.length
  | .scanSent _ => s.outstanding ≠ 0
  | .animationEnded => s.animations ≠ 0

instance (s : Session) : (e : SessionEvent) → Decidable (s.Enabled e)
  | .initialScanPressed _ => inferInstanceAs (Decidable (_ = true))
  | .scanPressed _ => inferInstanceAs (Decidable (_ = true))
  | .rowTapped _ => inferInstanceAs (Decidable (_ < _))
  | .scanSent _ => inferInstanceAs (Decidable (_ ≠ 0))
  | .animationEnded => inferInstanceAs (Decidable (_ ≠ 0))

/-- The handler of each event, with its effects; `none` is a trap. -/
def handle (s : Session) : SessionEvent → Option (Session × List Effect)
  | .initialScanPressed isOnWiFi =>
    let r := s.vc.didPressInitialScan isOnWiFi
    some (s.perform r, r.2)
  | .scanPressed isOnWiFi =>
    let r := s.vc.didPressScan isOnWiFi
    some (s.perform r, r.2)
  | .rowTapped row => (s.vc.didSelectTargetDevice row).map fun effects => (s, effects)
  | .scanSent hosts =>
    some ({ s with
      vc := s.vc.scanned (.tuple (hosts.map fun h => .obj (.host h)))
      outstanding := s.outstanding - 1 }, [])
  | .animationEnded =>
    some ({ s with
      vc := { s.vc with scanView := s.vc.scanView.initScanViewCompletion }
      animations := s.animations - 1 }, [])

end Session

/-- The session as a machine. -/
def session : Machine Session SessionEvent where
  init := { vc := .new, outstanding := 0, animations := 0 }
  Step s e s' := s.Enabled e ∧ ∃ effects, s.handle e = some (s', effects)

/-! ### The invariant -/

/-- What ties the three objects together. -/
structure Consistent (s : Session) : Prop where
  outstanding_le : s.outstanding ≤ 1
  rows : s.vc.scanView.rows = s.vc.scanView.foundHosts
  scanning : s.outstanding ≠ 0 → s.vc.scanView.foundHosts = []
  idle : s.outstanding = 0 → s.vc.scanView.foundHosts = s.vc.hosts
  /-- The first button is only there before the first scan. -/
  initialScan : s.vc.scanView.scanButton.isTouchable = true →
    s.outstanding = 0 ∧ s.vc.scanView.foundHosts = []
  /-- The second button is never there during a scan, nor together with the first. -/
  scan : s.vc.topView.scanButton.isTouchable = true →
    s.outstanding = 0 ∧ s.vc.scanView.scanButton.isTouchable = false

theorem consistent_init : Consistent session.init where
  outstanding_le := by decide
  rows := rfl
  scanning := by decide
  idle := fun _ => rfl
  initialScan := fun _ => ⟨rfl, rfl⟩
  scan := by decide

/-- A button that is hidden, disabled or transparent is not touched. -/
theorem not_isTouchable {button : Button}
    (h : button.isHidden = true ∨ button.isEnabled = false ∨ button.alpha = 0) :
    button.isTouchable = false := by
  rcases h with h | h | h <;> simp [Button.isTouchable, h]

/-- A press of a scan button without WiFi has no effect but the warning. -/
theorem perform_warning (s : Session) :
    s.perform (s.vc, ScanViewController.presentNoWiFiWarning) = s := by
  simp [Session.perform, ScanViewController.presentNoWiFiWarning]

theorem Consistent.initialScan_step {s : Session} (h : Consistent s)
    (htouch : s.vc.scanView.scanButton.isTouchable = true) :
    Consistent (s.perform (s.vc.didPressInitialScan true)) := by
  obtain ⟨hout, hfound⟩ := h.initialScan htouch
  have hone : (s.perform (s.vc.didPressInitialScan true)).outstanding = 1 := by
    simp [Session.perform, ScanViewController.didPressInitialScan, hout]
  exact
    { outstanding_le := hone.le
      rows := h.rows
      scanning := fun _ => hfound
      idle := fun hzero => absurd hzero (by rw [hone]; decide)
      initialScan := fun ht => by
        rw [not_isTouchable (Or.inr (Or.inr rfl))] at ht
        cases ht
      scan := fun ht => by
        rw [not_isTouchable (Or.inr (Or.inl rfl))] at ht
        cases ht }

theorem Consistent.scan_step {s : Session} (h : Consistent s)
    (htouch : s.vc.topView.scanButton.isTouchable = true) :
    Consistent (s.perform (s.vc.didPressScan true)) := by
  obtain ⟨hout, hfirst⟩ := h.scan htouch
  have hone : (s.perform (s.vc.didPressScan true)).outstanding = 1 := by
    simp [Session.perform, ScanViewController.didPressScan, hout]
  exact
    { outstanding_le := hone.le
      rows := rfl
      scanning := fun _ => rfl
      idle := fun hzero => absurd hzero (by rw [hone]; decide)
      initialScan := fun ht => absurd ht (Bool.eq_false_iff.mp hfirst)
      scan := fun ht => by
        rw [not_isTouchable (Or.inr (Or.inl rfl))] at ht
        cases ht }

theorem Consistent.scanSent_step {s : Session} (h : Consistent s) (hs : List Host)
    (hout : s.outstanding ≠ 0) :
    Consistent { s with
      vc := s.vc.scanned (.tuple (hs.map fun h => .obj (.host h)))
      outstanding := s.outstanding - 1 } := by
  have hzero : s.outstanding - 1 = 0 := by have := h.outstanding_le; omega
  -- a scan is outstanding, so the first button is gone
  have hfirst : s.vc.scanView.scanButton.isTouchable = false := by
    rw [Bool.eq_false_iff]
    exact fun ht => hout (h.initialScan ht).1
  rw [ScanViewController.scanned_hosts]
  exact
    { outstanding_le := hzero.le.trans (Nat.zero_le 1)
      rows := rfl
      scanning := fun hne => absurd hzero hne
      idle := fun _ => rfl
      initialScan := fun ht => absurd ht (Bool.eq_false_iff.mp hfirst)
      scan := fun _ => ⟨hzero, hfirst⟩ }

/-- **Every handler keeps the invariant.** -/
theorem Consistent.step {s s' : Session} {e : SessionEvent} (h : Consistent s)
    (hs : session.Step s e s') : Consistent s' := by
  obtain ⟨hen, effects, heq⟩ := hs
  cases e with
  | initialScanPressed isOnWiFi =>
    obtain ⟨rfl, -⟩ := Prod.mk.inj (Option.some.inj heq)
    cases isOnWiFi with
    | true => exact h.initialScan_step hen
    | false => exact (perform_warning s).symm ▸ h
  | scanPressed isOnWiFi =>
    obtain ⟨rfl, -⟩ := Prod.mk.inj (Option.some.inj heq)
    cases isOnWiFi with
    | true => exact h.scan_step hen
    | false => exact (perform_warning s).symm ▸ h
  | rowTapped row =>
    obtain ⟨_, -, heq⟩ := Option.map_eq_some_iff.mp heq
    obtain ⟨rfl, -⟩ := Prod.mk.inj heq
    exact h
  | scanSent hosts =>
    obtain ⟨rfl, -⟩ := Prod.mk.inj (Option.some.inj heq)
    exact h.scanSent_step hosts hen
  | animationEnded =>
    obtain ⟨rfl, -⟩ := Prod.mk.inj (Option.some.inj heq)
    exact ⟨h.outstanding_le, h.rows, h.scanning, h.idle, h.initialScan, h.scan⟩

theorem consistent_of_reachable {s : Session} (h : session.Reachable s) : Consistent s :=
  h.invariant consistent_init fun _ _ _ hi hs => hi.step hs

/-- A tap opens the host shown in its row. -/
theorem Consistent.rowTapped {s : Session} (h : Consistent s) {row : ℕ} {host : Host}
    (hrow : s.vc.scanView.rows[row]? = some host) :
    row < s.vc.hosts.length ∧ s.handle (.rowTapped row) = some (s, [.presentDevice host]) := by
  rw [h.rows] at hrow
  -- a row is shown, so no scan is outstanding
  have hout : s.outstanding = 0 := by
    by_contra hne
    rw [h.scanning hne] at hrow
    cases hrow
  rw [h.idle hout] at hrow
  refine ⟨(List.getElem?_eq_some_iff.mp hrow).1, ?_⟩
  simp [Session.handle, ScanViewController.didSelectTargetDevice, hrow]

/-- **The scan session stays consistent**: in every reachable state at most one scan
is outstanding, `foundHosts` is empty during a scan and equals `hosts` otherwise, a
press without WiFi changes nothing, and no event that can occur traps: a tap opens
the host shown in its row. -/
theorem session_consistent {s : Session} (h : session.Reachable s) :
    s.outstanding ≤ 1 ∧
    (s.outstanding ≠ 0 → s.vc.scanView.foundHosts = []) ∧
    (s.outstanding = 0 → s.vc.scanView.foundHosts = s.vc.hosts) ∧
    s.handle (.initialScanPressed false) = some (s, ScanViewController.presentNoWiFiWarning) ∧
    s.handle (.scanPressed false) = some (s, ScanViewController.presentNoWiFiWarning) ∧
    (∀ e, s.Enabled e → s.handle e ≠ none) ∧
    ∀ row, s.Enabled (.rowTapped row) →
      ∃ host, s.vc.scanView.rows[row]? = some host ∧ row < s.vc.hosts.length ∧
        s.handle (.rowTapped row) = some (s, [.presentDevice host]) := by
  have hc := consistent_of_reachable h
  have htap : ∀ row, s.Enabled (.rowTapped row) →
      ∃ host, s.vc.scanView.rows[row]? = some host ∧ row < s.vc.hosts.length ∧
        s.handle (.rowTapped row) = some (s, [.presentDevice host]) := by
    intro row hrow
    have hget := List.getElem?_eq_getElem hrow
    exact ⟨_, hget, hc.rowTapped hget⟩
  have hwarn : some (s.perform (s.vc, ScanViewController.presentNoWiFiWarning),
      ScanViewController.presentNoWiFiWarning) =
      some (s, ScanViewController.presentNoWiFiWarning) := by rw [perform_warning]
  refine ⟨hc.outstanding_le, hc.scanning, hc.idle, hwarn, hwarn, ?_, htap⟩
  intro e hen
  cases e with
  | initialScanPressed => exact Option.some_ne_none _
  | scanPressed => exact Option.some_ne_none _
  | rowTapped row =>
    obtain ⟨host, -, -, heq⟩ := htap row hen
    rw [heq]
    exact Option.some_ne_none _
  | scanSent => exact Option.some_ne_none _
  | animationEnded => exact Option.some_ne_none _

/-- A session after a first scan that found one host. -/
def firstScanDone : Session where
  vc := (ScanViewController.new.didPressInitialScan true).1.scanned
    (.tuple [.obj (.host ⟨some "192.168.1.7", some "printer.local", none, none⟩)])
  outstanding := 0
  animations := 1

/-- The run of that session. -/
theorem trace_firstScanDone : session.Trace [.initialScanPressed true,
    .scanSent [⟨some "192.168.1.7", some "printer.local", none, none⟩]] firstScanDone := by
  have hpress : session.Step session.init (.initialScanPressed true)
      (session.init.perform (ScanViewController.new.didPressInitialScan true)) :=
    ⟨by decide, _, rfl⟩
  exact (Machine.Trace.init.step hpress).step
    (e := .scanSent [⟨some "192.168.1.7", some "printer.local", none, none⟩])
    ⟨by decide, [], rfl⟩

theorem reachable_firstScanDone : session.Reachable firstScanDone :=
  trace_firstScanDone.reachable

theorem session_consistent_firstScanDone :
    ∃ host, firstScanDone.vc.scanView.rows[0]? = some host ∧
      0 < firstScanDone.vc.hosts.length ∧
      firstScanDone.handle (.rowTapped 0) = some (firstScanDone, [.presentDevice host]) :=
  (session_consistent reachable_firstScanDone).2.2.2.2.2.2 0 (by decide)

end LANScan
