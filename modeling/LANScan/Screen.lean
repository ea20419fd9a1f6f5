import LANScan.ScanViewController

/-!
# What the screen says

A user learns of a scan from the status text, from the scan buttons and from the spinner.
The first two are set by the handlers alone.  The spinner is also set when the first
animation ends, which nothing keeps before the end of the scan.

## Main definitions

* `Screen` — before the first scan, during a scan, and after one.
* `SessionEvent.startsScan` — the presses that start a scan.
* `AnimationInTime` — no animation outlasts its scan.

## Main results

* `Screen.step` — every handler goes from one of them to another.
* `isTouchable_of_trace` — the first button can be touched until the first scan.
* `session_screen` — **a scan can be started exactly when none is outstanding, and the
  status text says so.**
* `spinner_shows_scan` — **the spinner shows a scan exactly as long as no animation ends
  when there is none.**
-/

namespace LANScan

open Reactive

/-! ### Status and buttons -/

/-- What the screen shows before the first scan, during a scan, and after one. -/
inductive Screen (s : Session) : Prop
  | idle (houtstanding : s.outstanding = 0)
    (hinitial : s.vc.scanView.scanButton = ⟨false, true, 1⟩)
    (hscan : s.vc.topView.scanButton = ⟨true, true, 1⟩)
    (hstatus : s.vc.topView.statusText = Constants.statusTitleIdle)
  | scanning (houtstanding : s.outstanding = 1)
    (hinitial : s.vc.scanView.scanButton = ⟨false, true, 0⟩)
    (hscan : s.vc.topView.scanButton = ⟨false, false, 1⟩)
    (hstatus : s.vc.topView.statusText = Constants.statusTitleScanning)
  | finished (houtstanding : s.outstanding = 0)
    (hinitial : s.vc.scanView.scanButton = ⟨false, true, 0⟩)
    (hscan : s.vc.topView.scanButton = ⟨false, true, 1⟩)
    (hstatus : s.vc.topView.statusText =
      s!"{s.vc.hosts.length} {Constants.statusTitleHostsFound}")

variable {s s' : Session} {e : SessionEvent}

/-- The first scan starts. -/
theorem Screen.initialScan_step (h : Screen s)
    (htouch : s.vc.scanView.scanButton.isTouchable = true) :
    Screen (s.perform (s.vc.didPressInitialScan true)) := by
  cases h with
  | idle houtstanding hinitial hscan =>
    refine .scanning ?_ ?_ ?_ rfl
    · simp [Session.perform, ScanViewController.didPressInitialScan, houtstanding]
    · simp [Session.perform, ScanViewController.didPressInitialScan, ScanView.initScanView,
        hinitial]
    · simp [Session.perform, ScanViewController.didPressInitialScan, TopView.initScanView,
        TopView.setUIModeToScanning, TopView.setStatusText, hscan]
  | scanning _ hinitial =>
    rw [hinitial] at htouch
    cases htouch
  | finished _ hinitial =>
    rw [hinitial] at htouch
    cases htouch

/-- Another scan starts. -/
theorem Screen.scan_step (h : Screen s) (htouch : s.vc.topView.scanButton.isTouchable = true) :
    Screen (s.perform (s.vc.didPressScan true)) := by
  cases h with
  | idle _ _ hscan =>
    rw [hscan] at htouch
    cases htouch
  | scanning _ _ hscan =>
    rw [hscan] at htouch
    cases htouch
  | finished houtstanding hinitial hscan =>
    refine .scanning ?_ ?_ ?_ rfl
    · simp [Session.perform, ScanViewController.didPressScan, houtstanding]
    · exact hinitial
    · simp [Session.perform, ScanViewController.didPressScan, ScanViewController.setUIToScanning,
        TopView.setUIModeToScanning, TopView.setStatusText, hscan]

/-- A scan sends its hosts. -/
theorem Screen.scanSent_step (h : Screen s) (hs : List Host) (hout : s.outstanding ≠ 0) :
    Screen { s with
      vc := s.vc.scanned (.tuple (hs.map fun h => .obj (.host h)))
      outstanding := s.outstanding - 1 } := by
  rw [ScanViewController.scanned_hosts]
  cases h with
  | idle houtstanding => exact absurd houtstanding hout
  | scanning houtstanding hinitial hscan =>
    refine .finished ?_ hinitial ?_ rfl
    · show s.outstanding - 1 = 0
      rw [houtstanding]
    · simp [TopView.setUIModeToFinished, TopView.setStatusText, hscan]
  | finished houtstanding => exact absurd houtstanding hout

/-- **Every handler keeps one of the three.** -/
theorem Screen.step (h : Screen s) (hs : session.Step s e s') : Screen s' := by
  obtain ⟨hen, effects, heq⟩ := hs
  cases e with
  | initialScanPressed isOnWiFi =>
    obtain ⟨rfl, -⟩ := Prod.mk.inj (Option.some.inj heq)
    cases isOnWiFi with
    | true => exact h.initialScan_step hen
    | false => exact (perform_warning s).symm ▸ h
  | scanPressed isOnWiFi =>
    obtain ⟨rfl, -⟩ := Prod.mk.inj (Option.some.inj heq)
    cases isOnWiFi with
    | true => exact h.scan_step hen
    | false => exact (perform_warning s).symm ▸ h
  | rowTapped row =>
    obtain ⟨_, -, heq⟩ := Option.map_eq_some_iff.mp heq
    obtain ⟨rfl, -⟩ := Prod.mk.inj heq
    exact h
  | scanSent hosts =>
    obtain ⟨rfl, -⟩ := Prod.mk.inj (Option.some.inj heq)
    exact h.scanSent_step hosts hen
  | animationEnded =>
    obtain ⟨rfl, -⟩ := Prod.mk.inj (Option.some.inj heq)
    cases h with
    | idle houtstanding hinitial hscan hstatus =>
      exact .idle houtstanding hinitial hscan hstatus
    | scanning houtstanding hinitial hscan hstatus =>
      exact .scanning houtstanding hinitial hscan hstatus
    | finished houtstanding hinitial hscan hstatus =>
      exact .finished houtstanding hinitial hscan hstatus

theorem screen_of_reachable (h : session.Reachable s) : Screen s :=
  h.invariant (.idle rfl rfl rfl rfl) fun _ _ _ hi hs => hi.step hs

/-- The presses that start a scan. -/
def SessionEvent.startsScan : SessionEvent → Bool
  | .initialScanPressed isOnWiFi => isOnWiFi
  | .scanPressed isOnWiFi => isOnWiFi
  | _ => false

/-- **The first scan takes the first button away**, and nothing brings it back. -/
theorem Consistent.isTouchable_step (h : Consistent s) (hs : session.Step s e s') :
    s'.vc.scanView.scanButton.isTouchable =
      (s.vc.scanView.scanButton.isTouchable && !e.startsScan) := by
  obtain ⟨hen, effects, heq⟩ := hs
  cases e with
  | initialScanPressed isOnWiFi =>
    obtain ⟨rfl, -⟩ := Prod.mk.inj (Option.some.inj heq)
    cases isOnWiFi with
    | true =>
      rw [SessionEvent.startsScan, Bool.not_true, Bool.and_false]
      exact not_isTouchable (Or.inr (Or.inr rfl))
    | false => exact (perform_warning s).symm ▸ (Bool.and_true _).symm
  | scanPressed isOnWiFi =>
    obtain ⟨rfl, -⟩ := Prod.mk.inj (Option.some.inj heq)
    cases isOnWiFi with
    | true =>
      rw [SessionEvent.startsScan, Bool.not_true, Bool.and_false]
      -- the second button is only there when the first is not
      exact (h.scan hen).2
    | false => exact (perform_warning s).symm ▸ (Bool.and_true _).symm
  | rowTapped row =>
    obtain ⟨_, -, heq⟩ := Option.map_eq_some_iff.mp heq
    obtain ⟨rfl, -⟩ := Prod.mk.inj heq
    exact (Bool.and_true _).symm
  | scanSent hosts =>
    obtain ⟨rfl, -⟩ := Prod.mk.inj (Option.some.inj heq)
    rw [ScanViewController.scanned_hosts]
    exact (Bool.and_true _).symm
  | animationEnded =>
    obtain ⟨rfl, -⟩ := Prod.mk.inj (Option.some.inj heq)
    exact (Bool.and_true _).symm

/-- The first button can be touched as long as no scan has been started. -/
theorem isTouchable_of_trace {es : List SessionEvent} (h : session.Trace es s) :
    s.vc.scanView.scanButton.isTouchable = !es.any SessionEvent.startsScan := by
  induction h with
  | init => rfl
  | step h hs ih =>
    rw [(consistent_of_reachable h.reachable).isTouchable_step hs, ih, List.any_append,
      Bool.not_or]
    simp

/-- **The screen tells whether a scan can be started**: after every sequence of events one of
the two scan buttons can be touched exactly if no scan is outstanding, the first one until the
first scan and never both, and the status text says that a scan is outstanding, that there has
been none, or how many hosts are in the list. -/
theorem session_screen {es : List SessionEvent} (h : session.Trace es s) :
    ((s.vc.scanView.scanButton.isTouchable = true ∨
      s.vc.topView.scanButton.isTouchable = true) ↔ s.outstanding = 0) ∧
    ¬(s.vc.scanView.scanButton.isTouchable = true ∧
      s.vc.topView.scanButton.isTouchable = true) ∧
    (s.vc.scanView.scanButton.isTouchable = true ↔ ∀ e ∈ es, e.startsScan = false) ∧
    s.vc.topView.statusText =
      if s.outstanding ≠ 0 then Constants.statusTitleScanning
      else if ∀ e ∈ es, e.startsScan = false then Constants.statusTitleIdle
      else s!"{s.vc.scanView.rows.length} {Constants.statusTitleHostsFound}" := by
  have hc := consistent_of_reachable h.reachable
  have hfirst : s.vc.scanView.scanButton.isTouchable = true ↔ ∀ e ∈ es, e.startsScan = false := by
    rw [isTouchable_of_trace h]
    simp
  simp only [← hfirst]
  cases screen_of_reachable h.reachable with
  | idle houtstanding hinitial hscan hstatus =>
    rw [hinitial, hscan, hstatus, houtstanding]
    refine ⟨by decide, by decide, trivial, ?_⟩
    rw [if_neg (by decide), if_pos (by decide)]
  | scanning houtstanding hinitial hscan hstatus =>
    rw [hinitial, hscan, hstatus, houtstanding]
    refine ⟨by decide, by decide, trivial, ?_⟩
    rw [if_pos (by decide)]
  | finished houtstanding hinitial hscan hstatus =>
    rw [hinitial, hscan, hstatus, houtstanding, hc.rows, hc.idle houtstanding]
    refine ⟨by decide, by decide, trivial, ?_⟩
    rw [if_neg (by decide), if_neg (by decide)]

theorem session_screen_firstScanDone :
    firstScanDone.vc.topView.statusText =
      s!"{firstScanDone.vc.scanView.rows.length} {Constants.statusTitleHostsFound}" := by
  rw [(session_screen trace_firstScanDone).2.2.2, if_neg (by decide), if_neg (by decide)]

/-! ### The spinner -/

/-- The animation of the first scan ends while a scan is outstanding. -/
def AnimationInTime (s : Session) (e : SessionEvent) : Prop :=
  e = .animationEnded → s.outstanding ≠ 0

/-- The spinner shows a scan, but not one whose animation is running. -/
structure Spins (s : Session) : Prop where
  idle : s.outstanding = 0 → s.vc.scanView.spinnerIsHidden = true
  scanning : s.outstanding ≠ 0 → s.animations = 0 → s.vc.scanView.spinnerIsHidden = false

theorem Spins.step (h : Spins s) (hc : Consistent s) (hok : AnimationInTime s e)
    (hs : session.Step s e s') : Spins s' := by
  obtain ⟨hen, effects, heq⟩ := hs
  cases e with
  | initialScanPressed isOnWiFi =>
    obtain ⟨rfl, -⟩ := Prod.mk.inj (Option.some.inj heq)
    cases isOnWiFi with
    | true =>
      refine ⟨fun hzero => ?_, fun _ hzero => ?_⟩
      · simp [Session.perform, ScanViewController.didPressInitialScan] at hzero
      · simp [Session.perform, ScanViewController.didPressInitialScan] at hzero
    | false => exact (perform_warning s).symm ▸ h
  | scanPressed isOnWiFi =>
    obtain ⟨rfl, -⟩ := Prod.mk.inj (Option.some.inj heq)
    cases isOnWiFi with
    | true =>
      refine ⟨fun hzero => ?_, fun _ _ => rfl⟩
      simp [Session.perform, ScanViewController.didPressScan] at hzero
    | false => exact (perform_warning s).symm ▸ h
  | rowTapped row =>
    obtain ⟨_, -, heq⟩ := Option.map_eq_some_iff.mp heq
    obtain ⟨rfl, -⟩ := Prod.mk.inj heq
    exact h
  | scanSent hosts =>
    obtain ⟨rfl, -⟩ := Prod.mk.inj (Option.some.inj heq)
    have hle := hc.outstanding_le
    rw [ScanViewController.scanned_hosts]
    refine ⟨fun _ => rfl, fun hne => ?_⟩
    have hne : s.outstanding - 1 ≠ 0 := hne
    omega
  | animationEnded =>
    obtain ⟨rfl, -⟩ := Prod.mk.inj (Option.some.inj heq)
    exact ⟨fun hzero => absurd hzero (hok rfl), fun _ _ => rfl⟩

/-- **The spinner shows a scan** in all runs in which no animation ends when no scan is
outstanding: it is hidden when there is none, and shown when there is one and no animation
is running.  An animation that ends too late always leaves it shown with nothing to wait
for. -/
theorem spinner_shows_scan :
    (∀ s, session.ReachWhile AnimationInTime s →
      (s.outstanding = 0 → s.vc.scanView.spinnerIsHidden = true) ∧
      (s.outstanding ≠ 0 → s.animations = 0 → s.vc.scanView.spinnerIsHidden = false)) ∧
    ∀ s e s', session.Step s e s' → ¬AnimationInTime s e →
      s'.outstanding = 0 ∧ s'.vc.scanView.spinnerIsHidden = false := by
  refine ⟨fun s h => ?_, fun s e s' hs hlate => ?_⟩
  · have hspins : Spins s := by
      refine h.invariant_of_reachWhile (I := Spins) ⟨fun _ => rfl, fun hne => absurd rfl hne⟩ ?_
      intro s e s' hs hi hok hms
      exact hi.step (consistent_of_reachable hs.reachable) hok hms
    exact ⟨hspins.idle, hspins.scanning⟩
  · obtain ⟨he, hzero⟩ := Classical.not_imp.mp hlate
    rw [ne_eq, not_not] at hzero
    subst he
    obtain ⟨-, effects, heq⟩ := hs
    obtain ⟨rfl, -⟩ := Prod.mk.inj (Option.some.inj heq)
    exact ⟨hzero, rfl⟩

/-- The first scan is over before its animation. -/
theorem spinner_shows_scan_firstScanDone :
    firstScanDone.vc.scanView.spinnerIsHidden = true ∧
      ∃ s', session.Step firstScanDone .animationEnded s' ∧ s'.outstanding = 0 ∧
        s'.vc.scanView.spinnerIsHidden = false := by
  have hpress : session.Step session.init (.initialScanPressed true)
      (session.init.perform (ScanViewController.new.didPressInitialScan true)) :=
    ⟨by decide, _, rfl⟩
  have hsent : session.Step
      (session.init.perform (ScanViewController.new.didPressInitialScan true))
      (.scanSent [⟨some "192.168.1.7", some "printer.local", none, none⟩]) firstScanDone :=
    ⟨by decide, [], rfl⟩
  have hreach : session.ReachWhile AnimationInTime firstScanDone :=
    (Machine.ReachWhile.init.step (fun he => by cases he) hpress).step
      (fun he => by cases he) hsent
  have hended : session.Step firstScanDone .animationEnded _ := ⟨by decide, [], rfl⟩
  exact ⟨(spinner_shows_scan.1 _ hreach).1 rfl, _, hended,
    spinner_shows_scan.2 _ _ _ hended fun hok => hok rfl rfl⟩

end LANScan
