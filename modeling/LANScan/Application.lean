import LANScan.ScanViewController

/-!
# Scans driven by the application

The view controller of the session together with the subscriptions it has started.
A step is a press of a scan button or one step of one of the running scans, so
every order in which pings, lookups and responses come in, and every overlap of
scans, is a run.

## Main definitions

* `Environment` — what one scan meets.
* `Application`, `application` — the running program.

## Main results

* `Environment.sends_signal` — what one scan sends.
* `scan_never_wedges_iff` — **once nothing is outstanding, every scan has delivered
  its hosts and the button is enabled exactly when every scan found a host.**
-/

namespace LANScan

open Reactive

/-! ### What a scan meets -/

/-- The interfaces and the outside world of one scan, on a WiFi network. -/
structure Environment where
  getnameinfo : NumericHost
  getifaddrs : Option (List Ifaddrs)
  world : World
  a : UInt8
  b : UInt8
  c : UInt8
  /-- The prefix is the one of an IPv4 address. -/
  getIPPrefix_eq : getIPPrefix getnameinfo getifaddrs = .ok (subnet a b c)

namespace Environment

variable (env : Environment)

/-- The signal `startScanning` subscribes to. -/
def signal : RACSignal := scanNetworkForHosts env.getnameinfo env.getifaddrs

/-- Some pinged address answers. -/
def FindsHost : Prop :=
  ∃ n ∈ List.range' 1 254, env.world.found (address (subnet env.a env.b env.c) n) = true

/-- The hosts a scan delivers. -/
def hosts : List Host :=
  (foundAddresses env.world (subnet env.a env.b env.c)).map env.world.attributed

/-- The events a scan sends. -/
def events : List (Event Obj) :=
  if env.hosts = [] then []
  else [.next (.tuple (env.hosts.map fun h => .obj (.host h))), .completed]

theorem hosts_eq_nil_iff : env.hosts = [] ↔ ¬env.FindsHost := by
  rw [hosts, List.map_eq_nil_iff, foundAddresses, List.filter_eq_nil_iff, FindsHost, targets,
    List.forall_mem_map]
  constructor
  · rintro hall ⟨n, hn, hfound⟩
    exact hall n hn hfound
  · intro hnone n hn hfound
    exact hnone ⟨n, hn, hfound⟩

theorem outcome_signal : ∃ o, env.signal.outcome env.world.answer = some o ∧
    o.events = env.events := by
  have hout := outcome_scanNetworkForHosts env.world env.getIPPrefix_eq
    (subnet_ne_noWifiAddress env.a env.b env.c)
  refine ⟨_, hout, ?_⟩
  rw [events, hosts, List.map_map]
  cases foundAddresses env.world (subnet env.a env.b env.c) <;> rfl

/-- Every run of a scan sends a prefix of its events, and all of them once nothing
is outstanding. -/
theorem sends_signal : Sends env.world.answer (.starting env.signal) env.events := by
  obtain ⟨o, hout, heq⟩ := env.outcome_signal
  exact heq ▸ sends_of_outcome _ _ hout

theorem exists_run_signal :
    ∃ x, Run env.world.answer (.starting env.signal) x env.events ∧ Quiet x := by
  obtain ⟨o, hout, heq⟩ := env.outcome_signal
  exact heq ▸ exists_run_of_outcome hout

theorem isCrash_events : ∀ e ∈ env.events, e.isCrash = false := by
  unfold events
  split <;> simp

/-- The values a scan sends are tuples of hosts. -/
theorem next_mem_events {v : Value Obj} (h : .next v ∈ env.events) :
    v = .tuple (env.hosts.map fun h => .obj (.host h)) := by
  unfold events at h
  split at h
  next => cases h
  next => simpa using h

end Environment

/-! ### The application -/

/-- A scan that `startScanning` has subscribed to, with what it has sent. -/
structure RunningScan where
  sub : Sub Request Answer Obj
  sent : List (Event Obj)

/-- The view controller, and the scans it has started. -/
structure Application where
  vc : ScanViewController
  scans : List RunningScan

/-- The events a scan sends to the block of `startScanning`, which listens to
values only. -/
def ScanViewController.receive (vc : ScanViewController) : List (Event Obj) → ScanViewController
  | [] => vc
  | .next v :: es => (vc.scanned v).receive es
  | _ :: es => vc.receive es

namespace Application

/-- The process has not died. -/
def IsAlive (s : Application) : Prop := ∀ scan ∈ s.scans, ∀ e ∈ scan.sent, e.isCrash = false

/-- What a handler leaves behind: a new subscription if it asks for one. -/
def perform (env : ℕ → Environment) (s : Application) (r : ScanViewController × List Effect) :
    Application where
  vc := r.1
  scans :=
    if .subscribe ∈ r.2 then s.scans ++ [⟨.starting (env s.scans.length).signal, []⟩]
    else s.scans

end Application

/-- What happens to the application. -/
inductive ApplicationEvent
  | initialScanPressed
  | scanPressed
  /-- The scan with the given number makes a step. -/
  | scanMoved (i : ℕ)

/-- One step: a press on WiFi, or a step of a scan whose events go to the view
controller. -/
inductive ApplicationStep (env : ℕ → Environment) :
    Application → ApplicationEvent → Application → Prop
  | initialScanPressed {s : Application} (halive : s.IsAlive) :
      ApplicationStep env s .initialScanPressed (s.perform env (s.vc.didPressInitialScan true))
  | scanPressed {s : Application} (halive : s.IsAlive) :
      ApplicationStep env s .scanPressed (s.perform env (s.vc.didPressScan true))
  | scanMoved {s : Application} (halive : s.IsAlive) {i : ℕ} {scan : RunningScan}
      (hscan : s.scans[i]? = some scan) {x : Sub Request Answer Obj} {es : List (Event Obj)}
      (hstep : Step (env i).world.answer scan.sub x es) :
      ApplicationStep env s (.scanMoved i)
        { vc := s.vc.receive (heard (!scan.sent.any Event.terminal) es)
          scans := s.scans.set i ⟨x, scan.sent ++ es⟩ }

/-- The application as a machine; scan number `i` meets `env i`. -/
def application (env : ℕ → Environment) : Machine Application ApplicationEvent where
  init := { vc := .new, scans := [] }
  Step := ApplicationStep env

/-! ### What the view controller receives -/

theorem isEnabled_scanned (vc : ScanViewController) (hs : List Host) :
    (vc.scanned (.tuple (hs.map fun h => .obj (.host h)))).topView.scanButton.isEnabled = true := by
  rw [ScanViewController.scanned_hosts]
  rfl

/-- Events never disable the button. -/
theorem isEnabled_receive {es : List (Event Obj)} : ∀ {vc : ScanViewController},
    vc.topView.scanButton.isEnabled = true →
      (vc.receive es).topView.scanButton.isEnabled = true := by
  induction es with
  | nil => exact fun h => h
  | cons e es ih =>
    intro vc h
    cases e with
    | next v =>
      apply ih
      unfold ScanViewController.scanned
      split
      next => exact h
      next => rfl
    | error => exact ih h
    | completed => exact ih h
    | crash c => exact ih h

/-- A tuple of hosts enables the button. -/
theorem isEnabled_receive_hosts {hs : List Host} {es : List (Event Obj)} :
    .next (.tuple (hs.map fun h => .obj (.host h))) ∈ es → ∀ vc : ScanViewController,
      (vc.receive es).topView.scanButton.isEnabled = true := by
  induction es with
  | nil => exact fun hmem => by cases hmem
  | cons e es ih =>
    intro hmem vc
    rcases List.mem_cons.mp hmem with rfl | htail
    · rw [ScanViewController.receive]
      exact isEnabled_receive (isEnabled_scanned vc hs)
    · cases e with
      | next v => exact ih htail _
      | error => exact ih htail _
      | completed => exact ih htail _
      | crash c => exact ih htail _

/-! ### The invariant -/

/-- Every scan runs as its signal says, and the button is only disabled for a scan
that has not sent a value. -/
structure Tracked (env : ℕ → Environment) (s : Application) : Prop where
  runs : ∀ i scan, s.scans[i]? = some scan →
    Run (env i).world.answer (.starting (env i).signal) scan.sub scan.sent
  button : s.vc.topView.scanButton.isEnabled = true ∨
    ∃ scan ∈ s.scans, ∀ v, .next v ∉ scan.sent

variable {env : ℕ → Environment}

theorem Tracked.perform {s : Application} (h : Tracked env s) {r : ScanViewController × List Effect}
    (hr : .subscribe ∈ r.2) : Tracked env (s.perform env r) := by
  have hscans : (s.perform env r).scans =
      s.scans ++ [⟨.starting (env s.scans.length).signal, []⟩] := if_pos hr
  refine ⟨?_, Or.inr ⟨⟨.starting (env s.scans.length).signal, []⟩, ?_, fun v hv => ?_⟩⟩
  · intro i scan hscan
    rw [hscans, List.getElem?_append] at hscan
    split at hscan
    next => exact h.runs i scan hscan
    next hlen =>
      obtain ⟨hi, rfl⟩ : i = s.scans.length ∧
          scan = ⟨.starting (env s.scans.length).signal, []⟩ := by
        obtain ⟨hlt, heq⟩ := List.getElem?_eq_some_iff.mp hscan
        rw [List.length_singleton] at hlt
        exact ⟨by omega, by simpa using heq.symm⟩
      rw [hi]
      exact .refl
  · rw [hscans]
    simp
  · cases hv

theorem Tracked.scanMoved {s : Application} (h : Tracked env s) {i : ℕ} {scan : RunningScan}
    (hscan : s.scans[i]? = some scan) {x : Sub Request Answer Obj} {es : List (Event Obj)}
    (hstep : Step (env i).world.answer scan.sub x es) :
    Tracked env
      { vc := s.vc.receive (heard (!scan.sent.any Event.terminal) es)
        scans := s.scans.set i ⟨x, scan.sent ++ es⟩ } := by
  obtain ⟨hlt, rfl⟩ := List.getElem?_eq_some_iff.mp hscan
  have hrun := (h.runs i _ hscan).tail hstep
  obtain ⟨rest, hrest⟩ := ((env i).sends_signal _ _ hrun).1
  refine ⟨?_, ?_⟩
  · intro j scan' hscan'
    rw [List.getElem?_set] at hscan'
    split at hscan'
    next hij =>
      subst hij
      obtain rfl : ⟨x, s.scans[i].sent ++ es⟩ = scan' := by simpa [hlt] using hscan'
      exact hrun
    next => exact h.runs j scan' hscan'
  -- everything sent is heard
  obtain ⟨o, -, ho⟩ := (env i).outcome_signal
  have hheard : heard (!s.scans[i].sent.any Event.terminal) es = es :=
    heard_of_events (o := o) (by rw [ho, ← hrest, List.append_assoc])
  rw [hheard]
  rcases h.button with hen | ⟨scan', hmem, hnone⟩
  · exact Or.inl (isEnabled_receive hen)
  obtain ⟨j, hj, rfl⟩ := List.mem_iff_getElem.mp hmem
  by_cases hij : i = j
  · subst hij
    by_cases hnext : ∃ v, .next v ∈ es
    · -- the value has come with this step
      obtain ⟨v, hv⟩ := hnext
      have hv' : .next v ∈ (env i).events := by
        rw [← hrest]
        simp [hv]
      rw [(env i).next_mem_events hv'] at hv
      exact Or.inl (isEnabled_receive_hosts hv _)
    · refine Or.inr ⟨_, List.mem_set hlt _, fun v hv => ?_⟩
      rcases List.mem_append.mp hv with hv | hv
      · exact hnone v hv
      · exact hnext ⟨v, hv⟩
  · refine Or.inr ⟨s.scans[j], ?_, hnone⟩
    exact List.mem_iff_getElem.mpr ⟨j, by simpa using hj, List.getElem_set_ne hij _⟩

theorem Tracked.step {s s' : Application} {e : ApplicationEvent} (h : Tracked env s)
    (hs : (application env).Step s e s') : Tracked env s' := by
  cases hs with
  | initialScanPressed => exact h.perform (by simp [ScanViewController.didPressInitialScan])
  | scanPressed => exact h.perform (by simp [ScanViewController.didPressScan])
  | scanMoved _ hscan hstep => exact h.scanMoved hscan hstep

theorem tracked_of_reachable {s : Application} (h : (application env).Reachable s) :
    Tracked env s :=
  h.invariant ⟨fun _ _ hscan => (by cases hscan), Or.inl rfl⟩ fun _ _ _ hi hs => hi.step hs

/-! ### When nothing is outstanding -/

/-- A scan with nothing outstanding has sent all its events. -/
theorem Tracked.sent_eq {s : Application} (h : Tracked env s)
    (hquiet : ∀ scan ∈ s.scans, Quiet scan.sub) {i : ℕ} (hi : i < s.scans.length) :
    s.scans[i].sent = (env i).events :=
  ((env i).sends_signal _ _ (h.runs i _ (List.getElem?_eq_getElem hi))).2
    (hquiet _ (List.getElem_mem hi))

/-- The events of a scan hold its value exactly when it found a host. -/
theorem delivers_iff (env : Environment) :
    (∃ hosts : List Host, .next (.tuple (hosts.map fun h => .obj (.host h))) ∈ env.events) ↔
      env.FindsHost := by
  by_cases hfinds : env.FindsHost
  · have hne : env.hosts ≠ [] := fun hnil => env.hosts_eq_nil_iff.mp hnil hfinds
    rw [Environment.events, if_neg hne]
    exact iff_of_true ⟨env.hosts, List.mem_cons_self⟩ hfinds
  · rw [Environment.events, if_pos (env.hosts_eq_nil_iff.mpr hfinds)]
    exact iff_of_false (fun ⟨_, hmem⟩ => by cases hmem) hfinds

/-- **Scans wedge exactly when one finds nothing**: in every reachable state in which
a scan has been started and nothing is outstanding, every scan has delivered its
hosts and the button is enabled if and only if every scan found a host.  No scan
delivers anything but its hosts. -/
theorem scan_never_wedges_iff (env : ℕ → Environment) {s : Application}
    (hs : (application env).Reachable s)
    (hquiet : ∀ scan ∈ s.scans, Quiet scan.sub) :
    (((∀ scan ∈ s.scans, ∃ hosts : List Host,
        .next (.tuple (hosts.map fun h => .obj (.host h))) ∈ scan.sent) ∧
      s.vc.topView.scanButton.isEnabled = true) ↔
    ∀ i < s.scans.length, ∃ n ∈ List.range' 1 254,
      (env i).world.found (address (subnet (env i).a (env i).b (env i).c) n) = true) ∧
    ∀ (i : ℕ) (scan : RunningScan), s.scans[i]? = some scan → ∀ v, .next v ∈ scan.sent →
      v = .tuple ((env i).hosts.map fun h => .obj (.host h)) := by
  have htracked := tracked_of_reachable hs
  have hdelivers : (∀ scan ∈ s.scans, ∃ hosts : List Host,
      .next (.tuple (hosts.map fun h => .obj (.host h))) ∈ scan.sent) ↔
        ∀ i < s.scans.length, (env i).FindsHost := by
    rw [List.forall_mem_iff_getElem]
    refine forall_congr' fun i => forall_congr' fun hi => ?_
    rw [htracked.sent_eq hquiet hi]
    exact delivers_iff (env i)
  refine ⟨⟨fun h => hdelivers.mp h.1, fun hfinds => ?_⟩, fun i scan hscan v hv => ?_⟩
  swap
  · obtain ⟨rest, hrest⟩ := ((env i).sends_signal _ _ (htracked.runs i scan hscan)).1
    exact (env i).next_mem_events (hrest ▸ List.mem_append_left rest hv)
  have hall := hdelivers.mpr hfinds
  refine ⟨hall, ?_⟩
  -- no scan is left to hold the button
  rcases htracked.button with hen | ⟨scan, hmem, hnone⟩
  · exact hen
  · obtain ⟨hosts, hnext⟩ := hall scan hmem
    exact absurd hnext (hnone _)

/-! ### Runs of a single scan -/

/-- The application after the first press. -/
def pressed (env : ℕ → Environment) : Application :=
  Application.perform env { vc := .new, scans := [] }
    (ScanViewController.new.didPressInitialScan true)

/-- A run of the first scan is a run of the application. -/
theorem reachable_of_run (env : ℕ → Environment) {x : Sub Request Answer Obj} {sent : List (Event Obj)}
    (hr : Run (env 0).world.answer (.starting (env 0).signal) x sent) :
    ∃ vc, (sent = [] → vc = (pressed env).vc) ∧
      (application env).Reachable { vc := vc, scans := [⟨x, sent⟩] } := by
  induction hr with
  | refl =>
    have hpress : ApplicationStep env (application env).init .initialScanPressed (pressed env) :=
      .initialScanPressed fun _ hscan => by cases hscan
    exact ⟨_, fun _ => rfl, Machine.Reachable.init.step hpress⟩
  | @tail y z sent es hr hstep ih =>
    obtain ⟨vc, hvc, hreach⟩ := ih
    -- what has been sent so far is a prefix of events without a crash
    have halive : Application.IsAlive { vc := vc, scans := [⟨y, sent⟩] } := by
      intro scan hscan e he
      obtain rfl := List.mem_singleton.mp hscan
      exact (env 0).isCrash_events e (((env 0).sends_signal _ _ hr).1.subset he)
    have hmove : ApplicationStep env { vc := vc, scans := [⟨y, sent⟩] } (.scanMoved 0)
        { vc := vc.receive (heard (!sent.any Event.terminal) es), scans := [⟨z, sent ++ es⟩] } :=
      @ApplicationStep.scanMoved env _ halive 0 ⟨y, sent⟩ rfl z es hstep
    refine ⟨_, fun hnil => ?_, hreach.step hmove⟩
    obtain ⟨hsent, rfl⟩ := List.append_eq_nil_iff.mp hnil
    rw [← hvc hsent, hsent]
    rfl

/-- A phone on the network of `twoHosts`. -/
def onTwoHosts : Environment where
  getnameinfo := .uncompressed
  getifaddrs := some phoneInterfaces
  world := twoHosts
  a := 192
  b := 168
  c := 1
  getIPPrefix_eq := by decide

theorem scan_never_wedges_onTwoHosts :
    ∃ s, (application fun _ => onTwoHosts).Reachable s ∧ s.scans ≠ [] ∧
      (∀ scan ∈ s.scans, Quiet scan.sub) ∧
      (∀ scan ∈ s.scans, ∃ hosts : List Host,
        .next (.tuple (hosts.map fun h => .obj (.host h))) ∈ scan.sent) ∧
      s.vc.topView.scanButton.isEnabled = true := by
  obtain ⟨x, hr, hquiet⟩ := onTwoHosts.exists_run_signal
  obtain ⟨vc, -, hreach⟩ := reachable_of_run (fun _ => onTwoHosts) hr
  have hall : ∀ scan ∈ [RunningScan.mk x onTwoHosts.events], Quiet scan.sub := by
    intro scan hscan
    obtain rfl := List.mem_singleton.mp hscan
    exact hquiet
  exact ⟨_, hreach, List.cons_ne_nil _ _, hall,
    (scan_never_wedges_iff (fun _ => onTwoHosts) hreach hall).1.mpr
      fun _ _ => ⟨7, by decide, by decide⟩⟩

/-- A phone on a network where nothing answers pings. -/
def onSilentNetwork : Environment :=
  { onTwoHosts with world := { twoHosts with found := fun _ => false } }

/-- With no answers at all the scan delivers nothing, and the button stays disabled. -/
theorem scan_wedges_onSilentNetwork :
    ∃ s, (application fun _ => onSilentNetwork).Reachable s ∧ s.scans ≠ [] ∧
      (∀ scan ∈ s.scans, Quiet scan.sub) ∧
      (∀ scan ∈ s.scans, scan.sent = []) ∧
      s.vc.topView.scanButton.isEnabled = false := by
  have hsilent : onSilentNetwork.events = [] :=
    if_pos (onSilentNetwork.hosts_eq_nil_iff.mpr fun ⟨_, _, hfound⟩ => Bool.false_ne_true hfound)
  obtain ⟨x, hr, hquiet⟩ := onSilentNetwork.exists_run_signal
  obtain ⟨vc, hvc, hreach⟩ := reachable_of_run (fun _ => onSilentNetwork) hr
  refine ⟨_, hreach, List.cons_ne_nil _ _, ?_, ?_, ?_⟩
  · intro scan hscan
    obtain rfl := List.mem_singleton.mp hscan
    exact hquiet
  · intro scan hscan
    obtain rfl := List.mem_singleton.mp hscan
    exact hsilent
  · rw [hvc hsilent]
    rfl

end LANScan
