import LANScan.Machine
import LANScan.PortScanner

/-!
# The screen of a device

Loading the screen hands the terminal a banner and subscribes to the port scan;
each value of the scan is handed to the terminal line by line.

## Main definitions

* `DeviceViewController`, `deviceScreen` — the screen, and its runs.

## Main results

* `Loaded.step` — the terminal has been handed the banner and the lines of what the
  scan has sent.
* `port_scan_reports_open_ports` — **one value and a completion, and one line for
  each open port after the banner.**
-/

namespace LANScan

open Reactive

/-- The screen, with its running port scan. -/
structure DeviceViewController where
  host : Host
  /-- What the terminal has been handed, in order. -/
  inserted : List String
  sub : Sub Request Answer Obj
  /-- What the port scan has sent. -/
  sent : List (Event Obj)

namespace DeviceViewController

/-- `insertText` of the terminal. -/
def insertText (vc : DeviceViewController) (text : String) : DeviceViewController :=
  { vc with inserted := vc.inserted ++ [text] }

/-- The text the terminal starts with. -/
def banner (host : Host) : String :=
  let ipAddress := host.ipAddress.getD "UNKNOWN"
  s!"\nScanning for services in {ipAddress}\n"

/-- The line for a service. -/
def serviceLine (service : String) : String := s!"SERVICE FOUND ON PORT: {service}\n"

/-- A text in a text is itself. -/
theorem toString_self (s : String) : toString s = s := rfl

/-- The banner names the address of the host. -/
theorem banner_eq {host : Host} {ip : String} (hip : host.ipAddress = some ip) :
    banner host = "\nScanning for services in " ++ ip ++ "\n" := by
  unfold banner
  rw [hip, Option.getD_some]
  dsimp only
  rw [toString_self, toString_self, toString_self]

/-- A line ends with its service. -/
theorem serviceLine_eq (service : String) :
    serviceLine service = "SERVICE FOUND ON PORT: " ++ service ++ "\n" := by
  unfold serviceLine
  rw [toString_self, toString_self, toString_self]

/-- Hands the terminal the banner. -/
def insertInitialTextToTerminal (vc : DeviceViewController) : DeviceViewController :=
  vc.insertText (banner vc.host)

/-- Subscribes to the port scan of the host. -/
def startPortScan (connect : Connect) (vc : DeviceViewController) : DeviceViewController :=
  { vc with sub := .starting (scanPortsOn connect vc.host), sent := [] }

/-- The strings of a value, none when it is something else. -/
def printable : Value Obj → List String
  | .obj (.strings services) => services
  | _ => []

/-- The block `startPortScan` subscribes with, for the events of one step. -/
def receive (vc : DeviceViewController) : List (Event Obj) → DeviceViewController
  | [] => vc
  | .next services :: es =>
    receive ((printable services).foldl (fun vc service => vc.insertText (serviceLine service)) vc)
      es
  | _ :: es => receive vc es

/-- Loads the screen of a host. -/
def viewDidLoad (connect : Connect) (host : Host) : DeviceViewController :=
  startPortScan connect
    (insertInitialTextToTerminal { host := host, inserted := [], sub := .idle, sent := [] })

end DeviceViewController

open DeviceViewController

/-- One step of the screen: a step of its port scan, whose events it receives. -/
inductive DeviceStep (w : World) : DeviceViewController → Unit → DeviceViewController → Prop
  | scanMoved {vc : DeviceViewController} {x : Sub Request Answer Obj} {es : List (Event Obj)}
      (hstep : Step w.answer vc.sub x es) :
      DeviceStep w vc ()
        { vc.receive (heard (!vc.sent.any Event.terminal) es) with
          sub := x
          sent := vc.sent ++ es }

/-- The screen as a machine. -/
def deviceScreen (w : World) (connect : Connect) (host : Host) :
    Machine DeviceViewController Unit where
  init := viewDidLoad connect host
  Step := DeviceStep w

/-! ### What the terminal is handed -/

/-- The lines the events of a port scan give. -/
def linesOf : List (Event Obj) → List String
  | [] => []
  | .next services :: es => (printable services).map serviceLine ++ linesOf es
  | _ :: es => linesOf es

theorem linesOf_append (es es' : List (Event Obj)) :
    linesOf (es ++ es') = linesOf es ++ linesOf es' := by
  induction es with
  | nil => rfl
  | cons e es ih => cases e <;> simp [linesOf, ih]

theorem inserted_foldl (services : List String) : ∀ vc : DeviceViewController,
    (services.foldl (fun vc service => vc.insertText (serviceLine service)) vc).inserted =
      vc.inserted ++ services.map serviceLine := by
  induction services with
  | nil => simp
  | cons service services ih =>
    intro vc
    rw [List.foldl_cons, ih]
    simp [insertText]

theorem inserted_receive (es : List (Event Obj)) : ∀ vc : DeviceViewController,
    (vc.receive es).inserted = vc.inserted ++ linesOf es := by
  induction es with
  | nil => simp [receive, linesOf]
  | cons e es ih =>
    intro vc
    cases e with
    | next services =>
      rw [receive, ih, inserted_foldl, linesOf, List.append_assoc]
    | error => exact ih vc
    | completed => exact ih vc
    | crash c => exact ih vc

/-- The scan runs as its signal says, and the terminal has been handed the banner
and the lines of what the scan has sent. -/
structure Loaded (w : World) (connect : Connect) (host : Host) (vc : DeviceViewController) :
    Prop where
  run : Run w.answer (.starting (scanPortsOn connect host)) vc.sub vc.sent
  inserted : vc.inserted = banner host :: linesOf vc.sent

variable {w : World} {connect : Connect} {host : Host}

theorem Loaded.step {o : Outcome Obj} (ho : (scanPortsOn connect host).outcome w.answer = some o)
    {vc vc' : DeviceViewController} (h : Loaded w connect host vc) (hs : DeviceStep w vc () vc') :
    Loaded w connect host vc' := by
  obtain ⟨hstep⟩ := hs
  have hrun := h.run.tail hstep
  obtain ⟨rest, hrest⟩ := (sends_of_outcome w.answer _ ho _ _ hrun).1
  -- everything sent is heard
  rw [heard_of_events (by rw [← hrest, List.append_assoc])]
  refine ⟨hrun, ?_⟩
  rw [linesOf_append, inserted_receive, h.inserted, List.cons_append]

theorem loaded_of_reachable {o : Outcome Obj}
    (ho : (scanPortsOn connect host).outcome w.answer = some o) {vc : DeviceViewController}
    (h : (deviceScreen w connect host).Reachable vc) : Loaded w connect host vc :=
  h.invariant ⟨.refl, rfl⟩ fun _ _ _ hi hs => hi.step ho hs

/-- **The port scan reports exactly the open ports.**  Every interleaving ends, and
sends one value and a completion; the value lists the open ports in ascending order;
and the terminal is handed the banner and then one line for each of them. -/
theorem port_scan_reports_open_ports (w : World) (connect : Connect) (host : Host) {ip : String}
    (hip : host.ipAddress = some ip) :
    ∃ ports : List ℕ, ports.Pairwise (· < ·) ∧
      (∀ port, port ∈ ports ↔ 1 ≤ port ∧ port ≤ 100 ∧ connect ip port = .success) ∧
      Terminates w.answer (.starting (scanPortsOn connect host)) ∧
      Sends w.answer (.starting (scanPortsOn connect host))
        [.next (.obj (.strings (ports.map toString))), .completed] ∧
      ∀ vc, (deviceScreen w connect host).Reachable vc →
        vc.inserted <+: ("\nScanning for services in " ++ ip ++ "\n") ::
          ports.map (fun port => "SERVICE FOUND ON PORT: " ++ toString port ++ "\n") ∧
        vc.inserted.head? = some ("\nScanning for services in " ++ ip ++ "\n") ∧
        (Quiet vc.sub →
          vc.inserted = ("\nScanning for services in " ++ ip ++ "\n") ::
            ports.map (fun port => "SERVICE FOUND ON PORT: " ++ toString port ++ "\n")) := by
  have hout := outcome_scanPortsOn w connect hip
  have hsends := sends_of_outcome w.answer _ hout
  have hlines : linesOf [.next (.obj (.strings ((openPorts connect ip).map toString))),
      .completed] = (openPorts connect ip).map
        fun port => "SERVICE FOUND ON PORT: " ++ toString port ++ "\n" := by
    simp [linesOf, printable, List.map_map, Function.comp_def, serviceLine_eq]
  refine ⟨openPorts connect ip, pairwise_openPorts connect ip, fun _ => mem_openPorts connect,
    terminates_starting _ _, hsends, fun vc hvc => ?_⟩
  obtain ⟨hrun, hins⟩ := loaded_of_reachable hout hvc
  obtain ⟨hpre, hall⟩ := hsends _ _ hrun
  obtain ⟨rest, hrest⟩ := hpre
  rw [banner_eq hip] at hins
  refine ⟨?_, by rw [hins]; rfl, fun hquiet => ?_⟩
  · rw [Outcome.events_done] at hrest
    rw [hins, ← hlines, ← hrest, linesOf_append]
    exact ⟨linesOf rest, rfl⟩
  · rw [hins, hall hquiet]
    exact congrArg _ hlines

/-- A host with a web server, and nothing else. -/
def printer : Host := ⟨some "192.168.1.7", some "printer.local", none, none⟩

/-- Only the web server accepts connections. -/
def webOnly : Connect := fun _ port => if port = 80 then .success else .failure .connectionTimeout

theorem port_scan_reports_open_ports_printer :
    ∃ ports : List ℕ, ports.Pairwise (· < ·) ∧
      (∀ port, port ∈ ports ↔
        1 ≤ port ∧ port ≤ 100 ∧ webOnly "192.168.1.7" port = .success) ∧
      Terminates twoHosts.answer (.starting (scanPortsOn webOnly printer)) ∧
      Sends twoHosts.answer (.starting (scanPortsOn webOnly printer))
        [.next (.obj (.strings (ports.map toString))), .completed] ∧
      ∀ vc, (deviceScreen twoHosts webOnly printer).Reachable vc →
        vc.inserted <+: ("\nScanning for services in " ++ "192.168.1.7" ++ "\n") ::
          ports.map (fun port => "SERVICE FOUND ON PORT: " ++ toString port ++ "\n") ∧
        vc.inserted.head? = some ("\nScanning for services in " ++ "192.168.1.7" ++ "\n") ∧
        (Quiet vc.sub →
          vc.inserted = ("\nScanning for services in " ++ "192.168.1.7" ++ "\n") ::
            ports.map (fun port => "SERVICE FOUND ON PORT: " ++ toString port ++ "\n")) :=
  port_scan_reports_open_ports twoHosts webOnly printer rfl

end LANScan
