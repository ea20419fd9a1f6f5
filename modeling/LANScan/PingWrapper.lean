import LANScan.EchoReply
import LANScan.Machine

/-!
# One ping, from the first call to the verdict

A `PingWrapper` owns a `SimplePing` and a timer, and the two objects call each other:
`sendPingWithData` runs inside the callback that started the timer, and may report a
failure which stops the pinger and the timer while the callers are still at work.
The handlers are functions on the state of both objects; the run loop calls them in
any order, as long as what calls back is installed.

## Main definitions

* `PingWrapper`, its handlers, and the callbacks of `SimplePing`.
* `PingEvent`, `PingWrapper.Enabled`, `PingWrapper.handle` — what the run loop does.
* `pinger` — a pinger as a machine.
-/

namespace LANScan

/-- An assertion of the source. -/
def assert (p : Prop) [Decidable p] : Except Fault Unit :=
  if p then .ok () else .error .assertion

theorem assert_eq {p : Prop} [Decidable p] (h : p) : assert p = .ok () := if_pos h

/-- A pinger with its timer and its callback, and the verdicts that this has been given. -/
structure PingWrapper where
  hostName : String
  ping : SimplePing
  /-- The timer, with whether it is valid. -/
  timeoutTimer : Option Bool
  /-- A completion is installed. -/
  completion : Bool
  /-- The calls of the completion. -/
  verdicts : List (String × Bool)
  deriving DecidableEq, Repr

namespace PingWrapper

/-- `init(hostName:)`, where `identifier` is the random number. -/
def new (hostName : String) (identifier : UInt16) : PingWrapper where
  hostName := hostName
  ping := { SimplePing.new hostName identifier with addressStyle := .icmpv4 }
  timeoutTimer := none
  completion := false
  verdicts := []

/-- The pinger and the timer stop. -/
def stopPing (w : PingWrapper) : PingWrapper :=
  let w := { w with ping := w.ping.stop }
  match w.timeoutTimer with
  | some true => { w with timeoutTimer := none }
  | _ => w

/-- Stops, and gives the verdict if there is still a callback. -/
def hostFound (w : PingWrapper) (found : Bool) : PingWrapper :=
  let w := w.stopPing
  if w.completion then { w with verdicts := w.verdicts ++ [(w.hostName, found)] } else w

/-- The timer has fired. -/
def timeout (w : PingWrapper) : PingWrapper := w.hostFound false

/-! ### The delegate -/

/-- `simplePing(_:didFailWithError:)`. -/
def delegateDidFail (w : PingWrapper) : PingWrapper := w.hostFound false

/-- `simplePing(_:didReceivePingResponsePacket:sequenceNumber:)`. -/
def delegateDidReceiveResponse (w : PingWrapper) : PingWrapper := w.hostFound true

/-- `simplePing(_:didReceiveUnexpectedPacket:)`. -/
def delegateDidReceiveUnexpected (w : PingWrapper) : PingWrapper := w

/-- `simplePing(_:didSendPacket:sequenceNumber:)`. -/
def delegateDidSend (w : PingWrapper) : PingWrapper := w

/-- `simplePing(_:didFailToSendPacket:sequenceNumber:error:)`. -/
def delegateDidFailToSend (w : PingWrapper) : PingWrapper := w.hostFound false

/-! ### The pinger, with its delegate -/

/-- The pinger stops, and the delegate hears of it. -/
def didFailWithError (w : PingWrapper) : PingWrapper :=
  delegateDidFail { w with ping := w.ping.stop }

/-- The end of a send: the delegate hears whether the kernel took the whole packet. -/
def reportSend (w : PingWrapper) (packet : List UInt8) (bytesSent : Int) : PingWrapper :=
  if bytesSent > 0 ∧ bytesSent.toNat = packet.length then
    delegateDidSend { w with ping := { w.ping with sent := w.ping.sent ++ [packet] } }
  else w.delegateDidFailToSend

/-- The sequence number goes on after a send. -/
def countPing (w : PingWrapper) : PingWrapper := { w with ping := w.ping.countPing }

/-- `sendto` is what the system call would return. -/
def sendPingWithData (order : ByteOrder) (w : PingWrapper) (data : Option (List UInt8))
    (sendto : Int) : Except Fault PingWrapper := do
  assert (w.ping.hostAddress ≠ none)
  let payload := data.getD (SimplePing.defaultPayload w.ping.nextSequenceNumber)
  assert (data = none → payload.length = 56)
  let packet ← w.ping.pingPacket order payload
  return (w.reportSend packet (if w.ping.socket then sendto else -1)).countPing

/-- `simplePing(_:didStartWithAddress:)`. -/
def delegateDidStart (order : ByteOrder) (w : PingWrapper) (sendto : Int) :
    Except Fault PingWrapper :=
  sendPingWithData order { w with timeoutTimer := some true } none sendto

/-- Opens a socket for the address, and tells the delegate, which sends at once. -/
def startWithHostAddress (order : ByteOrder) (w : PingWrapper) (socketOpens : Bool)
    (sendto : Int) : Except Fault PingWrapper := do
  assert (w.ping.hostAddress ≠ none)
  let opens := match w.ping.hostAddressFamily with
    | .inet => socketOpens
    | .inet6 => socketOpens
    | _ => false
  if opens then
    delegateDidStart order { w with ping := { w.ping with socket := true } } sendto
  else
    return w.didFailWithError

/-- `resolved` and `addresses` are what `CFHostGetAddressing` gives. -/
def hostResolutionDone (order : ByteOrder) (w : PingWrapper) (resolved : Bool)
    (addresses : Option (List Address)) (socketOpens : Bool) (sendto : Int) :
    Except Fault PingWrapper :=
  let (hostAddress, resolved) := w.ping.latchAddress resolved addresses
  let ping := { w.ping with hostAddress := hostAddress }
  let w := { w with ping := ping.stopHostResolution }
  if resolved then startWithHostAddress order w socketOpens sendto else .ok w.didFailWithError

/-- `success` is what `CFHostStartInfoResolution` returns. -/
def start (w : PingWrapper) (success : Bool) : Except Fault PingWrapper := do
  assert (w.ping.host = false)
  assert (w.ping.hostAddress = none)
  let w := { w with ping := { w.ping with host := true } }
  return if success then w else w.didFailWithError

/-- Starts the pinger and remembers the callback. -/
def startPing (w : PingWrapper) (success : Bool) : Except Fault PingWrapper :=
  start { w with completion := true } success

/-- The longest datagram that is read. -/
def kBufferSize : ℕ := 65535

/-- The part of `readData` that processes the data read. -/
def processPacket (order : ByteOrder) (w : PingWrapper) (packet : List UInt8) :
    Except Fault PingWrapper := do
  let w := { w with ping := w.ping.logReceived packet }
  let validation ← w.ping.validatePingResponsePacket order packet
  match validation.sequenceNumber with
  | some _ => return w.delegateDidReceiveResponse
  | none => return w.delegateDidReceiveUnexpected

/-- `datagram` is what waits on the socket; `none` is an error and `[]` an end of
file. -/
def readData (order : ByteOrder) (w : PingWrapper) (datagram : Option (List UInt8)) :
    Except Fault PingWrapper :=
  match datagram.map (List.take kBufferSize) with
  | none => .ok w.didFailWithError
  | some [] => .ok w.didFailWithError
  | some packet => processPacket order w packet

/-- A datagram that fits in the buffer is processed as it is. -/
theorem readData_eq {order : ByteOrder} {w : PingWrapper} {datagram : List UInt8}
    (hne : datagram ≠ []) (hmax : datagram.length ≤ kBufferSize) :
    readData order w (some datagram) = processPacket order w datagram := by
  obtain ⟨b, rest, rfl⟩ := List.exists_cons_of_ne_nil hne
  rw [readData, Option.map_some, List.take_of_length_le hmax]

/-- The run loop calls when the socket has something to read. -/
def socketReadCallback (order : ByteOrder) (w : PingWrapper) (datagram : Option (List UInt8)) :
    Except Fault PingWrapper := do
  assert (w.ping.socket = true)
  readData order w datagram

/-- The timer calls `timeout`; it fires once, and is not valid afterwards.  Whether
it still is during the call does not matter. -/
def timerFired (w : PingWrapper) (isValid : Bool) : PingWrapper :=
  let w := timeout { w with timeoutTimer := some isValid }
  { w with timeoutTimer := w.timeoutTimer.map fun _ => false }

end PingWrapper

/-! ### The run loop -/

/-- What the run loop does to a pinger, with the results of the system calls made
meanwhile. -/
inductive PingEvent
  | startPing (success : Bool)
  | hostResolutionFailed
  | hostResolved (resolved : Bool) (addresses : Option (List Address)) (socketOpens : Bool)
      (sendto : Int)
  | socketReadable (datagram : Option (List UInt8))
  | timerFired (isValid : Bool)
  deriving DecidableEq, Repr

namespace PingWrapper

/-- What can occur: `startPing` is called once, and only what is installed calls
back.  A resolution reported as resolved comes with a list. -/
def Enabled (w : PingWrapper) : PingEvent → Prop
  | .startPing _ => w.completion = false
  | .hostResolutionFailed => w.ping.host = true
  | .hostResolved resolved addresses _ _ =>
    w.ping.host = true ∧ (resolved = true → addresses ≠ none)
  | .socketReadable _ => w.ping.socket = true
  | .timerFired _ => w.timeoutTimer = some true

instance (w : PingWrapper) : (e : PingEvent) → Decidable (w.Enabled e)
  | .startPing _ => inferInstanceAs (Decidable (_ = _))
  | .hostResolutionFailed => inferInstanceAs (Decidable (_ = _))
  | .hostResolved .. => inferInstanceAs (Decidable (_ ∧ (_ → _)))
  | .socketReadable _ => inferInstanceAs (Decidable (_ = _))
  | .timerFired _ => inferInstanceAs (Decidable (_ = _))

/-- The handler of each event. -/
def handle (order : ByteOrder) (w : PingWrapper) : PingEvent → Except Fault PingWrapper
  | .startPing success => w.startPing success
  | .hostResolutionFailed => .ok w.didFailWithError
  | .hostResolved resolved addresses socketOpens sendto =>
    w.hostResolutionDone order resolved addresses socketOpens sendto
  | .socketReadable datagram => w.socketReadCallback order datagram
  | .timerFired isValid => .ok (w.timerFired isValid)

end PingWrapper

/-- A pinger as a machine. -/
def pinger (order : ByteOrder) (hostName : String) (identifier : UInt16) :
    Machine PingWrapper PingEvent where
  init := .new hostName identifier
  Step w e w' := w.Enabled e ∧ w.handle order e = .ok w'

end LANScan
