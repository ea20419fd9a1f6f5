import LANScan.SequenceNumbers

/-!
# A pinger and its client

What passes between a `SimplePing` object and whoever uses it: the client starts and stops
the pinger and sends pings, and the pinger calls its delegate.  A handler is at its end
when it calls the delegate, except that a send has its counter to move.  So the calls a
delegate makes while it is called are events like any others, and the client here is any
client.

## Main definitions

* `PingError`, `PingCall` — the errors, and the calls in both directions.
* `Client`, with the methods of `SimplePing` — a pinger with a log of the calls.
* `client` — a pinger and its client as a machine.
* `Lifecycle` — the order of calls that the delegate protocol promises.

## Main results

* `calls_follow_lifecycle` — **in every run the calls are in that order**, and the
  resolution, the address and the socket are there in just the phases they belong to.
* `assertions_hold_iff` — **no assertion fails unless the client starts a pinger that is
  not stopped or sends before it has been started.**
-/

namespace LANScan

open SimplePing

/-! ### Calls -/

/-- An error number, where the code names the ones it sets itself. -/
inductive Errno
  | ebadf
  | enobufs
  | epipe
  | eprotonosupport
  /-- Any other that a system call gives. -/
  | other (code : ℕ)
  deriving DecidableEq, Repr

/-- The domain of a `CFStreamError`. -/
inductive StreamErrorDomain
  /-- The domain `0`, where there is no error. -/
  | none
  | netDB
  | other
  deriving DecidableEq, Repr

/-- A `CFStreamError`. -/
structure StreamError where
  domain : StreamErrorDomain
  error : Int
  deriving DecidableEq, Repr

/-- The errors a delegate is told of. -/
inductive PingError
  | hostErrorHostNotFound
  /-- The error that `kCFGetAddrInfoFailureKey` gives is optional. -/
  | hostErrorUnknown (getAddrInfoFailure : Option Int)
  | posix (errno : Errno)
  deriving DecidableEq, Repr

/-- The calls of the client, and those of its delegate. -/
inductive PingCall
  | start
  | stop
  | didStartWithAddress (address : Address)
  | didFailWithError (error : PingError)
  | didSendPacket (packet : List UInt8) (sequenceNumber : UInt16)
  | didFailToSendPacket (packet : List UInt8) (sequenceNumber : UInt16) (error : PingError)
  | didReceivePingResponsePacket (packet : List UInt8) (sequenceNumber : UInt16)
  | didReceiveUnexpectedPacket (packet : List UInt8)
  deriving DecidableEq, Repr

/-- A pinger, its sends, and the calls made so far. -/
structure Client extends Sender where
  calls : List PingCall
  deriving DecidableEq, Repr

namespace Client

/-- A pinger that has not been started. -/
def new (hostName : String) (identifier : UInt16) : Client :=
  ⟨⟨.new hostName identifier, [], 0⟩, []⟩

/-- A call is logged. -/
def call (c : Client) (call : PingCall) : Client := { c with calls := c.calls ++ [call] }

/-! ### The methods -/

/-- The pinger stops, and the delegate hears of the error. -/
def didFailWithError (c : Client) (error : PingError) : Client :=
  { c with ping := c.ping.stop }.call (.didFailWithError error)

/-- The error of a failed resolution; only one of the resolver keeps its number. -/
def didFailWithHostStreamError (c : Client) (streamError : StreamError) : Client :=
  let userInfo := match streamError.domain with
    | .netDB => some streamError.error
    | _ => none
  c.didFailWithError (.hostErrorUnknown userInfo)

/-- `socket` is what the system call returns. -/
def startWithHostAddress (c : Client) (socket : Except Errno Unit) : Except Fault Client :=
  match c.ping.hostAddress with
  | none => .error .assertion
  | some address =>
    let opened := match c.ping.hostAddressFamily with
      | .inet => socket
      | .inet6 => socket
      | _ => .error .eprotonosupport
    match opened with
    | .error errno => .ok (c.didFailWithError (.posix errno))
    | .ok () => .ok ({ c with ping := { c.ping with socket := true } }.call
        (.didStartWithAddress address))

/-- `resolved` and `addresses` are what `CFHostGetAddressing` gives. -/
def hostResolutionDone (c : Client) (resolved : Bool) (addresses : Option (List Address))
    (socket : Except Errno Unit) : Except Fault Client :=
  let (hostAddress, resolved) := c.ping.latchAddress resolved addresses
  let ping := { c.ping with hostAddress := hostAddress }
  let c := { c with ping := ping.stopHostResolution }
  if resolved then c.startWithHostAddress socket
  else .ok (c.didFailWithError .hostErrorHostNotFound)

/-- The run loop calls when the resolution is over. -/
def hostResolveCallback (c : Client) (error : Option StreamError) (resolved : Bool)
    (addresses : Option (List Address)) (socket : Except Errno Unit) : Except Fault Client := do
  assert (c.ping.host = true)
  match error with
  | none => c.hostResolutionDone resolved addresses socket
  | some streamError =>
    if streamError.domain ≠ .none then
      return c.didFailWithHostStreamError streamError
    else
      c.hostResolutionDone resolved addresses socket

/-- `streamError` is the error with which `CFHostStartInfoResolution` fails. -/
def start (c : Client) (streamError : Option StreamError) : Except Fault Client := do
  assert (c.ping.host = false)
  assert (c.ping.hostAddress = none)
  let c := { c with ping := { c.ping with host := true } }
  match streamError with
  | none => return c
  | some streamError => return c.didFailWithHostStreamError streamError

/-- `stop`, as the client calls it. -/
def stop (c : Client) : Client := { c with ping := c.ping.stop }

/-- The error of a send, from what `sendto` has returned. -/
def sendError (ping : SimplePing) (sendto : Int) (errno : Errno) : Errno :=
  if ping.socket = false then .ebadf else if sendto < 0 then errno else .enobufs

/-- What the delegate is told of a send. -/
def sendCall (ping : SimplePing) (packet : List UInt8) (sendto : Int) (errno : Errno) :
    PingCall :=
  let bytesSent := if ping.socket then sendto else -1
  if bytesSent > 0 ∧ bytesSent.toNat = packet.length then
    .didSendPacket packet ping.nextSequenceNumber
  else
    .didFailToSendPacket packet ping.nextSequenceNumber (.posix (sendError ping sendto errno))

/-- `sendPingWithData:` up to the call of the delegate. -/
def beginSend (order : ByteOrder) (c : Client) (data : Option (List UInt8)) (sendto : Int)
    (errno : Errno) : Except Fault Client := do
  let (ping, packet) ← c.ping.beginSend order data sendto
  return ⟨⟨ping, c.pings ++ [packet], c.pending + 1⟩,
    c.calls ++ [sendCall c.ping packet sendto errno]⟩

/-- `sendPingWithData:` after the call of the delegate. -/
def endSend (c : Client) : Client :=
  { c with ping := c.ping.countPing, pending := c.pending - 1 }

/-- The part of `readData` that processes the data read. -/
def processPacket (order : ByteOrder) (c : Client) (packet : List UInt8) :
    Except Fault Client := do
  let c := { c with ping := c.ping.logReceived packet }
  let validation ← c.ping.validatePingResponsePacket order packet
  match validation.sequenceNumber with
  | some sequenceNumber =>
    return c.call (.didReceivePingResponsePacket validation.packet sequenceNumber)
  | none => return c.call (.didReceiveUnexpectedPacket validation.packet)

/-- `recvfrom` gives the datagram that waits on the socket, as far as it fits. -/
def readData (order : ByteOrder) (c : Client) (recvfrom : Except Errno (List UInt8)) :
    Except Fault Client :=
  match recvfrom.map (List.take PingWrapper.kBufferSize) with
  | .error errno => .ok (c.didFailWithError (.posix errno))
  | .ok [] => .ok (c.didFailWithError (.posix .epipe))
  | .ok packet => c.processPacket order packet

/-- The run loop calls when the socket has something to read. -/
def socketReadCallback (order : ByteOrder) (c : Client)
    (recvfrom : Except Errno (List UInt8)) : Except Fault Client := do
  assert (c.ping.socket = true)
  c.readData order recvfrom

end Client

/-! ### Events -/

/-- What a client and the run loop do to a pinger, with the results of the system calls
made meanwhile. -/
inductive ClientEvent
  | setAddressStyle (addressStyle : AddressStyle)
  | start (streamError : Option StreamError)
  | stop
  | beginSend (data : Option (List UInt8)) (sendto : Int) (errno : Errno)
  | endSend
  | hostResolveCallback (error : Option StreamError) (resolved : Bool)
    (addresses : Option (List Address)) (socket : Except Errno Unit)
  | socketReadCallback (recvfrom : Except Errno (List UInt8))

namespace Client

/-- Only what is installed calls back, and a resolution reported as resolved comes with a
list. -/
def Enabled (c : Client) : ClientEvent → Prop
  | .endSend => 0 < c.pending
  | .hostResolveCallback _ resolved addresses _ =>
    c.ping.host = true ∧ (resolved = true → addresses ≠ none)
  | .socketReadCallback _ => c.ping.socket = true
  | _ => True

instance (c : Client) : (e : ClientEvent) → Decidable (c.Enabled e)
  | .endSend => inferInstanceAs (Decidable (_ < _))
  | .hostResolveCallback .. => inferInstanceAs (Decidable (_ ∧ (_ → _)))
  | .socketReadCallback _ => inferInstanceAs (Decidable (_ = _))
  | .setAddressStyle _ => inferInstanceAs (Decidable True)
  | .start _ => inferInstanceAs (Decidable True)
  | .stop => inferInstanceAs (Decidable True)
  | .beginSend .. => inferInstanceAs (Decidable True)

/-- No send begins before the last one has returned. -/
def OneAtATime (c : Client) : ClientEvent → Prop
  | .beginSend .. => c.pending = 0
  | _ => True

instance (c : Client) : (e : ClientEvent) → Decidable (c.OneAtATime e)
  | .beginSend .. => inferInstanceAs (Decidable (_ = _))
  | .setAddressStyle _ => inferInstanceAs (Decidable True)
  | .start _ => inferInstanceAs (Decidable True)
  | .stop => inferInstanceAs (Decidable True)
  | .endSend => inferInstanceAs (Decidable True)
  | .hostResolveCallback .. => inferInstanceAs (Decidable True)
  | .socketReadCallback _ => inferInstanceAs (Decidable True)

/-- What an event does; a failed assertion or an access out of bounds is an error. -/
def handle (order : ByteOrder) (c : Client) : ClientEvent → Except Fault Client
  | .setAddressStyle addressStyle =>
    .ok { c with ping := { c.ping with addressStyle := addressStyle } }
  | .start streamError => (c.call .start).start streamError
  | .stop => .ok (c.call .stop).stop
  | .beginSend data sendto errno => c.beginSend order data sendto errno
  | .endSend => .ok c.endSend
  | .hostResolveCallback error resolved addresses socket =>
    c.hostResolveCallback error resolved addresses socket
  | .socketReadCallback recvfrom => c.socketReadCallback order recvfrom

end Client

/-- A pinger and its client as a machine. -/
def client (order : ByteOrder) (hostName : String) (identifier : UInt16) :
    Machine Client ClientEvent where
  init := .new hostName identifier
  Step c e c' := c.Enabled e ∧ c.handle order e = .ok c'

theorem handle_toOption {order : ByteOrder} {c c' : Client} {e : ClientEvent}
    (h : (c.handle order e).toOption = some c') : c.handle order e = .ok c' := by
  cases hc : c.handle order e with
  | error fault =>
    rw [hc] at h
    cases h
  | ok _ =>
    rw [hc] at h
    rw [Option.some.inj h]

/-- A computed run is a run. -/
theorem reachable_of_clientEvents {order : ByteOrder} {hostName : String} {identifier : UInt16}
    {c : Client} (es : List ClientEvent)
    (h : es.foldlM (fun c e => if c.Enabled e then (c.handle order e).toOption else none)
      (.new hostName identifier) = some c) : (client order hostName identifier).Reachable c :=
  Machine.reachable_of_guarded (m := client order hostName identifier)
    (fun _ _ _ hen hs => ⟨hen, handle_toOption hs⟩) es h

/-! ### The order of calls -/

/-- The phases of a pinger as its delegate knows them. -/
inductive Lifecycle
  | stopped
  | resolving
  | started (address : Address)
  deriving DecidableEq, Repr

namespace Lifecycle

/-- The address of a phase that has one. -/
def hostAddress : Lifecycle → Option Address
  | .started address => some address
  | _ => none

/-- The phase after a call; `none` is a call out of order. -/
def next : Lifecycle → PingCall → Option Lifecycle
  | _, .stop => some .stopped
  | .stopped, .start => some .resolving
  | .resolving, .didStartWithAddress address => some (.started address)
  | .resolving, .didFailWithError _ => some .stopped
  | .started _, .didFailWithError _ => some .stopped
  | .started address, .didSendPacket _ _ => some (.started address)
  | .started address, .didFailToSendPacket _ _ _ => some (.started address)
  | .started address, .didReceivePingResponsePacket _ _ => some (.started address)
  | .started address, .didReceiveUnexpectedPacket _ => some (.started address)
  | _, _ => none

/-- The phase after all calls. -/
def after (calls : List PingCall) : Option Lifecycle := calls.foldlM next .stopped

theorem after_append {calls : List PingCall} {phase : Lifecycle} (h : after calls = some phase)
    (call : PingCall) : after (calls ++ [call]) = phase.next call := by
  rw [after, List.foldlM_append, show calls.foldlM next .stopped = some phase from h]
  exact Option.bind_fun_some (phase.next call)

/-- A client may stop a pinger at any time; the rest of the world does what it likes. -/
def Permits : Lifecycle → ClientEvent → Prop
  | .stopped, .start _ => True
  | _, .start _ => False
  | .started _, .beginSend _ _ _ => True
  | _, .beginSend _ _ _ => False
  | _, _ => True

/-- What a pinger has installed in a phase. -/
structure Installed (phase : Lifecycle) (ping : SimplePing) : Prop where
  host_iff : ping.host = true ↔ phase = .resolving
  hostAddress_eq : ping.hostAddress = phase.hostAddress
  socket_eq : ping.socket = phase.hostAddress.isSome
  family : ping.hostAddress ≠ none →
    ping.hostAddressFamily = .inet ∨ ping.hostAddressFamily = .inet6

theorem installed_stop (ping : SimplePing) : stopped.Installed ping.stop where
  host_iff := ⟨fun h => (by cases h), fun h => by cases h⟩
  hostAddress_eq := rfl
  socket_eq := rfl
  family h := absurd rfl h

end Lifecycle

open Lifecycle

/-- The calls of a pinger are in order, and it has installed what belongs to the phase
they lead to. -/
structure Conforms (c : Client) (phase : Lifecycle) : Prop where
  after_eq : after c.calls = some phase
  installed : phase.Installed c.ping

variable {order : ByteOrder} {hostName : String} {identifier : UInt16} {c c' : Client}
  {phase : Lifecycle}

/-! ### What the methods do -/

/-- A failure stops the pinger and tells the delegate so. -/
theorem didFailWithError_conforms (hafter : after c.calls = some phase) (hne : phase ≠ .stopped)
    (error : PingError) : Conforms (c.didFailWithError error) .stopped where
  after_eq := by
    show after (c.calls ++ [.didFailWithError error]) = _
    rw [after_append hafter]
    cases phase with
    | stopped => exact absurd rfl hne
    | resolving => rfl
    | started address => rfl
  installed := installed_stop c.ping

/-- A started pinger fails, or goes on with a packet. -/
theorem Conforms.call {address : Address} (h : Conforms c (.started address)) {call : PingCall}
    (hnext : (Lifecycle.started address).next call = some (.started address)) :
    Conforms (c.call call) (.started address) where
  after_eq := (after_append h.after_eq call).trans hnext
  installed := h.installed

/-- The address that is latched is of a family the pinger can send to. -/
theorem latchAddress_appropriate (ping : SimplePing) {resolved : Bool}
    {addresses : Option (List Address)} (hlist : resolved = true → addresses ≠ none) :
    (ping.latchAddress resolved addresses).2 = false ∨
      ∃ address, ping.latchAddress resolved addresses = (some address, true) ∧
        address.length ≥ sizeofSockaddr ∧ (address.family = .inet ∨ address.family = .inet6) := by
  cases resolved with
  | false => exact Or.inl rfl
  | true =>
    obtain ⟨addresses, rfl⟩ := Option.ne_none_iff_exists'.mp (hlist rfl)
    rw [SimplePing.latchAddress]
    cases hfind : addresses.find? (isAppropriate ping.addressStyle) with
    | none => exact Or.inl rfl
    | some address =>
      have happropriate := List.find?_some hfind
      rw [isAppropriate, Bool.and_eq_true, decide_eq_true_iff] at happropriate
      refine Or.inr ⟨address, rfl, happropriate.1, ?_⟩
      cases hfamily : address.family <;> simp [hfamily] at happropriate ⊢

/-- **The end of a resolution** starts or stops the pinger. -/
theorem hostResolutionDone_conforms (h : Conforms c .resolving) {resolved : Bool}
    {addresses : Option (List Address)} (hlist : resolved = true → addresses ≠ none)
    (socket : Except Errno Unit) :
    ∃ c', c.hostResolutionDone resolved addresses socket = .ok c' ∧
      ∃ phase', Conforms c' phase' := by
  have hfails : ∀ {c' : Client} (error : PingError), c'.calls = c.calls →
      Conforms (c'.didFailWithError error) .stopped := by
    intro c' error hcalls
    exact didFailWithError_conforms (show after c'.calls = some .resolving by
      rw [hcalls]; exact h.after_eq) (fun h => by cases h) error
  unfold Client.hostResolutionDone
  rcases latchAddress_appropriate c.ping hlist with
    hlatch | ⟨address, hlatch, hlen, hfamily⟩
  · generalize c.ping.latchAddress resolved addresses = latched at hlatch
    obtain ⟨hostAddress, resolved⟩ := latched
    obtain rfl : resolved = false := hlatch
    exact ⟨_, rfl, .stopped, hfails _ rfl⟩
  · rw [hlatch]
    have hfam : ∀ ping : SimplePing, ping.hostAddress = some address →
        ping.hostAddressFamily = address.family := by
      intro ping haddress
      rw [hostAddressFamily, haddress]
      exact if_pos hlen
    have hopened : ∀ ping : SimplePing, ping.hostAddress = some address →
        (match ping.hostAddressFamily with
          | .inet => socket
          | .inet6 => socket
          | _ => .error .eprotonosupport) = socket := by
      intro ping haddress
      rw [hfam ping haddress]
      rcases hfamily with hf | hf <;> rw [hf]
    simp only [if_true, Client.startWithHostAddress]
    rw [show (stopHostResolution { c.ping with hostAddress := some address }).hostAddress =
      some address from rfl]
    dsimp only
    rw [hopened _ rfl]
    cases socket with
    | error errno => exact ⟨_, rfl, .stopped, hfails _ rfl⟩
    | ok _ =>
      refine ⟨_, rfl, .started address, (after_append h.after_eq _).trans rfl,
        ⟨fun hhost => (by cases hhost), fun hphase => (by cases hphase)⟩, rfl, rfl, fun _ => ?_⟩
      exact hfamily.imp (hfam _ rfl).trans (hfam _ rfl).trans

theorem hostResolveCallback_conforms (h : Conforms c .resolving) (error : Option StreamError)
    {resolved : Bool} {addresses : Option (List Address)}
    (hlist : resolved = true → addresses ≠ none) (socket : Except Errno Unit) :
    ∃ c', c.hostResolveCallback error resolved addresses socket = .ok c' ∧
      ∃ phase', Conforms c' phase' := by
  have hdone := hostResolutionDone_conforms h hlist socket
  unfold Client.hostResolveCallback
  rw [assert_eq (h.installed.host_iff.mpr rfl), ok_bind]
  cases error with
  | none => exact hdone
  | some streamError =>
    dsimp only
    split
    · exact ⟨_, rfl, .stopped,
        didFailWithError_conforms h.after_eq (fun h => by cases h) _⟩
    · exact hdone

/-- **A stopped pinger can be started.** -/
theorem start_conforms (h : Conforms c .stopped) (streamError : Option StreamError) :
    ∃ c', (c.call .start).start streamError = .ok c' ∧ ∃ phase', Conforms c' phase' := by
  have hhost : (c.call .start).ping.host = false := by
    rw [← Bool.not_eq_true]
    intro hhost
    cases h.installed.host_iff.mp hhost
  have haddress : (c.call .start).ping.hostAddress = none := h.installed.hostAddress_eq
  have hafter : after (c.calls ++ [.start]) = some .resolving := after_append h.after_eq _
  rw [Client.start, assert_eq hhost, ok_bind, assert_eq haddress, ok_bind]
  cases streamError with
  | none =>
    exact ⟨_, rfl, .resolving, hafter, ⟨fun _ => rfl, fun _ => rfl⟩, haddress,
      h.installed.socket_eq, fun hne => absurd haddress hne⟩
  | some streamError =>
    exact ⟨_, rfl, .stopped, didFailWithError_conforms hafter (fun h => by cases h) _⟩

/-- A started pinger stays started, whatever becomes of a send. -/
theorem next_sendCall (address : Address) (ping : SimplePing) (packet : List UInt8)
    (sendto : Int) (errno : Errno) :
    (Lifecycle.started address).next (Client.sendCall ping packet sendto errno) =
      some (.started address) := by
  unfold Client.sendCall
  dsimp only
  split
  · split
    · rfl
    · rfl
  · split
    · rfl
    · rfl

/-- **A send tells the delegate of one packet** and leaves the pinger started. -/
theorem beginSend_conforms (h : Conforms c phase) {data : Option (List UInt8)} {sendto : Int}
    {errno : Errno} (hsend : c.beginSend order data sendto errno = .ok c') :
    ∃ address, phase = .started address ∧ Conforms c' phase := by
  obtain ⟨⟨ping, packet⟩, hbegin, hsend⟩ := bind_eq_ok.mp hsend
  obtain rfl := Except.ok.inj hsend
  obtain ⟨_, hassert, -⟩ := bind_eq_ok.mp hbegin
  have haddress : c.ping.hostAddress ≠ none := by
    intro hnone
    rw [hnone] at hassert
    cases hassert
  rw [h.installed.hostAddress_eq] at haddress
  obtain ⟨address, rfl⟩ : ∃ address, phase = .started address := by
    cases phase with
    | started address => exact ⟨address, rfl⟩
    | _ => exact absurd rfl haddress
  refine ⟨address, rfl, (after_append h.after_eq _).trans ?_, ?_⟩
  · exact next_sendCall address c.ping packet sendto errno
  · obtain ⟨-, rfl | rfl⟩ := beginSend_spec hbegin
    · exact h.installed
    · exact ⟨h.installed.host_iff, h.installed.hostAddress_eq, h.installed.socket_eq,
        h.installed.family⟩

/-- **A started pinger can send** what fits in a datagram. -/
theorem exists_beginSend_of_started {address : Address} (h : Conforms c (.started address))
    {data : Option (List UInt8)}
    (hlen : (data.getD (defaultPayload c.ping.nextSequenceNumber)).length + 8 ≤ 65535)
    (sendto : Int) (errno : Errno) : ∃ c', c.beginSend order data sendto errno = .ok c' := by
  have haddress : c.ping.hostAddress ≠ none := by
    rw [h.installed.hostAddress_eq]
    exact Option.some_ne_none address
  have hpayload : data = none →
      (data.getD (defaultPayload c.ping.nextSequenceNumber)).length = 56 := by
    rintro rfl
    rw [Option.getD_none, length_defaultPayload]
  obtain ⟨packet, hpacket⟩ : ∃ packet, c.ping.pingPacket order
      (data.getD (defaultPayload c.ping.nextSequenceNumber)) = .ok packet := by
    rw [pingPacket]
    rcases h.installed.family haddress with hfamily | hfamily
    · rw [hfamily]
      obtain ⟨packet, hpacket, -⟩ :=
        exists_pingPacketWithType order c.ping icmpv4TypeEchoRequest true hlen
      exact ⟨packet, hpacket⟩
    · rw [hfamily]
      obtain ⟨packet, hpacket, -⟩ :=
        exists_pingPacketWithType order c.ping icmpv6TypeEchoRequest false hlen
      exact ⟨packet, hpacket⟩
  rw [Client.beginSend, beginSend_eq (assert_eq haddress) (assert_eq hpayload) hpacket sendto rfl,
    ok_bind]
  exact ⟨_, rfl⟩

/-- Every datagram is validated without a fault. -/
theorem exists_validatePingResponsePacket (order : ByteOrder) {ping : SimplePing}
    (hfamily : ping.hostAddressFamily = .inet ∨ ping.hostAddressFamily = .inet6)
    {packet : List UInt8} (hmax : packet.length ≤ 65535) :
    ∃ v, ping.validatePingResponsePacket order packet = .ok v := by
  rw [validatePingResponsePacket]
  rcases hfamily with hfamily | hfamily
  · rw [hfamily]
    obtain ⟨v, hv, -⟩ := validatePing4ResponsePacket_spec order ping hmax
    exact ⟨v, hv⟩
  · rw [hfamily]
    show ∃ v, ping.validatePing6ResponsePacket order packet = .ok v
    unfold validatePing6ResponsePacket
    split
    next hlen =>
      obtain ⟨b₀, b₁, b₄, b₅, b₆, b₇, -, -, -, -, -, -, heq⟩ :=
        acceptedSequenceNumber_eq order ping icmpv6TypeEchoReply
          (show 0 + sizeofICMPHeader ≤ packet.length by omega)
      rw [heq, ok_bind]
      exact ⟨_, rfl⟩
    next => exact ⟨_, rfl⟩

/-- **Whatever is read**, the delegate is told of a packet or of an error. -/
theorem readData_conforms (order : ByteOrder) {address : Address}
    (h : Conforms c (.started address)) (recvfrom : Except Errno (List UInt8)) :
    ∃ c', c.readData order recvfrom = .ok c' ∧ ∃ phase', Conforms c' phase' := by
  have hfails : ∀ error, Conforms (c.didFailWithError error) .stopped :=
    didFailWithError_conforms h.after_eq fun h => by cases h
  have haddress : c.ping.hostAddress ≠ none := by
    rw [h.installed.hostAddress_eq]
    exact Option.some_ne_none address
  unfold Client.readData
  cases recvfrom with
  | error errno => exact ⟨_, rfl, .stopped, hfails _⟩
  | ok datagram =>
    simp only [Except.map]
    split
    next hnone => cases hnone
    next => exact ⟨_, rfl, .stopped, hfails _⟩
    next packet _ hpacket =>
      obtain rfl := Except.ok.inj hpacket
      have hlogged : Conforms { c with
          ping := c.ping.logReceived (datagram.take PingWrapper.kBufferSize) }
            (.started address) :=
        ⟨h.after_eq, h.installed.host_iff, h.installed.hostAddress_eq, h.installed.socket_eq,
          h.installed.family⟩
      obtain ⟨v, hv⟩ := exists_validatePingResponsePacket order
        (hlogged.installed.family haddress) (List.length_take_le PingWrapper.kBufferSize datagram)
      rw [Client.processPacket]
      dsimp only
      rw [hv, ok_bind]
      split
      · exact ⟨_, rfl, .started address, hlogged.call rfl⟩
      · exact ⟨_, rfl, .started address, hlogged.call rfl⟩

/-! ### Runs -/

/-- What is sent fits in a datagram. -/
def ClientEvent.Fits : ClientEvent → Prop
  | .beginSend (some data) _ _ => data.length + 8 ≤ 65535
  | _ => True

/-- Where the client does what the phase permits, **every handler succeeds**. -/
theorem Conforms.handle_of_permits (order : ByteOrder) (h : Conforms c phase) {e : ClientEvent}
    (hen : c.Enabled e) (hfits : e.Fits) (hpermits : phase.Permits e) :
    ∃ c', c.handle order e = .ok c' ∧ ∃ phase', Conforms c' phase' := by
  cases e with
  | setAddressStyle addressStyle =>
    exact ⟨_, rfl, phase, h.after_eq, h.installed.host_iff, h.installed.hostAddress_eq,
      h.installed.socket_eq, h.installed.family⟩
  | start streamError =>
    cases phase with
    | stopped => exact start_conforms h streamError
    | _ => exact absurd hpermits id
  | stop =>
    exact ⟨_, rfl, .stopped, (after_append h.after_eq _).trans (by cases phase <;> rfl),
      installed_stop c.ping⟩
  | beginSend data sendto errno =>
    cases phase with
    | started address =>
      have hlen : (data.getD (defaultPayload c.ping.nextSequenceNumber)).length + 8 ≤ 65535 := by
        cases data with
        | none =>
          rw [Option.getD_none, length_defaultPayload]
          decide
        | some data => exact hfits
      obtain ⟨c', hc'⟩ := exists_beginSend_of_started h hlen sendto errno
      obtain ⟨address', -, hconforms⟩ := beginSend_conforms h hc'
      exact ⟨c', hc', _, hconforms⟩
    | _ => exact absurd hpermits id
  | endSend =>
    exact ⟨_, rfl, phase, h.after_eq, h.installed.host_iff, h.installed.hostAddress_eq,
      h.installed.socket_eq, h.installed.family⟩
  | hostResolveCallback error resolved addresses socket =>
    obtain rfl := h.installed.host_iff.mp hen.1
    exact hostResolveCallback_conforms h error hen.2 socket
  | socketReadCallback recvfrom =>
    have hsocket : c.ping.socket = true := hen
    obtain ⟨address, rfl⟩ : ∃ address, phase = .started address := by
      rw [h.installed.socket_eq] at hsocket
      cases phase with
      | started address => exact ⟨address, rfl⟩
      | _ => cases hsocket
    obtain ⟨c', hc', hconforms⟩ := readData_conforms order h recvfrom
    refine ⟨c', ?_, hconforms⟩
    show c.socketReadCallback order recvfrom = .ok c'
    rw [Client.socketReadCallback, assert_eq hsocket, ok_bind]
    exact hc'

/-- Where the client does what the phase does not permit, **an assertion fails**. -/
theorem Conforms.permits_of_handle (h : Conforms c phase) {e : ClientEvent}
    (hs : c.handle order e = .ok c') : phase.Permits e := by
  cases e with
  | start streamError =>
    obtain ⟨_, hhost, hs⟩ := bind_eq_ok.mp hs
    obtain ⟨_, haddress, -⟩ := bind_eq_ok.mp hs
    cases phase with
    | stopped => trivial
    | resolving =>
      have hresolving : (c.call .start).ping.host = true := h.installed.host_iff.mpr rfl
      rw [hresolving] at hhost
      cases hhost
    | started address =>
      have hstarted : (c.call .start).ping.hostAddress = some address :=
        h.installed.hostAddress_eq
      rw [hstarted] at haddress
      cases haddress
  | beginSend data sendto errno =>
    obtain ⟨address, rfl, -⟩ := beginSend_conforms h hs
    trivial
  | _ => cases phase <;> trivial

/-- **Every step keeps the calls in order.** -/
theorem Conforms.handle (h : Conforms c phase) {e : ClientEvent} (hen : c.Enabled e)
    (hs : c.handle order e = .ok c') : ∃ phase', Conforms c' phase' := by
  by_cases hfits : e.Fits
  · obtain ⟨c'', hc'', hconforms⟩ := h.handle_of_permits order hen hfits
      (h.permits_of_handle hs)
    obtain rfl := Except.ok.inj (hs.symm.trans hc'')
    exact hconforms
  · cases e with
    | beginSend data sendto errno =>
      obtain ⟨address, -, hconforms⟩ := beginSend_conforms h hs
      exact ⟨_, hconforms⟩
    | _ => exact absurd trivial hfits

theorem conforms_of_reachable (h : (client order hostName identifier).Reachable c) :
    ∃ phase, Conforms c phase := by
  refine h.invariant (I := fun c => ∃ phase, Conforms c phase) ?_ ?_
  · exact ⟨.stopped, rfl, ⟨fun hhost => (by cases hhost), fun hphase => (by cases hphase)⟩, rfl,
      rfl, fun hne => absurd rfl hne⟩
  · rintro c e c' ⟨phase, hconforms⟩ ⟨hen, hs⟩
    exact hconforms.handle hen hs

/-- **The calls are in order in every run**, whatever the client does and whenever: after a
stop or a failure there are no callbacks until the next start, a start leads to one
callback with an address or to a failure, and packets come only after the address.  A
resolution is under way, and an address and a socket are there, in just these phases. -/
theorem calls_follow_lifecycle (h : (client order hostName identifier).Reachable c) :
    ∃ phase, after c.calls = some phase ∧ (c.ping.host = true ↔ phase = .resolving) ∧
      c.ping.hostAddress = phase.hostAddress ∧ c.ping.socket = phase.hostAddress.isSome := by
  obtain ⟨phase, hconforms⟩ := conforms_of_reachable h
  exact ⟨phase, hconforms.after_eq, hconforms.installed.host_iff,
    hconforms.installed.hostAddress_eq, hconforms.installed.socket_eq⟩

/-- One ping over IPv6 that is answered and then stopped by the client while it sends the
next one. -/
def stoppedInSend : List ClientEvent :=
  [.start none, .hostResolveCallback none true (some [⟨.inet6, 28⟩]) (.ok ()),
    .beginSend (some []) 8 .ebadf, .endSend,
    .socketReadCallback (.ok [129, 0, 7, 7, 0x12, 0x34, 0, 0]),
    .beginSend (some []) (-1) (.other 65), .stop, .endSend]

/-- The calls of that run, and what is left afterwards. -/
theorem calls_follow_lifecycle_stoppedInSend :
    ∃ c phase, (client .little "fe80::1" 0x1234).Reachable c ∧
      c.calls = [.start, .didStartWithAddress ⟨.inet6, 28⟩,
        .didSendPacket [128, 0, 0, 0, 0x12, 0x34, 0, 0] 0,
        .didReceivePingResponsePacket [129, 0, 7, 7, 0x12, 0x34, 0, 0] 0,
        .didFailToSendPacket [128, 0, 0, 0, 0x12, 0x34, 0, 1] 1 (.posix (.other 65)), .stop] ∧
      after c.calls = some phase ∧ (c.ping.host = true ↔ phase = .resolving) ∧
      c.ping.hostAddress = phase.hostAddress ∧ c.ping.socket = phase.hostAddress.isSome := by
  have hreach : (client .little "fe80::1" 0x1234).Reachable _ :=
    reachable_of_clientEvents stoppedInSend rfl
  obtain ⟨phase, hphase⟩ := calls_follow_lifecycle hreach
  exact ⟨_, phase, hreach, rfl, hphase⟩

/-- **No assertion fails and no access leaves a packet** if and only if the client starts
the pinger only when the calls so far leave it stopped, and sends only when they leave it
started.  What the run loop does never makes a handler fail. -/
theorem assertions_hold_iff (h : (client order hostName identifier).Reachable c)
    (hafter : after c.calls = some phase) (e : ClientEvent) (hen : c.Enabled e)
    (hfits : e.Fits) : (∃ c', c.handle order e = .ok c') ↔ phase.Permits e := by
  obtain ⟨phase', hconforms⟩ := conforms_of_reachable h
  obtain rfl := Option.some.inj (hafter.symm.trans hconforms.after_eq)
  constructor
  · rintro ⟨c', hc'⟩
    exact hconforms.permits_of_handle hc'
  · intro hpermits
    obtain ⟨c', hc', -⟩ := hconforms.handle_of_permits order hen hfits hpermits
    exact ⟨c', hc'⟩

/-- After that run the pinger can be started but not send. -/
theorem assertions_hold_iff_stoppedInSend :
    ∃ c, (client .little "fe80::1" 0x1234).Reachable c ∧
      (∃ c', c.handle .little (.start none) = .ok c') ∧
      ¬∃ c', c.handle .little (.beginSend none 64 .ebadf) = .ok c' := by
  have hreach : (client .little "fe80::1" 0x1234).Reachable _ :=
    reachable_of_clientEvents stoppedInSend rfl
  exact ⟨_, hreach, (assertions_hold_iff hreach rfl (.start none) trivial trivial).mpr trivial,
    (assertions_hold_iff hreach rfl (.beginSend none 64 .ebadf) trivial trivial).mp⟩

end LANScan
