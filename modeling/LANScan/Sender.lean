import LANScan.PingWrapper

/-!
# A pinger and its sends

A pinger numbers its pings with a 16-bit counter that moves at the end of each send,
after the delegate has heard of it.  Here a pinger is a machine of its own, with any
client: what happens to it between the beginning and the end of a send is up to the
delegate, and may be another send.

## Main definitions

* `SimplePing.Change`, `SimplePing.beginSend`, `SimplePing.sendPingWithData`.
* `Sender`, `sender` — a pinger with the packets of all sends.
* `Counted` — the invariant: the counter is the number of sends that have returned.

## Main results

* `sendPingWithData_spec` — **a number is admitted as soon as its send has returned.**
* `counted_of_reachable` — the invariant holds in every run.
* `exists_sends` — there are runs with any number of sends.
-/

namespace LANScan

/-! ### What happens to a pinger -/

namespace SimplePing

/-- What happens to a pinger besides sends: what its client calls, and what the run loop
does with it. -/
inductive Change
  | setAddressStyle (addressStyle : AddressStyle)
  | startHostResolution
  | latchAddress (resolved : Bool) (addresses : Option (List Address))
  | stopHostResolution
  | openSocket
  | stop
  | logReceived (packet : List UInt8)
  deriving DecidableEq, Repr

/-- Whether a change reads a datagram. -/
def Change.isRead : Change → Bool
  | .logReceived _ => true
  | _ => false

/-- What a change does to the pinger. -/
def apply (ping : SimplePing) : Change → SimplePing
  | .setAddressStyle addressStyle => { ping with addressStyle := addressStyle }
  | .startHostResolution => { ping with host := true }
  | .latchAddress resolved addresses =>
    { ping with hostAddress := (ping.latchAddress resolved addresses).1 }
  | .stopHostResolution => ping.stopHostResolution
  | .openSocket => { ping with socket := true }
  | .stop => ping.stop
  | .logReceived packet => ping.logReceived packet

/-- `sendPingWithData:` up to the call of the delegate, and the packet it sends;
`sendto` is what the system call would return. -/
def beginSend (order : ByteOrder) (ping : SimplePing) (data : Option (List UInt8))
    (sendto : Int) : Except Fault (SimplePing × List UInt8) := do
  assert (ping.hostAddress ≠ none)
  let payload := data.getD (defaultPayload ping.nextSequenceNumber)
  assert (data = none → payload.length = 56)
  let packet ← ping.pingPacket order payload
  let bytesSent := if ping.socket then sendto else -1
  if bytesSent > 0 ∧ bytesSent.toNat = packet.length then
    return ({ ping with sent := ping.sent ++ [packet] }, packet)
  else
    return (ping, packet)

/-- `sendPingWithData:`, where the delegate makes the given changes when it hears of the
send. -/
def sendPingWithData (order : ByteOrder) (ping : SimplePing) (data : Option (List UInt8))
    (sendto : Int) (changes : List Change) : Except Fault (SimplePing × List UInt8) := do
  let (ping, packet) ← ping.beginSend order data sendto
  return ((changes.foldl apply ping).countPing, packet)

@[simp] theorem apply_identifier (ping : SimplePing) (change : Change) :
    (ping.apply change).identifier = ping.identifier := by cases change <;> rfl

@[simp] theorem apply_nextSequenceNumber (ping : SimplePing) (change : Change) :
    (ping.apply change).nextSequenceNumber = ping.nextSequenceNumber := by cases change <;> rfl

@[simp] theorem apply_nextSequenceNumberHasWrapped (ping : SimplePing) (change : Change) :
    (ping.apply change).nextSequenceNumberHasWrapped = ping.nextSequenceNumberHasWrapped := by
  cases change <;> rfl

@[simp] theorem apply_sent (ping : SimplePing) (change : Change) :
    (ping.apply change).sent = ping.sent := by cases change <;> rfl

/-- Changes leave alone what the checks of incoming packets depend on. -/
theorem foldl_apply_eq : ∀ (changes : List Change) (ping : SimplePing),
    (changes.foldl apply ping).identifier = ping.identifier ∧
      (changes.foldl apply ping).nextSequenceNumber = ping.nextSequenceNumber ∧
      ∀ number, (changes.foldl apply ping).validateSequenceNumber number =
        ping.validateSequenceNumber number
  | [], _ => ⟨rfl, rfl, fun _ => rfl⟩
  | change :: changes, ping => by
    obtain ⟨hid, hnext, hvalid⟩ := foldl_apply_eq changes (ping.apply change)
    refine ⟨hid.trans (apply_identifier ping change),
      hnext.trans (apply_nextSequenceNumber ping change), fun number => (hvalid number).trans ?_⟩
    simp [validateSequenceNumber]

/-- What reads nothing logs nothing. -/
theorem foldl_apply_received : ∀ {changes : List Change}, changes.any Change.isRead = false →
    ∀ ping : SimplePing, (changes.foldl apply ping).received = ping.received
  | [], _, _ => rfl
  | change :: changes, hchanges, ping => by
    rw [List.any_cons, Bool.or_eq_false_iff] at hchanges
    rw [List.foldl_cons, foldl_apply_received hchanges.2]
    cases change with
    | logReceived packet => cases hchanges.1
    | _ => rfl

/-- **A number is admitted as soon as its send has returned**, also across a wrap. -/
theorem validateSequenceNumber_countPing (ping : SimplePing) :
    ping.countPing.validateSequenceNumber ping.nextSequenceNumber = true := by
  have hlt := ping.nextSequenceNumber.toNat_lt
  have hone : (1 : UInt16).toNat = 1 := rfl
  have hdistance : ping.nextSequenceNumber + 1 - ping.nextSequenceNumber = 1 := by
    rw [← UInt16.toNat_inj, UInt16.toNat_sub, UInt16.toNat_add]
    omega
  show (if (if ping.nextSequenceNumber + 1 = 0 then true
      else ping.nextSequenceNumberHasWrapped) = true
    then decide (ping.nextSequenceNumber + 1 - ping.nextSequenceNumber < 120)
    else decide (ping.nextSequenceNumber < ping.nextSequenceNumber + 1)) = true
  by_cases hzero : ping.nextSequenceNumber + 1 = 0
  · rw [if_pos hzero, if_pos rfl, hdistance]
    rfl
  · rw [if_neg hzero]
    split
    next =>
      rw [hdistance]
      rfl
    next =>
      -- the counter has not wrapped, and is above the number
      have hsum : (ping.nextSequenceNumber.toNat + 1) % 2 ^ 16 ≠ 0 := by
        intro h
        exact hzero (by rw [← UInt16.toNat_inj, UInt16.toNat_add, hone, h]; rfl)
      rw [decide_eq_true_iff, UInt16.lt_iff_toNat_lt, UInt16.toNat_add]
      omega

/-- **The first part of a send** builds a packet, and logs nothing else. -/
theorem beginSend_spec {order : ByteOrder} {ping ping' : SimplePing} {data : Option (List UInt8)}
    {sendto : Int} {packet : List UInt8}
    (h : ping.beginSend order data sendto = .ok (ping', packet)) :
    ping.pingPacket order (data.getD (defaultPayload ping.nextSequenceNumber)) = .ok packet ∧
      (ping' = ping ∨ ping' = { ping with sent := ping.sent ++ [packet] }) := by
  obtain ⟨_, -, h⟩ := bind_eq_ok.mp h
  obtain ⟨_, -, h⟩ := bind_eq_ok.mp h
  obtain ⟨built, hbuilt, h⟩ := bind_eq_ok.mp h
  dsimp only at h
  generalize (if ping.socket then sendto else -1) = bytesSent at h
  split_ifs at h
  · obtain ⟨rfl, rfl⟩ := Prod.mk.inj (Except.ok.inj h)
    exact ⟨hbuilt, Or.inr rfl⟩
  · obtain ⟨rfl, rfl⟩ := Prod.mk.inj (Except.ok.inj h)
    exact ⟨hbuilt, Or.inl rfl⟩

/-- The first part of a send whose assertions hold. -/
theorem beginSend_eq {order : ByteOrder} {ping : SimplePing} {data : Option (List UInt8)}
    {packet : List UInt8} (haddress : assert (ping.hostAddress ≠ none) = .ok ())
    (hpayload : assert (data = none →
      (data.getD (defaultPayload ping.nextSequenceNumber)).length = 56) = .ok ())
    (hpacket : ping.pingPacket order (data.getD (defaultPayload ping.nextSequenceNumber)) =
      .ok packet) (sendto : Int) {bytesSent : Int}
    (hbytes : bytesSent = if ping.socket then sendto else -1) :
    ping.beginSend order data sendto =
      .ok (if bytesSent > 0 ∧ bytesSent.toNat = packet.length then
        { ping with sent := ping.sent ++ [packet] } else ping, packet) := by
  unfold beginSend
  rw [haddress, ok_bind]
  dsimp only
  rw [hpayload, ok_bind, hpacket, ok_bind, ← hbytes]
  split
  · rfl
  · rfl

/-- A send whose first part succeeds. -/
theorem sendPingWithData_eq {order : ByteOrder} {ping begun : SimplePing}
    {data : Option (List UInt8)} {sendto : Int} {packet : List UInt8}
    (h : ping.beginSend order data sendto = .ok (begun, packet)) (changes : List Change) :
    ping.sendPingWithData order data sendto changes =
      .ok ((changes.foldl apply begun).countPing, packet) := by
  rw [sendPingWithData, h, ok_bind]
  rfl

/-- **A pinger with an IPv4 address can send** whatever fits in a datagram. -/
theorem exists_beginSend (order : ByteOrder) {ping : SimplePing}
    (hfamily : ping.hostAddressFamily = .inet) (data : Option (List UInt8))
    (hlen : (data.getD (defaultPayload ping.nextSequenceNumber)).length + 8 ≤ 65535)
    (sendto : Int) :
    ∃ ping' packet, ping.beginSend order data sendto = .ok (ping', packet) ∧
      ping'.hostAddressFamily = .inet := by
  have haddress : ping.hostAddress ≠ none := by
    intro hnone
    rw [hostAddressFamily, hnone] at hfamily
    cases hfamily
  have hpayload : data = none →
      (data.getD (defaultPayload ping.nextSequenceNumber)).length = 56 := by
    rintro rfl
    rw [Option.getD_none, length_defaultPayload]
  obtain ⟨packet, hpacket, -⟩ :=
    exists_pingPacketWithType order ping icmpv4TypeEchoRequest true hlen
  have hbuilt : ping.pingPacket order (data.getD (defaultPayload ping.nextSequenceNumber)) =
      .ok packet := by
    rw [pingPacket, hfamily]
    exact hpacket
  obtain ⟨bytesSent, hbytes⟩ : ∃ bytesSent, bytesSent = if ping.socket then sendto else -1 :=
    ⟨_, rfl⟩
  refine ⟨_, packet,
    beginSend_eq (assert_eq haddress) (assert_eq hpayload) hbuilt sendto hbytes, ?_⟩
  split
  · exact hfamily
  · exact hfamily

theorem exists_sendPingWithData (order : ByteOrder) {ping : SimplePing}
    (hfamily : ping.hostAddressFamily = .inet) (data : Option (List UInt8))
    (hlen : (data.getD (defaultPayload ping.nextSequenceNumber)).length + 8 ≤ 65535)
    (sendto : Int) (changes : List Change) :
    ∃ ping' packet, ping.sendPingWithData order data sendto changes = .ok (ping', packet) := by
  obtain ⟨begun, packet, hbegin, -⟩ := exists_beginSend order hfamily data hlen sendto
  exact ⟨_, packet, sendPingWithData_eq hbegin changes⟩

/-- **A send** builds a packet, keeps the identifier, and admits the number of the
packet from then on. -/
theorem sendPingWithData_spec {order : ByteOrder} {ping ping' : SimplePing}
    {data : Option (List UInt8)} {sendto : Int} {changes : List Change} {packet : List UInt8}
    (h : ping.sendPingWithData order data sendto changes = .ok (ping', packet)) :
    ping.pingPacket order (data.getD (defaultPayload ping.nextSequenceNumber)) = .ok packet ∧
      ping'.identifier = ping.identifier ∧
      ping'.validateSequenceNumber ping.nextSequenceNumber = true := by
  obtain ⟨⟨begun, built⟩, hbegin, hend⟩ := bind_eq_ok.mp h
  obtain ⟨rfl, rfl⟩ := Prod.mk.inj (Except.ok.inj hend)
  obtain ⟨hbuilt, hbegun⟩ := beginSend_spec hbegin
  obtain ⟨hid, hnext, -⟩ := foldl_apply_eq changes begun
  have hlogged : begun.identifier = ping.identifier ∧
      begun.nextSequenceNumber = ping.nextSequenceNumber := by
    rcases hbegun with rfl | rfl
    · exact ⟨rfl, rfl⟩
    · exact ⟨rfl, rfl⟩
  have hadmitted := validateSequenceNumber_countPing (changes.foldl apply begun)
  rw [hnext, hlogged.2] at hadmitted
  exact ⟨hbuilt, hid.trans hlogged.1, hadmitted⟩

/-- A send reads nothing by itself. -/
theorem sendPingWithData_received {order : ByteOrder} {ping ping' : SimplePing}
    {data : Option (List UInt8)} {sendto : Int} {changes : List Change} {packet : List UInt8}
    (h : ping.sendPingWithData order data sendto changes = .ok (ping', packet))
    (hchanges : changes.any Change.isRead = false) : ping'.received = ping.received := by
  obtain ⟨⟨begun, built⟩, hbegin, hend⟩ := bind_eq_ok.mp h
  obtain ⟨rfl, rfl⟩ := Prod.mk.inj (Except.ok.inj hend)
  show (changes.foldl apply begun).received = ping.received
  rw [foldl_apply_received hchanges]
  obtain ⟨-, rfl | rfl⟩ := beginSend_spec hbegin
  · rfl
  · rfl

end SimplePing

open SimplePing

/-! ### A pinger with any client -/

/-- A pinger with the packets of all sends, and the number of sends that have not
returned. -/
structure Sender where
  ping : SimplePing
  pings : List (List UInt8)
  pending : ℕ
  deriving DecidableEq, Repr

/-- What can happen to a sender: a change, or one half of a send. -/
inductive SenderEvent
  | change (change : Change)
  | beginSend (data : Option (List UInt8)) (sendto : Int)
  | endSend
  deriving DecidableEq, Repr

namespace Sender

/-- What an event does. -/
def next (order : ByteOrder) (s : Sender) : SenderEvent → Except Fault Sender
  | .change change => .ok { s with ping := s.ping.apply change }
  | .beginSend data sendto => do
    let (ping, packet) ← s.ping.beginSend order data sendto
    return ⟨ping, s.pings ++ [packet], s.pending + 1⟩
  | .endSend => .ok { s with ping := s.ping.countPing, pending := s.pending - 1 }

/-- A send ends only after it has begun. -/
def Enabled (s : Sender) : SenderEvent → Prop
  | .endSend => 0 < s.pending
  | _ => True

/-- No send begins before the last one has returned. -/
def OneAtATime (s : Sender) : SenderEvent → Prop
  | .beginSend _ _ => s.pending = 0
  | _ => True

end Sender

/-- A pinger and its sends as a machine. -/
def sender (order : ByteOrder) (hostName : String) (identifier : UInt16) :
    Machine Sender SenderEvent where
  init := ⟨.new hostName identifier, [], 0⟩
  Step s e s' := s.Enabled e ∧ s.next order e = .ok s'

/-! ### The invariant -/

/-- The counter is the number of sends that have returned, and every ping is what the
pinger builds under its identifier. -/
structure Counted (order : ByteOrder) (identifier : UInt16) (n : ℕ) (s : Sender) : Prop where
  length_eq : s.pings.length = n + s.pending
  identifier_eq : s.ping.identifier = identifier
  next_eq : s.ping.nextSequenceNumber = UInt16.ofNat n
  wrapped_iff : s.ping.nextSequenceNumberHasWrapped = true ↔ 65536 ≤ n
  sent : ∀ packet ∈ s.ping.sent, packet ∈ s.pings
  built : ∀ packet ∈ s.pings, ∃ (ping : SimplePing) (payload : List UInt8),
    ping.pingPacket order payload = .ok packet ∧ ping.identifier = identifier

variable {order : ByteOrder} {hostName : String} {identifier : UInt16} {n : ℕ} {s s' : Sender}

/-- A change leaves everything alone that the invariant speaks of. -/
theorem Counted.change (h : Counted order identifier n s) (change : Change) :
    Counted order identifier n { s with ping := s.ping.apply change } where
  length_eq := h.length_eq
  identifier_eq := by simpa using h.identifier_eq
  next_eq := by simpa using h.next_eq
  wrapped_iff := by simpa using h.wrapped_iff
  sent := by simpa using h.sent
  built := h.built

/-- The beginning of a send adds a ping. -/
theorem Counted.beginSend (h : Counted order identifier n s) {data : Option (List UInt8)}
    {sendto : Int} {ping : SimplePing} {packet : List UInt8}
    (hbegin : s.ping.beginSend order data sendto = .ok (ping, packet)) :
    Counted order identifier n ⟨ping, s.pings ++ [packet], s.pending + 1⟩ := by
  obtain ⟨hbuilt, hping⟩ := beginSend_spec hbegin
  have hlength : (s.pings ++ [packet]).length = n + (s.pending + 1) := by
    rw [List.length_append, h.length_eq, Nat.add_assoc]
    rfl
  have hsent : ∀ p ∈ ping.sent, p ∈ s.pings ++ [packet] := by
    intro p hp
    rcases hping with rfl | rfl
    · exact List.mem_append_left _ (h.sent p hp)
    · rcases List.mem_append.mp hp with hp | hp
      · exact List.mem_append_left _ (h.sent p hp)
      · exact List.mem_append_right _ hp
  have hpings : ∀ p ∈ s.pings ++ [packet], ∃ (ping : SimplePing) (payload : List UInt8),
      ping.pingPacket order payload = .ok p ∧ ping.identifier = identifier := by
    intro p hp
    rcases List.mem_append.mp hp with hp | hp
    · exact h.built p hp
    · obtain rfl := List.mem_singleton.mp hp
      exact ⟨s.ping, _, hbuilt, h.identifier_eq⟩
  rcases hping with rfl | rfl
  · exact ⟨hlength, h.identifier_eq, h.next_eq, h.wrapped_iff, hsent, hpings⟩
  · exact ⟨hlength, h.identifier_eq, h.next_eq, h.wrapped_iff, hsent, hpings⟩

/-- The end of a send moves the counter. -/
theorem Counted.endSend (h : Counted order identifier n s) (hpending : 0 < s.pending) :
    Counted order identifier (n + 1)
      { s with ping := s.ping.countPing, pending := s.pending - 1 } where
  length_eq := by
    show s.pings.length = n + 1 + (s.pending - 1)
    rw [h.length_eq]
    omega
  identifier_eq := h.identifier_eq
  next_eq := by
    show s.ping.nextSequenceNumber + 1 = _
    rw [h.next_eq, UInt16.ofNat_add]
    rfl
  wrapped_iff := by
    have hzero : UInt16.ofNat n + 1 = 0 ↔ (n + 1) % 65536 = 0 := by
      rw [← UInt16.toNat_inj, show (1 : UInt16) = UInt16.ofNat 1 from rfl, ← UInt16.ofNat_add,
        UInt16.toNat_ofNat']
      rfl
    show (if s.ping.nextSequenceNumber + 1 = 0 then true
      else s.ping.nextSequenceNumberHasWrapped) = true ↔ _
    rw [h.next_eq]
    split
    next hwraps =>
      rw [hzero] at hwraps
      exact ⟨fun _ => by omega, fun _ => rfl⟩
    next hwraps =>
      rw [hzero] at hwraps
      rw [h.wrapped_iff]
      omega
  sent := h.sent
  built := h.built

/-- **Every step keeps the invariant.** -/
theorem Counted.next (h : Counted order identifier n s) {e : SenderEvent} (hen : s.Enabled e)
    (hs : s.next order e = .ok s') : ∃ n', Counted order identifier n' s' := by
  cases e with
  | change change =>
    obtain rfl := Except.ok.inj hs
    exact ⟨n, h.change change⟩
  | beginSend data sendto =>
    obtain ⟨⟨ping, packet⟩, hbegin, hs⟩ := bind_eq_ok.mp hs
    obtain rfl := Except.ok.inj hs
    exact ⟨n, h.beginSend hbegin⟩
  | endSend =>
    obtain rfl := Except.ok.inj hs
    exact ⟨n + 1, h.endSend hen⟩

/-- **The invariant holds in every run.** -/
theorem counted_of_reachable (h : (sender order hostName identifier).Reachable s) :
    ∃ n, Counted order identifier n s := by
  refine h.invariant (I := fun s => ∃ n, Counted order identifier n s) ?_ ?_
  · exact ⟨0, rfl, rfl, rfl, ⟨fun hwrapped => (by cases hwrapped), fun hle => by omega⟩,
      fun p hp => (by cases hp), fun p hp => by cases hp⟩
  · rintro s e s' ⟨n, hn⟩ ⟨hen, hs⟩
    exact hn.next hen hs

/-! ### Runs -/

/-- Any change can be made. -/
theorem reachWhile_change
    (h : (sender order hostName identifier).ReachWhile Sender.OneAtATime s) (change : Change) :
    (sender order hostName identifier).ReachWhile Sender.OneAtATime
      { s with ping := s.ping.apply change } :=
  Machine.ReachWhile.step (e := SenderEvent.change change) h trivial ⟨trivial, rfl⟩

/-- A send can begin if none is pending. -/
theorem reachWhile_beginSend
    (h : (sender order hostName identifier).ReachWhile Sender.OneAtATime s)
    (hpending : s.pending = 0) {data : Option (List UInt8)} {sendto : Int} {ping : SimplePing}
    {packet : List UInt8} (hbegin : s.ping.beginSend order data sendto = .ok (ping, packet)) :
    (sender order hostName identifier).ReachWhile Sender.OneAtATime
      ⟨ping, s.pings ++ [packet], s.pending + 1⟩ := by
  have hnext : s.next order (.beginSend data sendto) =
      .ok ⟨ping, s.pings ++ [packet], s.pending + 1⟩ := by
    rw [Sender.next, hbegin, ok_bind]
    rfl
  exact Machine.ReachWhile.step (e := SenderEvent.beginSend data sendto) h hpending
    ⟨trivial, hnext⟩

/-- A send that is pending can end. -/
theorem reachWhile_endSend
    (h : (sender order hostName identifier).ReachWhile Sender.OneAtATime s)
    (hpending : 0 < s.pending) :
    (sender order hostName identifier).ReachWhile Sender.OneAtATime
      { s with ping := s.ping.countPing, pending := s.pending - 1 } :=
  Machine.ReachWhile.step (e := SenderEvent.endSend) h trivial ⟨hpending, rfl⟩

/-- **Runs of any length**: any number of sends, one after the other. -/
theorem exists_sends (order : ByteOrder) (hostName : String) (identifier : UInt16) :
    ∀ n, ∃ s, (sender order hostName identifier).ReachWhile Sender.OneAtATime s ∧
      s.pings.length = n ∧ s.pending = 0 ∧ s.ping.hostAddressFamily = .inet
  | 0 => ⟨_, reachWhile_change .init (.latchAddress true (some [⟨.inet, sizeofSockaddr⟩])), rfl,
      rfl, rfl⟩
  | n + 1 => by
    obtain ⟨s, hs, hlength, hpending, hfamily⟩ := exists_sends order hostName identifier n
    obtain ⟨ping, packet, hbegin, hfamily'⟩ := exists_beginSend order hfamily none
      (by rw [Option.getD_none, length_defaultPayload]; decide) 64
    have hbegun := reachWhile_beginSend hs hpending hbegin
    refine ⟨_, reachWhile_endSend hbegun (Nat.succ_pos _), ?_, hpending, hfamily'⟩
    show (s.pings ++ [packet]).length = n + 1
    rw [List.length_append, hlength]
    rfl

end LANScan
