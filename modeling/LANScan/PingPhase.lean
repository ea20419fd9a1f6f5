import LANScan.PingWrapper

/-!
# One verdict for each ping

A ping goes through four phases: fresh, resolving, pinging and finished.  Each
handler has one specification, which says that no assertion fails and which phase
follows.

## Main definitions

* `Answers` — a datagram that answers under an identifier.
* `Fresh`, `Resolving`, `Pinging`, `Finished`, `Phase` — the invariant.

## Main results

* `Phase.handle` — **no event that can occur fails an assertion, and every one keeps
  the invariant.**
* `answers_of_found` — whoever is found has been sent an answer.
* `ping_gives_one_verdict` — **exactly one verdict.**
-/

namespace LANScan

/-! ### The invariant -/

/-- A datagram that is an echo reply with the given identifier, where its first byte
says that the ICMP message starts. -/
def Answers (identifier : UInt16) (datagram : List UInt8) : Prop :=
  ∃ offset, icmpHeaderOffsetInIPv4Packet datagram = .ok (some offset) ∧
    (datagram.drop offset)[0]? = some SimplePing.icmpv4TypeEchoReply ∧
    SimplePing.CarriesIdentifier identifier (datagram.drop offset)

/-- What never changes, and what the packets sent look like. -/
structure Ours (hostName : String) (identifier : UInt16) (w : PingWrapper) : Prop where
  hostName_eq : w.hostName = hostName
  identifier_eq : w.ping.identifier = identifier
  addressStyle_eq : w.ping.addressStyle = .icmpv4
  sent : ∀ packet ∈ w.ping.sent, SimplePing.CarriesIdentifier identifier packet

/-- `startPing` has not been called. -/
structure Fresh (w : PingWrapper) : Prop where
  completion : w.completion = false
  verdicts : w.verdicts = []
  host : w.ping.host = false
  socket : w.ping.socket = false
  hostAddress : w.ping.hostAddress = none
  timeoutTimer : w.timeoutTimer = none

/-- Called once, without a verdict. -/
structure Waiting (w : PingWrapper) : Prop where
  completion : w.completion = true
  verdicts : w.verdicts = []

/-- Name resolution is in progress. -/
structure Resolving (w : PingWrapper) : Prop extends Waiting w where
  host : w.ping.host = true
  socket : w.ping.socket = false
  hostAddress : w.ping.hostAddress = none
  timeoutTimer : w.timeoutTimer = none

/-- The request is out, and the timer runs. -/
structure Pinging (w : PingWrapper) : Prop extends Waiting w where
  host : w.ping.host = false
  socket : w.ping.socket = true
  hostAddressFamily : w.ping.hostAddressFamily = .inet
  timeoutTimer : w.timeoutTimer = some true

/-- The verdict has been given, and nothing is left that could call back. -/
structure Finished (w : PingWrapper) : Prop where
  completion : w.completion = true
  host : w.ping.host = false
  socket : w.ping.socket = false
  hostAddress : w.ping.hostAddress = none
  timeoutTimer : w.timeoutTimer ≠ some true
  verdict : ∃ found, w.verdicts = [(w.hostName, found)] ∧
    (found = true → ∃ datagram ∈ w.ping.received, Answers w.ping.identifier datagram)

/-- The four phases of a ping. -/
inductive Phase (w : PingWrapper) : Prop
  | fresh (h : Fresh w)
  | resolving (h : Resolving w)
  | pinging (h : Pinging w)
  | finished (h : Finished w)

variable {hostName : String} {identifier : UInt16} {order : ByteOrder} {w : PingWrapper}

/-- Logging a datagram leaves the phase alone. -/
theorem Pinging.logReceived (h : Pinging w) (packet : List UInt8) :
    Pinging { w with ping := w.ping.logReceived packet } :=
  ⟨⟨h.completion, h.verdicts⟩, h.host, h.socket, h.hostAddressFamily, h.timeoutTimer⟩

namespace PingWrapper

theorem stopPing_timeoutTimer (w : PingWrapper) : w.stopPing.timeoutTimer ≠ some true := by
  unfold stopPing
  rcases w.timeoutTimer with _ | _ | _ <;> simp

@[simp] theorem stopPing_ping (w : PingWrapper) : w.stopPing.ping = w.ping.stop := by
  unfold stopPing
  rcases w.timeoutTimer with _ | _ | _ <;> rfl

@[simp] theorem stopPing_hostName (w : PingWrapper) : w.stopPing.hostName = w.hostName := by
  unfold stopPing
  rcases w.timeoutTimer with _ | _ | _ <;> rfl

@[simp] theorem stopPing_completion (w : PingWrapper) :
    w.stopPing.completion = w.completion := by
  unfold stopPing
  rcases w.timeoutTimer with _ | _ | _ <;> rfl

@[simp] theorem stopPing_verdicts (w : PingWrapper) : w.stopPing.verdicts = w.verdicts := by
  unfold stopPing
  rcases w.timeoutTimer with _ | _ | _ <;> rfl

/-- Stopping changes nothing that `Ours` speaks of. -/
theorem hostFound_ours (h : Ours hostName identifier w) (found : Bool) :
    Ours hostName identifier (w.hostFound found) := by
  obtain ⟨hname, hid, hstyle, hsent⟩ := h
  rw [hostFound]
  split
  · exact ⟨by simpa using hname, by simpa using hid, by simpa using hstyle, by simpa using hsent⟩
  · exact ⟨by simpa using hname, by simpa using hid, by simpa using hstyle, by simpa using hsent⟩

/-- **A verdict finishes the ping.** -/
theorem hostFound_finished (h : Waiting w) {found : Bool}
    (hfound : found = true → ∃ datagram ∈ w.ping.received, Answers w.ping.identifier datagram) :
    Finished (w.hostFound found) := by
  rw [hostFound]
  rw [if_pos (by simpa using h.completion)]
  exact
    { completion := by simpa using h.completion
      host := by simp
      socket := by simp
      hostAddress := by simp
      timeoutTimer := stopPing_timeoutTimer w
      verdict := ⟨found, by simp [h.verdicts], by simpa using hfound⟩ }

/-- A failure finishes the ping with the verdict that the host was not found. -/
theorem hostFound_false_finished (h : Waiting w) : Finished (w.hostFound false) :=
  hostFound_finished h fun hfalse => by cases hfalse

theorem didFailWithError_ours (h : Ours hostName identifier w) :
    Ours hostName identifier w.didFailWithError :=
  hostFound_ours ⟨h.hostName_eq, h.identifier_eq, h.addressStyle_eq, h.sent⟩ false

theorem didFailWithError_finished (h : Waiting w) : Finished w.didFailWithError :=
  hostFound_false_finished ⟨h.completion, h.verdicts⟩

/-- Counting a ping touches the sequence number only. -/
theorem ours_countPing (h : Ours hostName identifier w) : Ours hostName identifier w.countPing :=
  ⟨h.hostName_eq, h.identifier_eq, h.addressStyle_eq, h.sent⟩

theorem finished_countPing (h : Finished w) : Finished w.countPing :=
  ⟨h.completion, h.host, h.socket, h.hostAddress, h.timeoutTimer, h.verdict⟩

theorem hostAddress_ne_none_of_family (h : w.ping.hostAddressFamily = .inet) :
    w.ping.hostAddress ≠ none := by
  intro hnone
  rw [SimplePing.hostAddressFamily, hnone] at h
  cases h

/-- The delegate hears of a send: the request is out, or the ping is finished. -/
theorem reportSend_spec (hours : Ours hostName identifier w) (h : Pinging w)
    {packet : List UInt8} (hid : SimplePing.CarriesIdentifier identifier packet)
    (bytesSent : Int) :
    Ours hostName identifier (w.reportSend packet bytesSent).countPing ∧
      Phase (w.reportSend packet bytesSent).countPing := by
  unfold reportSend
  split
  · -- the kernel has taken the packet
    refine ⟨ours_countPing ⟨hours.hostName_eq, hours.identifier_eq, hours.addressStyle_eq, ?_⟩,
      .pinging ⟨⟨h.completion, h.verdicts⟩, h.host, h.socket, h.hostAddressFamily,
        h.timeoutTimer⟩⟩
    intro p hp
    rcases List.mem_append.mp hp with hp | hp
    · exact hours.sent p hp
    · rw [List.mem_singleton.mp hp]
      exact hid
  · -- the delegate has stopped everything
    exact ⟨ours_countPing (hostFound_ours hours false),
      .finished (finished_countPing (hostFound_false_finished h.toWaiting))⟩

/-- **Sending**: no assertion fails, and the delegate hears of a request that carries
the identifier and the next sequence number. -/
theorem exists_sendPingWithData (order : ByteOrder) (hfamily : w.ping.hostAddressFamily = .inet)
    (sendto : Int) :
    ∃ packet, sendPingWithData order w none sendto =
        .ok (w.reportSend packet (if w.ping.socket then sendto else -1)).countPing ∧
      packet.length = 64 ∧ SimplePing.CarriesIdentifier w.ping.identifier packet ∧
      SimplePing.CarriesSequenceNumber w.ping.nextSequenceNumber packet := by
  have hpayload := SimplePing.length_defaultPayload w.ping.nextSequenceNumber
  obtain ⟨packet, hpacket, hrequest⟩ := SimplePing.exists_pingPacket order hfamily
  refine ⟨packet, ?_, hrequest⟩
  unfold sendPingWithData
  rw [assert_eq (hostAddress_ne_none_of_family hfamily), ok_bind]
  dsimp only [Option.getD_none]
  rw [assert_eq (fun _ => hpayload), ok_bind, hpacket, ok_bind]
  rfl

/-- Either the request is out or the failure has already finished the ping. -/
theorem sendPingWithData_spec (hours : Ours hostName identifier w) (h : Pinging w)
    (sendto : Int) :
    ∃ w', sendPingWithData order w none sendto = .ok w' ∧ Ours hostName identifier w' ∧
      Phase w' := by
  obtain ⟨packet, hsent, -, hid, -⟩ := exists_sendPingWithData order h.hostAddressFamily sendto
  rw [hours.identifier_eq] at hid
  exact ⟨_, hsent, reportSend_spec hours h hid _⟩

/-- **Starting**: no assertion fails once there is an address of a known length. -/
theorem startWithHostAddress_eq (hfamily : w.ping.hostAddressFamily = .inet) (socketOpens : Bool)
    (sendto : Int) :
    startWithHostAddress order w socketOpens sendto =
      if socketOpens then
        delegateDidStart order { w with ping := { w.ping with socket := true } } sendto
      else .ok w.didFailWithError := by
  unfold startWithHostAddress
  rw [assert_eq (hostAddress_ne_none_of_family hfamily), ok_bind, hfamily]
  rfl

theorem startWithHostAddress_spec (hours : Ours hostName identifier w) (hw : Waiting w)
    (hhost : w.ping.host = false) (hfamily : w.ping.hostAddressFamily = .inet)
    (socketOpens : Bool) (sendto : Int) :
    ∃ w', startWithHostAddress order w socketOpens sendto = .ok w' ∧
      Ours hostName identifier w' ∧ Phase w' := by
  rw [startWithHostAddress_eq hfamily]
  cases socketOpens with
  | false => exact ⟨_, rfl, didFailWithError_ours hours, .finished (didFailWithError_finished hw)⟩
  | true =>
    have hours' : Ours hostName identifier { w with
        ping := { w.ping with socket := true }
        timeoutTimer := some true } :=
      ⟨hours.hostName_eq, hours.identifier_eq, hours.addressStyle_eq, hours.sent⟩
    have hpinging : Pinging { w with
        ping := { w.ping with socket := true }
        timeoutTimer := some true } :=
      ⟨⟨hw.completion, hw.verdicts⟩, hhost, rfl, hfamily, rfl⟩
    exact sendPingWithData_spec hours' hpinging sendto

/-- The address a resolution takes is an IPv4 address of full length. -/
theorem latchAddress_spec {ping : SimplePing} (hstyle : ping.addressStyle = .icmpv4)
    {resolved : Bool} {addresses : Option (List Address)}
    (hlist : resolved = true → addresses ≠ none) :
    (ping.latchAddress resolved addresses).2 = false ∨
      ∃ address, ping.latchAddress resolved addresses = (some address, true) ∧
        address.length ≥ sizeofSockaddr ∧ address.family = .inet := by
  cases resolved with
  | false => exact Or.inl rfl
  | true =>
    obtain ⟨addresses, rfl⟩ := Option.ne_none_iff_exists'.mp (hlist rfl)
    rw [SimplePing.latchAddress, hstyle]
    cases hfind : addresses.find? (SimplePing.isAppropriate .icmpv4) with
    | none => exact Or.inl rfl
    | some address =>
      have happropriate := List.find?_some hfind
      rw [SimplePing.isAppropriate, Bool.and_eq_true, decide_eq_true_iff] at happropriate
      refine Or.inr ⟨address, rfl, happropriate.1, ?_⟩
      cases hfamily : address.family <;> simp [hfamily] at happropriate ⊢

theorem hostResolutionDone_spec (hours : Ours hostName identifier w) (hw : Waiting w)
    {resolved : Bool} {addresses : Option (List Address)}
    (hlist : resolved = true → addresses ≠ none) (socketOpens : Bool) (sendto : Int) :
    ∃ w', hostResolutionDone order w resolved addresses socketOpens sendto = .ok w' ∧
      Ours hostName identifier w' ∧ Phase w' := by
  have hours' : ∀ address, Ours hostName identifier { w with
      ping := SimplePing.stopHostResolution { w.ping with hostAddress := address } } :=
    fun _ => ⟨hours.hostName_eq, hours.identifier_eq, hours.addressStyle_eq, hours.sent⟩
  have hw' : ∀ address, Waiting { w with
      ping := SimplePing.stopHostResolution { w.ping with hostAddress := address } } :=
    fun _ => ⟨hw.completion, hw.verdicts⟩
  unfold hostResolutionDone
  rcases latchAddress_spec hours.addressStyle_eq hlist with hlatch | ⟨address, hlatch, hlen, hfam⟩
  · generalize w.ping.latchAddress resolved addresses = latched at hlatch
    obtain ⟨address, _⟩ := latched
    obtain rfl := hlatch
    exact ⟨_, rfl, didFailWithError_ours (hours' address),
      .finished (didFailWithError_finished (hw' address))⟩
  · rw [hlatch]
    refine startWithHostAddress_spec (hours' _) (hw' _) rfl ?_ socketOpens sendto
    simp [SimplePing.hostAddressFamily, SimplePing.stopHostResolution, hlen, hfam]

theorem startPing_spec (hours : Ours hostName identifier w) (h : Fresh w) (success : Bool) :
    ∃ w', w.startPing success = .ok w' ∧ Ours hostName identifier w' ∧ Phase w' := by
  have hours' : Ours hostName identifier { w with
      completion := true
      ping := { w.ping with host := true } } :=
    ⟨hours.hostName_eq, hours.identifier_eq, hours.addressStyle_eq, hours.sent⟩
  have hw' : Waiting { w with
      completion := true
      ping := { w.ping with host := true } } := ⟨rfl, h.verdicts⟩
  unfold startPing start
  rw [assert_eq h.host, ok_bind, assert_eq h.hostAddress, ok_bind]
  cases success with
  | false => exact ⟨_, rfl, didFailWithError_ours hours', .finished (didFailWithError_finished hw')⟩
  | true => exact ⟨_, rfl, hours', .resolving ⟨hw', rfl, h.socket, h.hostAddress, h.timeoutTimer⟩⟩

/-- **Processing**: the datagram is checked without a fault, and finishes the ping if
it is an answer. -/
theorem processPacket_spec (hours : Ours hostName identifier w) (h : Pinging w)
    {packet : List UInt8} (hmax : packet.length ≤ 65535) :
    ∃ w', processPacket order w packet = .ok w' ∧ Ours hostName identifier w' ∧ Phase w' := by
  have hours' : Ours hostName identifier { w with ping := w.ping.logReceived packet } :=
    ⟨hours.hostName_eq, hours.identifier_eq, hours.addressStyle_eq, hours.sent⟩
  have h' := h.logReceived packet
  have hmem : packet ∈ (w.ping.logReceived packet).received := by simp [SimplePing.logReceived]
  obtain ⟨v, hv, -, haccepted⟩ :=
    SimplePing.validatePing4ResponsePacket_spec order (w.ping.logReceived packet) hmax
  rw [processPacket, SimplePing.validatePingResponsePacket, h'.hostAddressFamily]
  dsimp only
  rw [hv, ok_bind]
  cases hn : v.sequenceNumber with
  | none =>
    -- not an answer: the ping goes on
    exact ⟨_, rfl, hours', .pinging h'⟩
  | some n =>
    obtain ⟨offset, hoff, -, hanswer⟩ := haccepted n hn
    exact ⟨_, rfl, hostFound_ours hours' true,
      .finished (hostFound_finished h'.toWaiting
        fun _ => ⟨packet, hmem, offset, hoff, hanswer.type_eq, hanswer.identifier⟩)⟩

theorem readData_spec (hours : Ours hostName identifier w) (h : Pinging w)
    (datagram : Option (List UInt8)) :
    ∃ w', readData order w datagram = .ok w' ∧ Ours hostName identifier w' ∧ Phase w' := by
  have hfailed : ∃ w', .ok w.didFailWithError = (.ok w' : Except Fault PingWrapper) ∧
      Ours hostName identifier w' ∧ Phase w' :=
    ⟨_, rfl, didFailWithError_ours hours, .finished (didFailWithError_finished h.toWaiting)⟩
  unfold readData
  split
  next => exact hfailed
  next => exact hfailed
  next packet hpacket =>
    obtain ⟨bytes, -, rfl⟩ := Option.map_eq_some_iff.mp hpacket
    have hmax : (bytes.take kBufferSize).length ≤ 65535 := by
      rw [List.length_take]
      exact Nat.min_le_left _ _
    exact processPacket_spec hours h hmax

theorem timerFired_spec (hours : Ours hostName identifier w) (hw : Waiting w) (isValid : Bool) :
    Ours hostName identifier (w.timerFired isValid) ∧ Phase (w.timerFired isValid) := by
  have hours' : Ours hostName identifier { w with timeoutTimer := some isValid } :=
    ⟨hours.hostName_eq, hours.identifier_eq, hours.addressStyle_eq, hours.sent⟩
  have hw' : Waiting { w with timeoutTimer := some isValid } := ⟨hw.completion, hw.verdicts⟩
  have hours'' := hostFound_ours hours' false
  have hfinished := hostFound_false_finished hw'
  refine ⟨⟨hours''.hostName_eq, hours''.identifier_eq, hours''.addressStyle_eq, hours''.sent⟩,
    .finished ⟨hfinished.completion, hfinished.host, hfinished.socket, hfinished.hostAddress,
      fun h => ?_, hfinished.verdict⟩⟩
  obtain ⟨_, -, hfalse⟩ := Option.map_eq_some_iff.mp h
  cases hfalse

/-- Nothing can occur once the ping is finished. -/
theorem not_enabled_of_finished (h : Finished w) (e : PingEvent) : ¬w.Enabled e := by
  cases e with
  | startPing => exact fun hen => absurd (h.completion.symm.trans hen) (by decide)
  | hostResolutionFailed => exact fun hen => absurd (h.host.symm.trans hen) (by decide)
  | hostResolved => exact fun hen => absurd (h.host.symm.trans hen.1) (by decide)
  | socketReadable => exact fun hen => absurd (h.socket.symm.trans hen) (by decide)
  | timerFired => exact h.timeoutTimer

end PingWrapper

open PingWrapper

/-- **Every event that can occur is handled without a failed assertion, and keeps the
invariant.** -/
theorem Phase.handle (h : Phase w) (hours : Ours hostName identifier w) {e : PingEvent}
    (hen : w.Enabled e) :
    ∃ w', w.handle order e = .ok w' ∧ Ours hostName identifier w' ∧ Phase w' := by
  cases h with
  | fresh h =>
    cases e with
    | startPing success => exact startPing_spec hours h success
    | hostResolutionFailed => exact absurd (h.host.symm.trans hen) (by decide)
    | hostResolved => exact absurd (h.host.symm.trans hen.1) (by decide)
    | socketReadable => exact absurd (h.socket.symm.trans hen) (by decide)
    | timerFired => exact absurd (h.timeoutTimer.symm.trans hen) (by decide)
  | resolving h =>
    cases e with
    | startPing => exact absurd (h.completion.symm.trans hen) (by decide)
    | hostResolutionFailed =>
      exact ⟨_, rfl, didFailWithError_ours hours,
        .finished (didFailWithError_finished h.toWaiting)⟩
    | hostResolved resolved addresses socketOpens sendto =>
      exact hostResolutionDone_spec hours h.toWaiting hen.2 socketOpens sendto
    | socketReadable => exact absurd (h.socket.symm.trans hen) (by decide)
    | timerFired => exact absurd (h.timeoutTimer.symm.trans hen) (by decide)
  | pinging h =>
    cases e with
    | startPing => exact absurd (h.completion.symm.trans hen) (by decide)
    | hostResolutionFailed => exact absurd (h.host.symm.trans hen) (by decide)
    | hostResolved => exact absurd (h.host.symm.trans hen.1) (by decide)
    | socketReadable datagram =>
      show ∃ w', socketReadCallback order w datagram = .ok w' ∧ _
      unfold socketReadCallback
      rw [assert_eq h.socket, ok_bind]
      exact readData_spec hours h datagram
    | timerFired isValid => exact ⟨_, rfl, timerFired_spec hours h.toWaiting isValid⟩
  | finished h => exact absurd hen (not_enabled_of_finished h e)

theorem phase_of_reachable (h : (pinger order hostName identifier).Reachable w) :
    Ours hostName identifier w ∧ Phase w := by
  refine h.invariant (I := fun w => Ours hostName identifier w ∧ Phase w) ?_ ?_
  · exact ⟨⟨rfl, rfl, rfl, fun _ hp => by cases hp⟩, .fresh ⟨rfl, rfl, rfl, rfl, rfl, rfl⟩⟩
  · rintro w e w' ⟨hours, hphase⟩ ⟨hen, hs⟩
    obtain ⟨w'', hhandle, hspec⟩ := hphase.handle hours hen
    obtain rfl := Except.ok.inj (hhandle.symm.trans hs)
    exact hspec

/-- Whoever is found has been sent an answer. -/
theorem answers_of_found (h : (pinger order hostName identifier).Reachable w) {name : String}
    (hfound : (name, true) ∈ w.verdicts) :
    ∃ datagram ∈ w.ping.received, Answers identifier datagram := by
  obtain ⟨hours, hphase⟩ := phase_of_reachable h
  have hnil : w.verdicts ≠ [] := List.ne_nil_of_mem hfound
  cases hphase with
  | fresh h => exact absurd h.verdicts hnil
  | resolving h => exact absurd h.verdicts hnil
  | pinging h => exact absurd h.verdicts hnil
  | finished h =>
    obtain ⟨found, hverdict, hanswers⟩ := h.verdict
    rw [hverdict, List.mem_singleton, Prod.mk.injEq] at hfound
    rw [hours.identifier_eq] at hanswers
    exact hanswers hfound.2.symm

/-- **Exactly one verdict**, in every order of events: the completion is called at
most once; once it has been called nothing is installed that could call back; until
then a resolution is pending or the timer runs; and no event that can occur fails an
assertion. -/
theorem ping_gives_one_verdict (order : ByteOrder) (hostName : String) (identifier : UInt16)
    {w : PingWrapper} (h : (pinger order hostName identifier).Reachable w) :
    w.verdicts.length ≤ 1 ∧
    (w.verdicts ≠ [] → w.ping.host = false ∧ w.ping.socket = false ∧ w.ping.hostAddress = none ∧
      w.timeoutTimer ≠ some true ∧ ∀ e, ¬w.Enabled e) ∧
    (w.completion = true → w.verdicts = [] → w.ping.host = true ∨ w.timeoutTimer = some true) ∧
    ∀ e, w.Enabled e → ∃ w', w.handle order e = .ok w' := by
  obtain ⟨hours, hphase⟩ := phase_of_reachable h
  have hassert : ∀ e, w.Enabled e → ∃ w', w.handle order e = .ok w' := by
    intro e hen
    obtain ⟨w', hhandle, -⟩ := hphase.handle hours hen
    exact ⟨w', hhandle⟩
  cases hphase with
  | fresh h =>
    refine ⟨by simp [h.verdicts], fun hne => absurd h.verdicts hne, fun hc => ?_, hassert⟩
    exact absurd (h.completion.symm.trans hc) (by decide)
  | resolving h =>
    exact ⟨by simp [h.verdicts], fun hne => absurd h.verdicts hne, fun _ _ => Or.inl h.host,
      hassert⟩
  | pinging h =>
    exact ⟨by simp [h.verdicts], fun hne => absurd h.verdicts hne,
      fun _ _ => Or.inr h.timeoutTimer, hassert⟩
  | finished h =>
    obtain ⟨found, hverdict, -⟩ := h.verdict
    refine ⟨by simp [hverdict], fun _ => ?_, fun _ hnil => ?_, hassert⟩
    · exact ⟨h.host, h.socket, h.hostAddress, h.timeoutTimer, not_enabled_of_finished h⟩
    · rw [hverdict] at hnil
      cases hnil

/-- A ping whose request cannot be sent: the failure is reported from inside the
callback that started the timer. -/
theorem ping_gives_one_verdict_unsendable :
    ∃ w, (pinger .little "192.168.1.7" 0x1234).Reachable w ∧ w.verdicts = [("192.168.1.7", false)] ∧
      w.ping.host = false ∧ w.ping.socket = false ∧ w.ping.hostAddress = none ∧
      w.timeoutTimer ≠ some true ∧ ∀ e, ¬w.Enabled e := by
  have hreach : (pinger .little "192.168.1.7" 0x1234).Reachable
      { hostName := "192.168.1.7"
        ping := { SimplePing.new "192.168.1.7" 0x1234 with
          addressStyle := .icmpv4
          nextSequenceNumber := 1 }
        timeoutTimer := none
        completion := true
        verdicts := [("192.168.1.7", false)] } := by
    have hstart : (pinger .little "192.168.1.7" 0x1234).Step (.new "192.168.1.7" 0x1234)
        (.startPing true) _ := ⟨by decide, rfl⟩
    refine (Machine.Reachable.init.step hstart).step
      (e := .hostResolved true (some [⟨.inet6, 28⟩, ⟨.inet, 16⟩]) true (-1)) ⟨by decide, ?_⟩
    decide +kernel
  exact ⟨_, hreach, rfl,
    (ping_gives_one_verdict .little "192.168.1.7" 0x1234 hreach).2.1 (by decide)⟩

end LANScan
