import LANScan.LANScanner
import LANScan.PingAnswer
import Mathlib.Data.List.OfFn

/-!
# The pingers of a scan

The 254 pingers of a scan run side by side on one run loop.  The kernel delivers every
ICMP message that arrives to every open ICMP socket, so each pinger reads the replies
to the requests of all others, and tells them apart by the 16-bit identifier alone: the
source address is read and not looked at.

A dotted host name resolves to the address it spells, so the requests of a pinger go
to the host of that address.

## Main definitions

* `Lan`, `PingScan`, `pingScan` — the network, and the pingers on it.
* `Found`, `RepliedBy`.

## Main results

* `pinger_reachable` — each pinger of a scan is a pinger.
* `found_by_own_reply_iff` — **whoever is found has read a reply to a request with its
  own identifier; that reply always comes from the host itself exactly when no other
  host that answers is pinged under the same identifier.**
-/

namespace LANScan

open PingWrapper

/-! ### The network -/

/-- The hosts of a scan; `k` stands for the host with the number `k + 1`. -/
abbrev Target := Fin 254

/-- What a scan meets: the subnet, the random numbers drawn, and who answers. -/
structure Lan where
  order : ByteOrder
  a : UInt8
  b : UInt8
  c : UInt8
  identifier : Target → UInt16
  answers : Target → Prop

namespace Lan

variable (lan : Lan)

/-- The address that pinger `k` is for, as text. -/
def hostName (k : Target) : String := address (subnet lan.a lan.b lan.c) (k.val + 1)

/-- The source address of what a host sends. -/
def ipAddress (k : Target) : List UInt8 := [lan.a, lan.b, lan.c, UInt8.ofNat (k.val + 1)]

/-- The pinger of a host. -/
def pinger (k : Target) : Machine PingWrapper PingEvent :=
  LANScan.pinger lan.order (lan.hostName k) (lan.identifier k)

theorem ipAddress_injective {j k : Target} (h : lan.ipAddress j = lan.ipAddress k) : j = k := by
  have hbyte : UInt8.ofNat (j.val + 1) = UInt8.ofNat (k.val + 1) := by
    simpa only [ipAddress, List.cons.injEq, true_and, and_true] using h
  have hnumber : (j.val + 1) % 256 = (k.val + 1) % 256 := by
    have hnat := congrArg UInt8.toNat hbyte
    rwa [UInt8.toNat_ofNat', UInt8.toNat_ofNat'] at hnat
  have hj := j.isLt
  have hk := k.isLt
  exact Fin.ext (by omega)

end Lan

/-- An echo reply, whoever it is for. -/
def IsEchoReply (datagram : List UInt8) : Prop := ∃ identifier, Answers identifier datagram

/-- The pingers, and what the kernel has for them. -/
structure PingScan where
  pingers : Target → PingWrapper
  /-- What waits on the socket of each pinger. -/
  buffers : Target → List (List UInt8)

/-- What can happen to the pingers. -/
inductive PingScanEvent
  /-- The run loop calls a pinger, with anything but a datagram. -/
  | calls (i : Target) (e : PingEvent)
  /-- An ICMP message arrives at the phone. -/
  | arrives (datagram : List UInt8)
  /-- A pinger reads what has waited longest. -/
  | reads (i : Target)

namespace PingScan

/-- What can arrive: a reply of a host that answers, to a request of its pinger, or
anything that is not an echo reply. -/
def Arrives (lan : Lan) (s : PingScan) (datagram : List UInt8) : Prop :=
  datagram.length ≤ kBufferSize ∧
    ((∃ k, lan.answers k ∧ ∃ request ∈ (s.pingers k).ping.sent,
        IsReply (lan.ipAddress k) request datagram) ∨
      ¬IsEchoReply datagram)

/-- The kernel delivers a message to every open socket. -/
def deliver (s : PingScan) (datagram : List UInt8) : PingScan :=
  { s with
    buffers := fun i =>
      if (s.pingers i).ping.socket then s.buffers i ++ [datagram] else s.buffers i }

theorem deliver_buffers {s : PingScan} {i : Target} (h : (s.pingers i).ping.socket = true)
    (datagram : List UInt8) : (s.deliver datagram).buffers i = s.buffers i ++ [datagram] :=
  if_pos h

/-- One step: a pinger is called, a message arrives, or a pinger reads. -/
inductive Step (lan : Lan) (s : PingScan) : PingScanEvent → PingScan → Prop
  | calls {i : Target} {e : PingEvent} {w : PingWrapper}
      (he : ∀ datagram, e ≠ .socketReadable (some datagram))
      (hw : (lan.pinger i).Step (s.pingers i) e w) :
      Step lan s (.calls i e) { s with pingers := Function.update s.pingers i w }
  | arrives {datagram : List UInt8} (harrives : s.Arrives lan datagram) :
      Step lan s (.arrives datagram) (s.deliver datagram)
  | reads {i : Target} {datagram : List UInt8} {rest : List (List UInt8)} {w : PingWrapper}
      (hbuffer : s.buffers i = datagram :: rest)
      (hw : (lan.pinger i).Step (s.pingers i) (.socketReadable (some datagram)) w) :
      Step lan s (.reads i)
        { pingers := Function.update s.pingers i w
          buffers := Function.update s.buffers i rest }

end PingScan

/-- The pingers of a scan, as a machine. -/
def pingScan (lan : Lan) : Machine PingScan PingScanEvent where
  init :=
    { pingers := fun i => .new (lan.hostName i) (lan.identifier i)
      buffers := fun _ => [] }
  Step := PingScan.Step lan

/-- The completion has been called with the verdict that the host was found. -/
def Found (lan : Lan) (s : PingScan) (i : Target) : Prop :=
  (lan.hostName i, true) ∈ (s.pingers i).verdicts

/-- A pinger has read an echo reply from a host.  Nothing is read after the verdict. -/
def RepliedBy (lan : Lan) (s : PingScan) (i k : Target) : Prop :=
  ∃ datagram ∈ (s.pingers i).ping.received,
    IsEchoReply datagram ∧ sourceAddress datagram = lan.ipAddress k

/-- **The pingers are those the scan creates.** -/
theorem ofFn_hostName_eq_targets (lan : Lan) :
    List.ofFn (fun i => ((pingScan lan).init.pingers i).hostName) =
      targets (subnet lan.a lan.b lan.c) := by
  apply List.ext_getElem
  · rw [targets, List.length_ofFn, List.length_map, List.length_range']
  · intro n hn hn'
    simp only [targets, List.getElem_ofFn, List.getElem_map, List.getElem_range', Nat.one_mul,
      Nat.add_comm 1]
    rfl

/-! ### The invariant -/

variable {lan : Lan} {s s' : PingScan} {e : PingScanEvent}

/-- A step leaves a pinger as it is or is a step of that pinger. -/
theorem component_step (h : (pingScan lan).Step s e s') (i : Target) :
    s'.pingers i = s.pingers i ∨
      ∃ event, (lan.pinger i).Step (s.pingers i) event (s'.pingers i) := by
  cases h with
  | @calls j event w he hw =>
    by_cases hij : i = j
    · subst hij
      exact Or.inr ⟨event, by simpa using hw⟩
    · exact Or.inl (by simp [hij])
  | arrives => exact Or.inl rfl
  | @reads j datagram rest w hbuffer hw =>
    by_cases hij : i = j
    · subst hij
      exact Or.inr ⟨_, by simpa using hw⟩
    · exact Or.inl (by simp [hij])

/-- **Each pinger of a scan is a pinger.** -/
theorem pinger_reachable (h : (pingScan lan).Reachable s) (i : Target) :
    (lan.pinger i).Reachable (s.pingers i) :=
  h.project (fun s => s.pingers i) rfl fun _ _ _ hs => component_step hs i

/-- A datagram that, if it is an echo reply, answers the request to a scanned host. -/
structure Genuine (lan : Lan) (datagram : List UInt8) : Prop where
  length_le : datagram.length ≤ kBufferSize
  source : ∀ identifier, Answers identifier datagram →
    ∃ k, lan.answers k ∧ lan.identifier k = identifier ∧
      sourceAddress datagram = lan.ipAddress k

/-- **A reply to a request is genuine**: it carries the identifier of the pinger whose
host it comes from. -/
theorem genuine_of_isReply {k : Target} (hanswers : lan.answers k) {request datagram : List UInt8}
    (hrequest : SimplePing.CarriesIdentifier (lan.identifier k) request)
    (h : IsReply (lan.ipAddress k) request datagram) (hlen : datagram.length ≤ kBufferSize) :
    Genuine lan datagram := by
  obtain ⟨order, header, reply, hreply, hsource, rfl⟩ := h
  refine ⟨hlen, ?_⟩
  rintro identifier ⟨offset, hoff, -, hid⟩
  obtain rfl := icmpHeaderOffset_unique header hoff
  rw [List.drop_left] at hid
  exact ⟨k, hanswers, (SimplePing.CarriesIdentifier.reply hrequest hreply).unique hid,
    (sourceAddress_append header reply).trans hsource⟩

/-- What waits and what has been read is genuine. -/
structure GenuineTraffic (lan : Lan) (s : PingScan) : Prop where
  buffered : ∀ i, ∀ datagram ∈ s.buffers i, Genuine lan datagram
  received : ∀ i, ∀ datagram ∈ (s.pingers i).ping.received, Genuine lan datagram

/-- What arrives is genuine if what has been sent carries the identifiers of the pingers. -/
theorem genuine_of_arrives (hpingers : ∀ i, (lan.pinger i).Reachable (s.pingers i))
    {datagram : List UInt8} (h : s.Arrives lan datagram) : Genuine lan datagram := by
  obtain ⟨hlen, ⟨k, hanswers, request, hrequest, hreply⟩ | hother⟩ := h
  · have hours := (phase_of_reachable (hpingers k)).1
    exact genuine_of_isReply hanswers (hours.sent request hrequest) hreply hlen
  · exact ⟨hlen, fun identifier h => absurd ⟨identifier, h⟩ hother⟩

/-- A pinger that does not read a datagram logs none. -/
theorem received_calls {i : Target} {event : PingEvent} {w w' : PingWrapper}
    (he : ∀ datagram, event ≠ .socketReadable (some datagram))
    (hw : (lan.pinger i).Step w event w') : w'.ping.received = w.ping.received := by
  rcases handle_received hw.2 with hsame | ⟨datagram, hevent, -⟩
  · exact hsame
  · exact absurd hevent (he datagram)

/-- A pinger that reads a datagram logs no other. -/
theorem mem_received_reads {i : Target} {datagram : List UInt8} {w w' : PingWrapper}
    (hlen : datagram.length ≤ kBufferSize)
    (hw : (lan.pinger i).Step w (.socketReadable (some datagram)) w') {d : List UInt8}
    (hd : d ∈ w'.ping.received) : d ∈ w.ping.received ∨ d = datagram := by
  rcases handle_received hw.2 with hsame | ⟨datagram', hevent, hlogged⟩
  · rw [hsame] at hd
    exact Or.inl hd
  · obtain rfl := Option.some.inj (PingEvent.socketReadable.inj hevent)
    rw [hlogged, List.take_of_length_le hlen] at hd
    simpa using hd

/-- **A step keeps the traffic genuine.** -/
theorem GenuineTraffic.step (h : GenuineTraffic lan s)
    (hpingers : ∀ i, (lan.pinger i).Reachable (s.pingers i)) (hs : (pingScan lan).Step s e s') :
    GenuineTraffic lan s' := by
  cases hs with
  | @calls i event w he hw =>
    refine ⟨h.buffered, fun j d hd => ?_⟩
    by_cases hji : j = i
    · subst hji
      simp only [Function.update_self, received_calls he hw] at hd
      exact h.received j d hd
    · simp only [Function.update_of_ne hji] at hd
      exact h.received j d hd
  | @arrives datagram harrives =>
    refine ⟨fun j d hd => ?_, h.received⟩
    simp only [PingScan.deliver] at hd
    split at hd
    · rcases List.mem_append.mp hd with hd | hd
      · exact h.buffered j d hd
      · rw [List.mem_singleton.mp hd]
        exact genuine_of_arrives hpingers harrives
    · exact h.buffered j d hd
  | @reads i datagram rest w hbuffer hw =>
    have hgenuine : ∀ d ∈ datagram :: rest, Genuine lan d := by
      intro d hd
      rw [← hbuffer] at hd
      exact h.buffered i d hd
    have hfirst := hgenuine datagram List.mem_cons_self
    constructor
    · intro j d hd
      by_cases hji : j = i
      · subst hji
        simp only [Function.update_self] at hd
        exact hgenuine d (List.mem_cons_of_mem _ hd)
      · simp only [Function.update_of_ne hji] at hd
        exact h.buffered j d hd
    · intro j d hd
      by_cases hji : j = i
      · subst hji
        simp only [Function.update_self] at hd
        rcases mem_received_reads hfirst.length_le hw hd with hd | rfl
        · exact h.received j d hd
        · exact hfirst
      · simp only [Function.update_of_ne hji] at hd
        exact h.received j d hd

/-- In every run the traffic is genuine. -/
theorem genuineTraffic_of_reachable (h : (pingScan lan).Reachable s) : GenuineTraffic lan s := by
  apply h.invariant_of_reachable (I := GenuineTraffic lan)
  · -- nothing waits and nothing has been read
    constructor
    · intro i d hd
      cases hd
    · intro i d hd
      cases hd
  · intro s e s' hreach htraffic hs
    exact htraffic.step (pinger_reachable hreach) hs

/-- **Whoever is found has read a reply to a request with its own identifier.** -/
theorem exists_repliedBy_of_found (h : (pingScan lan).Reachable s) {i : Target}
    (hfound : Found lan s i) :
    ∃ k, lan.answers k ∧ lan.identifier k = lan.identifier i ∧ RepliedBy lan s i k := by
  obtain ⟨datagram, hmem, hanswers⟩ := answers_of_found (pinger_reachable h i) hfound
  obtain ⟨k, hk, hid, hsource⟩ :=
    ((genuineTraffic_of_reachable h).received i datagram hmem).source _ hanswers
  exact ⟨k, hk, hid, datagram, hmem, ⟨_, hanswers⟩, hsource⟩

/-! ### A run with two pingers under one identifier -/

/-- A header of 20 bytes with the given source address. -/
def headerFrom (a b c d : UInt8) : IPv4Header where
  bytes := [0x45, 0, 0, 84, 0, 0, 0, 0, 64, protocolICMP, 0, 0, a, b, c, d, 0, 0, 0, 0]
  versionAndHeaderLength := 0x45
  head_eq := rfl
  version := rfl
  length_eq := rfl
  length_ge := Nat.le_refl 20
  protocol_eq := rfl

/-- **Any pinger can send its request**, whatever the others have done. -/
theorem exists_request_sent (h : (pingScan lan).Reachable s) {i : Target}
    (hi : s.pingers i = .new (lan.hostName i) (lan.identifier i)) :
    ∃ packet s', (pingScan lan).Reachable s' ∧
      s'.pingers i = requested (lan.hostName i) (lan.identifier i) packet ∧
      (∀ j, j ≠ i → s'.pingers j = s.pingers j) ∧ s'.buffers = s.buffers ∧
      packet.length = 64 ∧ SimplePing.CarriesIdentifier (lan.identifier i) packet ∧
      SimplePing.CarriesSequenceNumber 0 packet := by
  have hstart := startPing_started lan.order (lan.hostName i) (lan.identifier i)
  obtain ⟨packet, hrequest, hpacket⟩ :=
    exists_requested lan.order (lan.hostName i) (lan.identifier i)
  rw [← hi] at hstart
  have hfirst : (pingScan lan).Reachable { s with
      pingers := Function.update s.pingers i (started (lan.hostName i) (lan.identifier i)) } :=
    h.step (.calls (by simp) hstart)
  have hstarted : ({ s with
      pingers := Function.update s.pingers i
        (started (lan.hostName i) (lan.identifier i)) } : PingScan).pingers i =
      started (lan.hostName i) (lan.identifier i) := Function.update_self ..
  rw [← hstarted] at hrequest
  refine ⟨packet, _, hfirst.step (.calls (by simp) hrequest), ?_, ?_, rfl, hpacket⟩
  · simp
  · intro j hj
    simp [hj]

/-- **A host that answers can reply** to a request it has been sent. -/
theorem exists_arrives {k : Target} (hk : lan.answers k) {request : List UInt8}
    (hsent : request ∈ (s.pingers k).ping.sent) (hlen : request.length = 64) :
    ∃ (header : IPv4Header) (reply : List UInt8), echoReply lan.order request = .ok reply ∧
      sourceAddress header.bytes = lan.ipAddress k ∧
      (header.bytes ++ reply).length ≤ kBufferSize ∧ s.Arrives lan (header.bytes ++ reply) := by
  have hshort : request.length ≤ 65531 := by omega
  obtain ⟨reply, hreply⟩ := exists_echoReply lan.order hshort
  have hreplyLen : reply.length = 64 := (length_echoReply hreply (by omega)).trans hlen
  obtain ⟨header, hheader, hsource⟩ : ∃ header : IPv4Header, header.bytes.length = 20 ∧
      sourceAddress header.bytes = lan.ipAddress k :=
    ⟨headerFrom lan.a lan.b lan.c (UInt8.ofNat (k.val + 1)), rfl, rfl⟩
  have hmax : (header.bytes ++ reply).length ≤ kBufferSize := by
    rw [List.length_append, hheader, hreplyLen]
    decide
  exact ⟨header, reply, hreply, hsource, hmax, hmax,
    Or.inl ⟨k, hk, request, hsent, lan.order, header, reply, hreply, hsource, rfl⟩⟩

/-- **One answer finds two hosts** that are pinged under the same identifier: host `k`
alone answers, and the pinger of host `i` reads that reply. -/
theorem exists_found_by_other {i k : Target} (hne : k ≠ i) (hk : lan.answers k)
    (hid : lan.identifier k = lan.identifier i) :
    ∃ s, (pingScan lan).Reachable s ∧ Found lan s i ∧ ¬RepliedBy lan s i i := by
  -- both send their requests
  obtain ⟨request, s₁, hs₁, hk₁, hrest₁, hbuffers₁, hlen, hrequestId, hrequestSeq⟩ :=
    exists_request_sent (s := (pingScan lan).init) (i := k) .init rfl
  obtain ⟨packet, s₂, hs₂, hi₂, hrest₂, hbuffers₂, -⟩ :=
    exists_request_sent (i := i) hs₁ (hrest₁ i hne.symm)
  have hk₂ : s₂.pingers k = requested (lan.hostName k) (lan.identifier k) request :=
    (hrest₂ k hne).trans hk₁
  -- host `k` answers its own
  have hsent : request ∈ (s₂.pingers k).ping.sent := by
    rw [hk₂]
    exact List.mem_singleton.mpr rfl
  obtain ⟨header, reply, hreply, hsource, hmax, harrives⟩ := exists_arrives hk hsent hlen
  have hs₃ := hs₂.step (.arrives harrives)
  have hsocket : (s₂.pingers i).ping.socket = true := by
    rw [hi₂]
    rfl
  have hbuffer : (s₂.deliver (header.bytes ++ reply)).buffers i = [header.bytes ++ reply] := by
    rw [PingScan.deliver_buffers hsocket, hbuffers₂, hbuffers₁]
    rfl
  -- the pinger of host `i` reads it
  rw [hid] at hrequestId
  have hpinging : Pinging (requested (lan.hostName i) (lan.identifier i) packet) :=
    ⟨⟨rfl, rfl⟩, rfl, rfl, rfl, rfl⟩
  obtain ⟨w, hw, hverdict, hreceived⟩ :=
    exists_answered hpinging header hreply hrequestId hrequestSeq rfl hmax
  rw [← hi₂] at hw
  refine ⟨_, hs₃.step (.reads hbuffer ⟨hsocket, hw⟩), ?_, ?_⟩
  · simp only [Found, Function.update_self, hverdict]
    exact List.mem_singleton.mpr rfl
  · rintro ⟨datagram, hmem, -, howner⟩
    simp only [Function.update_self, hreceived] at hmem
    obtain rfl := List.mem_singleton.mp hmem
    rw [sourceAddress_append, hsource] at howner
    exact hne (lan.ipAddress_injective howner)

/-- **Whose answer finds a host.**  In every run, whoever is found has read an echo
reply from a scanned host that answers and is pinged under the same identifier.  The
reply comes from the host itself in every run exactly when no other host that answers
is pinged under its identifier. -/
theorem found_by_own_reply_iff (lan : Lan) (i : Target) :
    (∀ s, (pingScan lan).Reachable s → Found lan s i →
      ∃ k, lan.answers k ∧ lan.identifier k = lan.identifier i ∧ RepliedBy lan s i k) ∧
    ((∀ s, (pingScan lan).Reachable s → Found lan s i → RepliedBy lan s i i) ↔
      ∀ k, lan.answers k → lan.identifier k = lan.identifier i → k = i) := by
  refine ⟨fun s h hfound => exists_repliedBy_of_found h hfound, ?_, ?_⟩
  · intro hown k hk hid
    by_contra hne
    obtain ⟨s, h, hfound, hnot⟩ := exists_found_by_other hne hk hid
    exact hnot (hown s h hfound)
  · intro hdistinct s h hfound
    obtain ⟨k, hk, hid, hreplied⟩ := exists_repliedBy_of_found h hfound
    obtain rfl := hdistinct k hk hid
    exact hreplied

/-- A network where all random numbers are equal and only `192.168.1.2` answers. -/
def clash : Lan where
  order := .little
  a := 192
  b := 168
  c := 1
  identifier := fun _ => 0x1234
  answers := fun k => k = 1

/-- `192.168.1.1` is found on the answer of `192.168.1.2`. -/
theorem found_by_clash :
    ∃ s, (pingScan clash).Reachable s ∧ Found clash s 0 ∧ ¬RepliedBy clash s 0 0 :=
  exists_found_by_other (k := 1) (by decide) rfl rfl

end LANScan
