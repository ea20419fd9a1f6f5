import LANScan.PingPhase
import LANScan.Sender

/-!
# The wrapper as a client

A `PingWrapper` owns its `SimplePing`, and is its delegate.  All that it and the run loop
do to the pinger are changes and a single send, in the course of which the delegate at
most stops the pinger.

## Main definitions

* `Changed`, `Acts` — what a handler does to the pinger.
* `Tracks` — a pinger with its sends stands for the pinger of a wrapper.

## Main results

* `sendPingWithData_pinger` — a send of the wrapper is a send of its pinger.
* `handle_received` — only a datagram that is read is logged.
* `exists_tracks` — **the pinger of a wrapper is one whose sends do not nest, and sends
  at most once.**
-/

namespace LANScan

open SimplePing

variable {order : ByteOrder} {hostName : String} {identifier : UInt16}
  {w w' : PingWrapper} {s : Sender}

/-! ### Runs of a pinger -/

/-- Any changes can be made. -/
theorem reachWhile_changes : ∀ {s : Sender} (changes : List Change),
    (sender order hostName identifier).ReachWhile Sender.OneAtATime s →
      (sender order hostName identifier).ReachWhile Sender.OneAtATime
        { s with ping := changes.foldl apply s.ping }
  | _, [], h => h
  | _, change :: changes, h => reachWhile_changes changes (reachWhile_change h change)

/-- A send can be made, with any changes meanwhile. -/
theorem reachWhile_sendPingWithData
    (h : (sender order hostName identifier).ReachWhile Sender.OneAtATime s)
    (hpending : s.pending = 0) {data : Option (List UInt8)} {sendto : Int}
    {changes : List Change} {ping : SimplePing} {packet : List UInt8}
    (hsend : s.ping.sendPingWithData order data sendto changes = .ok (ping, packet)) :
    (sender order hostName identifier).ReachWhile Sender.OneAtATime
      ⟨ping, s.pings ++ [packet], 0⟩ := by
  obtain ⟨⟨begun, built⟩, hbegin, hend⟩ := bind_eq_ok.mp hsend
  obtain ⟨rfl, rfl⟩ := Prod.mk.inj (Except.ok.inj hend)
  have hended := reachWhile_endSend
    (reachWhile_changes changes (reachWhile_beginSend h hpending hbegin)) (Nat.succ_pos _)
  dsimp only at hended
  rw [hpending] at hended
  exact hended

/-! ### What the handlers do to the pinger -/

namespace PingWrapper

@[simp] theorem hostFound_ping (w : PingWrapper) (found : Bool) :
    (w.hostFound found).ping = w.ping.stop := by
  rw [hostFound]
  split <;> simp

@[simp] theorem hostFound_completion (w : PingWrapper) (found : Bool) :
    (w.hostFound found).completion = w.completion := by
  rw [hostFound]
  split <;> simp

@[simp] theorem didFailWithError_ping (w : PingWrapper) :
    w.didFailWithError.ping = w.ping.stop := by
  show (hostFound _ false).ping = _
  rw [hostFound_ping]
  rfl

@[simp] theorem didFailWithError_completion (w : PingWrapper) :
    w.didFailWithError.completion = w.completion := hostFound_completion _ false

/-- **A send of the wrapper is a send of its pinger**, and stops it if it fails. -/
theorem sendPingWithData_pinger {data : Option (List UInt8)} {sendto : Int}
    (h : sendPingWithData order w data sendto = .ok w') :
    w'.completion = w.completion ∧ (w.ping.host = false → w'.ping.host = false) ∧
      ∃ changes packet, changes.any Change.isRead = false ∧
        w.ping.sendPingWithData order data sendto changes = .ok (w'.ping, packet) := by
  obtain ⟨_, haddress, h⟩ := bind_eq_ok.mp h
  obtain ⟨_, hpayload, h⟩ := bind_eq_ok.mp h
  obtain ⟨packet, hpacket, h⟩ := bind_eq_ok.mp h
  obtain rfl := Except.ok.inj h
  generalize hbytes : (if w.ping.socket then sendto else -1) = bytesSent
  have hbegin := beginSend_eq haddress hpayload hpacket sendto hbytes.symm
  rw [reportSend]
  by_cases hsent : bytesSent > 0 ∧ bytesSent.toNat = packet.length
  · rw [if_pos hsent] at hbegin ⊢
    exact ⟨rfl, id, [], packet, rfl, sendPingWithData_eq hbegin []⟩
  · rw [if_neg hsent] at hbegin ⊢
    -- the delegate stops the pinger
    have hping : w.delegateDidFailToSend.ping = w.ping.stop := hostFound_ping w false
    refine ⟨hostFound_completion w false, fun _ => ?_, [.stop], packet, rfl, ?_⟩
    · show w.delegateDidFailToSend.ping.host = false
      rw [hping, stop_host]
    · rw [sendPingWithData_eq hbegin]
      show _ = Except.ok (w.delegateDidFailToSend.ping.countPing, packet)
      rw [hping]
      rfl

/-- Changes that read nothing. -/
def Changed (ping ping' : SimplePing) : Prop :=
  ∃ changes : List Change, changes.any Change.isRead = false ∧ changes.foldl apply ping = ping'

/-- Changes that read nothing, and possibly one send after them. -/
inductive Acts (order : ByteOrder) (ping ping' : SimplePing) : Prop
  | changed (h : Changed ping ping')
  | send (changes changes' : List Change) (hchanges : changes.any Change.isRead = false)
    (hchanges' : changes'.any Change.isRead = false) (sendto : Int) (packet : List UInt8)
    (h : (changes.foldl apply ping).sendPingWithData order none sendto changes' =
      .ok (ping', packet))

/-- Changes come before what is done after them. -/
theorem Acts.after {ping ping₁ ping' : SimplePing} (hbefore : Changed ping ping₁)
    (h : Acts order ping₁ ping') : Acts order ping ping' := by
  obtain ⟨before, hreads, hping₁⟩ := hbefore
  have happend : ∀ changes : List Change, changes.any Change.isRead = false →
      (before ++ changes).any Change.isRead = false ∧
        (before ++ changes).foldl apply ping = changes.foldl apply ping₁ := by
    intro changes hchanges
    rw [List.any_append, hreads, hchanges, List.foldl_append, hping₁]
    exact ⟨rfl, rfl⟩
  cases h with
  | changed h =>
    obtain ⟨changes, hchanges, hping'⟩ := h
    obtain ⟨hall, hfold⟩ := happend changes hchanges
    exact .changed ⟨before ++ changes, hall, hfold.trans hping'⟩
  | send changes changes' hchanges hchanges' sendto packet hsend =>
    obtain ⟨hall, hfold⟩ := happend changes hchanges
    rw [← hfold] at hsend
    exact .send (before ++ changes) changes' hall hchanges' sendto packet hsend

/-- Nothing is read by what reads nothing. -/
theorem Changed.received {ping ping' : SimplePing} (h : Changed ping ping') :
    ping'.received = ping.received := by
  obtain ⟨changes, hchanges, rfl⟩ := h
  exact foldl_apply_received hchanges ping

theorem Acts.received {ping ping' : SimplePing} (h : Acts order ping ping') :
    ping'.received = ping.received := by
  cases h with
  | changed h => exact h.received
  | send changes changes' hchanges hchanges' sendto packet hsend =>
    rw [sendPingWithData_received hsend hchanges', foldl_apply_received hchanges]

theorem changed_stop (ping : SimplePing) : Changed ping ping.stop := ⟨[.stop], rfl, rfl⟩

theorem didFailWithError_changed (w : PingWrapper) : Changed w.ping w.didFailWithError.ping := by
  rw [didFailWithError_ping]
  exact changed_stop w.ping

theorem startWithHostAddress_pinger {socketOpens : Bool} {sendto : Int}
    (h : startWithHostAddress order w socketOpens sendto = .ok w') :
    w'.completion = w.completion ∧ (w.ping.host = false → w'.ping.host = false) ∧
      Acts order w.ping w'.ping := by
  obtain ⟨_, -, h⟩ := bind_eq_ok.mp h
  dsimp only at h
  split_ifs at h
  · obtain ⟨hcompletion, hhost, changes, packet, hchanges, hsend⟩ := sendPingWithData_pinger h
    exact ⟨hcompletion, hhost, .send [.openSocket] changes rfl hchanges sendto packet hsend⟩
  · obtain rfl := Except.ok.inj h
    exact ⟨didFailWithError_completion w, fun _ => by simp, .changed (didFailWithError_changed w)⟩

theorem hostResolutionDone_pinger {resolved : Bool} {addresses : Option (List Address)}
    {socketOpens : Bool} {sendto : Int}
    (h : hostResolutionDone order w resolved addresses socketOpens sendto = .ok w') :
    w'.completion = w.completion ∧ w'.ping.host = false ∧ Acts order w.ping w'.ping := by
  unfold hostResolutionDone at h
  cases hlatched : w.ping.latchAddress resolved addresses with
  | mk address latched =>
    have hbefore : Changed w.ping
        (SimplePing.stopHostResolution { w.ping with hostAddress := address }) := by
      refine ⟨[.latchAddress resolved addresses, .stopHostResolution], rfl, ?_⟩
      rw [List.foldl_cons, List.foldl_cons, List.foldl_nil, apply, apply, hlatched]
    rw [hlatched] at h
    dsimp only at h
    split_ifs at h
    · obtain ⟨hcompletion, hhost, hacts⟩ := startWithHostAddress_pinger h
      exact ⟨hcompletion, hhost rfl, .after hbefore hacts⟩
    · obtain rfl := Except.ok.inj h
      refine ⟨didFailWithError_completion _, by simp, .after hbefore (.changed ?_)⟩
      rw [didFailWithError_ping]
      exact changed_stop _

theorem startPing_pinger {success : Bool} (h : w.startPing success = .ok w') :
    Changed w.ping w'.ping := by
  obtain ⟨_, -, h⟩ := bind_eq_ok.mp h
  obtain ⟨_, -, h⟩ := bind_eq_ok.mp h
  obtain rfl := Except.ok.inj h
  split
  · exact ⟨[.startHostResolution], rfl, rfl⟩
  · refine ⟨[.startHostResolution, .stop], rfl, ?_⟩
    rw [didFailWithError_ping]
    rfl

/-- A callback of the socket reads a datagram, or fails before it has one. -/
theorem socketReadCallback_pinger {datagram : Option (List UInt8)}
    (h : w.socketReadCallback order datagram = .ok w') :
    w'.completion = w.completion ∧ (w'.ping.host = true → w.ping.host = true) ∧
      (Changed w.ping w'.ping ∨ ∃ bytes, datagram = some bytes ∧
        Changed (w.ping.logReceived (bytes.take kBufferSize)) w'.ping) := by
  have hfailed : w.didFailWithError.completion = w.completion ∧
      (w.didFailWithError.ping.host = true → w.ping.host = true) ∧
      Changed w.ping w.didFailWithError.ping := by
    refine ⟨didFailWithError_completion w, fun hhost => ?_, didFailWithError_changed w⟩
    rw [didFailWithError_ping] at hhost
    cases hhost
  obtain ⟨_, -, h⟩ := bind_eq_ok.mp h
  unfold readData at h
  split at h
  next =>
    obtain rfl := Except.ok.inj h
    exact ⟨hfailed.1, hfailed.2.1, .inl hfailed.2.2⟩
  next =>
    obtain rfl := Except.ok.inj h
    exact ⟨hfailed.1, hfailed.2.1, .inl hfailed.2.2⟩
  next packet _ hpacket =>
    obtain ⟨bytes, rfl, rfl⟩ := Option.map_eq_some_iff.mp hpacket
    obtain ⟨v, -, h⟩ := bind_eq_ok.mp h
    split at h
    next =>
      -- an answer: the delegate stops the pinger
      obtain rfl := Except.ok.inj h
      refine ⟨hostFound_completion _ true, fun hhost => ?_, .inr ⟨bytes, rfl, ?_⟩⟩
      · change (hostFound _ true).ping.host = true at hhost
        rw [hostFound_ping] at hhost
        cases hhost
      · show Changed _ (hostFound _ true).ping
        rw [hostFound_ping]
        exact changed_stop _
    next =>
      obtain rfl := Except.ok.inj h
      exact ⟨rfl, id, .inr ⟨bytes, rfl, [], rfl, rfl⟩⟩

/-- **Only a datagram that is read is logged**, up to the size of the buffer. -/
theorem handle_received {e : PingEvent} (h : w.handle order e = .ok w') :
    w'.ping.received = w.ping.received ∨
      ∃ datagram, e = .socketReadable (some datagram) ∧
        w'.ping.received = w.ping.received ++ [datagram.take kBufferSize] := by
  cases e with
  | startPing => exact .inl (startPing_pinger h).received
  | hostResolutionFailed =>
    obtain rfl := Except.ok.inj h
    exact .inl (didFailWithError_changed w).received
  | hostResolved =>
    obtain ⟨-, -, hacts⟩ := hostResolutionDone_pinger h
    exact .inl hacts.received
  | socketReadable datagram =>
    obtain ⟨-, -, hchanged | ⟨bytes, rfl, hchanged⟩⟩ := socketReadCallback_pinger h
    · exact .inl hchanged.received
    · exact .inr ⟨bytes, rfl, hchanged.received⟩
  | timerFired isValid =>
    obtain rfl := Except.ok.inj h
    left
    show (hostFound _ false).ping.received = w.ping.received
    rw [hostFound_ping]
    rfl

end PingWrapper

/-! ### The simulation -/

/-- The pinger of a wrapper, with its sends: there is none before the host name has been
resolved, and one at most after that. -/
structure Tracks (w : PingWrapper) (s : Sender) : Prop where
  ping_eq : s.ping = w.ping
  pending_eq : s.pending = 0
  length_le : s.pings.length ≤ 1
  idle : w.completion = false ∨ w.ping.host = true → s.pings = []

open PingWrapper

/-- Changes keep track. -/
theorem Tracks.changes (h : Tracks w s)
    (hreach : (sender order hostName identifier).ReachWhile Sender.OneAtATime s)
    {changes : List Change} (hping : changes.foldl apply w.ping = w'.ping)
    (hidle : w'.completion = false ∨ w'.ping.host = true →
      w.completion = false ∨ w.ping.host = true) :
    ∃ s', (sender order hostName identifier).ReachWhile Sender.OneAtATime s' ∧ Tracks w' s' := by
  refine ⟨_, reachWhile_changes changes hreach, ?_, h.pending_eq, h.length_le,
    fun hw' => h.idle (hidle hw')⟩
  show changes.foldl apply s.ping = w'.ping
  rw [h.ping_eq, hping]

/-- A send keeps track if it is the first. -/
theorem Tracks.send (h : Tracks w s)
    (hreach : (sender order hostName identifier).ReachWhile Sender.OneAtATime s)
    (hfirst : s.pings = []) (hsent : w'.completion = true) (hhost : w'.ping.host = false)
    {changes changes' : List Change} {sendto : Int} {packet : List UInt8}
    (hsend : (changes.foldl apply w.ping).sendPingWithData order none sendto changes' =
      .ok (w'.ping, packet)) :
    ∃ s', (sender order hostName identifier).ReachWhile Sender.OneAtATime s' ∧ Tracks w' s' := by
  rw [← h.ping_eq] at hsend
  refine ⟨_, reachWhile_sendPingWithData (reachWhile_changes changes hreach) h.pending_eq hsend,
    rfl, rfl, ?_, fun hw' => ?_⟩
  · show (s.pings ++ [packet]).length ≤ 1
    rw [hfirst]
    exact Nat.le_refl 1
  · rcases hw' with hw' | hw'
    · exact absurd (hsent.symm.trans hw') (by decide)
    · exact absurd (hhost.symm.trans hw') (by decide)

/-- **Every event keeps track.** -/
theorem Tracks.handle (h : Tracks w s)
    (hreach : (sender order hostName identifier).ReachWhile Sender.OneAtATime s)
    (hphase : Phase w) {e : PingEvent} (hen : w.Enabled e) (hs : w.handle order e = .ok w') :
    ∃ s', (sender order hostName identifier).ReachWhile Sender.OneAtATime s' ∧ Tracks w' s' := by
  have hfailed : ∀ {w'}, w'.completion = w.completion → w'.ping = w.ping.stop →
      ∃ s', (sender order hostName identifier).ReachWhile Sender.OneAtATime s' ∧
        Tracks w' s' := by
    intro w' hcompletion hping
    have hchanges : [Change.stop].foldl apply w.ping = w'.ping := hping.symm
    refine h.changes hreach hchanges fun hw' => ?_
    rw [hcompletion, hping] at hw'
    exact hw'.imp_right fun hhost => by cases hhost
  cases e with
  | startPing success =>
    obtain ⟨changes, -, hping⟩ := startPing_pinger hs
    exact h.changes hreach hping fun _ => Or.inl hen
  | hostResolutionFailed =>
    obtain rfl := Except.ok.inj hs
    exact hfailed (didFailWithError_completion w) (didFailWithError_ping w)
  | hostResolved resolved addresses socketOpens sendto =>
    obtain ⟨hcompletion, hhost, hacts⟩ := hostResolutionDone_pinger hs
    cases hacts with
    | changed hchanged =>
      obtain ⟨changes, -, hping⟩ := hchanged
      refine h.changes hreach hping fun hw' => ?_
      rw [hcompletion, hhost] at hw'
      exact hw'.imp_right fun hfalse => by cases hfalse
    | send changes changes' _ _ sendto packet hsend =>
      -- the first send: name resolution was in progress until now
      have hstarted : w.completion = true := by
        cases hphase with
        | fresh hfresh => exact absurd (hfresh.host.symm.trans hen.1) (by decide)
        | resolving hresolving => exact hresolving.completion
        | pinging hpinging => exact hpinging.completion
        | finished hfinished => exact hfinished.completion
      exact h.send hreach (h.idle (Or.inr hen.1)) (hcompletion.trans hstarted) hhost hsend
  | socketReadable datagram =>
    obtain ⟨hcompletion, hhost, hread⟩ := socketReadCallback_pinger hs
    have hidle : w'.completion = false ∨ w'.ping.host = true →
        w.completion = false ∨ w.ping.host = true := by
      rw [hcompletion]
      exact fun hw' => hw'.imp_right hhost
    obtain ⟨changes, -, hping⟩ | ⟨bytes, -, changes, -, hping⟩ := hread
    · exact h.changes hreach hping hidle
    · have hlogged : (.logReceived (bytes.take kBufferSize) :: changes).foldl apply w.ping =
          w'.ping := hping
      exact h.changes hreach hlogged hidle
  | timerFired isValid =>
    obtain rfl := Except.ok.inj hs
    exact hfailed (hostFound_completion _ false) (hostFound_ping _ false)

/-- **The pinger of a wrapper is one whose sends do not nest**, and it sends at most
once. -/
theorem exists_tracks (h : (pinger order hostName identifier).Reachable w) :
    ∃ s, (sender order hostName identifier).ReachWhile Sender.OneAtATime s ∧ Tracks w s := by
  apply h.simulation
  · exact ⟨_, reachWhile_change .init (.setAddressStyle .icmpv4), rfl, rfl, Nat.zero_le 1,
      fun _ => rfl⟩
  · rintro w e w' s hw hs htracks ⟨hen, hstep⟩
    exact htracks.handle hs (phase_of_reachable hw).2 hen hstep

end LANScan
