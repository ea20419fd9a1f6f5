import LANScan.Sender
import Mathlib.Data.Fintype.EquivFin

/-!
# Sequence numbers

The check of an incoming sequence number has nothing to go by but the counter and
whether it has wrapped.  Before that it is right as long as no send is made from inside
another; afterwards its window is off by one.

## Main definitions

* `Sender.recentPings` — the pings that the check is to admit.
* `InOrder` — every ping carries its position.
* `Repeats` — two pings carry the same number.

## Main results

* `validateSequenceNumber_iff` — what the check admits, as distances.
* `inOrder_of_reachWhile` — pings are numbered in order in runs whose sends do not nest.
* `reachWhile_or_repeats` — sends that nest repeat a number.
* `validateSequenceNumber_sent` — **the check admits what was sent exactly as long as
  the counter has not wrapped and sends do not nest; after a wrap it is wrong at the two
  edges of its window.**
-/

namespace LANScan

open SimplePing

variable {order : ByteOrder} {hostName : String} {identifier : UInt16} {n : ℕ} {s s' : Sender}

namespace Sender

/-- The pings that the check is to admit: all as long as the counter has not wrapped,
then the last 120. -/
def recentPings (s : Sender) : List (List UInt8) :=
  if s.pings.length ≤ 65535 then s.pings else s.pings.drop (s.pings.length - 120)

end Sender

/-! ### What the check admits -/

/-- **What the check admits**: before the counter wraps the numbers below it, then those
at a distance of less than 120. -/
theorem validateSequenceNumber_iff (h : Counted order identifier n s) (number : UInt16) :
    s.ping.validateSequenceNumber number = true ↔
      if n ≤ 65535 then number.toNat < n
      else (65536 - number.toNat + n % 65536) % 65536 < 120 := by
  have hnext : s.ping.nextSequenceNumber.toNat = n % 65536 := by
    rw [h.next_eq, UInt16.toNat_ofNat']
  unfold validateSequenceNumber
  split
  next hwrapped =>
    have hn := h.wrapped_iff.mp hwrapped
    rw [if_neg (by omega), decide_eq_true_iff, UInt16.lt_iff_toNat_lt, UInt16.toNat_sub, hnext]
    rfl
  next hwrapped =>
    have hn : ¬65536 ≤ n := fun hle => hwrapped (h.wrapped_iff.mpr hle)
    rw [if_pos (by omega), decide_eq_true_iff, UInt16.lt_iff_toNat_lt, hnext,
      Nat.mod_eq_of_lt (by omega)]

/-! ### Pings in order -/

/-- Every ping carries its position. -/
structure InOrder (s : Sender) : Prop where
  pending_le : s.pending ≤ 1
  carries : ∀ (i : ℕ) (packet : List UInt8), s.pings[i]? = some packet →
    CarriesSequenceNumber (UInt16.ofNat i) packet

/-- A send that begins when none is pending adds a ping that carries its position. -/
theorem InOrder.beginSend (h : InOrder s) (hn : Counted order identifier n s)
    (hpending : s.pending = 0) {data : Option (List UInt8)} {sendto : Int} {ping : SimplePing}
    {packet : List UInt8} (hbegin : s.ping.beginSend order data sendto = .ok (ping, packet)) :
    InOrder ⟨ping, s.pings ++ [packet], s.pending + 1⟩ where
  pending_le := by
    show s.pending + 1 ≤ 1
    rw [hpending]
  carries i p hp := by
    obtain ⟨hbuilt, -⟩ := beginSend_spec hbegin
    have hlength := hn.length_eq
    rcases Nat.lt_or_ge i s.pings.length with hi | hi
    · exact h.carries i p (by rw [← hp]; exact (List.getElem?_append_left hi).symm)
    · -- the new ping is at the end, and all the others have returned
      change (s.pings ++ [packet])[i]? = some p at hp
      rw [List.getElem?_append_right hi] at hp
      obtain ⟨hlast, rfl⟩ := List.getElem?_eq_some_iff.mp hp
      rw [List.length_singleton] at hlast
      have hi' : i = n := by omega
      rw [List.getElem_singleton, hi', ← hn.next_eq]
      exact carriesSequenceNumber_of_pingPacket hbuilt

/-- **Pings are numbered in order in runs whose sends do not nest.** -/
theorem inOrder_of_reachWhile
    (h : (sender order hostName identifier).ReachWhile Sender.OneAtATime s) : InOrder s := by
  apply h.invariant_of_reachWhile
  · exact ⟨Nat.zero_le 1, fun i p hp => by cases hp⟩
  · rintro s e s' hreach h hone ⟨hen, hs⟩
    cases e with
    | change change =>
      obtain rfl := Except.ok.inj hs
      exact ⟨h.pending_le, h.carries⟩
    | beginSend data sendto =>
      obtain ⟨n, hn⟩ := counted_of_reachable hreach.reachable
      obtain ⟨⟨ping, packet⟩, hbegin, hs⟩ := bind_eq_ok.mp hs
      obtain rfl := Except.ok.inj hs
      exact h.beginSend hn hone hbegin
    | endSend =>
      obtain rfl := Except.ok.inj hs
      exact ⟨Nat.le_trans (Nat.sub_le _ _) h.pending_le, h.carries⟩

/-- The numbers of the pings from a position on. -/
theorem carried_drop_iff (h : InOrder s) (hlength : s.pings.length = n) (first : ℕ)
    (number : UInt16) :
    (∃ packet ∈ s.pings.drop first, CarriesSequenceNumber number packet) ↔
      ∃ i, first ≤ i ∧ i < n ∧ i % 65536 = number.toNat := by
  have hnumber : ∀ {i : ℕ}, UInt16.ofNat i = number ↔ i % 65536 = number.toNat := by
    intro i
    rw [← UInt16.toNat_inj, UInt16.toNat_ofNat']
  constructor
  · rintro ⟨packet, hmem, hcarries⟩
    obtain ⟨i, hi, rfl⟩ := List.mem_drop_iff_getElem.mp hmem
    have hposition := h.carries (first + i) _ (List.getElem?_eq_getElem (by omega))
    exact ⟨first + i, by omega, by omega, hnumber.mp (hposition.unique hcarries)⟩
  · rintro ⟨i, hfirst, hi, hmod⟩
    have hi' : i < s.pings.length := by omega
    refine ⟨s.pings[i], ?_, ?_⟩
    · apply List.mem_drop_iff_getElem.mpr
      exact ⟨i - first, by omega, by simp only [Nat.add_sub_cancel' hfirst]⟩
    · rw [← hnumber.mpr hmod]
      exact h.carries i _ (List.getElem?_eq_getElem hi')

/-- **The numbers of the recent pings**: before the counter wraps those below it, then
those at a distance of at least 1 and at most 120. -/
theorem exists_recent_iff (h : InOrder s) (hlength : s.pings.length = n) (number : UInt16) :
    (∃ packet ∈ s.recentPings, CarriesSequenceNumber number packet) ↔
      if n ≤ 65535 then number.toNat < n
      else 1 ≤ (65536 - number.toNat + n % 65536) % 65536 ∧
        (65536 - number.toNat + n % 65536) % 65536 ≤ 120 := by
  have hnumber := number.toNat_lt
  rw [Sender.recentPings, hlength]
  split
  next hfew =>
    have hall := carried_drop_iff h hlength 0 number
    rw [List.drop_zero] at hall
    rw [hall]
    constructor
    · rintro ⟨i, -, hi, hmod⟩
      omega
    · intro hlt
      exact ⟨number.toNat, Nat.zero_le _, hlt, Nat.mod_eq_of_lt hnumber⟩
  next hmany =>
    rw [carried_drop_iff h hlength]
    constructor
    · rintro ⟨i, hfirst, hi, hmod⟩
      omega
    · intro hdistance
      exact ⟨n - (65536 - number.toNat + n % 65536) % 65536, by omega, by omega, by omega⟩

/-! ### Sends that nest -/

/-- Two pings carry the same number. -/
def Repeats (s : Sender) : Prop :=
  ∃ i j : ℕ, i ≠ j ∧ ∃ packet packet' number,
    s.pings[i]? = some packet ∧ s.pings[j]? = some packet' ∧
    CarriesSequenceNumber number packet ∧ CarriesSequenceNumber number packet'

/-- What has been sent stays. -/
theorem Repeats.next (h : Repeats s) {e : SenderEvent} (hs : s.next order e = .ok s') :
    Repeats s' := by
  have hstays : ∀ (i : ℕ) packet, s.pings[i]? = some packet → s'.pings[i]? = some packet := by
    intro i packet hi
    cases e with
    | change change =>
      obtain rfl := Except.ok.inj hs
      exact hi
    | beginSend data sendto =>
      obtain ⟨⟨ping, built⟩, -, hs⟩ := bind_eq_ok.mp hs
      obtain rfl := Except.ok.inj hs
      exact (List.getElem?_append_left (List.getElem?_eq_some_iff.mp hi).1).trans hi
    | endSend =>
      obtain rfl := Except.ok.inj hs
      exact hi
  obtain ⟨i, j, hne, packet, packet', number, hi, hj, hcarries⟩ := h
  exact ⟨i, j, hne, packet, packet', number, hstays i packet hi, hstays j packet' hj, hcarries⟩

/-- A send inside another has the number of the other. -/
theorem InOrder.repeats (h : InOrder s) (hn : Counted order identifier n s)
    (hpending : s.pending ≠ 0) {data : Option (List UInt8)} {sendto : Int} {ping : SimplePing}
    {packet : List UInt8} (hbegin : s.ping.beginSend order data sendto = .ok (ping, packet)) :
    Repeats ⟨ping, s.pings ++ [packet], s.pending + 1⟩ := by
  obtain ⟨hbuilt, -⟩ := beginSend_spec hbegin
  have hlength : s.pings.length = n + 1 := by
    have hle := h.pending_le
    rw [hn.length_eq]
    omega
  have hlast : s.pings[n]? = some s.pings[n] := List.getElem?_eq_getElem (by omega)
  refine ⟨n, n + 1, Nat.ne_of_lt (Nat.lt_succ_self n), s.pings[n], packet, UInt16.ofNat n, ?_, ?_,
    h.carries n _ hlast, ?_⟩
  · exact (List.getElem?_append_left (by omega)).trans hlast
  · show (s.pings ++ [packet])[n + 1]? = some packet
    rw [← hlength, List.getElem?_concat_length]
  · rw [← hn.next_eq]
    exact carriesSequenceNumber_of_pingPacket hbuilt

/-- **Sends that nest repeat a number.** -/
theorem reachWhile_or_repeats (h : (sender order hostName identifier).Reachable s) :
    (sender order hostName identifier).ReachWhile Sender.OneAtATime s ∨ Repeats s := by
  refine h.invariant (I := fun s =>
    (sender order hostName identifier).ReachWhile Sender.OneAtATime s ∨ Repeats s) (.inl .init) ?_
  rintro s e s' (hreach | hrepeats) ⟨hen, hs⟩
  · by_cases hone : s.OneAtATime e
    · exact .inl (hreach.step hone ⟨hen, hs⟩)
    · right
      cases e with
      | change change => exact absurd trivial hone
      | beginSend data sendto =>
        obtain ⟨n, hn⟩ := counted_of_reachable hreach.reachable
        obtain ⟨⟨ping, packet⟩, hbegin, hs⟩ := bind_eq_ok.mp hs
        obtain rfl := Except.ok.inj hs
        exact (inOrder_of_reachWhile hreach).repeats hn hone hbegin
      | endSend => exact absurd trivial hone
  · exact .inr (hrepeats.next hs)

/-- Where a number is repeated, another one below the counter is missing. -/
theorem Repeats.not_exact (h : Repeats s) (hn : Counted order identifier n s)
    (hlength : s.pings.length = n) (hfew : n ≤ 65535) :
    ¬∀ number, (s.ping.validateSequenceNumber number = true ↔
      ∃ packet ∈ s.pings, CarriesSequenceNumber number packet) := by
  intro hexact
  have hadmits : ∀ number, s.ping.validateSequenceNumber number = true ↔ number.toNat < n := by
    intro number
    rw [validateSequenceNumber_iff hn, if_pos hfew]
  -- every position has a number below the counter
  have hnumber : ∀ i : Fin n, ∃ (k : Fin n) (packet : List UInt8), s.pings[i.val]? = some packet ∧
      CarriesSequenceNumber (UInt16.ofNat k.val) packet := by
    intro i
    have hi : i.val < s.pings.length := by omega
    obtain ⟨ping, payload, hbuilt, -⟩ := hn.built s.pings[i.val] (List.getElem_mem hi)
    have hcarries := carriesSequenceNumber_of_pingPacket hbuilt
    have hlt := (hadmits _).mp ((hexact _).mpr ⟨_, List.getElem_mem hi, hcarries⟩)
    exact ⟨⟨_, hlt⟩, _, List.getElem?_eq_getElem hi, by rw [UInt16.ofNat_toNat]; exact hcarries⟩
  choose number packet hpacket hcarries using hnumber
  have hunique : ∀ {i k : Fin n}, CarriesSequenceNumber (UInt16.ofNat k.val) (packet i) →
      number i = k := by
    intro i k hk
    have heq := (hcarries i).unique hk
    rw [← UInt16.toNat_inj, UInt16.toNat_ofNat', UInt16.toNat_ofNat'] at heq
    apply Fin.ext
    omega
  -- every number below the counter has been sent, so none of them twice
  have hsurjective : Function.Surjective number := by
    intro k
    have hk : (UInt16.ofNat k.val).toNat < n := by
      rw [UInt16.toNat_ofNat']
      omega
    obtain ⟨p, hmem, hp⟩ := (hexact _).mp ((hadmits _).mpr hk)
    obtain ⟨i, hi, rfl⟩ := List.mem_iff_getElem.mp hmem
    refine ⟨⟨i, by omega⟩, hunique ?_⟩
    have hsame := (List.getElem?_eq_getElem hi).symm.trans (hpacket ⟨i, by omega⟩)
    rw [← Option.some.inj hsame]
    exact hp
  have hinjective := Finite.injective_iff_surjective.mpr hsurjective
  obtain ⟨i, j, hne, p, q, m, hi, hj, hp, hq⟩ := h
  have hi' : i < n := by rw [← hlength]; exact (List.getElem?_eq_some_iff.mp hi).1
  have hj' : j < n := by rw [← hlength]; exact (List.getElem?_eq_some_iff.mp hj).1
  obtain rfl := Option.some.inj (hi.symm.trans (hpacket ⟨i, hi'⟩))
  obtain rfl := Option.some.inj (hj.symm.trans (hpacket ⟨j, hj'⟩))
  have hsame : number ⟨i, hi'⟩ = number ⟨j, hj'⟩ := by
    apply hunique
    rw [(hcarries ⟨j, hj'⟩).unique hq]
    exact hp
  exact hne (congrArg Fin.val (hinjective hsame))

/-! ### What the check is right about -/

/-- **Where the check is right**, once every send has returned: about all numbers
exactly if the counter has not wrapped and sends have not nested; and if they have not
nested, about every number before a wrap, and about all but two after one, that of the
next ping, which it takes for one that was sent, and that of the 120th last, which it
takes for one that was not. -/
theorem validateSequenceNumber_sent (order : ByteOrder) (hostName : String)
    (identifier : UInt16) {s : Sender} (h : (sender order hostName identifier).Reachable s)
    (hpending : s.pending = 0) :
    ((∀ number, (s.ping.validateSequenceNumber number = true ↔
        ∃ packet ∈ s.recentPings, CarriesSequenceNumber number packet)) ∧
      s.ping.validateSequenceNumber s.ping.nextSequenceNumber = false ↔
        s.pings.length ≤ 65535 ∧
          (sender order hostName identifier).ReachWhile Sender.OneAtATime s) ∧
    ((sender order hostName identifier).ReachWhile Sender.OneAtATime s → ∀ number,
      ((s.ping.validateSequenceNumber number = true ↔
          ∃ packet ∈ s.recentPings, CarriesSequenceNumber number packet) ↔
        s.pings.length ≤ 65535 ∨
          number ≠ UInt16.ofNat s.pings.length ∧
            number ≠ UInt16.ofNat (s.pings.length - 120))) := by
  obtain ⟨n, hn⟩ := counted_of_reachable h
  have hlength : s.pings.length = n := by rw [hn.length_eq, hpending, Nat.add_zero]
  have hnext : s.ping.validateSequenceNumber s.ping.nextSequenceNumber = false ↔ n ≤ 65535 := by
    rw [← Bool.not_eq_true, validateSequenceNumber_iff hn, hn.next_eq, UInt16.toNat_ofNat']
    split
    next => omega
    next => omega
  have hordered : (sender order hostName identifier).ReachWhile Sender.OneAtATime s → ∀ number,
      ((s.ping.validateSequenceNumber number = true ↔
          ∃ packet ∈ s.recentPings, CarriesSequenceNumber number packet) ↔
        n ≤ 65535 ∨ number ≠ UInt16.ofNat n ∧ number ≠ UInt16.ofNat (n - 120)) := by
    intro hreach number
    have hnumber := number.toNat_lt
    rw [validateSequenceNumber_iff hn, exists_recent_iff (inOrder_of_reachWhile hreach) hlength,
      ← UInt16.toNat_inj.ne, ← UInt16.toNat_inj.ne, UInt16.toNat_ofNat', UInt16.toNat_ofNat']
    split
    next => omega
    next => omega
  rw [hlength]
  refine ⟨⟨?_, ?_⟩, hordered⟩
  · rintro ⟨hexact, hnone⟩
    have hfew := hnext.mp hnone
    refine ⟨hfew, (reachWhile_or_repeats h).resolve_right fun hrepeats => ?_⟩
    rw [Sender.recentPings, hlength, if_pos hfew] at hexact
    exact hrepeats.not_exact hn hlength hfew hexact
  · rintro ⟨hfew, hreach⟩
    exact ⟨fun number => (hordered hreach number).mpr (.inl hfew), hnext.mpr hfew⟩

/-- The two edges after 65536 sends: the next ping has the number `0`, which was not
sent among the last 120, and the 120th last had the number `65416`. -/
theorem validateSequenceNumber_wrapped :
    ∃ s, (sender .little "localhost" 0x1234).ReachWhile Sender.OneAtATime s ∧
      s.pending = 0 ∧ s.pings.length = 65536 ∧ s.ping.nextSequenceNumber = 0 ∧
      (s.ping.validateSequenceNumber 0 = true ∧
        ¬∃ packet ∈ s.recentPings, CarriesSequenceNumber 0 packet) ∧
      (s.ping.validateSequenceNumber 65416 = false ∧
        ∃ packet ∈ s.recentPings, CarriesSequenceNumber 65416 packet) := by
  obtain ⟨s, hs, hlength, hpending, -⟩ := exists_sends .little "localhost" 0x1234 65536
  obtain ⟨n, hn⟩ := counted_of_reachable hs.reachable
  have hn' : n = 65536 := by rw [← hlength, hn.length_eq, hpending, Nat.add_zero]
  subst hn'
  have horder := inOrder_of_reachWhile hs
  refine ⟨s, hs, hpending, hlength, hn.next_eq, ?_, ?_⟩
  · rw [exists_recent_iff horder hlength, validateSequenceNumber_iff hn]
    decide
  · rw [exists_recent_iff horder hlength, ← Bool.not_eq_true, validateSequenceNumber_iff hn]
    decide

/-- After 70000 sends, away from the edges. -/
theorem validateSequenceNumber_sent_seventy_thousand :
    ∃ s, (sender .little "localhost" 0x1234).Reachable s ∧
      s.pending = 0 ∧ s.pings.length = 70000 ∧
      (s.ping.validateSequenceNumber 4400 = true ↔
        ∃ packet ∈ s.recentPings, CarriesSequenceNumber 4400 packet) := by
  obtain ⟨s, hs, hlength, hpending, -⟩ := exists_sends .little "localhost" 0x1234 70000
  have hsent := (validateSequenceNumber_sent .little "localhost" 0x1234 hs.reachable hpending).2
    hs 4400
  rw [hlength] at hsent
  exact ⟨s, hs.reachable, hpending, hlength, hsent.mpr (by decide)⟩

end LANScan
