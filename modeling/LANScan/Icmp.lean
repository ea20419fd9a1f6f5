import Mathlib.Algebra.GroupWithZero.Nat
import Mathlib.Data.List.Basic

/-!
# Packets and the checksum

Packets are lists of bytes.  Every access checks its index and every sum its range,
so a function that leaves its buffer or overflows its accumulator gives a `Fault`.
The byte order of the machine shows in 16-bit loads and stores only; it is a
parameter.

## Main definitions

* `Fault`, `ByteOrder`, `load16`, `store16`.
* `readByte`, `read16`, `write16` — checked accesses.
* `inCksum` — the checksum.
* `icmpHeaderOffsetInIPv4Packet` — where the ICMP header starts.

## Main results

* `swapBigToHost_load16`, `store16_swapHostToBig` — swapping makes the wire format
  big-endian on either machine.
* `write16_load16` — writing back what was read restores a packet.
* `sumWords_eq`, `sumWords_take` — the loop of the checksum adds the words of the buffer.
* `icmpHeaderOffsetInIPv4Packet_spec` — no fault, and room for an ICMP header.
-/

namespace LANScan

/-- What a C function must not do. -/
inductive Fault
  /-- An access outside a buffer. -/
  | outOfBounds
  /-- A signed addition out of range. -/
  | overflow
  /-- An assertion that does not hold. -/
  | assertion
  deriving DecidableEq, Repr

/-- Going on after a result. -/
@[simp] theorem ok_bind {β γ : Type} (x : β) (f : β → Except Fault γ) :
    (Except.ok x >>= f) = f x := rfl

/-- A result of two steps is a result of the first and one of the second. -/
theorem bind_eq_ok {β γ : Type} {x : Except Fault β} {f : β → Except Fault γ} {r : γ} :
    (x >>= f) = .ok r ↔ ∃ a, x = .ok a ∧ f a = .ok r := by
  cases x with
  | error e => simp [bind, Except.bind]
  | ok a => simp

/-! ### Byte order -/

/-- The byte order of the machine. -/
inductive ByteOrder
  | little
  | big
  deriving DecidableEq, Repr

/-- The 16-bit unit stored as the two bytes. -/
def load16 : ByteOrder → UInt8 → UInt8 → UInt16
  | .little, b₀, b₁ => UInt16.ofNat (b₀.toNat + 256 * b₁.toNat)
  | .big, b₀, b₁ => UInt16.ofNat (256 * b₀.toNat + b₁.toNat)

/-- The two bytes a 16-bit unit is stored as. -/
def store16 : ByteOrder → UInt16 → UInt8 × UInt8
  | .little, v => (UInt8.ofNat v.toNat, UInt8.ofNat (v.toNat / 256))
  | .big, v => (UInt8.ofNat (v.toNat / 256), UInt8.ofNat v.toNat)

/-- Exchanging the two bytes of a 16-bit unit. -/
def swap16 (v : UInt16) : UInt16 := UInt16.ofNat (256 * (v.toNat % 256) + v.toNat / 256)

/-- `OSSwapHostToBigInt16`. -/
def swapHostToBig : ByteOrder → UInt16 → UInt16
  | .little, v => swap16 v
  | .big, v => v

/-- `OSSwapBigToHostInt16`. -/
def swapBigToHost : ByteOrder → UInt16 → UInt16
  | .little, v => swap16 v
  | .big, v => v

theorem ofNat_eq_ofNat {m n : ℕ} (h : m % 256 = n % 256) : UInt8.ofNat m = UInt8.ofNat n := by
  apply UInt8.toNat_inj.mp
  rw [UInt8.toNat_ofNat', UInt8.toNat_ofNat']
  exact h

theorem ofNat_eq_byte {n : ℕ} {b : UInt8} (h : n % 256 = b.toNat) : UInt8.ofNat n = b := by
  apply UInt8.toNat_inj.mp
  rw [UInt8.toNat_ofNat']
  exact h

theorem toNat_load16_big (b₀ b₁ : UInt8) :
    (load16 .big b₀ b₁).toNat = 256 * b₀.toNat + b₁.toNat := by
  have h₀ := b₀.toNat_lt
  have h₁ := b₁.toNat_lt
  rw [load16, UInt16.toNat_ofNat']
  omega

theorem toNat_load16_little (b₀ b₁ : UInt8) :
    (load16 .little b₀ b₁).toNat = b₀.toNat + 256 * b₁.toNat := by
  have h₀ := b₀.toNat_lt
  have h₁ := b₁.toNat_lt
  rw [load16, UInt16.toNat_ofNat']
  omega

theorem toNat_swap16 (v : UInt16) : (swap16 v).toNat = 256 * (v.toNat % 256) + v.toNat / 256 := by
  have h := v.toNat_lt
  rw [swap16, UInt16.toNat_ofNat']
  omega

/-- A swapped load reads the bytes as a big-endian number. -/
theorem swapBigToHost_load16 (order : ByteOrder) (b₀ b₁ : UInt8) :
    swapBigToHost order (load16 order b₀ b₁) = load16 .big b₀ b₁ := by
  cases order with
  | little =>
    have h₀ := b₀.toNat_lt
    have h₁ := b₁.toNat_lt
    apply UInt16.toNat_inj.mp
    rw [swapBigToHost, toNat_swap16, toNat_load16_little, toNat_load16_big]
    omega
  | big => rfl

/-- A swapped store writes the bytes of a big-endian number. -/
theorem store16_swapHostToBig (order : ByteOrder) (v : UInt16) :
    store16 order (swapHostToBig order v) = store16 .big v := by
  cases order with
  | little =>
    have h := v.toNat_lt
    have hhigh : v.toNat / 256 < 256 := by omega
    have hdiv : (256 * (v.toNat % 256) + v.toNat / 256) / 256 = v.toNat % 256 := by
      rw [Nat.mul_add_div (by decide), Nat.div_eq_of_lt hhigh, Nat.add_zero]
    rw [swapHostToBig, store16, store16, toNat_swap16, hdiv, Prod.mk.injEq]
    exact ⟨ofNat_eq_ofNat (by omega), ofNat_eq_ofNat (by omega)⟩
  | big => rfl

/-- Storing what was loaded gives the same bytes. -/
theorem store16_load16 (order : ByteOrder) (b₀ b₁ : UInt8) :
    store16 order (load16 order b₀ b₁) = (b₀, b₁) := by
  have h₀ := b₀.toNat_lt
  have h₁ := b₁.toNat_lt
  cases order with
  | little =>
    rw [store16, toNat_load16_little, Prod.mk.injEq]
    exact ⟨ofNat_eq_byte (by omega), ofNat_eq_byte (by omega)⟩
  | big =>
    rw [store16, toNat_load16_big, Prod.mk.injEq]
    exact ⟨ofNat_eq_byte (by omega), ofNat_eq_byte (by omega)⟩

/-- Loading what was stored gives the same unit. -/
theorem load16_store16 (order : ByteOrder) (v : UInt16) :
    load16 order (store16 order v).1 (store16 order v).2 = v := by
  have h := v.toNat_lt
  apply UInt16.toNat_inj.mp
  cases order with
  | little =>
    rw [toNat_load16_little, store16, UInt8.toNat_ofNat', UInt8.toNat_ofNat']
    omega
  | big =>
    rw [toNat_load16_big, store16, UInt8.toNat_ofNat', UInt8.toNat_ofNat']
    omega

/-- A load is a swapped unit exactly if the bytes spell the unit in network byte
order. -/
theorem load16_eq_swapHostToBig {order : ByteOrder} {b₀ b₁ : UInt8} {v : UInt16} :
    load16 order b₀ b₁ = swapHostToBig order v ↔ load16 .big b₀ b₁ = v := by
  constructor
  · intro h
    have hstore : (b₀, b₁) = store16 .big v := by
      rw [← store16_load16 order b₀ b₁, h, store16_swapHostToBig]
    rw [← load16_store16 .big v, ← hstore]
  · rintro rfl
    rw [← load16_store16 order (swapHostToBig order _), store16_swapHostToBig, store16_load16]

/-! ### Checked accesses -/

/-- A byte of a packet. -/
def readByte (packet : List UInt8) (i : ℕ) : Except Fault UInt8 :=
  match packet[i]? with
  | some b => .ok b
  | none => .error .outOfBounds

/-- A field of two bytes, in the byte order of the machine. -/
def read16 (order : ByteOrder) (packet : List UInt8) (i : ℕ) : Except Fault UInt16 := do
  let b₀ ← readByte packet i
  let b₁ ← readByte packet (i + 1)
  return load16 order b₀ b₁

/-- A packet with such a field overwritten. -/
def write16 (order : ByteOrder) (packet : List UInt8) (i : ℕ) (v : UInt16) :
    Except Fault (List UInt8) :=
  if i + 1 < packet.length then
    .ok ((packet.set i (store16 order v).1).set (i + 1) (store16 order v).2)
  else .error .outOfBounds

theorem readByte_eq {packet : List UInt8} {i : ℕ} (h : i < packet.length) :
    readByte packet i = .ok packet[i] := by
  rw [readByte, List.getElem?_eq_getElem h]

theorem read16_eq {order : ByteOrder} {packet : List UInt8} {i : ℕ} (h : i + 1 < packet.length) :
    read16 order packet i = .ok (load16 order packet[i] packet[i + 1]) := by
  rw [read16, readByte_eq (by omega), readByte_eq h]
  rfl

theorem write16_eq {order : ByteOrder} {packet : List UInt8} {i : ℕ} (v : UInt16)
    (h : i + 1 < packet.length) :
    write16 order packet i v =
      .ok ((packet.set i (store16 order v).1).set (i + 1) (store16 order v).2) := if_pos h

/-- Writing back what was read restores the packet. -/
theorem write16_load16 {order : ByteOrder} {packet : List UInt8} {i : ℕ} (b₀ b₁ : UInt8)
    (h : i + 1 < packet.length) :
    write16 order ((packet.set i b₀).set (i + 1) b₁) i (load16 order packet[i] packet[i + 1]) =
      .ok packet := by
  rw [write16_eq _ (by simpa using h), store16_load16]
  congr 1
  apply List.ext_getElem
  · simp
  · intro j hj _
    simp only [List.getElem_set]
    split
    next hi => simp only [hi]
    next =>
      split
      next hi => simp only [hi]
      next => rfl

/-- Writing behind what is in front leaves the front alone. -/
theorem write16_append {order : ByteOrder} {packet written : List UInt8} {i : ℕ} {v : UInt16}
    (front : List UInt8) (h : write16 order packet i v = .ok written) :
    write16 order (front ++ packet) (front.length + i) v = .ok (front ++ written) := by
  have hlen : i + 1 < packet.length := by
    by_contra hshort
    rw [write16, if_neg hshort] at h
    cases h
  rw [write16_eq v hlen] at h
  obtain rfl := Except.ok.inj h
  rw [write16_eq v (by rw [List.length_append]; omega),
    List.set_append_right _ _ (by omega), List.set_append_right _ _ (by omega),
    Nat.add_sub_cancel_left, Nat.add_assoc, Nat.add_sub_cancel_left]

/-! ### The checksum -/

/-- Addition to a signed 32-bit accumulator that is not negative. -/
def addInt32 (sum word : ℕ) : Except Fault ℕ :=
  if sum + word < 2 ^ 31 then .ok (sum + word) else .error .overflow

/-- The loop over the words, with `bytesLeft`, the cursor and the sum so far; a last
odd byte is padded with a zero. -/
def sumWords (order : ByteOrder) : ℕ → List UInt8 → ℕ → Except Fault ℕ
  | bytesLeft + 2, b₀ :: b₁ :: cursor, sum => do
    let sum ← addInt32 sum (load16 order b₀ b₁).toNat
    sumWords order bytesLeft cursor sum
  | 1, b :: _, sum => addInt32 sum (load16 order b 0).toNat
  | 0, _, sum => .ok sum
  | _, _, _ => .error .outOfBounds

/-- `in_cksum`. -/
def inCksum (order : ByteOrder) (buffer : List UInt8) (bufferLen : ℕ) : Except Fault UInt16 := do
  let sum ← sumWords order bufferLen buffer 0
  let sum := sum / 2 ^ 16 + sum % 2 ^ 16
  let sum := sum + sum / 2 ^ 16
  return ~~~UInt16.ofNat sum

theorem toNat_load16_lt (order : ByteOrder) (b₀ b₁ : UInt8) : (load16 order b₀ b₁).toNat < 2 ^ 16 :=
  (load16 order b₀ b₁).toNat_lt

/-- The 16-bit words of a message; a last odd byte is padded with a zero. -/
def words (order : ByteOrder) : List UInt8 → List ℕ
  | b₀ :: b₁ :: bytes => (load16 order b₀ b₁).toNat :: words order bytes
  | [b] => [(load16 order b 0).toNat]
  | [] => []

theorem le_of_mem_words (order : ByteOrder) : ∀ {bytes : List UInt8}, ∀ w ∈ words order bytes,
    w ≤ 65535
  | b₀ :: b₁ :: _, w, hw => by
    rcases List.mem_cons.mp hw with rfl | hw
    · exact Nat.le_of_lt_succ (toNat_load16_lt order b₀ b₁)
    · exact le_of_mem_words order w hw
  | [b], w, hw => by
    obtain rfl := List.mem_singleton.mp hw
    exact Nat.le_of_lt_succ (toNat_load16_lt order b 0)

/-- The sum of the words is at most what as many words of the largest value give. -/
theorem sum_words_le (order : ByteOrder) : ∀ bytes : List UInt8,
    (words order bytes).sum ≤ (bytes.length + 1) / 2 * 65535
  | b₀ :: b₁ :: bytes => by
    have hword := toNat_load16_lt order b₀ b₁
    have hrest := sum_words_le order bytes
    rw [words, List.sum_cons, List.length_cons, List.length_cons]
    omega
  | [b] => by
    have hword := toNat_load16_lt order b 0
    rw [words, List.sum_singleton, List.length_singleton]
    omega
  | [] => Nat.zero_le _

/-- **The loop adds the words**, inside the buffer and without an overflow as long as
their sum stays below `2 ^ 31`. -/
theorem sumWords_eq (order : ByteOrder) : ∀ (bytesLeft : ℕ) (cursor : List UInt8) (sum : ℕ),
    bytesLeft ≤ cursor.length → sum + (words order (cursor.take bytesLeft)).sum < 2 ^ 31 →
      sumWords order bytesLeft cursor sum =
        .ok (sum + (words order (cursor.take bytesLeft)).sum)
  | 0, _, _, _, _ => by rw [sumWords]; rfl
  | 1, b :: cursor, sum, _, hsum => by
    have hwords : (words order ((b :: cursor).take 1)).sum = (load16 order b 0).toNat :=
      List.sum_singleton
    rw [hwords] at hsum ⊢
    rw [sumWords, addInt32, if_pos hsum]
  | bytesLeft + 2, b₀ :: b₁ :: cursor, sum, hlen, hsum => by
    rw [List.length_cons, List.length_cons] at hlen
    rw [List.take_succ_cons, List.take_succ_cons, words, List.sum_cons, ← Nat.add_assoc]
      at hsum ⊢
    rw [sumWords, addInt32, if_pos (by omega), ok_bind]
    exact sumWords_eq order bytesLeft cursor _ (by omega) hsum
  | 1, [], _, hlen, _ => absurd hlen (by simp)
  | _ + 2, [], _, hlen, _ => absurd hlen (by simp)
  | _ + 2, [_], _, hlen, _ => absurd hlen (by simp)

/-- The sum over the first bytes of a packet is far enough from `2 ^ 31`. -/
theorem sum_words_take_lt (order : ByteOrder) (buffer : List UInt8) {bufferLen : ℕ}
    (hmax : bufferLen ≤ 65535) : (words order (buffer.take bufferLen)).sum < 2 ^ 31 := by
  have hsum := sum_words_le order (buffer.take bufferLen)
  have hlen := List.length_take_le bufferLen buffer
  omega

/-- **The loop over the first bytes of a packet.** -/
theorem sumWords_take (order : ByteOrder) {buffer : List UInt8} {bufferLen : ℕ}
    (hlen : bufferLen ≤ buffer.length) (hmax : bufferLen ≤ 65535) :
    sumWords order bufferLen buffer 0 = .ok (words order (buffer.take bufferLen)).sum := by
  have hsum := sum_words_take_lt order buffer hmax
  rw [sumWords_eq order bufferLen buffer 0 hlen (by rw [Nat.zero_add]; exact hsum), Nat.zero_add]

/-! ### The IPv4 header -/

/-- The length of an IPv4 header without options. -/
def sizeofIPv4Header : ℕ := 20

/-- The length of an ICMP header. -/
def sizeofICMPHeader : ℕ := 8

/-- The protocol number of ICMP in an IPv4 header. -/
def protocolICMP : UInt8 := 1

/-- The offset of the ICMP header; `none` is `NSNotFound`. -/
def icmpHeaderOffsetInIPv4Packet (packet : List UInt8) : Except Fault (Option ℕ) := do
  if packet.length ≥ sizeofIPv4Header + sizeofICMPHeader then
    let versionAndHeaderLength ← readByte packet 0
    let protocol ← readByte packet 9
    if versionAndHeaderLength &&& 0xF0 = 0x40 ∧ protocol = protocolICMP then
      let ipHeaderLength := (versionAndHeaderLength &&& 0x0F).toNat * 4
      if packet.length ≥ ipHeaderLength + sizeofICMPHeader then
        return some ipHeaderLength
  return none

/-- **No fault, and an ICMP header fits after the offset**, which is the one that the
first byte says. -/
theorem icmpHeaderOffsetInIPv4Packet_spec (packet : List UInt8) :
    icmpHeaderOffsetInIPv4Packet packet = .ok none ∨
      ∃ offset, icmpHeaderOffsetInIPv4Packet packet = .ok (some offset) ∧
        offset + sizeofICMPHeader ≤ packet.length ∧
        ∃ b ∈ packet.head?, offset = (b &&& 0x0F).toNat * 4 := by
  unfold icmpHeaderOffsetInIPv4Packet
  split
  next hlen =>
    have h₀ : 0 < packet.length := by simp only [sizeofIPv4Header] at hlen; omega
    have h₉ : 9 < packet.length := by simp only [sizeofIPv4Header] at hlen; omega
    rw [readByte_eq h₀, readByte_eq h₉, ok_bind, ok_bind]
    split
    next =>
      dsimp only
      split
      next hfits =>
        refine Or.inr ⟨_, rfl, hfits, packet[0], ?_, rfl⟩
        rw [List.head?_eq_getElem?, List.getElem?_eq_getElem h₀]
        rfl
      next => exact Or.inl rfl
    next => exact Or.inl rfl
  next => exact Or.inl rfl

end LANScan
