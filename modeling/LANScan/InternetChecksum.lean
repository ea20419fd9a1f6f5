import LANScan.Icmp
import LANScan.OnesComplement

/-!
# The Internet checksum

What `inCksum` computes: the complement of the one's-complement sum of the big-endian
16-bit words of a message.  The words it adds are those of the machine; the two bytes
its answer is stored as are the same on either machine.

## Main definitions

* `onesComplementSum`, `internetChecksum` — the sum and the checksum of a message.

## Main results

* `words_little` — the words of one byte order are those of the other, swapped.
* `inCksum_eq` — **the answer is the Internet checksum in network byte order.**
* `onesComplementSum_write16` — storing the checksum completes the sum to `0xFFFF`.
* `inCksum_isInternetChecksum` — all of it for every buffer of up to 65535 bytes.
-/

namespace LANScan

/-! ### The sum of a message -/

/-- The one's-complement sum of the words of a message, in network byte order. -/
def onesComplementSum (bytes : List UInt8) : ℕ := OnesComplement.sum 65535 (words .big bytes)

/-- The checksum that the sum of a message has to be completed with. -/
def internetChecksum (bytes : List UInt8) : UInt16 := ~~~UInt16.ofNat (onesComplementSum bytes)

theorem onesComplementSum_le (bytes : List UInt8) : onesComplementSum bytes ≤ 65535 :=
  OnesComplement.sum_le (le_of_mem_words .big)

theorem toNat_internetChecksum (bytes : List UInt8) :
    (internetChecksum bytes).toNat = 65535 - onesComplementSum bytes := by
  have hle := onesComplementSum_le bytes
  have hmod : onesComplementSum bytes % 2 ^ 16 = onesComplementSum bytes :=
    Nat.mod_eq_of_lt (Nat.lt_succ_of_le hle)
  rw [internetChecksum, UInt16.toNat_not, UInt16.toNat_ofNat', hmod]
  rfl

/-- Behind an even number of bytes the words start anew. -/
theorem words_append (order : ByteOrder) : ∀ {front : List UInt8} (back : List UInt8),
    front.length % 2 = 0 → words order (front ++ back) = words order front ++ words order back
  | [], _, _ => rfl
  | [_], _, heven => absurd heven (by simp)
  | b₀ :: b₁ :: front, back, heven => by
    have heven' : front.length % 2 = 0 := by
      rw [List.length_cons, List.length_cons] at heven
      omega
    rw [List.cons_append, List.cons_append, words, words, words_append order back heven',
      List.cons_append]

/-! ### Either byte order -/

theorem toNat_load16_little_eq (b₀ b₁ : UInt8) :
    (load16 .little b₀ b₁).toNat =
      OnesComplement.swapDigits 256 (load16 .big b₀ b₁).toNat := by
  have h₁ := b₁.toNat_lt
  rw [toNat_load16_little, toNat_load16_big, OnesComplement.swapDigits]
  omega

/-- **The words of one byte order are those of the other, swapped**, the padded one
included. -/
theorem words_little : ∀ bytes : List UInt8,
    words .little bytes = (words .big bytes).map (OnesComplement.swapDigits 256)
  | b₀ :: b₁ :: bytes => by
    rw [words, words, List.map_cons, toNat_load16_little_eq, words_little bytes]
  | [b] => by rw [words, words, List.map_singleton, toNat_load16_little_eq]
  | [] => rfl

/-- Complementing commutes with swapping. -/
theorem complement_swapDigits {s : ℕ} (hs : s ≤ 65535) :
    ~~~UInt16.ofNat (OnesComplement.swapDigits 256 s) = swap16 (~~~UInt16.ofNat s) := by
  have hswap : OnesComplement.swapDigits 256 s < 2 ^ 16 :=
    Nat.lt_succ_of_le (OnesComplement.swapDigits_le rfl hs)
  have hmod : s % 2 ^ 16 = s := Nat.mod_eq_of_lt (Nat.lt_succ_of_le hs)
  apply UInt16.toNat_inj.mp
  rw [toNat_swap16, UInt16.toNat_not, UInt16.toNat_not, UInt16.toNat_ofNat', UInt16.toNat_ofNat',
    hmod, Nat.mod_eq_of_lt hswap, OnesComplement.swapDigits]
  show 65535 - _ = 256 * ((65535 - s) % 256) + (65535 - s) / 256
  omega

/-- The complement of the sum of the machine's words is the checksum, swapped to what
the machine stores as network byte order. -/
theorem complement_sum_words (order : ByteOrder) (bytes : List UInt8) :
    ~~~UInt16.ofNat (OnesComplement.sum 65535 (words order bytes)) =
      swapHostToBig order (internetChecksum bytes) := by
  cases order with
  | big => rfl
  | little =>
    rw [words_little, OnesComplement.sum_map_swapDigits rfl (le_of_mem_words .big)]
    exact complement_swapDigits (onesComplementSum_le bytes)

/-! ### The loop and the folds -/

theorem sumWords_length {order : ByteOrder} {buffer : List UInt8}
    (hmax : buffer.length ≤ 65535) :
    sumWords order buffer.length buffer 0 = .ok (words order buffer).sum := by
  rw [sumWords_take order (Nat.le_refl _) hmax, List.take_length]

/-- The loop goes on with what the first iterations leave. -/
theorem sumWords_add (order : ByteOrder) (bytesLeft : ℕ) : ∀ (k : ℕ) {cursor : List UInt8}
    (sum : ℕ), 2 * k ≤ cursor.length →
      sumWords order (2 * k + bytesLeft) cursor sum =
        sumWords order (2 * k) cursor sum >>= sumWords order bytesLeft (cursor.drop (2 * k))
  | 0, cursor, sum, _ => by
    rw [Nat.mul_zero, Nat.zero_add, sumWords, ok_bind, List.drop_zero]
  | k + 1, b₀ :: b₁ :: cursor, sum, hlen => by
    rw [List.length_cons, List.length_cons] at hlen
    have hsplit : 2 * (k + 1) + bytesLeft = 2 * k + bytesLeft + 2 := by omega
    have hsucc : 2 * (k + 1) = 2 * k + 2 := by omega
    rw [hsplit, hsucc, sumWords, sumWords, List.drop_succ_cons, List.drop_succ_cons]
    unfold addInt32
    split
    next =>
      rw [ok_bind, ok_bind]
      exact sumWords_add order bytesLeft k _ (by omega)
    next => rfl
  | _ + 1, [], _, hlen => absurd hlen (by simp)
  | _ + 1, [_], _, hlen => absurd hlen (by simp; omega)

/-- **At every iteration the accumulator is in range.** -/
theorem exists_sumWords_iteration (order : ByteOrder) {buffer : List UInt8}
    (hmax : buffer.length ≤ 65535) {k : ℕ} (hk : 2 * k ≤ buffer.length) :
    ∃ sum, sumWords order (2 * k) buffer 0 = .ok sum ∧ sum ≤ 2 ^ 31 - 1 ∧
      sumWords order buffer.length buffer 0 =
        sumWords order (buffer.length - 2 * k) (buffer.drop (2 * k)) sum := by
  have hmax' : 2 * k ≤ 65535 := Nat.le_trans hk hmax
  have hsteps := sumWords_take order hk hmax'
  refine ⟨_, hsteps, Nat.le_sub_one_of_lt (sum_words_take_lt order buffer hmax'), ?_⟩
  have hadd := sumWords_add order (buffer.length - 2 * k) k 0 hk
  rw [Nat.add_sub_cancel' hk, hsteps, ok_bind] at hadd
  exact hadd

/-- **Two folds leave the one's-complement sum** in the low 16 bits. -/
theorem folds_sum_words (order : ByteOrder) {buffer : List UInt8}
    (hmax : buffer.length ≤ 65535) {sum folded : ℕ} (hsum : sum = (words order buffer).sum)
    (hfolded : folded = sum / 2 ^ 16 + sum % 2 ^ 16) :
    (folded + folded / 2 ^ 16) % 2 ^ 16 = OnesComplement.sum 65535 (words order buffer) := by
  have hlt := sum_words_take_lt order buffer hmax
  rw [List.take_length, ← hsum] at hlt
  rw [OnesComplement.sum_eq_norm (le_of_mem_words order), ← hsum]
  exact OnesComplement.two_folds hfolded (by omega)

/-- **The answer is the Internet checksum in network byte order.** -/
theorem inCksum_eq (order : ByteOrder) {buffer : List UInt8} (hmax : buffer.length ≤ 65535) :
    inCksum order buffer buffer.length =
      .ok (swapHostToBig order (internetChecksum buffer)) := by
  rw [inCksum, sumWords_length hmax, ok_bind, ← complement_sum_words,
    ← folds_sum_words order hmax rfl rfl, UInt16.ofNat_mod_size]
  rfl

/-! ### Storing the answer -/

/-- A zeroed field at an even offset splits a message. -/
theorem exists_zeroed_split {buffer : List UInt8} {i : ℕ} (h₀ : buffer[i]? = some 0)
    (h₁ : buffer[i + 1]? = some 0) :
    ∃ front back, buffer = front ++ 0 :: 0 :: back ∧ front.length = i := by
  obtain ⟨hi, hb₀⟩ := List.getElem?_eq_some_iff.mp h₀
  obtain ⟨hi', hb₁⟩ := List.getElem?_eq_some_iff.mp h₁
  refine ⟨buffer.take i, buffer.drop (i + 2), ?_, List.length_take_of_le (by omega)⟩
  calc buffer
      = buffer.take i ++ buffer[i] :: buffer[i + 1] :: buffer.drop (i + 2) := by
        rw [← List.drop_eq_getElem_cons hi', ← List.drop_eq_getElem_cons hi,
          List.take_append_drop]
    _ = buffer.take i ++ 0 :: 0 :: buffer.drop (i + 2) := by rw [hb₀, hb₁]

/-- **Storing the checksum in a zeroed field completes the sum to `0xFFFF`.** -/
theorem onesComplementSum_write16 (order : ByteOrder) {buffer : List UInt8} {i : ℕ}
    (heven : i % 2 = 0) (h₀ : buffer[i]? = some 0) (h₁ : buffer[i + 1]? = some 0) :
    ∃ stored, write16 order buffer i (swapHostToBig order (internetChecksum buffer)) = .ok stored ∧
      onesComplementSum stored = 0xFFFF := by
  obtain ⟨front, back, hbuffer, rfl⟩ := exists_zeroed_split h₀ h₁
  set checksum := internetChecksum buffer with hchecksum
  have hwrite : write16 order (0 :: 0 :: back) 0 (swapHostToBig order checksum) =
      .ok ((store16 .big checksum).1 :: (store16 .big checksum).2 :: back) := by
    rw [write16_eq _ (by simp), store16_swapHostToBig]
    rfl
  refine ⟨_, by rw [hbuffer]; exact write16_append front hwrite, ?_⟩
  -- the word that is stored is the complement of the sum with a zero in its place
  have hword : words .big ((store16 .big checksum).1 :: (store16 .big checksum).2 :: back) =
      (65535 - OnesComplement.sum 65535 (words .big front ++ 0 :: words .big back)) ::
        words .big back := by
    rw [words, load16_store16, hchecksum, toNat_internetChecksum, onesComplementSum, hbuffer,
      words_append .big _ heven]
    rfl
  rw [onesComplementSum, words_append .big _ heven, hword]
  exact OnesComplement.sum_complement (le_of_mem_words .big) (le_of_mem_words .big)

/-- **The checksum is right up to the largest packet**: the accumulator stays in range
at every iteration and in the folds, the folds lose no carry, and on either machine the
bytes stored are the Internet checksum, which completes the sum of the message. -/
theorem inCksum_isInternetChecksum (order : ByteOrder) {buffer : List UInt8}
    (hmax : buffer.length ≤ 65535) :
    (∀ k, 2 * k ≤ buffer.length →
      ∃ sum, sumWords order (2 * k) buffer 0 = .ok sum ∧ sum ≤ 2 ^ 31 - 1 ∧
        sumWords order buffer.length buffer 0 =
          sumWords order (buffer.length - 2 * k) (buffer.drop (2 * k)) sum) ∧
    (∃ sum folded, sumWords order buffer.length buffer 0 = .ok sum ∧ sum ≤ 2 ^ 31 - 1 ∧
      folded = sum / 2 ^ 16 + sum % 2 ^ 16 ∧ folded + folded / 2 ^ 16 ≤ 2 ^ 31 - 1 ∧
      (folded + folded / 2 ^ 16) % 2 ^ 16 = OnesComplement.sum 65535 (words order buffer)) ∧
    ∃ answer, inCksum order buffer buffer.length = .ok answer ∧
      store16 order answer = store16 .big (internetChecksum buffer) ∧
      ∀ i, i % 2 = 0 → buffer[i]? = some 0 → buffer[i + 1]? = some 0 →
        ∃ stored, write16 order buffer i answer = .ok stored ∧
          onesComplementSum stored = 0xFFFF := by
  have hsum := sum_words_take_lt order buffer hmax
  rw [List.take_length] at hsum
  exact ⟨fun k hk => exists_sumWords_iteration order hmax hk,
    ⟨_, _, sumWords_length hmax, Nat.le_sub_one_of_lt hsum, rfl, by omega,
      folds_sum_words order hmax rfl rfl⟩,
    _, inCksum_eq order hmax, store16_swapHostToBig order _,
    fun i heven h₀ h₁ => onesComplementSum_write16 order heven h₀ h₁⟩

/-- The checksum of a message of seven bytes on a little-endian machine. -/
theorem inCksum_isInternetChecksum_seven :
    [0, 0, 0, 0, 0x12, 0x34, (0xFF : UInt8)].length ≤ 65535 ∧
      ∃ answer, inCksum .little [0, 0, 0, 0, 0x12, 0x34, 0xFF] 7 = .ok answer ∧
        store16 .little answer = (0xEE, 0xCA) ∧
        ∃ stored, write16 .little [0, 0, 0, 0, 0x12, 0x34, 0xFF] 2 answer = .ok stored ∧
          onesComplementSum stored = 0xFFFF := by
  obtain ⟨-, -, answer, hanswer, hstore, hfield⟩ :=
    @inCksum_isInternetChecksum .little [0, 0, 0, 0, 0x12, 0x34, 0xFF] (by decide)
  exact ⟨by decide, answer, hanswer, hstore.trans (by decide), hfield 2 rfl rfl rfl⟩

end LANScan
