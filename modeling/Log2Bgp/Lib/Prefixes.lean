import Log2Bgp.Lib.Bytes

/-!
# Addresses as numbers

The order of addresses in memory, and the ranges of those that begin with the same bits.
-/

namespace Log2Bgp.Lib

/-! ## Order -/

theorem leNat_append (xs ys : List UInt8) :
    leNat (xs ++ ys) = leNat xs + 256 ^ xs.length * leNat ys := by
  induction xs with
  | nil => simp [leNat]
  | cons x xs ih =>
      simp only [List.cons_append, leNat, ih, List.length_cons, Nat.pow_succ', Nat.mul_add,
        Nat.mul_assoc, Nat.add_assoc]

theorem compare_toNat (x y : UInt8) : compare x y = compare x.toNat y.toNat := by
  rcases Nat.lt_trichotomy x.toNat y.toNat with h | h | h
  · rw [Nat.compare_eq_lt.mpr h, Std.compare_eq_lt.mpr (UInt8.lt_iff_toNat_lt.mpr h)]
  · rw [UInt8.toNat_inj.mp h, Std.compare_self, Std.compare_self]
  · rw [Nat.compare_eq_gt.mpr h, Std.compare_eq_gt.mpr (UInt8.lt_iff_toNat_lt.mpr h)]

theorem compare_add_mul {m r s : Nat} (hr : r < m) (hs : s < m) (a b : Nat) :
    compare (r + m * a) (s + m * b) = (compare a b).then (compare r s) := by
  rcases Nat.lt_trichotomy a b with h | h | h
  · have hm : m * (a + 1) ≤ m * b := Nat.mul_le_mul_left m h
    have hlt : r + m * a < s + m * b := by
      rw [Nat.mul_add] at hm
      omega
    rw [Nat.compare_eq_lt.mpr h, Nat.compare_eq_lt.mpr hlt, Ordering.lt_then]
  · rw [h, Std.compare_self, Ordering.eq_then]
    rcases Nat.lt_trichotomy r s with h | h | h
    · rw [Nat.compare_eq_lt.mpr h, Nat.compare_eq_lt.mpr (Nat.add_lt_add_right h _)]
    · rw [h, Std.compare_self, Std.compare_self]
    · rw [Nat.compare_eq_gt.mpr h, Nat.compare_eq_gt.mpr (Nat.add_lt_add_right h _)]
  · have hm : m * (b + 1) ≤ m * a := Nat.mul_le_mul_left m h
    have hlt : s + m * b < r + m * a := by
      rw [Nat.mul_add] at hm
      omega
    rw [Nat.compare_eq_gt.mpr h, Nat.compare_eq_gt.mpr hlt, Ordering.gt_then]

/-- Bytes of two numbers are in the order of the numbers that they spell, highest byte first. -/
theorem compare_bytes {xs ys : List UInt8} (h : xs.length = ys.length) :
    compare xs ys = compare (leNat xs.reverse) (leNat ys.reverse) := by
  induction xs generalizing ys with
  | nil =>
      cases ys with
      | nil => rfl
      | cons y ys => cases h
  | cons x xs ih =>
      cases ys with
      | nil => cases h
      | cons y ys =>
          have hl : xs.length = ys.length := by simpa using h
          have hxs := leNat_lt xs.reverse
          have hys := leNat_lt ys.reverse
          rw [List.length_reverse, hl] at hxs
          rw [List.length_reverse] at hys
          simp only [List.reverse_cons, leNat_append, List.length_reverse, hl, leNat, Nat.mul_zero,
            Nat.add_zero, List.compare_cons_cons, ih hl, compare_add_mul hxs hys, compare_toNat]

theorem toNat_ntohl (v : UInt32) : (ntohl v).toNat = leNat (memBytes v).reverse := by
  have hlt := leNat_lt (memBytes v).reverse
  rw [List.length_reverse, length_memBytes] at hlt
  simp only [ntohl, memWord, UInt32.toNat_ofNat', Nat.reducePow] at hlt ⊢
  omega

/-- `memcmp` compares the numbers that two words are in network order. -/
theorem memcmp_eq (v w : UInt32) : memcmp v w = compare (ntohl v).toNat (ntohl w).toNat := by
  rw [memcmp, compare_bytes (by simp), toNat_ntohl, toNat_ntohl]

theorem ntohl_inj {v w : UInt32} (h : (ntohl v).toNat = (ntohl w).toNat) : v = w := by
  rw [← htonl_ntohl v, UInt32.toNat_inj.mp h, htonl_ntohl]

/-! ## The first bits -/

/-- The first `n` bits of an address, as a number. -/
def firstBits (n : Nat) (v : UInt32) : Nat := (ntohl v).toNat / 2 ^ (32 - n)

theorem or_low (a k : Nat) : a ||| (2 ^ k - 1) = a / 2 ^ k * 2 ^ k + (2 ^ k - 1) := by
  have hlt : 2 ^ k - 1 < 2 ^ k := Nat.sub_one_lt (Nat.ne_of_gt (Nat.two_pow_pos k))
  rw [← Nat.shiftLeft_eq, Nat.shiftLeft_add_eq_or_of_lt hlt]
  apply Nat.eq_of_testBit_eq
  intro i
  simp only [Nat.testBit_or, Nat.testBit_two_pow_sub_one, Nat.testBit_shiftLeft,
    Nat.testBit_div_two_pow]
  by_cases hi : i < k
  · simp [hi]
  · simp [hi, Nat.not_lt.mp hi]

/-- What lies between a multiple of a power of two and the last number before the next multiple. -/
theorem between_iff {a k : Nat} (h : a % 2 ^ k = 0) (q : Nat) :
    a ≤ q ∧ q ≤ a ||| (2 ^ k - 1) ↔ a / 2 ^ k = q / 2 ^ k := by
  have hpos := Nat.two_pow_pos k
  have ha : a / 2 ^ k * 2 ^ k = a := Nat.div_mul_cancel (Nat.dvd_of_mod_eq_zero h)
  have hq := Nat.div_add_mod' q (2 ^ k)
  have hlow := Nat.mod_lt q hpos
  rw [or_low, ha]
  constructor
  · rintro ⟨hle, hge⟩
    symm
    apply (Nat.div_eq_iff hpos).mpr
    omega
  · intro heq
    rw [← heq, ha] at hq
    omega

/-! ## Ranges within blocks -/

section Aligned

variable {a b j k : Nat}

/-- A range that begins in a block of at least its size ends in it. -/
theorem aligned_within (hkj : k ≤ j) (ha : 2 ^ k ∣ a) (hb : 2 ^ j ∣ b) (hlt : a < b + 2 ^ j) : a + 2 ^ k ≤ b + 2 ^ j := by
  have hpow : 2 ^ k ∣ 2 ^ j := Nat.pow_dvd_pow 2 hkj
  refine Nat.le_of_lt_add_of_dvd (by omega) (Nat.dvd_add ha (Nat.dvd_refl _)) (Nat.dvd_add ?_ hpow)
  exact Nat.dvd_trans hpow hb

/-- A range that begins in a smaller block begins where the block does. -/
theorem aligned_start (hjk : j ≤ k) (ha : 2 ^ k ∣ a) (hb : 2 ^ j ∣ b) (hle : b ≤ a) (hlt : a < b + 2 ^ j) : a = b := by
  have hdvd : 2 ^ j ∣ a := Nat.dvd_trans (Nat.pow_dvd_pow 2 hjk) ha
  exact Nat.le_antisymm (Nat.le_of_lt_add_of_dvd hlt hdvd hb) hle

end Aligned

end Log2Bgp.Lib
