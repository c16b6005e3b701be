import Mathlib.Algebra.Group.Nat.Defs
import Mathlib.Tactic.Common

/-!
# Machine words as bytes

The bytes of a word in memory order on a little-endian host, and the words that big-endian
bytes on the wire spell.
-/

namespace Log2Bgp.Lib

/-! ## Numbers and their bytes -/

theorem toNat_pos {n : UInt8} (h : n ≠ 0) : 0 < n.toNat := by
  rcases Nat.eq_zero_or_pos n.toNat with h0 | h0
  · exact absurd (UInt8.toNat_inj.mp h0) h
  · exact h0

/-- The number that bytes spell, lowest byte first. -/
def leNat : List UInt8 → Nat
  | [] => 0
  | b :: bs => b.toNat + 256 * leNat bs

/-- The lowest `n` bytes of a number, lowest byte first. -/
def leBytes : Nat → Nat → List UInt8
  | 0, _ => []
  | n + 1, v => UInt8.ofNat v :: leBytes n (v / 256)

@[simp] theorem length_leBytes (n v : Nat) : (leBytes n v).length = n := by
  induction n generalizing v with
  | zero => rfl
  | succ n ih => simp [leBytes, ih]

theorem leNat_lt (bs : List UInt8) : leNat bs < 256 ^ bs.length := by
  induction bs with
  | nil => simp [leNat]
  | cons b bs ih =>
      have hb := b.toNat_lt
      simp only [leNat, List.length_cons, Nat.pow_succ]
      omega

theorem leNat_leBytes (n v : Nat) : leNat (leBytes n v) = v % 256 ^ n := by
  induction n generalizing v with
  | zero => simp [leBytes, leNat, Nat.mod_one]
  | succ n ih =>
      have hmod : v % 256 ^ (n + 1) = v % 256 + 256 * (v / 256 % 256 ^ n) := by
        rw [Nat.pow_succ, Nat.mul_comm, Nat.mod_mul]
      simp only [leBytes, leNat, ih, hmod, UInt8.toNat_ofNat', Nat.reducePow]

theorem leBytes_leNat (bs : List UInt8) : leBytes bs.length (leNat bs) = bs := by
  induction bs with
  | nil => rfl
  | cons b bs ih =>
      have hb := b.toNat_lt
      have hdiv : (b.toNat + 256 * leNat bs) / 256 = leNat bs := by omega
      have hlow : UInt8.ofNat (b.toNat + 256 * leNat bs) = b := by
        apply UInt8.toNat_inj.mp
        simp only [UInt8.toNat_ofNat', Nat.reducePow]
        omega
      simp only [List.length_cons, leNat, leBytes, hdiv, hlow, ih]

/-! ## 32-bit words in memory -/

/-- The four bytes of a word as they lie in memory. -/
def memBytes (v : UInt32) : List UInt8 := leBytes 4 v.toNat

/-- The word that bytes in memory hold. -/
def memWord (bs : List UInt8) : UInt32 := UInt32.ofNat (leNat bs)

@[simp] theorem length_memBytes (v : UInt32) : (memBytes v).length = 4 := length_leBytes 4 _

@[simp] theorem memWord_memBytes (v : UInt32) : memWord (memBytes v) = v := by
  have hv := v.toNat_lt
  apply UInt32.toNat_inj.mp
  simp only [memWord, memBytes, leNat_leBytes, UInt32.toNat_ofNat', Nat.reducePow]
  omega

theorem memBytes_memWord {bs : List UInt8} (h : bs.length = 4) : memBytes (memWord bs) = bs := by
  have hlt := leNat_lt bs
  rw [h] at hlt
  have hw : (memWord bs).toNat = leNat bs := by
    simp only [memWord, UInt32.toNat_ofNat', Nat.reducePow] at hlt ⊢
    omega
  rw [memBytes, hw, ← h, leBytes_leNat]

theorem memBytes_inj {v w : UInt32} (h : memBytes v = memBytes w) : v = w := by
  rw [← memWord_memBytes v, h, memWord_memBytes]

/-- `memcpy` of at most four bytes over a word: the bytes past them keep their value. -/
def overlay (old : UInt32) (bs : List UInt8) : UInt32 :=
  memWord (bs ++ (memBytes old).drop bs.length)

theorem overlay_full {old : UInt32} {bs : List UInt8} (h : bs.length = 4) :
    overlay old bs = memWord bs := by
  rw [overlay, List.drop_of_length_le (by simp [h]), List.append_nil]

/-- `memcmp` of two words over their four bytes. -/
def memcmp (v w : UInt32) : Ordering := compare (memBytes v) (memBytes w)

/-- `ntohl`, and `htonl`, on a little-endian host: the same bytes in the other order. -/
def ntohl (v : UInt32) : UInt32 := memWord (memBytes v).reverse

@[inherit_doc ntohl] def htonl (v : UInt32) : UInt32 := memWord (memBytes v).reverse

@[simp] theorem htonl_ntohl (v : UInt32) : htonl (ntohl v) = v := by
  rw [htonl, ntohl, memBytes_memWord (by simp), List.reverse_reverse, memWord_memBytes]

@[simp] theorem ntohl_htonl (v : UInt32) : ntohl (htonl v) = v := by
  rw [htonl, ntohl, memBytes_memWord (by simp), List.reverse_reverse, memWord_memBytes]

/-! ## Big-endian words on the wire -/

/-- `(hi << 8) + lo` in 16 bits. -/
def be16 (hi lo : UInt8) : UInt16 := (hi.toUInt16 <<< 8) + lo.toUInt16

/-- `(a << 24) + (b << 16) + (c << 8) + d` in 32 bits. -/
def be32 (a b c d : UInt8) : UInt32 :=
  (a.toUInt32 <<< 24) + (b.toUInt32 <<< 16) + (c.toUInt32 <<< 8) + d.toUInt32

/-- The lowest `n` bytes of a number, highest byte first. -/
def beBytes (n v : Nat) : List UInt8 := (leBytes n v).reverse

@[simp] theorem length_beBytes (n v : Nat) : (beBytes n v).length = n := by simp [beBytes]

theorem toNat_be16 (hi lo : UInt8) : (be16 hi lo).toNat = 256 * hi.toNat + lo.toNat := by
  have h1 := hi.toNat_lt
  have h2 := lo.toNat_lt
  simp only [be16, UInt16.toNat_add, UInt16.toNat_shiftLeft, UInt8.toNat_toUInt16,
    Nat.shiftLeft_eq, UInt16.toNat_ofNat, Nat.reducePow, Nat.reduceMod]
  omega

theorem be32_eq_memWord (a b c d : UInt8) : be32 a b c d = memWord [d, c, b, a] := by
  have h1 := a.toNat_lt
  have h2 := b.toNat_lt
  have h3 := c.toNat_lt
  have h4 := d.toNat_lt
  apply UInt32.toNat_inj.mp
  simp only [be32, memWord, leNat, UInt32.toNat_add, UInt32.toNat_shiftLeft,
    UInt8.toNat_toUInt32, Nat.shiftLeft_eq, UInt32.toNat_ofNat, UInt32.toNat_ofNat',
    Nat.reducePow, Nat.reduceMod]
  omega

/-- `v >> 8` and `v & 0xff` are the two bytes of a word. -/
theorem be16_shift (v : UInt16) : be16 (v >>> 8).toUInt8 (v &&& 0xff).toUInt8 = v := by
  have hv := v.toNat_lt
  apply UInt16.toNat_inj.mp
  simp only [toNat_be16, UInt16.toNat_toUInt8, UInt16.toNat_shiftRight, UInt16.toNat_and,
    UInt16.toNat_ofNat, Nat.shiftRight_eq_div_pow, Nat.reducePow, Nat.reduceMod]
  rw [show (255 : Nat) = 2 ^ 8 - 1 from rfl, Nat.and_two_pow_sub_one_eq_mod]
  omega

/-- `v & 0xff` and `v >> 8`, `v >> 16`, `v >> 24` are the four bytes of a word. -/
theorem be32_shift (v : UInt32) : be32 (v >>> 24).toUInt8 (v >>> 16).toUInt8 (v >>> 8).toUInt8
    (v &&& 0xff).toUInt8 = v := by
  have hv := v.toNat_lt
  rw [be32_eq_memWord]
  apply UInt32.toNat_inj.mp
  simp only [memWord, leNat, UInt32.toNat_ofNat', UInt32.toNat_toUInt8, UInt32.toNat_shiftRight,
    UInt32.toNat_and, UInt32.toNat_ofNat, Nat.shiftRight_eq_div_pow, Nat.reducePow, Nat.reduceMod]
  rw [show (255 : Nat) = 2 ^ 8 - 1 from rfl, Nat.and_two_pow_sub_one_eq_mod]
  omega

theorem beBytes_two (v : Nat) (hv : v < 65536) :
    ∃ hi lo, beBytes 2 v = [hi, lo] ∧ (be16 hi lo).toNat = v := by
  refine ⟨UInt8.ofNat (v / 256), UInt8.ofNat v, rfl, ?_⟩
  rw [toNat_be16]
  simp only [UInt8.toNat_ofNat', Nat.reducePow]
  omega

theorem beBytes_four (v : UInt32) :
    ∃ a b c d, beBytes 4 v.toNat = [a, b, c, d] ∧ be32 a b c d = v := by
  refine ⟨_, _, _, _, rfl, ?_⟩
  rw [be32_eq_memWord]
  exact memWord_memBytes v

end Log2Bgp.Lib
