import Mathlib.Data.Nat.Bitwise
import Mathlib.Data.List.Rotate
import Mathlib.Tactic.Ring

/-! Numbers as bytes. The bytes of a machine word stand with the lowest first, as a
little-endian machine keeps them: `k` bytes hold the numbers below `256 ^ k`, and each of
them in one way. Reversed they are the bytes in network order. A mask is applied byte by
byte, with a key that goes on from where it stopped. -/

namespace PeerApi.Base

/-- The lowest `k` bytes of a number. -/
def toBytes : ℕ → ℕ → List UInt8
  | 0, _ => []
  | k + 1, n => UInt8.ofNat n :: toBytes k (n / 256)

def ofBytes : List UInt8 → ℕ
  | [] => 0
  | b :: bs => b.toNat + 256 * ofBytes bs

@[simp] theorem length_toBytes (k n : ℕ) : (toBytes k n).length = k := by
  induction k generalizing n with
  | zero => rfl
  | succ k ih => rw [toBytes, List.length_cons, ih]

theorem ofBytes_lt (bs : List UInt8) : ofBytes bs < 256 ^ bs.length := by
  induction bs with
  | nil => exact Nat.one_pos
  | cons b bs ih =>
    have hb := b.toNat_lt
    rw [ofBytes, List.length_cons, pow_succ]
    omega

theorem ofBytes_toBytes_mod (k n : ℕ) : ofBytes (toBytes k n) = n % 256 ^ k := by
  induction k generalizing n with
  | zero => rw [toBytes, ofBytes, pow_zero, Nat.mod_one]
  | succ k ih =>
    have hsplit : n % (256 * 256 ^ k) = n % 256 + 256 * (n / 256 % 256 ^ k) := Nat.mod_mul
    rw [toBytes, ofBytes, ih, UInt8.toNat_ofNat', pow_succ' 256, hsplit]

theorem ofBytes_toBytes {k n : ℕ} (h : n < 256 ^ k) : ofBytes (toBytes k n) = n := by
  rw [ofBytes_toBytes_mod, Nat.mod_eq_of_lt h]

theorem toBytes_ofBytes (bs : List UInt8) : toBytes bs.length (ofBytes bs) = bs := by
  induction bs with
  | nil => rfl
  | cons b bs ih =>
    have hb := b.toNat_lt
    have hmod : UInt8.ofNat (b.toNat + 256 * ofBytes bs) = b := by
      rw [← UInt8.toNat_inj, UInt8.toNat_ofNat']
      omega
    have hdiv : (b.toNat + 256 * ofBytes bs) / 256 = ofBytes bs := by omega
    rw [List.length_cons, ofBytes, toBytes, hmod, hdiv, ih]

theorem toBytes_of_length {bs : List UInt8} {k : ℕ} (h : bs.length = k) :
    toBytes k (ofBytes bs) = bs := by
  rw [← h, toBytes_ofBytes]

theorem toBytes_add (j k n : ℕ) : toBytes (j + k) n = toBytes j n ++ toBytes k (n / 256 ^ j) := by
  induction j generalizing n with
  | zero => rw [zero_add, toBytes, pow_zero, Nat.div_one, List.nil_append]
  | succ j ih =>
    rw [Nat.succ_add, toBytes, ih, toBytes, List.cons_append, Nat.div_div_eq_div_mul, pow_succ,
      mul_comm (256 ^ j)]

theorem toBytes_mod (k n : ℕ) : toBytes k (n % 256 ^ k) = toBytes k n := by
  rw [← ofBytes_toBytes_mod, toBytes_of_length (length_toBytes k n)]

/-- Two words side by side. -/
theorem toBytes_add_of_lt {j k n m : ℕ} (h : n < 256 ^ j) :
    toBytes (j + k) (n + 256 ^ j * m) = toBytes j n ++ toBytes k m := by
  have hpos : 0 < 256 ^ j := Nat.pow_pos (by decide)
  have hdiv : (n + 256 ^ j * m) / 256 ^ j = m := by
    rw [Nat.add_mul_div_left _ _ hpos, Nat.div_eq_of_lt h, zero_add]
  rw [toBytes_add, hdiv, ← toBytes_mod j, Nat.add_mul_mod_self_left, Nat.mod_eq_of_lt h]

/-- The number whose bytes stand in the other order. -/
def swapBytes (k n : ℕ) : ℕ := ofBytes (toBytes k n).reverse

theorem toBytes_swapBytes (k n : ℕ) : toBytes k (swapBytes k n) = (toBytes k n).reverse :=
  toBytes_of_length (by rw [List.length_reverse, length_toBytes])

theorem swapBytes_ofBytes {bs : List UInt8} {k : ℕ} (h : bs.length = k) :
    swapBytes k (ofBytes bs) = ofBytes bs.reverse := by
  rw [swapBytes, toBytes_of_length h]

/-! ### Masks -/

/-- Each byte is combined with the byte of the key at its position, from `i` on. -/
def mask (key : ℕ → UInt8) : ℕ → List UInt8 → List UInt8
  | _, [] => []
  | i, b :: bs => (b ^^^ key i) :: mask key (i + 1) bs

@[simp] theorem length_mask (key : ℕ → UInt8) (i : ℕ) (bs : List UInt8) :
    (mask key i bs).length = bs.length := by
  induction bs generalizing i with
  | nil => rfl
  | cons b bs ih => rw [mask, List.length_cons, ih, List.length_cons]

theorem mask_append (key : ℕ → UInt8) (i : ℕ) (as bs : List UInt8) :
    mask key i (as ++ bs) = mask key i as ++ mask key (i + as.length) bs := by
  induction as generalizing i with
  | nil => rfl
  | cons a as ih =>
    rw [List.cons_append, mask, ih, mask, List.cons_append, List.length_cons,
      Nat.succ_add_eq_add_succ]

/-- Masking twice gives the bytes back. -/
theorem mask_mask (key : ℕ → UInt8) (i : ℕ) (bs : List UInt8) :
    mask key i (mask key i bs) = bs := by
  induction bs generalizing i with
  | nil => rfl
  | cons b bs ih => rw [mask, mask, ih, UInt8.xor_assoc, UInt8.xor_self, UInt8.xor_zero]

end PeerApi.Base
