import Mathlib.Data.List.Induction
import Mathlib.Tactic.Ring
import Mathlib.Tactic.NormNum

/-! # Big-endian byte strings of fixed width -/

namespace Rdt.BigEndian

/-- The number a byte string denotes, most significant byte first; empty is zero. -/
def fromBytes (bs : List UInt8) : Nat := bs.foldl (fun n b => 256 * n + b.toNat) 0

/-- The `w` low bytes of `n`, most significant first. -/
def toBytes : Nat → Nat → List UInt8
  | 0, _ => []
  | w + 1, n => toBytes w (n / 256) ++ [UInt8.ofNat n]

@[simp] theorem fromBytes_nil : fromBytes [] = 0 := rfl

@[simp] theorem fromBytes_append_singleton (bs : List UInt8) (b : UInt8) :
    fromBytes (bs ++ [b]) = 256 * fromBytes bs + b.toNat := by
  simp [fromBytes]

@[simp] theorem toBytes_zero (n : Nat) : toBytes 0 n = [] := rfl

theorem toBytes_succ (w n : Nat) :
    toBytes (w + 1) n = toBytes w (n / 256) ++ [UInt8.ofNat n] := rfl

@[simp] theorem length_toBytes (w n : Nat) : (toBytes w n).length = w := by
  induction w generalizing n with
  | zero => rfl
  | succ w ih => simp [toBytes_succ, ih]

/-- A width of `w` bytes keeps a number up to `256 ^ w`. -/
theorem fromBytes_toBytes {w n : Nat} (h : n < 256 ^ w) : fromBytes (toBytes w n) = n := by
  induction w generalizing n with
  | zero =>
      have hn : n = 0 := by simpa using h
      simp [hn]
  | succ w ih =>
      have hdiv : n / 256 < 256 ^ w := by
        rw [pow_succ] at h
        exact Nat.div_lt_of_lt_mul (by rwa [mul_comm] at h)
      rw [toBytes_succ, fromBytes_append_singleton, ih hdiv, UInt8.toNat_ofNat']
      omega

/-- A byte string is the fixed-width encoding of the number it denotes. -/
theorem toBytes_fromBytes (bs : List UInt8) : toBytes bs.length (fromBytes bs) = bs := by
  induction bs using List.reverseRecOn with
  | nil => rfl
  | append_singleton bs b ih =>
      have hb : b.toNat < 256 := b.toNat_lt
      have hdiv : (256 * fromBytes bs + b.toNat) / 256 = fromBytes bs := by omega
      have hlast : UInt8.ofNat (256 * fromBytes bs + b.toNat) = b := by
        rw [← UInt8.toNat_inj, UInt8.toNat_ofNat']
        omega
      rw [List.length_append, List.length_singleton, toBytes_succ, fromBytes_append_singleton,
        hdiv, ih, hlast]

theorem fromBytes_lt (bs : List UInt8) : fromBytes bs < 256 ^ bs.length := by
  induction bs using List.reverseRecOn with
  | nil => simp
  | append_singleton bs b ih =>
      have hb : b.toNat < 256 := b.toNat_lt
      rw [fromBytes_append_singleton, List.length_append, List.length_singleton, pow_succ]
      omega

/-- A field of at most `w` bytes, as a slice always is, stays below `256 ^ w`. -/
theorem fromBytes_lt_of_length_le {w : Nat} {bs : List UInt8} (h : bs.length ≤ w) :
    fromBytes bs < 256 ^ w :=
  lt_of_lt_of_le (fromBytes_lt bs) (Nat.pow_le_pow_right (by norm_num) h)

end Rdt.BigEndian
