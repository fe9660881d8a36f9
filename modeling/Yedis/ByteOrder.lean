import Mathlib.Algebra.Ring.Nat
import Mathlib.Tactic.Common

/-!
# Byte order

A machine stores a number of some bytes with the lowest or the highest byte first. A
number that is converted to the order of the network before it is stored, and after it
is loaded, does not depend on the machine.
-/

inductive ByteOrder
  | littleEndian
  | bigEndian
  deriving DecidableEq

namespace ByteOrder

/-- The lowest `n` bytes of a number, the lowest first. -/
def lowBytes : ℕ → ℕ → List UInt8
  | 0, _ => []
  | n + 1, x => UInt8.ofNat x :: lowBytes n (x / 256)

/-- The number with these bytes, the lowest first. -/
def value : List UInt8 → ℕ
  | [] => 0
  | b :: bs => b.toNat + 256 * value bs

@[simp] theorem length_lowBytes (n x : ℕ) : (lowBytes n x).length = n := by
  induction n generalizing x with
  | zero => rfl
  | succ n ih => rw [lowBytes, List.length_cons, ih]

theorem value_lowBytes (n x : ℕ) : value (lowBytes n x) = x % 256 ^ n := by
  induction n generalizing x with
  | zero => rw [lowBytes, value, pow_zero, Nat.mod_one]
  | succ n ih =>
      rw [lowBytes, value, ih, pow_succ', Nat.mod_mul]
      rfl

theorem value_lt (bs : List UInt8) : value bs < 256 ^ bs.length := by
  induction bs with
  | nil => exact Nat.one_pos
  | cons b bs ih =>
      have hb : b.toNat < 256 := b.toNat_lt
      rw [value, List.length_cons, pow_succ']
      omega

theorem lowBytes_value (bs : List UInt8) : lowBytes bs.length (value bs) = bs := by
  induction bs with
  | nil => rfl
  | cons b bs ih =>
      have hb : b.toNat < 256 := b.toNat_lt
      have hlow : UInt8.ofNat (b.toNat + 256 * value bs) = b := by
        apply UInt8.toNat_inj.mp
        change (b.toNat + 256 * value bs) % 256 = b.toNat
        omega
      have hhigh : (b.toNat + 256 * value bs) / 256 = value bs := by omega
      rw [value, List.length_cons, lowBytes, hlow, hhigh, ih]

/-- A number as it is stored in `n` bytes. -/
def store (o : ByteOrder) (n x : ℕ) : List UInt8 :=
  match o with
  | littleEndian => lowBytes n x
  | bigEndian => (lowBytes n x).reverse

def load (o : ByteOrder) (bs : List UInt8) : ℕ :=
  match o with
  | littleEndian => value bs
  | bigEndian => value bs.reverse

/-- The conversion of a number of `n` bytes to the order of the network or back, which reverses the
bytes where the lowest is stored first. -/
def convert (o : ByteOrder) (n x : ℕ) : ℕ :=
  match o with
  | littleEndian => value (lowBytes n x).reverse
  | bigEndian => x

/-- The highest byte comes first on every machine. -/
theorem store_convert (o : ByteOrder) (n x : ℕ) :
    o.store n (o.convert n x) = (lowBytes n x).reverse := by
  cases o with
  | littleEndian =>
      have hvalue := lowBytes_value (lowBytes n x).reverse
      rwa [List.length_reverse, length_lowBytes] at hvalue
  | bigEndian => rfl

theorem convert_load (o : ByteOrder) (bs : List UInt8) :
    o.convert bs.length (o.load bs) = value bs.reverse := by
  cases o with
  | littleEndian => rw [load, convert, lowBytes_value]
  | bigEndian => rfl

end ByteOrder
