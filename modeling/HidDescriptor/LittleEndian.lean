/-!
# Little-endian numbers

The data bytes of an item are one number, least significant byte first. `toNat` reads them as an
unsigned number, `toInt` as a two's complement number of exactly as many bits as there are bytes,
and `ofNat` writes a number into a given number of bytes.

Main statements: writing and reading back gives the number modulo `span width`, the number of values
that so many bytes have (`toNat_ofNat`), and reading and writing back gives the bytes
(`ofNat_toNat`).
-/

namespace HidDescriptor
namespace LittleEndian

def toNat : List UInt8 → Nat
  | [] => 0
  | b :: bytes => b.toNat + 256 * toNat bytes

/-- How many different values so many bytes have. -/
def span : Nat → Nat
  | 0 => 1
  | width + 1 => 256 * span width

/-- The two's complement number that the bytes stand for: the sign is the highest bit of the last
byte, whatever the number of bytes. No bytes stand for zero. -/
def toInt (bytes : List UInt8) : Int := (toNat bytes : Int).bmod (span bytes.length)

/-- The lowest `width` bytes of `n`, least significant byte first. -/
def ofNat : Nat → Nat → List UInt8
  | 0, _ => []
  | width + 1, n => UInt8.ofNat n :: ofNat width (n / 256)

@[simp] theorem length_ofNat (width n : Nat) : (ofNat width n).length = width := by
  induction width generalizing n with
  | zero => rfl
  | succ width ih => simp [ofNat, ih]

theorem span_pos (width : Nat) : 0 < span width := by
  induction width with
  | zero => exact Nat.one_pos
  | succ width ih => exact Nat.mul_pos (by decide) ih

/-- Bytes stand for one of the numbers that so many bytes can tell. -/
theorem toNat_lt (bytes : List UInt8) : toNat bytes < span bytes.length := by
  induction bytes with
  | nil => exact Nat.one_pos
  | cons b bytes ih =>
    have hb := b.toNat_lt
    simp only [toNat, List.length_cons, span]
    omega

/-- Writing and reading back keeps what has room in so many bytes. -/
theorem toNat_ofNat (width n : Nat) : toNat (ofNat width n) = n % span width := by
  induction width generalizing n with
  | zero => simp [ofNat, toNat, span, Nat.mod_one]
  | succ width ih =>
    rw [span, Nat.mod_mul]
    simp only [ofNat, toNat, ih, UInt8.toNat_ofNat', Nat.reducePow]

/-- Reading and writing back gives the same bytes. -/
theorem ofNat_toNat (bytes : List UInt8) : ofNat bytes.length (toNat bytes) = bytes := by
  induction bytes with
  | nil => rfl
  | cons b bytes ih =>
    have hb := b.toNat_lt
    -- the first byte is the remainder by 256, the others are the quotient
    have hdiv : (b.toNat + 256 * toNat bytes) / 256 = toNat bytes := by omega
    have hlow : UInt8.ofNat (b.toNat + 256 * toNat bytes) = b := by
      apply UInt8.toNat_inj.mp
      rw [UInt8.toNat_ofNat']
      omega
    simp only [List.length_cons, toNat, ofNat, hdiv, hlow, ih]

end LittleEndian
end HidDescriptor
