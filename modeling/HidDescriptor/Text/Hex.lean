/-!
# Hexadecimal text

Offsets, header bytes and unnamed usages are written in hexadecimal with a fixed least number of
digits: `text 4 10` is `0x000a`, and a number that needs more digits takes them.

Main statements: the digits read back as the number (`value_digits`), and they are as many as asked
for, or more (`le_length_digits`).
-/

namespace HidDescriptor
namespace Hex

/-- The lower-case hexadecimal digits of `n`, filled up with zeros on the left to at least
`width` digits. -/
def digits (width n : Nat) : List Char := (Nat.toDigits 16 n).leftpad width '0'

/-- A number as `0x` and at least `width` lower-case digits. -/
def text (width n : Nat) : String := "0x" ++ String.ofList (digits width n)

/-! ## Reading back -/

def alphabet : List Char :=
  ['0', '1', '2', '3', '4', '5', '6', '7', '8', '9', 'a', 'b', 'c', 'd', 'e', 'f']

/-- The number that digits stand for, most significant digit first. -/
def value (ds : List Char) : Nat := ds.foldl (fun n d => 16 * n + alphabet.idxOf d) 0

theorem idxOf_digitChar : ∀ d < 16, alphabet.idxOf d.digitChar = d := by decide

theorem value_concat (ds : List Char) (d : Char) :
    value (ds ++ [d]) = 16 * value ds + alphabet.idxOf d := by
  simp [value]

theorem value_toDigits (n : Nat) : value (Nat.toDigits 16 n) = n := by
  induction n using Nat.strongRecOn with
  | ind n ih =>
    -- the last digit is the remainder by 16, the others are the digits of the quotient
    rw [Nat.toDigits_eq_if (by decide)]
    split
    · next hn => simp [value, idxOf_digitChar n hn]
    · next hn =>
      rw [value_concat, ih (n / 16) (by omega), idxOf_digitChar _ (Nat.mod_lt n (by decide))]
      exact Nat.div_add_mod n 16

theorem value_zeros_append (k : Nat) (ds : List Char) :
    value (List.replicate k '0' ++ ds) = value ds := by
  induction k with
  | zero => rfl
  | succ k ih => exact ih

/-- **The digits read back as the number**, however many there are. -/
theorem value_digits (width n : Nat) : value (digits width n) = n := by
  rw [digits, List.leftpad, value_zeros_append, value_toDigits]

/-- Different numbers are written differently. -/
theorem text_inj {width n m : Nat} : text width n = text width m ↔ n = m := by
  constructor
  · intro h
    have hdigits : digits width n = digits width m :=
      String.ofList_injective ((String.append_right_inj _).mp h)
    rw [← value_digits width n, hdigits, value_digits]
  · exact congrArg _

/-! ## The number of digits -/

theorem le_length_digits (width n : Nat) : width ≤ (digits width n).length := by
  rw [digits, List.length_leftpad]
  exact Nat.le_max_left _ _

example : digits 4 10 = ['0', '0', '0', 'a'] := by decide

/-- A byte has two digits, and no more. -/
theorem length_digits_byte (b : UInt8) : (digits 2 b.toNat).length = 2 := by
  have hroom : (Nat.toDigits 16 b.toNat).length ≤ 2 :=
    (Nat.length_toDigits_le_iff (by decide) (by decide)).mpr b.toNat_lt
  rw [digits, List.length_leftpad]
  exact Nat.max_eq_left hroom

end Hex
end HidDescriptor
