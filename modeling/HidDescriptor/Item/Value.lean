import HidDescriptor.LittleEndian

/-!
# Item values

The data of an item, read as a number. An item carries 0, 1, 2 or 4 data bytes; `Value.ofBytes?`
refuses any other number of them. What the number means depends on the item: unsigned readings
keep the low bits of the number, the signed reading takes the sign from the highest bit of the
data, so that one byte `0xff` is `-1` and two bytes `0xff 0x00` are `255`.
-/

namespace HidDescriptor

/-- Why bytes are no item or no item data. -/
inductive DataError where
  /-- The bytes end before the first item does. -/
  | insufficient
  /-- No item carries this number of data bytes. -/
  | badLength (length : Nat)
  deriving DecidableEq, Repr

namespace DataError

def message : DataError → String
  | insufficient => "Insufficient data"
  | badLength length => s!"Invalid data: {length} data bytes cannot be a HID value"

end DataError

/-- The data bytes of an item, least significant byte first. -/
structure Value where
  /-- The bytes as they stand in the descriptor. -/
  bytes : List UInt8
  deriving DecidableEq, Repr

namespace Value

/-- The numbers of data bytes that an item may carry. -/
def lengths : List Nat := [0, 1, 2, 4]

def ofBytes? (bytes : List UInt8) : Except DataError Value :=
  if bytes.length ∈ lengths then .ok ⟨bytes⟩ else .error (.badLength bytes.length)

def length (v : Value) : Nat := v.bytes.length

def isEmpty (v : Value) : Bool := v.bytes.isEmpty

def toNat (v : Value) : Nat := LittleEndian.toNat v.bytes

/-- The number in two's complement at the width of the data. -/
def toInt (v : Value) : Int := LittleEndian.toInt v.bytes

/-- The unsigned number as a word. A word that is too short for it takes its low bits. -/
def toUInt64 (v : Value) : UInt64 := UInt64.ofNat v.toNat

def toUInt32 (v : Value) : UInt32 := UInt32.ofNat v.toNat

def toUInt16 (v : Value) : UInt16 := UInt16.ofNat v.toNat

def toUInt8 (v : Value) : UInt8 := UInt8.ofNat v.toNat

def toInt32 (v : Value) : Int32 := Int32.ofInt v.toInt

end Value

end HidDescriptor
