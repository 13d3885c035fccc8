import HidDescriptor.Item.Value

/-!
# Short items

A report descriptor is a sequence of short items, each a header byte with up to four data bytes.
The header byte holds three numbers: how many data bytes follow (bits 0 and 1), the item type
(bits 2 and 3) and the tag (bits 4 to 7). An item is written as its header byte and then its data
(`ShortItem.bytes`); it can be read back from there only if the header announces as many data
bytes as there are (`ShortItem.WellSized`).
-/

namespace HidDescriptor

/-- The type of an item, which says how its tag is to be understood. -/
inductive ItemType where
  | mainItem
  | globalItem
  | localItem
  | reservedType
  deriving DecidableEq, Repr

/-- The number of data bytes that a header byte announces. The size code 3 stands for four. -/
def announcedLength (header : UInt8) : Nat :=
  match header.toNat % 4 with
  | 0 => 0
  | 1 => 1
  | 2 => 2
  | _ => 4

/-- A header byte with the data bytes that belong to it. -/
structure ShortItem where
  header : UInt8
  data : List UInt8
  deriving DecidableEq, Repr

namespace ShortItem

/-- The number of data bytes is the one that the header byte announces. -/
def WellSized (item : ShortItem) : Prop := item.data.length = announcedLength item.header

instance (item : ShortItem) : Decidable item.WellSized :=
  inferInstanceAs (Decidable (_ = _))

def bytes (item : ShortItem) : List UInt8 := item.header :: item.data

/-- The length of the item in bytes, header byte included. -/
def size (item : ShortItem) : Nat := 1 + item.data.length

def value (item : ShortItem) : Value := ⟨item.data⟩

def type (item : ShortItem) : ItemType :=
  match item.header.toNat / 4 % 4 with
  | 0 => .mainItem
  | 1 => .globalItem
  | 2 => .localItem
  | _ => .reservedType

def tag (item : ShortItem) : Nat := item.header.toNat / 16

/-- The header byte with the size taken out. Type and tag are in it, and so it tells what kind of
item this is. -/
def code (item : ShortItem) : UInt8 := item.header &&& 0xfc

theorem size_pos (item : ShortItem) : 0 < item.size := Nat.add_pos_left Nat.one_pos _

@[simp] theorem length_bytes (item : ShortItem) : item.bytes.length = item.size := by
  simp only [bytes, size, List.length_cons]
  omega

/-- No item has more than four data bytes, so they are a 32-bit number. -/
theorem WellSized.toNat_value_lt {item : ShortItem} (h : item.WellSized) :
    item.value.toNat < UInt32.size := by
  have hspan : LittleEndian.span item.data.length ≤ LittleEndian.span 4 := by
    rw [show item.data.length = announcedLength item.header from h, announcedLength]
    split <;> decide
  exact Nat.lt_of_lt_of_le (LittleEndian.toNat_lt item.data) hspan

end ShortItem

end HidDescriptor
