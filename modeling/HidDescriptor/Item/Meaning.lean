import HidDescriptor.Item.Basic
import HidDescriptor.Item.Short

/-!
# The meaning of a short item

The item table: which type and tag stand for which item, and how the data are read for it. Every
short item has a meaning, reserved if nothing else.

Three readings are not plain unsigned numbers. The range registers are signed at the width of the
data. A Usage item with four data bytes carries its page in the upper half; a shorter one carries
an id only. A collection is named by the lowest byte.
-/

namespace HidDescriptor

namespace GlobalRegister

def ofTag? : Nat → Option GlobalRegister
  | 0 => some .usagePage
  | 1 => some .logicalMinimum
  | 2 => some .logicalMaximum
  | 3 => some .physicalMinimum
  | 4 => some .physicalMaximum
  | 5 => some .unitExponent
  | 6 => some .unit
  | 7 => some .reportSize
  | 8 => some .reportId
  | 9 => some .reportCount
  | _ => none

/-- The word that data put into the register. -/
def read : (r : GlobalRegister) → Value → r.Word
  | .usagePage, v => v.toUInt16
  | .logicalMinimum, v | .logicalMaximum, v | .physicalMinimum, v | .physicalMaximum, v => v.toInt32
  | .unitExponent, v | .unit, v => v.toUInt32
  | .reportSize, v | .reportCount, v => v.toUInt64
  | .reportId, v => v.toUInt8

end GlobalRegister

namespace LocalRegister

def ofTag? : Nat → Option LocalRegister
  | 1 => some .usageMinimum
  | 2 => some .usageMaximum
  | 3 => some .designatorIndex
  | 4 => some .designatorMinimum
  | 5 => some .designatorMaximum
  | 7 => some .stringIndex
  | 8 => some .stringMinimum
  | 9 => some .stringMaximum
  | 10 => some .delimiter
  | _ => none

end LocalRegister

namespace LocalUsage

def ofValue (v : Value) : LocalUsage :=
  if v.length = 4 then
    let u := Usage.ofWord v.toUInt32
    ⟨some u.page, u.id⟩
  else ⟨none, v.toUInt16⟩

end LocalUsage

namespace ShortItem

def mainMeaning (s : ShortItem) : Item :=
  match s.tag with
  | 8 => .field .input ⟨s.value.toUInt32⟩
  | 9 => .field .output ⟨s.value.toUInt32⟩
  | 10 => .collection ⟨s.value.toUInt8⟩
  | 11 => .field .feature ⟨s.value.toUInt32⟩
  | 12 => .endCollection
  | _ => .reserved .unassigned

def globalMeaning (s : ShortItem) : Item :=
  match GlobalRegister.ofTag? s.tag with
  | some r => .setGlobal r (r.read s.value)
  | none =>
    match s.tag with
    | 10 => .push
    | 11 => .pop
    | _ => .reserved (.globalTag s.code)

def localMeaning (s : ShortItem) : Item :=
  match LocalRegister.ofTag? s.tag with
  | some r => .setLocal r s.value.toUInt32
  | none =>
    match s.tag with
    | 0 => .usage (.ofValue s.value)
    | _ => .reserved (.localTag s.code)

def item (s : ShortItem) : Item :=
  match s.type with
  | .mainItem => s.mainMeaning
  | .globalItem => s.globalMeaning
  | .localItem => s.localMeaning
  | .reservedType => .reserved .unassigned

end ShortItem

end HidDescriptor
