import HidDescriptor.Fault

/-!
# Fields

A field is a range of bits in a report, together with what the bits mean. Before it has its place,
a field is a `Slot`: so many bits with such a content.
-/

namespace HidDescriptor

/-- What tells one report of a device from the others. -/
structure ReportKey where
  direction : Direction
  /-- There is no id in devices that have one report per direction only. -/
  id : Option ReportId
  deriving DecidableEq, Repr

/-- A range of bits, both ends included. -/
structure BitRange where
  first : Nat
  last : Nat
  deriving DecidableEq, Repr

structure ValueRange where
  minimum : Int32
  maximum : Int32
  deriving DecidableEq, Repr

/-- What holds for the data of a field, whatever its usages. -/
structure DataTraits where
  /-- The values that are sent. -/
  logical : ValueRange
  /-- The values in units that they stand for. -/
  physical : Option ValueRange
  unit : Option UInt32
  unitExponent : Option UInt32
  /-- The collections around the field, outermost first. -/
  collections : List Collection
  deriving DecidableEq, Repr

/-- What the bits of a field mean. -/
inductive Content where
  /-- Nothing: the bits are padding. -/
  | constant
  /-- The value of one control. -/
  | variableOf (usage : Usage) (traits : DataTraits)
  /-- Numbers of controls, out of a list of controls. -/
  | arrayOf (usages : List Usage) (traits : DataTraits)
  deriving DecidableEq, Repr

/-- A field without its place. -/
structure Slot where
  /-- The number of bits. -/
  width : Nat
  content : Content
  deriving DecidableEq, Repr

/-- A field in its place. -/
structure Field where
  bits : BitRange
  /-- The report that the field belongs to. -/
  key : ReportKey
  content : Content
  deriving DecidableEq, Repr

end HidDescriptor
