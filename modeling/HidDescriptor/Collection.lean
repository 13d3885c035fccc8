import HidDescriptor.Text.Hex

/-!
# Collections

A Collection item names the kind of collection that it opens by one byte. Seven kinds are
defined, the rest of the lower half is reserved, and the upper half is left to vendors.
-/

namespace HidDescriptor

/-- A collection, by the byte that names its kind. -/
structure Collection where
  /-- The byte in the Collection item. -/
  code : UInt8
  deriving DecidableEq, Repr

namespace Collection

inductive Kind where
  | physical
  | application
  | logical
  | report
  | namedArray
  | usageSwitch
  | usageModifier
  | reserved
  | vendorDefined
  deriving DecidableEq, Repr

def kind (c : Collection) : Kind :=
  match c.code.toNat with
  | 0 => .physical
  | 1 => .application
  | 2 => .logical
  | 3 => .report
  | 4 => .namedArray
  | 5 => .usageSwitch
  | 6 => .usageModifier
  | n => if n < 0x80 then .reserved else .vendorDefined

/-- The name of the collection. The byte is written out where the kind alone does not say it. -/
def label (c : Collection) : String :=
  match c.kind with
  | .physical => "Physical"
  | .application => "Application"
  | .logical => "Logical"
  | .report => "Report"
  | .namedArray => "Named Array"
  | .usageSwitch => "Usage Switch"
  | .usageModifier => "Usage Modifier"
  | .reserved => "Reserved " ++ Hex.text 2 c.code.toNat
  | .vendorDefined => "Vendor Defined " ++ Hex.text 2 c.code.toNat

end Collection

end HidDescriptor
