import HidDescriptor.Item.Basic

/-!
# Faults of a report descriptor

What can be wrong with a report descriptor, and where. Every fault has the offset of the item that
brought it to light; the cause and the offset together give the message.
-/

namespace HidDescriptor

/-- The largest report in bytes, report id not counted. -/
def maxReportBytes : Nat := 16384

namespace GlobalRegister

/-- The name of the item that assigns the register. -/
def name : GlobalRegister → String
  | usagePage => "Usage Page"
  | logicalMinimum => "Logical Minimum"
  | logicalMaximum => "Logical Maximum"
  | physicalMinimum => "Physical Minimum"
  | physicalMaximum => "Physical Maximum"
  | unitExponent => "Unit Exponent"
  | unit => "Unit"
  | reportSize => "Report Size"
  | reportId => "Report ID"
  | reportCount => "Report Count"

end GlobalRegister

inductive Fault.Cause where
  /-- The bytes end before the data that the header byte announces. -/
  | truncated (needed available : Nat)
  /-- A Pop finds no saved registers. -/
  | popWithoutPush
  /-- An End Collection finds no open collection. -/
  | endWithoutCollection
  /-- A field needs a register that was never assigned. -/
  | missingGlobal (register : GlobalRegister)
  /-- A field with data has no usage. -/
  | missingUsage
  /-- A field does not fit into the largest report. -/
  | reportTooLarge
  deriving DecidableEq, Repr

/-- A cause together with the place of the item. -/
structure Fault where
  offset : Nat
  cause : Fault.Cause
  deriving DecidableEq, Repr

namespace Fault

def message (fault : Fault) : String :=
  let offset := fault.offset
  match fault.cause with
  | .truncated needed available =>
    s!"Truncated item at offset {offset}: needs {needed} data bytes, {available} available"
  | .popWithoutPush => s!"Pop without a matching Push at offset {offset}"
  | .endWithoutCollection => s!"End Collection without an open Collection at offset {offset}"
  | .missingGlobal register =>
    let name := register.name
    s!"Missing {name} for the item at offset {offset}"
  | .missingUsage => s!"Data field without a usage at offset {offset}"
  | .reportTooLarge => s!"Report exceeds {maxReportBytes} bytes at offset {offset}"

end Fault

end HidDescriptor
