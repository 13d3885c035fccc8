import HidDescriptor.Item.Basic

/-!
# Registers

The two sets of registers that items assign. Both start out empty, and a register stays empty
until it is assigned. The local set also collects usages: unlike a register, a Usage item does not
replace the one before it.

Reading a register after an assignment gives the assigned word at that register and the old word
at every other (`Globals.get_set_self`, `Globals.get_set_of_ne`, and likewise for `Locals`).
-/

namespace HidDescriptor

/-- The registers that keep their value from field to field. -/
structure Globals where
  usagePage : Option UsagePage := none
  logicalMinimum : Option Int32 := none
  logicalMaximum : Option Int32 := none
  physicalMinimum : Option Int32 := none
  physicalMaximum : Option Int32 := none
  unitExponent : Option UInt32 := none
  unit : Option UInt32 := none
  /-- The size of one element of a field, in bits. -/
  reportSize : Option UInt64 := none
  reportId : Option ReportId := none
  /-- The number of elements of a field. -/
  reportCount : Option UInt64 := none
  deriving DecidableEq, Repr

namespace Globals

def get (g : Globals) : (r : GlobalRegister) → Option r.Word
  | .usagePage => g.usagePage
  | .logicalMinimum => g.logicalMinimum
  | .logicalMaximum => g.logicalMaximum
  | .physicalMinimum => g.physicalMinimum
  | .physicalMaximum => g.physicalMaximum
  | .unitExponent => g.unitExponent
  | .unit => g.unit
  | .reportSize => g.reportSize
  | .reportId => g.reportId
  | .reportCount => g.reportCount

def set (g : Globals) : (r : GlobalRegister) → r.Word → Globals
  | .usagePage, w => { g with usagePage := some w }
  | .logicalMinimum, w => { g with logicalMinimum := some w }
  | .logicalMaximum, w => { g with logicalMaximum := some w }
  | .physicalMinimum, w => { g with physicalMinimum := some w }
  | .physicalMaximum, w => { g with physicalMaximum := some w }
  | .unitExponent, w => { g with unitExponent := some w }
  | .unit, w => { g with unit := some w }
  | .reportSize, w => { g with reportSize := some w }
  | .reportId, w => { g with reportId := some w }
  | .reportCount, w => { g with reportCount := some w }

@[simp] theorem get_set_self (g : Globals) (r : GlobalRegister) (w : r.Word) :
    (g.set r w).get r = some w := by
  cases r <;> rfl

/-- The other registers keep their words. -/
theorem get_set_of_ne (g : Globals) {r s : GlobalRegister} (h : r ≠ s) (w : r.Word) :
    (g.set r w).get s = g.get s := by
  cases r <;> cases s <;> first | rfl | exact absurd rfl h

end Globals

/-- The usages and registers that belong to the next Main item. -/
structure Locals where
  /-- The listed usages, in the order of their items. -/
  usages : Array LocalUsage := #[]
  usageMinimum : Option UInt32 := none
  usageMaximum : Option UInt32 := none
  designatorIndex : Option UInt32 := none
  designatorMinimum : Option UInt32 := none
  designatorMaximum : Option UInt32 := none
  stringIndex : Option UInt32 := none
  stringMinimum : Option UInt32 := none
  stringMaximum : Option UInt32 := none
  /-- 1 opens a set of alternative usages, 0 closes it. -/
  delimiter : Option UInt32 := none
  deriving DecidableEq, Repr

namespace Locals

def get (l : Locals) : LocalRegister → Option UInt32
  | .usageMinimum => l.usageMinimum
  | .usageMaximum => l.usageMaximum
  | .designatorIndex => l.designatorIndex
  | .designatorMinimum => l.designatorMinimum
  | .designatorMaximum => l.designatorMaximum
  | .stringIndex => l.stringIndex
  | .stringMinimum => l.stringMinimum
  | .stringMaximum => l.stringMaximum
  | .delimiter => l.delimiter

def set (l : Locals) (r : LocalRegister) (w : UInt32) : Locals :=
  match r with
  | .usageMinimum => { l with usageMinimum := some w }
  | .usageMaximum => { l with usageMaximum := some w }
  | .designatorIndex => { l with designatorIndex := some w }
  | .designatorMinimum => { l with designatorMinimum := some w }
  | .designatorMaximum => { l with designatorMaximum := some w }
  | .stringIndex => { l with stringIndex := some w }
  | .stringMinimum => { l with stringMinimum := some w }
  | .stringMaximum => { l with stringMaximum := some w }
  | .delimiter => { l with delimiter := some w }

def addUsage (l : Locals) (u : LocalUsage) : Locals := { l with usages := l.usages.push u }

def lastUsage? (l : Locals) : Option LocalUsage := l.usages.back?

def isEmpty (l : Locals) : Bool := l = {}

@[simp] theorem get_set_self (l : Locals) (r : LocalRegister) (w : UInt32) :
    (l.set r w).get r = some w := by
  cases r <;> rfl

theorem get_set_of_ne (l : Locals) {r s : LocalRegister} (h : r ≠ s) (w : UInt32) :
    (l.set r w).get s = l.get s := by
  cases r <;> cases s <;> first | rfl | exact absurd rfl h

@[simp] theorem usages_set (l : Locals) (r : LocalRegister) (w : UInt32) :
    (l.set r w).usages = l.usages := by
  cases r <;> rfl

@[simp] theorem get_addUsage (l : Locals) (u : LocalUsage) (r : LocalRegister) :
    (l.addUsage u).get r = l.get r := by
  cases r <;> rfl

@[simp] theorem usages_addUsage (l : Locals) (u : LocalUsage) :
    (l.addUsage u).usages = l.usages.push u := rfl

end Locals

end HidDescriptor
