import HidDescriptor.Collection
import HidDescriptor.Flags
import HidDescriptor.Usage.Basic

/-!
# Items

What an item of a report descriptor means, apart from how it was written. An item describes a
field of a report, opens or closes a collection, assigns a register, saves or restores the global
registers, lists a usage, or has no meaning yet.

There are two sets of registers. Global registers keep their value from field to field; each holds
a word of its own kind (`GlobalRegister.Word`). Local registers belong to the next Main item only
and all hold 32-bit words.
-/

namespace HidDescriptor

/-- The direction in which the data of a report travel. Features travel both ways. -/
inductive Direction where
  | input
  | output
  | feature
  deriving DecidableEq, Repr

/-- The identification byte in front of a report, in devices that have more than one. -/
abbrev ReportId := UInt8

/-- The registers that keep their value until it is assigned or restored. -/
inductive GlobalRegister where
  | usagePage
  | logicalMinimum
  | logicalMaximum
  | physicalMinimum
  | physicalMaximum
  | unitExponent
  | unit
  | reportSize
  | reportId
  | reportCount
  deriving DecidableEq, Repr

namespace GlobalRegister

/-- What the register holds: only the four range registers are signed. -/
abbrev Word : GlobalRegister → Type
  | .usagePage => UsagePage
  | .logicalMinimum | .logicalMaximum | .physicalMinimum | .physicalMaximum => Int32
  | .unitExponent | .unit => UInt32
  | .reportSize | .reportCount => UInt64
  | .reportId => ReportId

instance (r : GlobalRegister) : DecidableEq r.Word := by
  cases r <;> exact inferInstance

instance (r : GlobalRegister) : Repr r.Word := by
  cases r <;> exact inferInstance

/-- The page that an assignment puts in force, if it is one to the page register. -/
def assignedPage? : (r : GlobalRegister) → r.Word → Option UsagePage
  | .usagePage, page => some page
  | .logicalMinimum, _ | .logicalMaximum, _ | .physicalMinimum, _ | .physicalMaximum, _
  | .unitExponent, _ | .unit, _ | .reportSize, _ | .reportId, _ | .reportCount, _ => none

end GlobalRegister

/-- The registers that are cleared by every Main item. -/
inductive LocalRegister where
  | usageMinimum
  | usageMaximum
  | designatorIndex
  | designatorMinimum
  | designatorMaximum
  | stringIndex
  | stringMinimum
  | stringMaximum
  | delimiter
  deriving DecidableEq, Repr

/-- The places in the item table that have no meaning yet. A global or local place is told by its
code, the header byte without the size. -/
inductive Reserved where
  | globalTag (code : UInt8)
  | localTag (code : UInt8)
  /-- A Main tag without a meaning, or the item type without a meaning. -/
  | unassigned
  deriving DecidableEq, Repr

inductive Item where
  /-- Input, Output and Feature: a field of a report. -/
  | field (direction : Direction) (flags : Flags)
  | collection (kind : Collection)
  | endCollection
  | setGlobal (register : GlobalRegister) (word : register.Word)
  /-- Saves the global registers. -/
  | push
  /-- Restores the global registers that were saved last. -/
  | pop
  /-- Adds a usage to those of the next field. -/
  | usage (usage : LocalUsage)
  | setLocal (register : LocalRegister) (word : UInt32)
  | reserved (place : Reserved)
  deriving DecidableEq, Repr

namespace Item

/-- Main items are those that end the life of the local registers. -/
def isMain : Item → Bool
  | .field .. | .collection _ | .endCollection => true
  | _ => false

end Item

/-- The power of ten that a Unit Exponent code stands for: its low four bits as a two's complement
number. -/
def exponentOfCode (code : UInt32) : Int := (code.toNat % 16 : Int).bmod 16

/-- The exponents go from -8 to 7, and codes with the same four low bits have the same one. -/
theorem exponentOfCode_spec (code : UInt32) :
    -8 ≤ exponentOfCode code ∧ exponentOfCode code < 8 ∧
      exponentOfCode code % 16 = code.toNat % 16 := by
  have hlow : -8 ≤ exponentOfCode code := Int.le_bmod (by decide)
  have hhigh : exponentOfCode code < 8 := Int.bmod_lt (by decide)
  have hmod : exponentOfCode code % 16 = code.toNat % 16 % 16 := Int.bmod_emod
  exact ⟨hlow, hhigh, hmod.trans (Int.emod_emod_of_dvd _ (Int.dvd_refl 16))⟩

example : exponentOfCode 0x0d = -3 ∧ exponentOfCode 0x08 = -8 ∧ exponentOfCode 0x17 = 7 := by decide

end HidDescriptor
