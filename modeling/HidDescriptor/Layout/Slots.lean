import HidDescriptor.Layout.Field
import HidDescriptor.Record

/-!
# The slots of a field record

One Input, Output or Feature item may stand for many fields of a report. `FieldRecord.slots` lists
them, in a report of which a number of bits are taken already, or tells why there are none to list:

* a record of zero bits has no slots, and asks for nothing but its size and count;
* a constant record is one slot of padding;
* a variable record has one slot for each element; the elements take the usages in turn, and the
  last usage stays for all elements beyond the list;
* any other record is an array: one slot with all usages.

Where several things are wrong, the first one in this order is the fault: size, count, room in the
report, logical range, usages.
-/

namespace HidDescriptor

def maxReportBits : Nat := maxReportBytes * 8

/-- The usages of `count` elements, where `first :: rest` is the list of usages: one for each as far
as they go, and then the last one over and over. Usages without an element are left out. -/
def usagesOfElements (count : Nat) (first : Usage) (rest : List Usage) : List Usage :=
  (first :: rest ++ List.replicate count (rest.getLastD first)).take count

/-- However many usages are listed, there is one for each element. -/
@[simp] theorem length_usagesOfElements (count : Nat) (first : Usage) (rest : List Usage) :
    (usagesOfElements count first rest).length = count := by
  simp only [usagesOfElements, List.length_take, List.length_append, List.length_cons,
    List.length_replicate]
  omega

namespace FieldRecord

/-- The report that the field belongs to. -/
def key (f : FieldRecord) : ReportKey := ⟨f.direction, f.globals.reportId⟩

def faultOf (f : FieldRecord) (cause : Fault.Cause) : Fault := ⟨f.offset, cause⟩

/-- The word in a register that the field cannot do without. -/
def require (f : FieldRecord) (r : GlobalRegister) : Except Fault r.Word :=
  match f.globals.get r with
  | some w => .ok w
  | none => .error (f.faultOf (.missingGlobal r))

/-- What holds for the data of the field. The logical range has to be known. The physical range is
known only if both its ends are. -/
def traits (f : FieldRecord) : Except Fault DataTraits := do
  let minimum ← f.require .logicalMinimum
  let maximum ← f.require .logicalMaximum
  return {
    logical := ⟨minimum, maximum⟩
    physical :=
      match f.globals.physicalMinimum, f.globals.physicalMaximum with
      | some minimum, some maximum => some ⟨minimum, maximum⟩
      | _, _ => none
    unit := f.globals.unit
    unitExponent := f.globals.unitExponent
    collections := f.collections }

def dataSlots (f : FieldRecord) (size count : Nat) : Except Fault (List Slot) := do
  let traits ← f.traits
  match f.usages with
  | [] => .error (f.faultOf .missingUsage)
  | first :: rest =>
    if f.flags.isVariable then
      return (usagesOfElements count first rest).map fun u => ⟨size, .variableOf u traits⟩
    else
      return [⟨size * count, .arrayOf (first :: rest) traits⟩]

/-- The slots of the field in a report of which `used` bits are taken. -/
def slots (f : FieldRecord) (used : Nat) : Except Fault (List Slot) := do
  -- asked for even where the other one is zero
  let size : UInt64 ← f.require .reportSize
  let count : UInt64 ← f.require .reportCount
  match f.bitSize? with
  | none => .error (f.faultOf .reportTooLarge) -- more bits than a 64-bit word can count
  | some bits =>
    if bits = 0 then return []
    else if maxReportBits < used + bits then .error (f.faultOf .reportTooLarge)
    else if f.flags.isConstant then return [⟨bits, .constant⟩]
    else f.dataSlots size.toNat count.toNat

end FieldRecord

end HidDescriptor
