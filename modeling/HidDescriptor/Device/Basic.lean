import HidDescriptor.TopLevel

/-!
# Devices

What is known about a device without opening it. Most of it comes from the system that found the
device; its top-level usage may have to be read off its report descriptor (`Device.identify?`).

Identification fills gaps only, and so a second look at the same descriptor changes nothing
(`Device.identify_identify`).
-/

namespace HidDescriptor

/-- One interface of a device. -/
structure Device where
  /-- How the system refers to the device. -/
  path : String
  vendorId : UInt16 := 0
  productId : UInt16 := 0
  serialNumber : Option String := none
  releaseNumber : UInt16 := 0
  manufacturer : Option String := none
  product : Option String := none
  /-- The page of the top-level usage. -/
  usagePage : Option UsagePage := none
  /-- The top-level usage on its page. -/
  usageId : Option UsageId := none
  interfaceNumber : Option UInt32 := none
  deriving DecidableEq, Repr

namespace Device

/-- The device with the given top-level usage, as far as it had none. Page and id are filled in
independently of each other. -/
def withUsage (d : Device) (u : Usage) : Device :=
  { d with
    usagePage := d.usagePage <|> some u.page
    usageId := d.usageId <|> some u.id }

/-- The device with the top-level usage of a report descriptor, if the descriptor has one. -/
def identify? (d : Device) (descriptor : List UInt8) : Option Device :=
  (topLevelUsage? descriptor).map d.withUsage

/-- The device as it is known after a look at a report descriptor, useful or not. -/
def identify (d : Device) (descriptor : List UInt8) : Device :=
  (d.identify? descriptor).getD d

def identifyNotes (d : Device) (descriptor : List UInt8) : List Note :=
  let top := TopLevel.ofBytes descriptor
  top.notes ++ if top.usage.isSome then [] else [.noTopLevelUsage d.path]

/-- The first usage that is filled in stays. -/
@[simp] theorem withUsage_withUsage (d : Device) (u v : Usage) :
    (d.withUsage u).withUsage v = d.withUsage u := by
  cases hp : d.usagePage <;> cases hi : d.usageId <;> simp [withUsage, hp, hi]

/-- A second look at the same descriptor tells nothing new. -/
theorem identify_identify (d : Device) (descriptor : List UInt8) :
    (d.identify descriptor).identify descriptor = d.identify descriptor := by
  cases h : topLevelUsage? descriptor <;> simp [identify, identify?, h]

end Device

end HidDescriptor
