import HidDescriptor.Device.Basic

/-!
# Filters

A filter selects devices. It has up to four criteria; a criterion that is not given accepts every
device, whereas a device that does not have what a criterion asks for is not accepted. So a filter
for a usage never selects a device whose top-level usage is unknown.

Filters are built from `Filter.any`, `Filter.forUsage` or `Filter.fido` by adding a vendor id or a
product id; an id that is added later takes the place of the one before.
-/

namespace HidDescriptor

/-- What is asked of a device. -/
structure Filter where
  usagePage : Option UsagePage := none
  usageId : Option UsageId := none
  vendorId : Option UInt16 := none
  productId : Option UInt16 := none
  deriving DecidableEq, Repr

namespace Filter

def any : Filter := {}

def forUsage (u : Usage) : Filter := { usagePage := some u.page, usageId := some u.id }

/-- Asks for an authenticator that speaks CTAPHID, which is usage 1 on the page of the FIDO
Alliance. -/
def fido : Filter := forUsage ⟨0xf1d0, 0x01⟩

def withVendorId (f : Filter) (id : UInt16) : Filter := { f with vendorId := some id }

def withProductId (f : Filter) (id : UInt16) : Filter := { f with productId := some id }

/-- The device meets every criterion that is given. -/
def Accepts (f : Filter) (d : Device) : Prop :=
  (∀ page ∈ f.usagePage, d.usagePage = some page) ∧
  (∀ id ∈ f.usageId, d.usageId = some id) ∧
  (∀ id ∈ f.vendorId, d.vendorId = id) ∧
  (∀ id ∈ f.productId, d.productId = id)

/-- A criterion is met if it is not given, or if it is what there is. -/
theorem met_iff {α : Type} {wanted actual : Option α} :
    (∀ x ∈ wanted, actual = some x) ↔ wanted = none ∨ wanted = actual := by
  cases wanted with
  | none => simp
  | some x => simp [eq_comm]

theorem id_met_iff {wanted : Option UInt16} {actual : UInt16} :
    (∀ id ∈ wanted, actual = id) ↔ wanted = none ∨ wanted = some actual := by
  simp only [← met_iff, Option.some.injEq]

/-- Each criterion is not given, or it is what the device has. -/
theorem accepts_iff (f : Filter) (d : Device) :
    f.Accepts d ↔
      (f.usagePage = none ∨ f.usagePage = d.usagePage) ∧
        (f.usageId = none ∨ f.usageId = d.usageId) ∧
        (f.vendorId = none ∨ f.vendorId = some d.vendorId) ∧
        (f.productId = none ∨ f.productId = some d.productId) := by
  rw [Accepts, met_iff, met_iff, id_met_iff, id_met_iff]

-- the criteria as they are defined might be decided by going through all ids
instance (f : Filter) (d : Device) : Decidable (f.Accepts d) :=
  decidable_of_iff _ (accepts_iff f d).symm

def select (f : Filter) (devices : List Device) : List Device :=
  devices.filter fun d => f.Accepts d

/-- The devices present that the filter accepts. Whatever goes wrong when the devices are listed
goes wrong here as well. -/
def find {m : Type → Type} [Functor m] (f : Filter) (present : m (List Device)) :
    m (List Device) :=
  f.select <$> present

theorem mem_select {f : Filter} {d : Device} {devices : List Device} :
    d ∈ f.select devices ↔ d ∈ devices ∧ f.Accepts d := by simp [select]

end Filter

end HidDescriptor
