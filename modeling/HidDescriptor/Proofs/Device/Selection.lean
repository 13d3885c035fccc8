import HidDescriptor.Device.Channel
import HidDescriptor.Device.Filter
import HidDescriptor.Proofs.Device.Identification
import Mathlib.Data.List.Induction

/-! # From descriptors to the selected devices

A filter is made in steps (`Filter.Recipe`), and the devices that it is held against have been made
in steps as well: the system lists them, and each is then shown its own report descriptor
(`Device.Attached`). What matters in the end is neither the filter nor the listed device but where
they come from: the usage that the filter was started from against the descriptor, and the ids that
were added last against the ids of the device (`Device.Attached.Suits`). Both ways select the same
devices (`find_enumerate`).

This rests on the system leaving the top-level usage to the descriptor. Then a listed device has the
page and the id that the descriptor has, and it has none if the descriptor has none
(`accepts_listed_iff`). -/

namespace HidDescriptor

/-! ## Making a filter -/

namespace Filter

inductive Start where
  | any
  | forUsage (u : Usage)
  | fido
  deriving DecidableEq, Repr

namespace Start

def filter : Start → Filter
  | any => Filter.any
  | forUsage u => Filter.forUsage u
  | fido => Filter.fido

def usage? : Start → Option Usage
  | any => none
  | forUsage u => some u
  | fido => some ⟨0xf1d0, 0x01⟩

theorem filter_eq (s : Start) :
    s.filter = { usagePage := s.usage?.map (·.page), usageId := s.usage?.map (·.id) } := by
  cases s with
  | any => rfl
  | forUsage u => rfl
  | fido => rfl

end Start

inductive Addition where
  | vendorId (id : UInt16)
  | productId (id : UInt16)
  deriving DecidableEq, Repr

namespace Addition

def vendorId? : Addition → Option UInt16
  | vendorId id => some id
  | productId _ => none

def productId? : Addition → Option UInt16
  | vendorId _ => none
  | productId id => some id

end Addition

def add (f : Filter) : Addition → Filter
  | .vendorId id => f.withVendorId id
  | .productId id => f.withProductId id

def addAll (f : Filter) (additions : List Addition) : Filter := additions.foldl add f

/-- How a filter is made. -/
structure Recipe where
  start : Start
  additions : List Addition := []
  deriving DecidableEq, Repr

namespace Recipe

def filter (r : Recipe) : Filter := r.start.filter.addAll r.additions

def usage? (r : Recipe) : Option Usage := r.start.usage?

/-- The vendor id that was added last. -/
def vendorId? (r : Recipe) : Option UInt16 := (r.additions.filterMap (·.vendorId?)).getLast?

/-- The product id that was added last. -/
def productId? (r : Recipe) : Option UInt16 := (r.additions.filterMap (·.productId?)).getLast?

end Recipe

theorem addAll_concat (f : Filter) (additions : List Addition) (last : Addition) :
    f.addAll (additions ++ [last]) = (f.addAll additions).add last := by
  rw [addAll, List.foldl_append]
  rfl

/-- **Any number of additions**: what was added last stands, and what was never added is as
before. -/
theorem addAll_eq (f : Filter) (additions : List Addition) :
    f.addAll additions =
      { f with
        vendorId := (additions.filterMap (·.vendorId?)).getLast? <|> f.vendorId
        productId := (additions.filterMap (·.productId?)).getLast? <|> f.productId } := by
  induction additions using List.reverseRecOn with
  | nil => rfl
  | append_singleton additions last ih =>
      rw [addAll_concat, ih, List.filterMap_append, List.filterMap_append]
      cases last with
      | vendorId id => simp [add, withVendorId, Addition.vendorId?, Addition.productId?]
      | productId id => simp [add, withProductId, Addition.vendorId?, Addition.productId?]

/-- A filter asks for its usage, and for the ids that were added last. -/
theorem Recipe.filter_eq (r : Recipe) :
    r.filter =
      { usagePage := r.usage?.map (·.page), usageId := r.usage?.map (·.id)
        vendorId := r.vendorId?, productId := r.productId? } := by
  rw [filter, addAll_eq, Start.filter_eq]
  simp [usage?, vendorId?, productId?]

end Filter

/-! ## Listing the devices -/

namespace Device

/-- A device that is present, and the report descriptor that it has. -/
structure Attached where
  device : Device
  descriptor : List UInt8
  deriving DecidableEq, Repr

namespace Attached

/-- The system does not tell the top-level usage. -/
def Untold (a : Attached) : Prop := a.device.usagePage = none ∧ a.device.usageId = none

instance (a : Attached) : Decidable a.Untold :=
  inferInstanceAs (Decidable (_ ∧ _))

def listed (a : Attached) : Device := a.device.identify a.descriptor

/-- Nothing but its descriptor tells the top-level usage of a listed device. -/
theorem Untold.listed_eq {a : Attached} (h : a.Untold) :
    a.listed =
      { a.device with
        usagePage := (topLevelUsage? a.descriptor).map (·.page)
        usageId := (topLevelUsage? a.descriptor).map (·.id) } := by
  obtain ⟨hpage, hid⟩ := h
  rw [listed, identify_eq_fill, fill, hpage, hid]
  rfl

/-- What a filter asks for, of the descriptor and of the ids of the device: each is as it should be,
unless it does not matter. -/
def Suits (a : Attached) (r : Filter.Recipe) : Prop :=
  (r.usage? = none ∨ r.usage? = topLevelUsage? a.descriptor) ∧
    (r.vendorId? = none ∨ r.vendorId? = some a.device.vendorId) ∧
    (r.productId? = none ∨ r.productId? = some a.device.productId)

instance (a : Attached) (r : Filter.Recipe) : Decidable (a.Suits r) :=
  inferInstanceAs (Decidable (_ ∧ _ ∧ _))

end Attached

/-- Lists the devices that the system has found, unless it fails. -/
def enumerate (found : Except Error (List Attached)) : Except Error (List Device) :=
  List.map Attached.listed <$> found

end Device

/-! ## What is found -/

namespace Filter

open Device

variable {a : Attached} {r : Recipe} {attached : List Attached}

/-- The criteria for the page and for the id are one for the usage. -/
theorem usage_met_iff {wanted actual : Option Usage} :
    (wanted.map (·.page) = none ∨ wanted.map (·.page) = actual.map (·.page)) ∧
        (wanted.map (·.id) = none ∨ wanted.map (·.id) = actual.map (·.id)) ↔
      wanted = none ∨ wanted = actual := by
  cases wanted with
  | none => simp
  | some u =>
      obtain ⟨page, id⟩ := u
      cases actual with
      | none => simp
      | some v =>
          obtain ⟨page', id'⟩ := v
          simp

/-- A listed device is accepted if and only if it suits. -/
theorem accepts_listed_iff (h : a.Untold) : r.filter.Accepts a.listed ↔ a.Suits r := by
  rw [accepts_iff, h.listed_eq, r.filter_eq, ← and_assoc]
  exact and_congr_left' usage_met_iff

/-- A device is selected as often as it is listed, or not at all. -/
theorem count_select (f : Filter) (devices : List Device) (d : Device) :
    (f.select devices).count d = if f.Accepts d then devices.count d else 0 := by
  by_cases h : f.Accepts d
  · rw [if_pos h]
    exact List.count_filter (decide_eq_true h)
  · rw [if_neg h, List.count_eq_zero]
    intro hmem
    exact h (mem_select.mp hmem).2

/-- A filter selects those of the listed devices that suit. -/
theorem select_listed (huntold : ∀ a ∈ attached, a.Untold) :
    r.filter.select (attached.map (·.listed)) =
      (attached.filter (·.Suits r)).map (·.listed) := by
  rw [select, List.filter_map]
  apply congrArg
  apply List.filter_congr
  intro a ha
  exact decide_eq_decide.mpr (accepts_listed_iff (huntold a ha))

/-- **What is found.** If the system leaves the top-level usage to the descriptors, a filter finds
the devices that suit, in the order in which they are listed and each as often as it is listed. A
device whose descriptor has no top-level usage is not found if a usage is asked for. If listing the
devices fails, that failure is all there is. -/
theorem find_enumerate (r : Recipe) :
    (∀ attached : List Attached, (∀ a ∈ attached, a.Untold) →
        ∃ found, r.filter.find (enumerate (.ok attached)) = .ok found ∧
          found = (attached.filter (·.Suits r)).map (·.listed) ∧
          (∀ a ∈ attached, found.count a.listed =
            if a.Suits r then (attached.map (·.listed)).count a.listed else 0) ∧
          ∀ a ∈ attached, r.usage?.isSome → topLevelUsage? a.descriptor = none →
            a.listed ∉ found) ∧
      ∀ present error, enumerate present = .error error →
        r.filter.find (enumerate present) = .error error := by
  constructor
  · intro attached huntold
    refine ⟨r.filter.select (attached.map (·.listed)), rfl, select_listed huntold, ?_, ?_⟩
    · intro a ha
      rw [count_select]
      exact if_congr (accepts_listed_iff (huntold a ha)) rfl rfl
    · intro a ha husage hnone hmem
      obtain ⟨u, hu⟩ := Option.isSome_iff_exists.mp husage
      have hsuits := (accepts_listed_iff (huntold a ha)).mp (mem_select.mp hmem).2
      rcases hsuits.1 with hany | hsame
      · rw [hu] at hany
        cases hany
      · rw [hu, hnone] at hsame
        cases hsame
  · intro present error h
    rw [h]
    rfl

/-- A mouse that is listed twice, a key from another vendor between the two, and a device that has
no top-level usage. The vendor of the key was asked for, and then that of the mouse. -/
theorem find_enumerate_twice :
    ∃ (r : Recipe) (mouse key other : Attached) (failure : Error),
      r = ⟨.forUsage ⟨1, 2⟩, [.vendorId 0x1050, .productId 0xc077, .vendorId 0x046d]⟩ ∧
      topLevelUsage? key.descriptor = some ⟨0xf1d0, 1⟩ ∧
      topLevelUsage? other.descriptor = none ∧ other.device.vendorId = 0x046d ∧
      (∀ a ∈ [mouse, key, mouse, other], a.Untold) ∧
      r.filter.find (enumerate (.ok [mouse, key, mouse, other])) =
        .ok [mouse.listed, mouse.listed] ∧
      other.listed ∉ [mouse.listed, mouse.listed] ∧
      r.filter.find (enumerate (.error failure)) = .error failure := by
  let r : Recipe := ⟨.forUsage ⟨1, 2⟩, [.vendorId 0x1050, .productId 0xc077, .vendorId 0x046d]⟩
  let mouse : Attached :=
    { device := { path := "/dev/hidraw0", vendorId := 0x046d, productId := 0xc077 }
      descriptor := [0x05, 0x01, 0x09, 0x02, 0xa1, 0x01] }
  let key : Attached :=
    { device := { path := "/dev/hidraw1", vendorId := 0x1050, productId := 0x0407 }
      descriptor := [0x06, 0xd0, 0xf1, 0x09, 0x01, 0xa1, 0x01] }
  let other : Attached :=
    { device := { path := "/dev/hidraw2", vendorId := 0x046d, productId := 0xc077 }
      descriptor := [0xc0] }
  have huntold : ∀ a ∈ [mouse, key, mouse, other], a.Untold := by decide
  have hnone : topLevelUsage? other.descriptor = none := by decide +kernel
  obtain ⟨hlisted, hfails⟩ := find_enumerate r
  obtain ⟨found, hfind, hfound, -, hnever⟩ := hlisted _ huntold
  have htwice : found = [mouse.listed, mouse.listed] := hfound.trans (by decide +kernel)
  rw [htwice] at hfind hnever
  refine ⟨r, mouse, key, other, .io "", rfl, by decide +kernel, hnone, rfl, huntold, hfind, ?_, ?_⟩
  · exact hnever other (by decide) rfl hnone
  · exact hfails (.error (.io "")) (.io "") rfl

end Filter

end HidDescriptor
