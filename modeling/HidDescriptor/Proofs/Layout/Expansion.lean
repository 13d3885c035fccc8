import HidDescriptor.Layout.Slots
import Mathlib.Algebra.GroupWithZero.Nat

/-! # What one record adds to its report

`FieldRecord.slots` goes through a series of checks, some of them on 64-bit words, and lists the
slots of a record if none of the checks fails. Here the same is said in natural numbers and in two
parts: `offence?` is what is wrong with a record, and `Expands` is which slots a record stands for.
Neither mentions the other, and `slots` answers with the one or the other:

    slots_spec : match f.offence? used with
      | some cause => f.slots used = .error ⟨f.offset, cause⟩
      | none => (∃ slots, f.slots used = .ok slots ∧ f.Expands slots) ∧ …
-/

namespace HidDescriptor
namespace FieldRecord

def elementSize (f : FieldRecord) : Nat := f.globals.reportSize.elim 0 UInt64.toNat

def elementCount (f : FieldRecord) : Nat := f.globals.reportCount.elim 0 UInt64.toNat

/-- The number of bits of all elements, however large. -/
def bits (f : FieldRecord) : Nat := f.elementSize * f.elementCount

/-- What is wrong with a record of data, its bits aside. The first thing that is wrong counts. -/
def dataOffence? (f : FieldRecord) : Option Fault.Cause :=
  if f.globals.logicalMinimum = none then some (.missingGlobal .logicalMinimum)
  else if f.globals.logicalMaximum = none then some (.missingGlobal .logicalMaximum)
  else if f.usages = [] then some .missingUsage
  else none

/-- What is wrong with a record in a report of which `used` bits are taken. The first thing that is
wrong counts. A record of no bits and a constant record need neither a range nor usages. -/
def offence? (f : FieldRecord) (used : Nat) : Option Fault.Cause :=
  if f.globals.reportSize = none then some (.missingGlobal .reportSize)
  else if f.globals.reportCount = none then some (.missingGlobal .reportCount)
  else if 0 < f.bits ∧ 131072 < used + f.bits then some .reportTooLarge
  else if f.bits = 0 ∨ f.flags.isConstant then none
  else f.dataOffence?

/-- The traits are those that the record gives to its data. -/
structure Gives (f : FieldRecord) (traits : DataTraits) : Prop where
  minimum : f.globals.logicalMinimum = some traits.logical.minimum
  maximum : f.globals.logicalMaximum = some traits.logical.maximum
  physical : ∀ range, traits.physical = some range ↔
    f.globals.physicalMinimum = some range.minimum ∧
      f.globals.physicalMaximum = some range.maximum
  unit : traits.unit = f.globals.unit
  unitExponent : traits.unitExponent = f.globals.unitExponent
  collections : traits.collections = f.collections

/-- There is one slot for each element. The elements take the usages in turn, and the last usage
stays for all elements beyond the list. -/
structure InTurn (f : FieldRecord) (traits : DataTraits) (slots : List Slot) : Prop where
  length : slots.length = f.elementCount
  get : ∀ c < f.elementCount, ∃ u, f.usages[min c (f.usages.length - 1)]? = some u ∧
    slots[c]? = some ⟨f.elementSize, .variableOf u traits⟩

/-- The slots are those that the record stands for. -/
inductive Expands (f : FieldRecord) : List Slot → Prop
  | zero : f.bits = 0 → Expands f []
  | constant : 0 < f.bits → f.flags.isConstant = true → Expands f [⟨f.bits, .constant⟩]
  | elements {slots traits} : 0 < f.bits → f.flags.isConstant = false →
      f.flags.isVariable = true → f.Gives traits → f.InTurn traits slots → Expands f slots
  | array {traits} : 0 < f.bits → f.flags.isConstant = false → f.flags.isVariable = false →
      f.Gives traits → f.usages ≠ [] → Expands f [⟨f.bits, .arrayOf f.usages traits⟩]

variable {f : FieldRecord}

/-! ## The slots of an expansion -/

theorem InTurn.width_eq {traits : DataTraits} {slots : List Slot} (h : f.InTurn traits slots)
    {s : Slot} (hs : s ∈ slots) : s.width = f.elementSize := by
  obtain ⟨c, hc, rfl⟩ := List.mem_iff_getElem.mp hs
  obtain ⟨u, -, hslot⟩ := h.get c (h.length ▸ hc)
  rw [List.getElem?_eq_getElem hc, Option.some.injEq] at hslot
  rw [hslot]

/-- No slot of an expansion is empty. -/
theorem Expands.width_pos {slots : List Slot} (h : f.Expands slots) : ∀ s ∈ slots, 0 < s.width := by
  cases h with
  | zero _ => simp
  | constant hpos _ => simpa using hpos
  | elements hpos _ _ _ hturn =>
      intro s hs
      rw [hturn.width_eq hs]
      exact Nat.pos_of_mul_pos_right hpos
  | array hpos _ _ _ _ => simpa using hpos

/-- The slots of an expansion take up the bits of the record. -/
theorem Expands.sum_width {slots : List Slot} (h : f.Expands slots) :
    (slots.map (·.width)).sum = f.bits := by
  cases h with
  | zero hzero => rw [hzero]; rfl
  | constant _ _ => simp
  | elements _ _ _ _ hturn =>
      have hwidth : slots.map (·.width) = List.replicate f.elementCount f.elementSize := by
        refine List.eq_replicate_iff.mpr ⟨by simpa using hturn.length, fun w hw => ?_⟩
        obtain ⟨s, hs, rfl⟩ := List.mem_map.mp hw
        exact hturn.width_eq hs
      rw [hwidth, List.sum_replicate_nat, bits, Nat.mul_comm]
  | array _ _ _ _ _ => simp

/-! ## What `slots` answers -/

theorem require_of_some {r : GlobalRegister} {w : r.Word} (h : f.globals.get r = some w) :
    f.require r = .ok w := by
  rw [require, h]

theorem require_of_none {r : GlobalRegister} (h : f.globals.get r = none) :
    f.require r = .error ⟨f.offset, .missingGlobal r⟩ := by
  rw [require, h]
  rfl

/-- With both ends of the logical range there are traits. -/
theorem traits_of_some {minimum maximum : Int32} (hmin : f.globals.logicalMinimum = some minimum)
    (hmax : f.globals.logicalMaximum = some maximum) :
    ∃ traits, f.traits = .ok traits ∧ f.Gives traits := by
  rw [traits, require_of_some (r := .logicalMinimum) hmin,
    require_of_some (r := .logicalMaximum) hmax]
  refine ⟨_, rfl, hmin, hmax, fun range => ?_, rfl, rfl, rfl⟩
  obtain ⟨low, high⟩ := range
  cases f.globals.physicalMinimum <;> cases f.globals.physicalMaximum <;> simp

/-- The elements take the usages in turn, and the last usage stays. -/
theorem getElem?_usagesOfElements {count c : Nat} (hc : c < count) (first : Usage)
    (rest : List Usage) :
    (usagesOfElements count first rest)[c]? = (first :: rest)[min c rest.length]? := by
  rw [usagesOfElements, List.getElem?_take_of_lt hc]
  by_cases hlt : c < (first :: rest).length
  · rw [List.getElem?_append_left hlt]
    rw [List.length_cons] at hlt
    rw [Nat.min_eq_left (by omega)]
  · rw [List.getElem?_append_right (by omega), List.getElem?_replicate]
    rw [List.length_cons] at hlt ⊢
    rw [if_pos (by omega), Nat.min_eq_right (by omega)]
    cases rest <;> simp [List.getLastD_eq_getLast?, List.getLast?_eq_getElem?]

theorem inTurn_usagesOfElements {first : Usage} {rest : List Usage} (traits : DataTraits)
    (hu : f.usages = first :: rest) :
    f.InTurn traits ((usagesOfElements f.elementCount first rest).map fun u =>
      ⟨f.elementSize, .variableOf u traits⟩) where
  length := by simp
  get c hc := by
    have hc' : c < (usagesOfElements f.elementCount first rest).length := by simpa using hc
    have hget := getElem?_usagesOfElements hc first rest
    rw [List.getElem?_eq_getElem hc'] at hget
    refine ⟨(usagesOfElements f.elementCount first rest)[c], ?_, ?_⟩
    · rw [hu, List.length_cons, Nat.add_sub_cancel]
      exact hget.symm
    · rw [List.getElem?_map, List.getElem?_eq_getElem hc']
      rfl

theorem dataSlots_of_noMinimum {size count : Nat} (hmin : f.globals.logicalMinimum = none) :
    f.dataSlots size count = .error ⟨f.offset, .missingGlobal .logicalMinimum⟩ := by
  rw [dataSlots, traits, require_of_none (r := .logicalMinimum) hmin]
  rfl

theorem dataSlots_of_noMaximum {size count : Nat} {minimum : Int32}
    (hmin : f.globals.logicalMinimum = some minimum) (hmax : f.globals.logicalMaximum = none) :
    f.dataSlots size count = .error ⟨f.offset, .missingGlobal .logicalMaximum⟩ := by
  rw [dataSlots, traits, require_of_some (r := .logicalMinimum) hmin,
    require_of_none (r := .logicalMaximum) hmax]
  rfl

theorem dataSlots_of_nil {size count : Nat} {traits : DataTraits} (ht : f.traits = .ok traits)
    (hu : f.usages = []) : f.dataSlots size count = .error ⟨f.offset, .missingUsage⟩ := by
  rw [dataSlots, ht, hu]
  rfl

/-- Data with a range and usages have the slots that they stand for. -/
theorem expands_dataSlots {traits : DataTraits} (hpos : 0 < f.bits)
    (hdata : f.flags.isConstant = false) (ht : f.traits = .ok traits) (hgives : f.Gives traits)
    (hu : f.usages ≠ []) :
    ∃ slots, f.dataSlots f.elementSize f.elementCount = .ok slots ∧ f.Expands slots := by
  obtain ⟨first, rest, hsplit⟩ := List.exists_cons_of_ne_nil hu
  rw [dataSlots, ht, hsplit]
  cases hvar : f.flags.isVariable with
  | true => exact ⟨_, rfl, .elements hpos hdata hvar hgives (inTurn_usagesOfElements traits hsplit)⟩
  | false =>
      refine ⟨_, rfl, ?_⟩
      rw [← hsplit]
      exact .array hpos hdata hvar hgives hu

/-- **The answer of `dataSlots`**, where there is at least one bit. -/
theorem dataSlots_spec (hpos : 0 < f.bits) (hdata : f.flags.isConstant = false) :
    match f.dataOffence? with
    | some cause => f.dataSlots f.elementSize f.elementCount = .error ⟨f.offset, cause⟩
    | none => ∃ slots, f.dataSlots f.elementSize f.elementCount = .ok slots ∧ f.Expands slots := by
  rw [dataOffence?]
  cases hmin : f.globals.logicalMinimum with
  | none =>
      simp only [↓reduceIte]
      exact dataSlots_of_noMinimum hmin
  | some minimum =>
  cases hmax : f.globals.logicalMaximum with
  | none =>
      simp only [reduceCtorEq, ↓reduceIte]
      exact dataSlots_of_noMaximum hmin hmax
  | some maximum =>
  simp only [reduceCtorEq, ↓reduceIte]
  obtain ⟨traits, ht, hgives⟩ := traits_of_some hmin hmax
  by_cases hu : f.usages = []
  · simp only [hu, ↓reduceIte]
    exact dataSlots_of_nil ht hu
  · simp only [hu, ↓reduceIte]
    exact expands_dataSlots hpos hdata ht hgives hu

theorem bits_of_some {size count : UInt64} (hs : f.globals.reportSize = some size)
    (hc : f.globals.reportCount = some count) : f.bits = size.toNat * count.toNat := by
  rw [bits, elementSize, elementCount, hs, hc]
  rfl

theorem bitSize?_of_some {size count : UInt64} (hs : f.globals.reportSize = some size)
    (hc : f.globals.reportCount = some count) :
    f.bitSize? = if f.bits < UInt64.size then some f.bits else none := by
  rw [bitSize?, hs, hc, bits_of_some hs hc]

/-- The checks of a record whose size and count are known. A product that does not fit a 64-bit word
is too large for any report, so the check of the sum covers it. -/
theorem slots_of_known {used : Nat} {size count : UInt64} (hs : f.globals.reportSize = some size)
    (hc : f.globals.reportCount = some count) :
    f.slots used =
      if f.bits = 0 then .ok []
      else if 131072 < used + f.bits then .error ⟨f.offset, .reportTooLarge⟩
      else if f.flags.isConstant then .ok [⟨f.bits, .constant⟩]
      else f.dataSlots f.elementSize f.elementCount := by
  have hsize : f.elementSize = size.toNat := by rw [elementSize, hs]; rfl
  have hcount : f.elementCount = count.toNat := by rw [elementCount, hc]; rfl
  rw [slots, require_of_some (r := .reportSize) hs, require_of_some (r := .reportCount) hc,
    bitSize?_of_some hs hc, hsize, hcount]
  by_cases hfits : f.bits < UInt64.size
  · rw [if_pos hfits]
    rfl
  · have hlarge : 131072 < f.bits := Nat.lt_of_lt_of_le (by decide) (Nat.le_of_not_lt hfits)
    rw [if_neg hfits, if_neg (by omega), if_pos (by omega)]
    rfl

/-- **The answer of `slots`**: a record that offends has no slots, and any other has those that it
stands for, and they fit. -/
theorem slots_spec (f : FieldRecord) (used : Nat) :
    match f.offence? used with
    | some cause => f.slots used = .error ⟨f.offset, cause⟩
    | none => (∃ slots, f.slots used = .ok slots ∧ f.Expands slots) ∧
        (f.bits = 0 ∨ used + f.bits ≤ 131072) := by
  rw [offence?]
  -- check by check: the cases that are left have passed all the checks before
  cases hs : f.globals.reportSize with
  | none =>
      simp only [↓reduceIte]
      rw [slots, require_of_none (r := .reportSize) hs]
      rfl
  | some size =>
  cases hc : f.globals.reportCount with
  | none =>
      simp only [reduceCtorEq, ↓reduceIte]
      rw [slots, require_of_some (r := .reportSize) hs, require_of_none (r := .reportCount) hc]
      rfl
  | some count =>
  rw [slots_of_known hs hc]
  simp only [reduceCtorEq, ↓reduceIte]
  by_cases hzero : f.bits = 0
  · simp only [hzero, Nat.lt_irrefl, false_and, true_or, ↓reduceIte]
    exact ⟨⟨[], rfl, .zero hzero⟩, trivial⟩
  have hpos : 0 < f.bits := Nat.pos_of_ne_zero hzero
  by_cases hlarge : 131072 < used + f.bits
  · simp only [hpos, hlarge, hzero, and_self, ↓reduceIte]
  cases hconst : f.flags.isConstant with
  | true =>
      simp only [hpos, hlarge, hzero, and_false, or_true, ↓reduceIte, false_or]
      exact ⟨⟨_, rfl, .constant hpos hconst⟩, by omega⟩
  | false =>
  simp only [hpos, hlarge, hzero, and_false, or_self, Bool.false_eq_true, ↓reduceIte, false_or]
  have hspec := dataSlots_spec hpos hconst
  cases hoff : f.dataOffence? with
  | some cause =>
      rw [hoff] at hspec
      exact hspec
  | none =>
      rw [hoff] at hspec
      exact ⟨hspec, by omega⟩

/-- A record that offends has no slots, and its fault says why. -/
theorem slots_of_offence {used : Nat} {cause : Fault.Cause} (h : f.offence? used = some cause) :
    f.slots used = .error ⟨f.offset, cause⟩ := by
  have hspec := f.slots_spec used
  rwa [h] at hspec

/-- A record that does not offend has the slots that it stands for. -/
theorem slots_of_no_offence {used : Nat} (h : f.offence? used = none) :
    ∃ slots, f.slots used = .ok slots ∧ f.Expands slots := by
  have hspec := f.slots_spec used
  rw [h] at hspec
  exact hspec.1

theorem offence?_of_slots {used : Nat} {slots : List Slot} (h : f.slots used = .ok slots) :
    f.offence? used = none := by
  cases hoff : f.offence? used with
  | none => rfl
  | some cause => rw [slots_of_offence hoff] at h; cases h

/-- The slots of a record are those that it stands for, and they do not make the report too large.
-/
theorem expands_of_slots {used : Nat} {slots : List Slot} (h : f.slots used = .ok slots) :
    f.Expands slots ∧ (f.bits = 0 ∨ used + f.bits ≤ 131072) := by
  have hspec := f.slots_spec used
  rw [offence?_of_slots h] at hspec
  obtain ⟨⟨slots', hok, hexp⟩, hfits⟩ := hspec
  rw [h] at hok
  cases hok
  exact ⟨hexp, hfits⟩

theorem known_of_no_offence {used : Nat} (h : f.offence? used = none) :
    f.globals.reportSize.isSome ∧ f.globals.reportCount.isSome := by
  rw [offence?] at h
  constructor
  · cases hs : f.globals.reportSize with
    | none => simp [hs] at h
    | some size => rfl
  · cases hc : f.globals.reportCount with
    | none =>
        rw [hc] at h
        split at h <;> simp at h
    | some count => rfl

end FieldRecord
end HidDescriptor
