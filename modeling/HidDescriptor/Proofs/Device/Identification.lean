import HidDescriptor.Device.Basic

/-! # Looking at one descriptor after the other

`Device.identify` makes a new device, with both halves of a top-level usage filled in or neither.
Whoever keeps the device in a variable fills in the page and the id one at a time, and does so for
each descriptor that comes along (`Device.look`). Some of the descriptors have no top-level usage,
and the system may have told one of the halves, or both, beforehand.

A look fills in what it finds (`run_look`), and of two findings the first one leaves no room for the
second (`fill_fill`). So any number of looks fill in what the first descriptor with a top-level usage
has (`run_looks`), and nothing changes from there on (`first_look_stands`). -/

namespace HidDescriptor
namespace Device

/-! ## One look -/

/-- Fills in the page, unless there is one. -/
def fillPage (page : UsagePage) : StateM Device Unit :=
  modify fun d => { d with usagePage := d.usagePage <|> some page }

def fillId (id : UsageId) : StateM Device Unit :=
  modify fun d => { d with usageId := d.usageId <|> some id }

/-- Looks at a report descriptor and fills in what is missing of the top-level usage. The answer is
whether the descriptor has one. -/
def look (descriptor : List UInt8) : StateM Device Bool := do
  match topLevelUsage? descriptor with
  | some u =>
    fillPage u.page
    fillId u.id
    return true
  | none => return false

/-- The device after a search that found a top-level usage, or did not. -/
def fill (d : Device) (found : Option Usage) : Device :=
  { d with
    usagePage := d.usagePage <|> found.map (·.page)
    usageId := d.usageId <|> found.map (·.id) }

@[simp] theorem fill_none (d : Device) : d.fill none = d := by
  simp [fill]

/-- What was found second counts only if nothing was found first. -/
theorem fill_fill (d : Device) (first second : Option Usage) :
    (d.fill first).fill second = d.fill (first <|> second) := by
  cases first with
  | none =>
      rw [fill_none]
      rfl
  | some u =>
      cases second with
      | none => exact fill_none (d.withUsage u)
      | some v => exact withUsage_withUsage d u v

/-- To identify a device is to fill in what the search has found. -/
theorem identify_eq_fill (d : Device) (descriptor : List UInt8) :
    d.identify descriptor = d.fill (topLevelUsage? descriptor) := by
  unfold identify identify?
  cases topLevelUsage? descriptor with
  | none => exact (fill_none d).symm
  | some u => rfl

theorem isSome_identify? (d : Device) (descriptor : List UInt8) :
    (d.identify? descriptor).isSome = (topLevelUsage? descriptor).isSome :=
  Option.isSome_map

/-- **One step**: what the search finds is filled in, half by half. -/
theorem run_look (d : Device) (descriptor : List UInt8) :
    (look descriptor).run d =
      ((topLevelUsage? descriptor).isSome, d.fill (topLevelUsage? descriptor)) := by
  unfold look
  cases topLevelUsage? descriptor with
  | none =>
      rw [fill_none]
      rfl
  | some u => rfl

/-! ## Any number of looks -/

def looks (descriptors : List (List UInt8)) : StateM Device (List Bool) := descriptors.mapM look

variable {d e : Device} {descriptor : List UInt8} {seen : List (List UInt8)} {answers : List Bool}

theorem run_looks_cons (d : Device) (descriptor : List UInt8) (rest : List (List UInt8)) :
    (looks (descriptor :: rest)).run d =
      (((look descriptor).run d).1 :: ((looks rest).run ((look descriptor).run d).2).1,
        ((looks rest).run ((look descriptor).run d).2).2) := by
  unfold looks
  rw [List.mapM_cons]
  rfl

/-- **A run**: the first top-level usage is filled in. -/
theorem run_looks (d : Device) (descriptors : List (List UInt8)) :
    (looks descriptors).run d =
      (descriptors.map fun descriptor => (topLevelUsage? descriptor).isSome,
        d.fill (descriptors.findSome? topLevelUsage?)) := by
  induction descriptors generalizing d with
  | nil =>
      show ([], d) = ([], d.fill none)
      rw [fill_none]
  | cons descriptor rest ih =>
      rw [run_looks_cons, run_look, ih, fill_fill, List.map_cons, List.findSome?_cons]
      cases topLevelUsage? descriptor with
      | none => rfl
      | some u => rfl

/-- A look that finds nothing does nothing. -/
theorem eq_of_run_look_false (h : (look descriptor).run d = (false, e)) : e = d := by
  rw [run_look] at h
  obtain ⟨hanswer, rfl⟩ := Prod.mk.inj h
  rw [Option.isSome_eq_false_iff, Option.isNone_iff_eq_none] at hanswer
  rw [hanswer, fill_none]

/-- Where one look has found something, further looks find the device complete. -/
theorem run_looks_of_true_mem (h : (looks seen).run d = (answers, e)) (htrue : true ∈ answers)
    (more : List (List UInt8)) : ((looks more).run e).2 = e := by
  rw [run_looks] at h
  obtain ⟨rfl, rfl⟩ := Prod.mk.inj h
  obtain ⟨descriptor, hmem, hsome⟩ := List.mem_map.mp htrue
  have hfound : (seen.findSome? topLevelUsage?).isSome :=
    List.findSome?_isSome_iff.mpr ⟨descriptor, hmem, hsome⟩
  obtain ⟨u, hu⟩ := Option.isSome_iff_exists.mp hfound
  rw [run_looks, hu, fill_fill]
  rfl

/-- **The first descriptor that tells the top-level usage is the one that counts.** A look answers
whether the descriptor has a top-level usage, and makes of the device what `identify` does. Any
number of looks fill in the page and the id of the first descriptor that has them, each unless it was
there before, and nothing else. A look whose answer is no changes nothing; after one whose answer is
yes, no more looks change anything; and a second look at a descriptor is as good as the first. -/
theorem first_look_stands :
    (∀ (d : Device) (descriptor : List UInt8),
        (look descriptor).run d = ((d.identify? descriptor).isSome, d.identify descriptor)) ∧
      (∀ (d : Device) (descriptors : List (List UInt8)),
        (looks descriptors).run d =
          (descriptors.map fun descriptor => (topLevelUsage? descriptor).isSome,
            { d with
              usagePage := d.usagePage <|> (descriptors.findSome? topLevelUsage?).map (·.page)
              usageId := d.usageId <|> (descriptors.findSome? topLevelUsage?).map (·.id) })) ∧
      (∀ (d e : Device) (descriptor : List UInt8),
        (look descriptor).run d = (false, e) → e = d) ∧
      (∀ (d e : Device) (seen : List (List UInt8)) (answers : List Bool),
        (looks seen).run d = (answers, e) → true ∈ answers →
          ∀ more, ((looks more).run e).2 = e) ∧
      ∀ (d : Device) (descriptor : List UInt8),
        (look descriptor).run ((look descriptor).run d).2 = (look descriptor).run d := by
  refine ⟨?_, run_looks, ?_, ?_, ?_⟩
  · intro d descriptor
    rw [run_look, isSome_identify?, identify_eq_fill]
  · intro d e descriptor h
    exact eq_of_run_look_false h
  · intro d e seen answers h htrue more
    exact run_looks_of_true_mem h htrue more
  · intro d descriptor
    rw [run_look, run_look, ← identify_eq_fill, ← identify_eq_fill, identify_identify]

/-- The system tells the page, and the first descriptor is of no use. The second one supplies the
id, and the third one neither. -/
theorem first_look_stands_presetPage :
    ∃ (d e : Device) (seen more : List (List UInt8)),
      d.usagePage = some 0x0c ∧ d.usageId = none ∧
      (looks seen).run d = ([false, true], e) ∧ e = { d with usageId := some 2 } ∧
      ((looks more).run d).2 ≠ d ∧ ((looks more).run e).2 = e ∧
      ∃ f, (look [0xc0]).run d = (false, f) ∧ f = d := by
  let d : Device := { path := "/dev/hidraw1", usagePage := some 0x0c }
  let e : Device := { path := "/dev/hidraw1", usagePage := some 0x0c, usageId := some 2 }
  let seen : List (List UInt8) := [[0xc0], [0x05, 0x01, 0x09, 0x02, 0xa1, 0x01]]
  let more : List (List UInt8) := [[0x06, 0xd0, 0xf1, 0x09, 0x01]]
  have hseen : (looks seen).run d = ([false, true], e) :=
    Prod.ext (by decide +kernel) (by decide +kernel)
  have hmore : ((looks more).run d).2 ≠ d := by decide +kernel
  have hnothing : (look [0xc0]).run d = (false, d) :=
    Prod.ext (by decide +kernel) (by decide +kernel)
  obtain ⟨-, -, hunchanged, hstays, -⟩ := first_look_stands
  have hkept : ((looks more).run e).2 = e := hstays d e seen [false, true] hseen (by decide) more
  exact ⟨d, e, seen, more, rfl, rfl, hseen, rfl, hmore, hkept, d, hnothing,
    hunchanged d d [0xc0] hnothing⟩

end Device
end HidDescriptor
