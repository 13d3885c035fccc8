import HidDescriptor.Proofs.UsageRange

/-! # The usages of a field

A field that has both a usage minimum and a usage maximum has the usages from the one to the other,
whatever is listed. Any other field has the usages that are listed, one of the two bounds alone
makes no difference.

The two ways part at page zero. The upper half of a bound is no page if it is zero
(`Usage.pageOfBounds?`), whereas a listed usage may well be on page zero (`LocalUsage.IsOn`). And
they part where no page is known: then there is no range at all, whereas of the listed usages only
those without a page are left out.

`FieldRecord.usages_resolved` says which usages a field has, in terms of the words that they are and
of the data of the items that list them. -/

namespace HidDescriptor

/-! ## Ranges -/

namespace Usage

/-- The page of a range, as a number: the upper half of the first bound, or else of the last one,
where zero does not count, or else the page in force. -/
def pageOfBounds? (first last : UInt32) (current : Option UsagePage) : Option Nat :=
  if first.toNat / 65536 ≠ 0 then some (first.toNat / 65536)
  else if last.toNat / 65536 ≠ 0 then some (last.toNat / 65536)
  else current.map (·.toNat)

/-- The usages are all those on one page from `first` to `last`. As words they count up, and the
count does not carry into the page. -/
structure Consecutive (us : List Usage) (page first last : Nat) : Prop where
  length : (us.length : Int) = max 0 ((last : Int) - first + 1)
  word : ∀ i u, us[i]? = some u → u.toWord.toNat = page * 65536 + first + i
  page : ∀ u ∈ us, u.page.toNat = page
  increasing : us.Pairwise (·.toWord < ·.toWord)
  nodup : us.Nodup

/-- The usages of a range count up from the first one, all on its page. -/
theorem getElem?_range {page : UsagePage} {first last : UsageId} {i : Nat} {u : Usage}
    (h : (range page first last)[i]? = some u) :
    u.page = page ∧ u.id.toNat = first.toNat + i := by
  have hlast := last.toNat_lt
  rw [range, List.getElem?_map, Option.map_eq_some_iff] at h
  obtain ⟨id, hid, rfl⟩ := h
  obtain ⟨hi, rfl⟩ := List.getElem?_eq_some_iff.mp hid
  rw [List.length_range'] at hi
  rw [List.getElem_range', Nat.one_mul, UInt16.toNat_ofNat']
  -- an id in the range is not above the last one, so it fits
  exact ⟨rfl, Nat.mod_eq_of_lt (by omega)⟩

/-- Words that count up are in increasing order. -/
theorem increasing_of_word {us : List Usage} {start : Nat}
    (h : ∀ i u, us[i]? = some u → u.toWord.toNat = start + i) :
    us.Pairwise (·.toWord < ·.toWord) := by
  apply List.pairwise_iff_getElem.mpr
  intro i j hi hj hij
  apply UInt32.lt_iff_toNat_lt.mpr
  rw [h i _ (List.getElem?_eq_getElem hi), h j _ (List.getElem?_eq_getElem hj)]
  omega

theorem consecutive_range (page : UsagePage) (first last : UsageId) :
    Consecutive (range page first last) page.toNat first.toNat last.toNat := by
  have hword : ∀ i u, (range page first last)[i]? = some u →
      u.toWord.toNat = page.toNat * 65536 + first.toNat + i := by
    intro i u hu
    obtain ⟨rfl, hid⟩ := getElem?_range hu
    rw [toNat_toWord, hid, Nat.add_assoc]
  have hincreasing := increasing_of_word hword
  refine ⟨?_, hword, ?_, hincreasing, ?_⟩
  · rw [length_range]
    omega
  · intro u hu
    obtain ⟨i, hi⟩ := List.getElem?_of_mem hu
    rw [(getElem?_range hi).1]
  · apply hincreasing.imp
    rintro u _ hlt rfl
    exact UInt32.lt_irrefl _ hlt

/-! ## Pages of ranges -/

theorem toNat_page_ofWord (word : UInt32) : (ofWord word).page.toNat = word.toNat / 65536 := by
  have hlt := word.toNat_lt
  rw [ofWord, UInt16.toNat_ofNat']
  exact Nat.mod_eq_of_lt (by omega)

theorem toNat_id_ofWord (word : UInt32) : (ofWord word).id.toNat = word.toNat % 65536 := by
  rw [ofWord, UInt16.toNat_ofNat']

theorem map_boundPage? (word : UInt32) :
    (boundPage? word).map (·.toNat) =
      if word.toNat / 65536 ≠ 0 then some (word.toNat / 65536) else none := by
  have hzero : (ofWord word).page = 0 ↔ word.toNat / 65536 = 0 := by
    rw [← toNat_page_ofWord, ← UInt16.toNat_inj, UInt16.toNat_zero]
  unfold boundPage?
  by_cases hpage : word.toNat / 65536 = 0
  · rw [if_pos (hzero.mpr hpage), if_neg (not_not.mpr hpage)]
    rfl
  · rw [if_neg (mt hzero.mp hpage), if_pos hpage, Option.map_some, toNat_page_ofWord]

end Usage

namespace FieldRecord

theorem map_rangePage? (f : FieldRecord) (first last : UInt32) :
    (f.rangePage? first last).map (·.toNat) =
      Usage.pageOfBounds? first last f.globals.usagePage := by
  have hparts : (f.rangePage? first last).map (·.toNat) =
      ((Usage.boundPage? first).map (·.toNat) <|> (Usage.boundPage? last).map (·.toNat) <|>
        f.globals.usagePage.map (·.toNat)) := by
    unfold rangePage?
    cases Usage.boundPage? first <;> cases Usage.boundPage? last <;> rfl
  rw [hparts, Usage.map_boundPage?, Usage.map_boundPage?, Usage.pageOfBounds?]
  split
  · rfl
  · split <;> rfl

end FieldRecord

/-! ## Listed usages -/

namespace LocalUsage

/-- The usage `v` is the listed usage `u` on its page: its own one, or else the one in force. What an
item says in four bytes is the word that `v` is. -/
structure IsOn (current : Option UsagePage) (u : LocalUsage) (v : Usage) : Prop where
  id : v.id = u.id
  page : u.page = some v.page ∨ u.page = none ∧ current = some v.page
  word : ∀ s : ShortItem, s.item = .usage u → s.data.length = 4 →
    v.toWord.toNat = LittleEndian.toNat s.data

variable {u : LocalUsage} {current : Option UsagePage}

/-- A Usage item of four bytes says a word, and the usage that it lists has a page. -/
theorem eq_of_usage_item {s : ShortItem} (hitem : s.item = .usage u) (hlong : s.data.length = 4) :
    ∃ v : Usage, u = ⟨some v.page, v.id⟩ ∧ v.toWord.toNat = LittleEndian.toNat s.data := by
  have hread := ShortItem.usage_of_item hitem
  have hlt := LittleEndian.toNat_lt s.data
  rw [hlong] at hlt
  refine ⟨Usage.ofWord s.value.toUInt32, ?_, ?_⟩
  · rw [hread, ofValue, if_pos (show s.value.length = 4 from hlong)]
  · rw [Usage.toWord_ofWord]
    exact UInt32.toNat_ofNat_of_lt' hlt

/-- A usage is left out exactly if no page is known for it. -/
theorem resolve?_eq_none_iff :
    u.resolve? current = none ↔ (u.page.isSome || current.isSome) = false := by
  obtain ⟨page, id⟩ := u
  cases page <;> cases current <;> simp [resolve?]

theorem isOn_of_resolve? {v : Usage} (h : u.resolve? current = some v) : u.IsOn current v := by
  obtain ⟨page, id⟩ := u
  refine ⟨?_, ?_, ?_⟩
  · obtain ⟨own, -, rfl⟩ := Option.map_eq_some_iff.mp h
    rfl
  · cases page with
    | some own =>
        cases h
        exact .inl rfl
    | none =>
        obtain ⟨own, hown, rfl⟩ := Option.map_eq_some_iff.mp h
        exact .inr ⟨rfl, hown⟩
  · intro s hitem hlong
    obtain ⟨w, hw, hword⟩ := eq_of_usage_item hitem hlong
    cases hw
    cases h
    exact hword

/-- The listed usages that have a page, or get the one in force, come out in their order. -/
theorem isOn_filterMap (current : Option UsagePage) (us : List LocalUsage) :
    List.Forall₂ (IsOn current) (us.filter fun u => u.page.isSome || current.isSome)
      (us.filterMap (·.resolve? current)) := by
  induction us with
  | nil => exact .nil
  | cons u us ih =>
      cases hu : u.resolve? current with
      | none =>
          have hdropped : (u.page.isSome || current.isSome) = false := resolve?_eq_none_iff.mp hu
          simp only [List.filterMap_cons, hu, List.filter_cons, hdropped]
          exact ih
      | some v =>
          have hkept : (u.page.isSome || current.isSome) = true := by
            rw [← Bool.not_eq_false, ← resolve?_eq_none_iff, hu]
            exact Option.some_ne_none v
          simp only [List.filterMap_cons, hu, List.filter_cons, hkept]
          exact .cons (isOn_of_resolve? hu) ih

end LocalUsage

/-! ## Fields -/

namespace FieldRecord

variable {f : FieldRecord}

/-- A bound without its counterpart counts for nothing. -/
theorem usages_of_lone (h : f.locals.usageMinimum = none ∨ f.locals.usageMaximum = none) :
    f.usages = f.locals.usages.toList.filterMap (·.resolve? f.globals.usagePage) := by
  unfold usages
  split
  · next hmin hmax =>
      rw [hmin, hmax] at h
      rcases h with h | h <;> cases h
  · rfl

/-- **The usages of a field.** If the field has both bounds, its usages are those from the one to the
other, on the page that comes out of the bounds; and there are none if no page comes out. If one of
the bounds is lacking, the usages are the listed ones in their order, but for those without a page
while no page is in force. -/
theorem usages_resolved (f : FieldRecord) :
    (∀ first last, f.locals.usageMinimum = some first → f.locals.usageMaximum = some last →
      match Usage.pageOfBounds? first last f.globals.usagePage with
      | none => f.usages = []
      | some page => Usage.Consecutive f.usages page (first.toNat % 65536) (last.toNat % 65536)) ∧
    (f.locals.usageMinimum = none ∨ f.locals.usageMaximum = none →
      List.Forall₂ (LocalUsage.IsOn f.globals.usagePage)
        (f.locals.usages.toList.filter fun u => u.page.isSome || f.globals.usagePage.isSome)
        f.usages) := by
  constructor
  · intro first last hmin hmax
    rw [usages_of_bounds hmin hmax, ← map_rangePage?]
    cases f.rangePage? first last with
    | none => rfl
    | some page =>
        have hrange := Usage.consecutive_range page (Usage.ofWord first).id (Usage.ofWord last).id
        rwa [Usage.toNat_id_ofWord, Usage.toNat_id_ofWord] at hrange
  · intro hlone
    rw [usages_of_lone hlone]
    exact LocalUsage.isOn_filterMap _ _

/-- A range up to the last id there is, which takes its page from the second bound while another page
is in force and a usage on a third one is listed. And a field with one bound only, for which three
usages are listed: one on page zero, one without a page, and one of four bytes. -/
theorem usages_resolved_lastId :
    ∃ (f g : FieldRecord) (s : ShortItem),
      f.locals.usageMinimum = some 0x0000fffe ∧ f.locals.usageMaximum = some 0x000cffff ∧
      f.globals.usagePage = some 1 ∧ f.locals.usages = #[⟨some 9, 5⟩] ∧
      Usage.Consecutive f.usages 12 0xfffe 0xffff ∧
      g.locals.usageMinimum = none ∧ g.locals.usageMaximum = some 7 ∧
      g.globals.usagePage = none ∧
      g.locals.usages = #[⟨some 0, 5⟩, ⟨none, 6⟩, ⟨some 9, 7⟩] ∧
      s.item = .usage ⟨some 9, 7⟩ ∧ s.data = [0x07, 0x00, 0x09, 0x00] ∧
      List.Forall₂ (LocalUsage.IsOn none) [⟨some 0, 5⟩, ⟨some 9, 7⟩] g.usages := by
  let f : FieldRecord := {
    offset := 0
    direction := .input
    flags := ⟨2⟩
    globals := { usagePage := some 1 }
    locals := {
      usages := #[⟨some 9, 5⟩]
      usageMinimum := some 0x0000fffe
      usageMaximum := some 0x000cffff }
    collections := [] }
  let g : FieldRecord := {
    offset := 0
    direction := .input
    flags := ⟨2⟩
    globals := {}
    locals := {
      usages := #[⟨some 0, 5⟩, ⟨none, 6⟩, ⟨some 9, 7⟩]
      usageMaximum := some 7 }
    collections := [] }
  have hpage : Usage.pageOfBounds? 0x0000fffe 0x000cffff f.globals.usagePage = some 12 := by decide
  obtain ⟨hbounds, -⟩ := usages_resolved f
  have hrange := hbounds _ _ rfl rfl
  rw [hpage] at hrange
  obtain ⟨-, hlisted⟩ := usages_resolved g
  exact ⟨f, g, ⟨0x0b, [0x07, 0x00, 0x09, 0x00]⟩, rfl, rfl, rfl, rfl, hrange, rfl, rfl, rfl, rfl,
    by decide, rfl, hlisted (.inl rfl)⟩

end FieldRecord

end HidDescriptor
