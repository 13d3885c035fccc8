import HidDescriptor.Proofs.ItemTable
import HidDescriptor.Proofs.Layout.Grouping
import HidDescriptor.Proofs.Relocation
import Mathlib.Data.List.Forall2

/-! # Usage ranges and listed usages

A field may have its usages listed one by one, or be given the first and the last of a range. The
two are read in different ways. A listed usage remembers if its page was spelled out; the bound of a
range is a mere word, in which page zero looks like no page at all (`Usage.boundPage?`).

So the two forms mean the same (`Context.usages_range_eq_iff`) except where page zero is spelled out
while another page, or none, is in force: the range is then on the page in force, and the listed
usages are on page zero. -/

namespace HidDescriptor

/-! ## The two forms -/

/-- The data of the item say the usage: in four bytes and with the page in the upper half, or in at
most two bytes and without a page. -/
def ShortItem.Says (s : ShortItem) (u : LocalUsage) : Prop :=
  match u.page with
  | some page => s.data.length = 4 ∧ s.value.toNat = page.toNat * 65536 + u.id.toNat
  | none => s.data.length ≤ 2 ∧ s.value.toNat = u.id.toNat

instance (s : ShortItem) : (u : LocalUsage) → Decidable (s.Says u)
  | ⟨some _, _⟩ => inferInstanceAs (Decidable (_ ∧ _))
  | ⟨none, _⟩ => inferInstanceAs (Decidable (_ ∧ _))

/-- The usages from `first` to `last`, both included, as they are listed one by one. -/
def LocalUsage.span (page : Option UsagePage) (first last : UsageId) : List LocalUsage :=
  (List.range' first.toNat (last.toNat + 1 - first.toNat)).map fun id => ⟨page, UInt16.ofNat id⟩

namespace ShortItem

variable {s : ShortItem} {u : LocalUsage}

theorem ofValue_of_says (h : s.Says u) : LocalUsage.ofValue s.value = u := by
  obtain ⟨page, id⟩ := u
  cases page with
  | some page =>
      obtain ⟨hlength, hvalue⟩ := h
      have hlong : s.value.length = 4 := hlength
      have hword : s.value.toUInt32 = (Usage.mk page id).toWord := by
        rw [Value.toUInt32, hvalue]
        rfl
      rw [LocalUsage.ofValue, if_pos hlong, hword, Usage.ofWord_toWord]
  | none =>
      obtain ⟨hlength, hvalue⟩ := h
      have hshort : s.value.length ≠ 4 := by
        show s.data.length ≠ 4
        omega
      rw [LocalUsage.ofValue, if_neg hshort, Value.toUInt16, hvalue, UInt16.ofNat_toNat]

/-- As a word, a usage without a page is one on page zero. -/
theorem toUInt32_of_says (h : s.Says u) :
    s.value.toUInt32 = (Usage.mk (u.page.getD 0) u.id).toWord := by
  obtain ⟨page, id⟩ := u
  cases page with
  | some page => rw [Value.toUInt32, h.2]; rfl
  | none =>
      rw [Value.toUInt32, h.2, Usage.toWord]
      simp

end ShortItem

/-! ## Pages -/

namespace Usage

theorem exists_range_eq_cons (page : UsagePage) {first last : UsageId} (h : first ≤ last) :
    ∃ rest, range page first last = ⟨page, first⟩ :: rest := by
  have hle : first.toNat ≤ last.toNat := UInt16.le_iff_toNat_le.mp h
  have hcount : last.toNat + 1 - first.toNat = last.toNat - first.toNat + 1 := by omega
  rw [range, hcount, List.range'_succ, List.map_cons, UInt16.ofNat_toNat]
  exact ⟨_, rfl⟩

/-- A range that is not empty tells its page. -/
theorem range_inj {page page' : UsagePage} {first last : UsageId} (h : first ≤ last) :
    range page first last = range page' first last ↔ page = page' := by
  constructor
  · intro heq
    obtain ⟨rest, hrange⟩ := exists_range_eq_cons page h
    obtain ⟨rest', hrange'⟩ := exists_range_eq_cons page' h
    rw [hrange, hrange', List.cons.injEq, mk.injEq] at heq
    exact heq.1.1
  · rintro rfl
    rfl

/-- The page of a bound is the upper half of its word, unless that is zero. -/
theorem boundPage?_toWord (page : Option UsagePage) (id : UsageId) :
    boundPage? (mk (page.getD 0) id).toWord = page.filter (· ≠ 0) := by
  rw [boundPage?, ofWord_toWord]
  cases page with
  | none => rfl
  | some page => by_cases hpage : page = 0 <;> simp [Option.filter, hpage]

end Usage

/-- The usages of a field that are on one page, if there is a page to be on. -/
def Usage.rangeOn (page : Option UsagePage) (first last : UsageId) : List Usage :=
  page.elim [] (range · first last)

/-- Usages that are listed one by one come to a range. -/
theorem LocalUsage.filterMap_resolve?_span (page current : Option UsagePage)
    (first last : UsageId) :
    (span page first last).filterMap (·.resolve? current) =
      Usage.rangeOn (page <|> current) first last := by
  rw [span, List.filterMap_map]
  cases page with
  | some page => exact congrFun List.filterMap_eq_map _
  | none =>
      cases current with
      | some page => exact congrFun List.filterMap_eq_map _
      | none => exact List.filterMap_eq_nil_iff.mpr fun _ _ => rfl

/-- It makes a difference that a page of zero does not count, unless zero is in force. -/
theorem Usage.rangeOn_filter_iff {page current : Option UsagePage} {first last : UsageId}
    (h : first ≤ last) :
    rangeOn (page.filter (· ≠ 0) <|> current) first last = rangeOn (page <|> current) first last ↔
      (page = some 0 → current = some 0) := by
  cases page with
  | none => simp
  | some page =>
      by_cases hpage : page = 0
      · subst hpage
        cases current with
        | none =>
            obtain ⟨rest, hrange⟩ := exists_range_eq_cons 0 h
            simp [Option.filter, rangeOn, hrange]
        | some q => simp [Option.filter, rangeOn, range_inj h]
      · simp [Option.filter, hpage]

/-! ## Field records -/

namespace FieldRecord

variable {f g : FieldRecord}

theorem usages_of_bounds {first last : UInt32} (hmin : f.locals.usageMinimum = some first)
    (hmax : f.locals.usageMaximum = some last) :
    f.usages = Usage.rangeOn (f.rangePage? first last) (Usage.ofWord first).id
      (Usage.ofWord last).id := by
  rw [usages, hmin, hmax]
  dsimp only
  cases f.rangePage? first last <;> rfl

/-- The records say the same, but for their places and what their local registers hold. -/
def Alike (f g : FieldRecord) : Prop := g = { f with offset := g.offset, locals := g.locals }

/-- Records that are alike and have the same usages have the same slots. -/
theorem Alike.slots (h : f.Alike g) (husages : f.usages = g.usages) (used : Nat) :
    (f.slots used).toOption = (g.slots used).toOption := by
  -- moved to the place of the other one, the record differs in nothing but its local registers, and
  -- only the usages are looked up there
  have hmoved : (f.relocate fun _ => g.offset).slots used = g.slots used := by
    rw [h]
    unfold FieldRecord.slots dataSlots
    rw [show (f.relocate fun _ => g.offset).usages = g.usages from husages, h]
    rfl
  rw [← hmoved, slots_relocate]
  cases f.slots used <;> rfl

end FieldRecord

namespace Layout

theorem toOption_add (l : Layout) (f : FieldRecord) :
    (l.add f).toOption = (f.slots (l.report f.key).size).toOption.map fun slots =>
      ⟨insert ((l.report f.key).append f.key slots) l.reports⟩ := by
  rw [add]
  cases f.slots (l.report f.key).size <;> rfl

/-- A layout takes records with the same usages alike. -/
theorem toOption_add_of_alike {f g : FieldRecord} (h : f.Alike g) (husages : f.usages = g.usages)
    (l : Layout) : (l.add f).toOption = (l.add g).toOption := by
  have hkey : g.key = f.key := by
    rw [h]
    rfl
  rw [toOption_add, toOption_add, hkey, h.slots husages]

end Layout

/-! ## The two forms in a context -/

/-- The items give the first and the last of the usages. -/
structure GivesRange (minimum maximum : Token) (page : Option UsagePage) (first last : UsageId) :
    Prop where
  minimum_code : minimum.code = LocalRegister.usageMinimum.code
  minimum_says : minimum.Says ⟨page, first⟩
  maximum_code : maximum.code = LocalRegister.usageMaximum.code
  maximum_says : maximum.Says ⟨page, last⟩

def ListsUsages (ts : List Token) (us : List LocalUsage) : Prop :=
  List.Forall₂ (fun t u => t.code = 0x08 ∧ t.Says u) ts us

namespace Context

variable {c : Context} {page : Option UsagePage} {first last : UsageId}
  {minimum maximum main : Token} {listed : List Token} {direction : Direction}

def withRange (c : Context) (first last : Usage) : Context :=
  { c with locals := { usageMinimum := some first.toWord, usageMaximum := some last.toWord } }

def withUsages (c : Context) (us : List LocalUsage) : Context :=
  { c with locals := { usages := us.toArray } }

theorem run_givesRange (h : GivesRange minimum maximum page first last) (hc : c.locals = {}) :
    c.run [minimum, maximum] =
      ⟨[], .ok (c.withRange ⟨page.getD 0, first⟩ ⟨page.getD 0, last⟩)⟩ := by
  have hfirst (d : Context) : d.feed minimum = .ok ({ d with
      locals := d.locals.set .usageMinimum (Usage.mk (page.getD 0) first).toWord }, none) := by
    rw [feed, ShortItem.item_of_localCode h.minimum_code,
      ShortItem.toUInt32_of_says h.minimum_says]
    rfl
  have hlast (d : Context) : d.feed maximum = .ok ({ d with
      locals := d.locals.set .usageMaximum (Usage.mk (page.getD 0) last).toWord }, none) := by
    rw [feed, ShortItem.item_of_localCode h.maximum_code,
      ShortItem.toUInt32_of_says h.maximum_says]
    rfl
  rw [run_of_ok (hfirst c), run_of_ok (hlast _), hc]
  rfl

/-- Listed usages are added behind those that have been listed before. -/
theorem run_listsUsages {us : List LocalUsage} (h : ListsUsages listed us) (c : Context) :
    c.run listed = ⟨us.map .usage,
      .ok { c with locals := { c.locals with usages := c.locals.usages ++ us.toArray } }⟩ := by
  induction h generalizing c with
  | nil => simp [run]
  | @cons t u ts us ht _ ih =>
      have hfeed : c.feed t = .ok ({ c with locals := c.locals.addUsage u }, some (.usage u)) := by
        rw [feed, ShortItem.item_of_usageCode ht.1, ShortItem.ofValue_of_says ht.2]
        rfl
      rw [run_of_ok hfeed, ih]
      simp [Locals.addUsage]

theorem run_listsUsages_of_empty {us : List LocalUsage} (h : ListsUsages listed us)
    (hc : c.locals = {}) : c.run listed = ⟨us.map .usage, .ok (c.withUsages us)⟩ := by
  rw [run_listsUsages h, hc]
  simp [withUsages]

/-- A field behind other items. -/
theorem run_concat_field {ts : List Token} {records : List Record} {d : Context}
    (h : c.run ts = ⟨records, .ok d⟩) (hmain : main.code = direction.code) :
    c.run (ts ++ [main]) =
      ⟨records ++ [.field (d.fieldRecord main.offset direction ⟨main.value.toUInt32⟩)],
        .ok { d with locals := {} }⟩ := by
  have hfeed : d.feed main = .ok ({ d with locals := {} },
      some (.field (d.fieldRecord main.offset direction ⟨main.value.toUInt32⟩))) := by
    rw [feed, ShortItem.item_of_fieldCode hmain]
    rfl
  rw [run_append_of_ok (congrArg Run.outcome h), run_of_ok hfeed, h]
  rfl

/-! ## The two fields -/

variable {offset : Nat} {flags : Flags}

/-- In a range, a page of zero gives way to the page in force. -/
theorem usages_withRange :
    ((c.withRange ⟨page.getD 0, first⟩ ⟨page.getD 0, last⟩).fieldRecord offset direction
      flags).usages = Usage.rangeOn (page.filter (· ≠ 0) <|> c.globals.usagePage) first last := by
  rw [FieldRecord.usages_of_bounds rfl rfl, FieldRecord.rangePage?, Usage.boundPage?_toWord,
    Usage.boundPage?_toWord, Usage.ofWord_toWord, Usage.ofWord_toWord]
  -- both bounds have the same page, or both have none
  cases page.filter (· ≠ 0) <;> rfl

/-- In a list, any page that is spelled out counts. -/
theorem usages_withUsages :
    ((c.withUsages (LocalUsage.span page first last)).fieldRecord offset direction flags).usages =
      Usage.rangeOn (page <|> c.globals.usagePage) first last := by
  rw [← LocalUsage.filterMap_resolve?_span]
  rfl

/-- **A usage range means the same as its usages, listed one by one**, but for page zero. In a
context without local registers, a field that is given a range and a field that has the usages
listed in front of it leave the same context behind. They have the same usages, unless page zero is
spelled out and is not the page in force; and if they have, then every layout takes them alike. -/
theorem usages_range_eq_iff (hc : c.locals = {}) (hle : first ≤ last)
    (hrange : GivesRange minimum maximum page first last)
    (hlisted : ListsUsages listed (LocalUsage.span page first last))
    (hmain : main.code = direction.code) {main' : Token}
    (hsame : main'.toShortItem = main.toShortItem) :
    ∃ f g : FieldRecord, c.run [minimum, maximum, main] = ⟨[.field f], .ok c⟩ ∧
      c.run (listed ++ [main']) =
        ⟨(LocalUsage.span page first last).map .usage ++ [.field g], .ok c⟩ ∧
      (f.usages = g.usages ↔ (page = some 0 → c.globals.usagePage = some 0)) ∧
      (f.usages = g.usages → ∀ l : Layout, (l.add f).toOption = (l.add g).toOption) := by
  have hmain' : main'.code = direction.code := by rw [hsame, hmain]
  let flags : Flags := ⟨main.value.toUInt32⟩
  let f := (c.withRange ⟨page.getD 0, first⟩ ⟨page.getD 0, last⟩).fieldRecord main.offset
    direction flags
  let g := (c.withUsages (LocalUsage.span page first last)).fieldRecord main'.offset
    direction flags
  -- the field clears the local registers again
  have hclear : { c with locals := {} } = c := by rw [← hc]
  have hfirst : c.run [minimum, maximum, main] = ⟨[.field f], .ok { c with locals := {} }⟩ :=
    run_concat_field (run_givesRange hrange hc) hmain
  have hsecond : c.run (listed ++ [main']) =
      ⟨(LocalUsage.span page first last).map .usage ++ [.field g],
        .ok { c with locals := {} }⟩ := by
    have hrun := run_concat_field (run_listsUsages_of_empty hlisted hc) hmain'
    rw [hsame] at hrun
    exact hrun
  rw [hclear] at hfirst hsecond
  have halike : f.Alike g := rfl
  refine ⟨f, g, hfirst, hsecond, ?_, fun husages => Layout.toOption_add_of_alike halike husages⟩
  rw [usages_withRange, usages_withUsages]
  exact Usage.rangeOn_filter_iff hle

/-- Three buttons with their page spelled out, while another page is in force. -/
theorem usages_range_eq_iff_buttons :
    ∃ (c : Context) (minimum maximum main main' : Token) (listed : List Token)
      (f g : FieldRecord),
      c.globals.usagePage = some 1 ∧ GivesRange minimum maximum (some 9) 1 3 ∧
      ListsUsages listed (LocalUsage.span (some 9) 1 3) ∧ main'.toShortItem = main.toShortItem ∧
      c.run [minimum, maximum, main] = ⟨[.field f], .ok c⟩ ∧
      c.run (listed ++ [main']) =
        ⟨[.usage ⟨some 9, 1⟩, .usage ⟨some 9, 2⟩, .usage ⟨some 9, 3⟩, .field g], .ok c⟩ ∧
      f.usages = g.usages ∧ ∀ l : Layout, (l.add f).toOption = (l.add g).toOption := by
  let c : Context := { globals := { usagePage := some 1 } }
  let minimum : Token := ⟨⟨0x1b, [0x01, 0x00, 0x09, 0x00]⟩, 0⟩
  let maximum : Token := ⟨⟨0x2b, [0x03, 0x00, 0x09, 0x00]⟩, 5⟩
  let main : Token := ⟨⟨0x81, [0x02]⟩, 10⟩
  let main' : Token := ⟨⟨0x81, [0x02]⟩, 15⟩
  let listed : List Token := [⟨⟨0x0b, [0x01, 0x00, 0x09, 0x00]⟩, 0⟩,
    ⟨⟨0x0b, [0x02, 0x00, 0x09, 0x00]⟩, 5⟩, ⟨⟨0x0b, [0x03, 0x00, 0x09, 0x00]⟩, 10⟩]
  have hrange : GivesRange minimum maximum (some 9) 1 3 :=
    ⟨by decide, by decide, by decide, by decide⟩
  have hlisted : ListsUsages listed (LocalUsage.span (some 9) 1 3) :=
    .cons (by decide) (.cons (by decide) (.cons (by decide) .nil))
  have hmain : main.code = Direction.input.code := by decide
  have hsame : main'.toShortItem = main.toShortItem := rfl
  obtain ⟨f, g, hfirst, hsecond, hiff, hadd⟩ :=
    usages_range_eq_iff (c := c) rfl (by decide) hrange hlisted hmain hsame
  have husages : f.usages = g.usages := hiff.mpr (by simp)
  exact ⟨c, minimum, maximum, main, main', listed, f, g, rfl, hrange, hlisted, hsame, hfirst,
    hsecond, husages, hadd husages⟩

/-- Page zero spelled out while page 1 is in force: the range is on page 1. -/
theorem usages_range_ne_listed :
    (Layout.fieldRecords (decode [0x05, 0x01, 0x1b, 0x01, 0x00, 0x00, 0x00, 0x2b, 0x02, 0x00, 0x00,
        0x00, 0x81, 0x02]).records).map (·.usages) = [[⟨1, 1⟩, ⟨1, 2⟩]] ∧
      (Layout.fieldRecords (decode [0x05, 0x01, 0x0b, 0x01, 0x00, 0x00, 0x00, 0x0b, 0x02, 0x00,
        0x00, 0x00, 0x81, 0x02]).records).map (·.usages) = [[⟨0, 1⟩, ⟨0, 2⟩]] := by
  decide +kernel

end Context

end HidDescriptor
