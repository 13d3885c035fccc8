/-!
# Usages

A usage says what a control is: a usage page, which is a topic, and an id on that page. In a
descriptor the two travel together as one 32-bit word (`Usage.toWord`, `Usage.ofWord`), or the id
travels alone and the page comes from the global registers (`LocalUsage.resolve?`).

A usage range is given by two words of which either may carry a page in its upper half. There an
upper half of zero means that the word carries none (`Usage.boundPage?`), whereas a usage that was
written with four bytes has a page even if that page is zero.

What a usage is called is said by tables outside of this library. They come in as `UsageNames`.
-/

namespace HidDescriptor

/-- A topic of the usage tables. -/
abbrev UsagePage := UInt16

abbrev UsageId := UInt16

/-- A usage whose page is known. -/
structure Usage where
  page : UsagePage
  id : UsageId
  deriving DecidableEq, Repr

namespace Usage

/-- The usage as one word, the page in the upper half. -/
def toWord (u : Usage) : UInt32 := UInt32.ofNat (u.page.toNat * 65536 + u.id.toNat)

def ofWord (word : UInt32) : Usage where
  page := UInt16.ofNat (word.toNat / 65536)
  id := UInt16.ofNat word.toNat

/-- The page that a bound of a usage range carries, if any: its upper half unless that is zero. -/
def boundPage? (word : UInt32) : Option UsagePage :=
  if (ofWord word).page = 0 then none else some (ofWord word).page

/-- The usages on one page from `first` to `last`, both included. There are none if `last` comes
before `first`. -/
def range (page : UsagePage) (first last : UsageId) : List Usage :=
  (List.range' first.toNat (last.toNat + 1 - first.toNat)).map fun id => ⟨page, UInt16.ofNat id⟩

theorem toNat_toWord (u : Usage) : u.toWord.toNat = u.page.toNat * 65536 + u.id.toNat := by
  have hp := u.page.toNat_lt
  have hi := u.id.toNat_lt
  simp only [toWord, UInt32.toNat_ofNat']
  omega

theorem ofWord_toWord (u : Usage) : ofWord u.toWord = u := by
  -- in `Nat` the two halves are quotient and remainder by 65536
  have hw := u.toNat_toWord
  obtain ⟨page, id⟩ := u
  have hp := page.toNat_lt
  have hi := id.toNat_lt
  simp only [ofWord, hw, mk.injEq]
  constructor <;> apply UInt16.toNat_inj.mp <;> rw [UInt16.toNat_ofNat'] <;> omega

theorem toWord_ofWord (word : UInt32) : (ofWord word).toWord = word := by
  have hw := word.toNat_lt
  apply UInt32.toNat_inj.mp
  simp only [toWord, ofWord, UInt32.toNat_ofNat', UInt16.toNat_ofNat']
  omega

@[simp] theorem length_range (page : UsagePage) (first last : UsageId) :
    (range page first last).length = last.toNat + 1 - first.toNat := by
  simp [range]

end Usage

/-- The names that a table of usages gives to pages and usages. A table without names is one too. -/
structure UsageNames where
  page? : UsagePage → Option String := fun _ => none
  usage? : Usage → Option String := fun _ => none

/-- A usage as a descriptor lists it: an id, with its page only if the item spelled it out. -/
structure LocalUsage where
  page : Option UsagePage
  id : UsageId
  deriving DecidableEq, Repr

namespace LocalUsage

/-- The usage on its own page, or else on the page in force, if there is either. -/
def resolve? (u : LocalUsage) (current : Option UsagePage) : Option Usage :=
  (u.page <|> current).map fun page => ⟨page, u.id⟩

end LocalUsage

end HidDescriptor
