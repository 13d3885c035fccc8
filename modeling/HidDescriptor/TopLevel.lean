import HidDescriptor.Note
import HidDescriptor.Token

/-!
# The top-level usage

The first usage of a descriptor tells what kind of device it belongs to. It can be found without
decoding: nothing is tracked but the first Usage Page item and the first Usage item, and the search
is over as soon as both a page and an id are known. So neither faults nor items behind that point
matter, and neither does what Push, Pop or the collections do before it.

The first Usage item supplies the page as well if it spells one out and no Usage Page item came
before it.
-/

namespace HidDescriptor

/-- What the search for the top-level usage has come across. -/
structure Sighting where
  page : Option UsagePage := none
  id : Option UsageId := none
  deriving DecidableEq, Repr

namespace Sighting

/-- Takes note of an item. What was sighted earlier stands. -/
def see (s : Sighting) : Item → Sighting
  | .setGlobal r w => { s with page := s.page <|> r.assignedPage? w }
  | .usage u =>
    match s.id with
    -- a later usage does not even supply its page
    | some _ => s
    | none => { page := s.page <|> u.page, id := some u.id }
  | _ => s

def usage? (s : Sighting) : Option Usage :=
  match s.page, s.id with
  | some page, some id => some ⟨page, id⟩
  | _, _ => none

end Sighting

/-- The outcome of the search for the top-level usage. -/
structure TopLevel where
  usage : Option Usage
  notes : List Note
  deriving DecidableEq, Repr

namespace TopLevel

def reader : Reader Sighting TopLevel where
  step s t :=
    let seen := s.see t.item
    match seen.usage? with
    | some usage => .done ⟨some usage, []⟩
    | none => .next seen
  finish _ fault := ⟨none, fault.toList.map .searchStopped⟩

def ofBytes (bytes : List UInt8) : TopLevel := reader.run {} 0 bytes

end TopLevel

/-- The first usage of a report descriptor. -/
def topLevelUsage? (bytes : List UInt8) : Option Usage := (TopLevel.ofBytes bytes).usage

end HidDescriptor
