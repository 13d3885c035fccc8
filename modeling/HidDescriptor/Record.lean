import HidDescriptor.Registers
import HidDescriptor.Text.Hex

/-!
# Records

A decoded descriptor is a list of records, one for each Usage Page item, each Usage item and each
Main item. The record of an Input, Output or Feature item carries all that the descriptor says
about the field up to that item: the registers, the listed usages and the open collections.

`FieldRecord.usages` resolves the usages of a field. A usage range takes precedence over listed
usages; its page is the one in its minimum, else the one in its maximum, else the page in force. A
minimum without a maximum, or the reverse, counts for nothing.
-/

namespace HidDescriptor

/-- An Input, Output or Feature item with all that applies to it. -/
structure FieldRecord where
  /-- The offset of the item. -/
  offset : Nat
  direction : Direction
  flags : Flags
  globals : Globals
  locals : Locals
  /-- The open collections, outermost first. -/
  collections : List Collection
  deriving DecidableEq, Repr

namespace FieldRecord

/-- The page of a usage range, from its two bounds or else from the page in force. -/
def rangePage? (f : FieldRecord) (first last : UInt32) : Option UsagePage :=
  Usage.boundPage? first <|> Usage.boundPage? last <|> f.globals.usagePage

/-- The usages of the field, with their pages. A usage for which no page is known is left out. -/
def usages (f : FieldRecord) : List Usage :=
  match f.locals.usageMinimum, f.locals.usageMaximum with
  | some first, some last =>
    match f.rangePage? first last with
    | some page => Usage.range page (Usage.ofWord first).id (Usage.ofWord last).id
    | none => []
  -- a bound without its counterpart leaves the listed usages in force
  | _, _ => f.locals.usages.toList.filterMap (·.resolve? f.globals.usagePage)

/-- The number of bits that the field takes up, if size and count of its elements are known and
the product fits a 64-bit word. -/
def bitSize? (f : FieldRecord) : Option Nat :=
  match f.globals.reportSize, f.globals.reportCount with
  | some size, some count =>
    -- in natural numbers the product cannot wrap
    let bits := size.toNat * count.toNat
    if bits < UInt64.size then some bits else none
  | _, _ => none

end FieldRecord

inductive Record where
  | usagePage (page : UsagePage)
  | usage (usage : LocalUsage)
  | collection (kind : Collection)
  | endCollection
  | field (field : FieldRecord)
  deriving DecidableEq, Repr

namespace Direction

def name : Direction → String
  | input => "Input"
  | output => "Output"
  | feature => "Feature"

end Direction

namespace Record

/-- The record in one line. A number is written for a page or usage without a name, and for a
usage whose item does not spell out the page. -/
def label (names : UsageNames) : Record → String
  | usagePage page =>
    let name := (names.page? page).getD (Hex.text 4 page.toNat)
    s!"Usage Page ({name})"
  | usage u =>
    let name := ((u.resolve? none).bind names.usage?).getD (Hex.text 4 u.id.toNat)
    s!"Usage ({name})"
  | collection kind =>
    let name := kind.label
    s!"Collection ({name})"
  | endCollection => "End Collection"
  | field f =>
    let name := f.direction.name
    let flags := f.flags.describe
    s!"{name} ({flags})"

end Record

end HidDescriptor
