import HidDescriptor.Context
import HidDescriptor.Note

/-!
# Decoding

`decode` reads a report descriptor into its records. It takes one item at a time and stops at the
first fault, be it an item that is cut off or one that the context refuses; the records before the
fault are kept. Along the way it notes the items that it skips, and at the end why it stopped or
what was left open.
-/

namespace HidDescriptor

namespace Token

/-- The note that is made when the token is skipped, if it is one of those without a meaning. -/
def skipNote? (t : Token) : Option Note :=
  match t.item with
  | .reserved (.globalTag code) => some (.skippedGlobal t.offset code)
  | .reserved (.localTag code) => some (.skippedLocal t.offset code)
  | .reserved .unassigned => some (.skippedItem t.offset t.header)
  | _ => none

end Token

structure Decoded where
  /-- The records, up to the fault if there is one. -/
  records : List Record
  fault : Option Fault
  notes : List Note
  deriving DecidableEq, Repr

namespace Decoded

def isComplete (d : Decoded) : Bool := d.fault.isNone

/-- All records, or the fault if there is one. -/
def whole (d : Decoded) : Except Fault (List Record) :=
  match d.fault with
  | none => .ok d.records
  | some fault => .error fault

/-- How far decoding has come. -/
structure Progress where
  context : Context := {}
  records : Array Record := #[]
  skipped : Array Note := #[]

namespace Progress

def stop (p : Progress) (fault : Fault) : Decoded where
  records := p.records.toList
  fault := some fault
  notes := p.skipped.toList ++ [.decodingStopped p.records.size fault]

def complete (p : Progress) : Decoded where
  records := p.records.toList
  fault := none
  notes := p.skipped.toList ++
    if p.context.enclosing.isEmpty then [] else [.collectionsOpen p.context.enclosing.length]

def step (p : Progress) (t : Token) : Reader.Step Progress Decoded :=
  match p.context.feed t with
  | .error fault => .done (p.stop fault)
  | .ok (context, record) => .next {
      context
      records := p.records ++ record.toArray
      skipped := p.skipped ++ t.skipNote?.toArray }

def reader : Reader Progress Decoded where
  step := step
  finish
    | p, none => p.complete
    | p, some fault => p.stop fault

end Progress

end Decoded

def decode (bytes : List UInt8) : Decoded := Decoded.Progress.reader.run {} 0 bytes

end HidDescriptor
