import HidDescriptor.Fault
import HidDescriptor.Text.Hex

/-!
# Notes

What the library has to say about a descriptor apart from its answers: what was skipped, what was
ignored, and why it stopped. Notes are returned as values, in the order in which their occasions
arise; it is for the caller to show them.
-/

namespace HidDescriptor

/-- How much attention a note deserves. -/
inductive Note.Level where
  | debug
  | warn
  deriving DecidableEq, Repr

/-- Something worth telling about a descriptor. -/
inductive Note where
  /-- A global tag without a meaning was skipped. -/
  | skippedGlobal (offset : Nat) (code : UInt8)
  /-- A local tag without a meaning was skipped. -/
  | skippedLocal (offset : Nat) (code : UInt8)
  /-- An item of the reserved type, or a Main tag without a meaning, was skipped. -/
  | skippedItem (offset : Nat) (header : UInt8)
  /-- Decoding stopped after a number of records. -/
  | decodingStopped (records : Nat) (fault : Fault)
  /-- The descriptor ends with open collections. -/
  | collectionsOpen (number : Nat)
  /-- The search for the top-level usage met an item that is cut off. -/
  | searchStopped (fault : Fault)
  /-- A field of no bits was skipped. -/
  | zeroSizedField (offset : Nat)
  /-- The page in a usage maximum differs from the one in the minimum. -/
  | maximumPageIgnored (offset : Nat)
  /-- A usage minimum or maximum has no counterpart. -/
  | loneBoundIgnored (offset : Nat)
  /-- A device could not be told from its descriptor. -/
  | noTopLevelUsage (path : String)
  deriving DecidableEq, Repr

namespace Note

/-- A note that work was broken off is a warning, any other is for debugging. -/
def level : Note → Level
  | decodingStopped .. => .warn
  | _ => .debug

def text : Note → String
  | skippedGlobal offset code =>
    Hex.text 4 offset ++ ": skipping reserved global item " ++ Hex.text 2 code.toNat
  | skippedLocal offset code =>
    Hex.text 4 offset ++ ": skipping reserved local item " ++ Hex.text 2 code.toNat
  | skippedItem offset header =>
    Hex.text 4 offset ++ ": skipping reserved item " ++ Hex.text 2 header.toNat
  | decodingStopped records fault =>
    s!"Decoding stopped after {records} records: " ++ fault.message
  | collectionsOpen number =>
    s!"{number} collection(s) still open at end of report descriptor"
  | searchStopped fault => "Fast extraction stopped: " ++ fault.message
  | zeroSizedField offset => s!"Skipping zero-sized field at offset {offset}"
  | maximumPageIgnored offset => Hex.text 4 offset ++ ": ignoring the Usage Maximum page"
  | loneBoundIgnored offset =>
    Hex.text 4 offset ++ ": ignoring Usage Minimum/Maximum without its counterpart"
  | noTopLevelUsage path => path ++ ": no top-level usage in report descriptor"

end Note

end HidDescriptor
