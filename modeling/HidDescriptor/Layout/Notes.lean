import HidDescriptor.Layout.Basic

/-!
# Notes on a layout

What there is to say while records are laid out: a field of no bits is skipped, and where the usages
of a field are looked up, a bound that counts for nothing is pointed out. The usages of a record are
looked up last, when it is the lack of a usage alone that can still be wrong with it.
-/

namespace HidDescriptor

namespace FieldRecord

def usageNotes (f : FieldRecord) : List Note :=
  match f.locals.usageMinimum, f.locals.usageMaximum with
  | some first, some last =>
    let lastPage := Usage.boundPage? last
    if lastPage.isSome ∧ lastPage ≠ f.rangePage? first last then [.maximumPageIgnored f.offset]
    else []
  | none, none => []
  | _, _ => [.loneBoundIgnored f.offset]

end FieldRecord

namespace Layout

def fieldNotes (l : Layout) (f : FieldRecord) : List Note :=
  if f.bitSize? = some 0 then [.zeroSizedField f.offset]
  else if f.flags.isConstant then []
  else
    match l.add f with
    | .ok _ => f.usageNotes
    | .error fault => if fault.cause = .missingUsage then f.usageNotes else []

/-- The notes on records that are added to the layout, up to the first that cannot be. -/
def notesFrom (l : Layout) : List Record → List Note
  | [] => []
  | .field f :: rest =>
    l.fieldNotes f ++
      match l.add f with
      | .ok laidOut => notesFrom laidOut rest
      | .error _ => []
  | .usagePage _ :: rest | .usage _ :: rest | .collection _ :: rest | .endCollection :: rest =>
    notesFrom l rest

def notesOfRecords (records : List Record) : List Note := notesFrom {} records

/-- The notes on a report descriptor: those of decoding, and those of the layout if the descriptor
was decoded to its end. -/
def notesOfBytes (bytes : List UInt8) : List Note :=
  let decoded := decode bytes
  decoded.notes ++ if decoded.isComplete then notesOfRecords decoded.records else []

end Layout

end HidDescriptor
