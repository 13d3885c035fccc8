import HidDescriptor.Decode
import HidDescriptor.Layout.Slots

/-!
# Layouts

The layout of a descriptor lists its reports and, for each report, its fields with their places.
Field records are laid out one after the other: each adds its slots at the end of the report that
it belongs to, and so the fields of a report follow each other without a gap, whatever records of
other reports stand between them. A report is listed from its first record on, even if that record
has no bits.

Main statement: adding to one report leaves all others as they were (`find?_insert_self`,
`find?_insert_of_ne`).
-/

namespace HidDescriptor

/-- A report with its fields, in the order of their bits. -/
structure Report where
  key : ReportKey
  /-- The number of bits, report id not counted. -/
  size : Nat
  fields : Array Field
  deriving DecidableEq, Repr

namespace Report

def empty (key : ReportKey) : Report := ⟨key, 0, #[]⟩

/-- Adds a field of a record with the given key at the end. -/
def push (r : Report) (key : ReportKey) (s : Slot) : Report :=
  { r with
    size := r.size + s.width
    fields := r.fields.push ⟨⟨r.size, r.size + s.width - 1⟩, key, s.content⟩ }

def append (r : Report) (key : ReportKey) (slots : List Slot) : Report :=
  slots.foldl (fun r s => r.push key s) r

def payloadBytes (r : Report) : Nat := (r.size + 7) / 8

/-- The length of the report in bytes when it is sent. An id goes in front of it. -/
def byteSize (r : Report) : Nat := (if r.key.id.isSome then 1 else 0) + r.payloadBytes

@[simp] theorem key_append (r : Report) (key : ReportKey) (slots : List Slot) :
    (r.append key slots).key = r.key := by
  induction slots generalizing r with
  | nil => rfl
  | cons s slots ih => exact ih (r.push key s)

end Report

/-- The reports of a device, in the order in which the descriptor first mentions them. No two of
them have the same key, as reports come in by `Layout.insert` only. -/
structure Layout where
  reports : List Report := []
  deriving DecidableEq, Repr

namespace Layout

/-- Replaces the report with the same key, or adds the report at the end if there is none. -/
def insert (r : Report) : List Report → List Report
  | [] => [r]
  | s :: rest => if s.key = r.key then r :: rest else s :: insert r rest

/-- The report that is put in is found under its key. -/
@[simp] theorem find?_insert_self (r : Report) (reports : List Report) :
    (insert r reports).find? (·.key = r.key) = some r := by
  induction reports with
  | nil => simp [insert]
  | cons s rest ih =>
    by_cases h : s.key = r.key
    · simp [insert, h]
    · simpa [insert, h] using ih

/-- Reports with other keys are where they were. -/
theorem find?_insert_of_ne {r : Report} {key : ReportKey} (h : key ≠ r.key)
    (reports : List Report) :
    (insert r reports).find? (·.key = key) = reports.find? (·.key = key) := by
  induction reports with
  | nil => simp [insert, Ne.symm h]
  | cons s rest ih =>
    by_cases hs : s.key = r.key
    -- the report that is replaced has another key as well
    · simp [insert, hs, Ne.symm h]
    · simp [insert, hs, List.find?_cons, ih]

def find? (l : Layout) (key : ReportKey) : Option Report := l.reports.find? (·.key = key)

def inDirection (l : Layout) (direction : Direction) : List Report :=
  l.reports.filter (·.key.direction = direction)

/-- The report with the given key, as far as it has been laid out. -/
def report (l : Layout) (key : ReportKey) : Report := (l.find? key).getD (.empty key)

def add (l : Layout) (f : FieldRecord) : Except Fault Layout := do
  let report := l.report f.key
  let slots ← f.slots report.size
  return ⟨insert (report.append f.key slots) l.reports⟩

/-- Lays out a record. Only field records take up room. -/
def addRecord (l : Layout) : Record → Except Fault Layout
  | .field f => l.add f
  | _ => .ok l

/-- Lays out records, up to the first that cannot be. -/
def ofRecords (records : List Record) : Except Fault Layout := records.foldlM addRecord {}

def ofBytes (bytes : List UInt8) : Except Fault Layout := do
  ofRecords (← (decode bytes).whole)

end Layout

end HidDescriptor
