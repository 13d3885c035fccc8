import HidDescriptor.Proofs.Layout.Report

/-! # The records of each report

A layout goes through the records of all reports as they come. Each of its reports comes out as if
the records of that report had been alone: this is `Layout.Reflects`, which a record that is laid
out keeps (`Reflects.addRecord`), since it looks up one report and puts back that one only. What
holds of a report and its own records (`Report.Holds`) so holds of every report of a layout. -/

namespace HidDescriptor

def Record.field? : Record → Option FieldRecord
  | .field f => some f
  | _ => none

namespace Layout

def fieldRecords (records : List Record) : List FieldRecord := records.filterMap (·.field?)

/-- The field records of one report. -/
def recordsAt (records : List Record) (key : ReportKey) : List FieldRecord :=
  (fieldRecords records).filter (·.key = key)

/-- The number of bits that the records take up in one report. -/
def bitsAt (records : List Record) (key : ReportKey) : Nat :=
  ((recordsAt records key).map (·.bits)).sum

theorem key_of_mem_recordsAt {records : List Record} {key : ReportKey} {f : FieldRecord}
    (hf : f ∈ recordsAt records key) : f.key = key := by
  simpa using (List.mem_filter.mp hf).2

/-! ## Looking up and putting back -/

variable {l l' : Layout} {f : FieldRecord} {r : Report} {records : List Record}

/-- A report that is put back keeps its place, and a new one goes behind the others. -/
theorem keys_insert (r : Report) (reports : List Report) :
    (insert r reports).map (·.key) =
      if r.key ∈ reports.map (·.key) then reports.map (·.key)
      else reports.map (·.key) ++ [r.key] := by
  induction reports with
  | nil => simp [insert]
  | cons s rest ih =>
      by_cases hs : s.key = r.key
      · simp [insert, hs]
      · simp only [insert, hs, ↓reduceIte, List.map_cons, ih, List.mem_cons, Ne.symm hs, false_or]
        split <;> rfl

theorem key_report (l : Layout) (key : ReportKey) : (l.report key).key = key := by
  rw [report, find?]
  cases hfind : l.reports.find? (·.key = key) with
  | none => rfl
  | some r => simpa using List.find?_some hfind

/-- Laying out a record in the layout is laying it out in its report. -/
theorem add_eq_ok (h : l.add f = .ok l') :
    ∃ r, (l.report f.key).add f = .ok r ∧ l' = ⟨insert r l.reports⟩ := by
  obtain ⟨slots, hslots, hl⟩ := bind_eq_ok h
  cases hl
  refine ⟨_, ?_, rfl⟩
  rw [Report.add, hslots]
  rfl

/-- The report that is put in is found under its key, and no other one has changed. -/
theorem report_insert (hr : r.key = f.key) (key : ReportKey) :
    (Layout.mk (insert r l.reports)).report key = if f.key = key then r else l.report key := by
  rw [report, report, find?, find?]
  by_cases hkey : f.key = key
  · rw [if_pos hkey, ← hkey, ← hr, find?_insert_self]
    rfl
  · rw [if_neg hkey, find?_insert_of_ne (by rw [hr]; exact Ne.symm hkey)]

/-! ## A layout reflects its records -/

/-- The layout lists the reports of its records in the order in which the records come, and each
report is what its own records amount to. -/
structure Reflects (l : Layout) (records : List Record) : Prop where
  keys : l.reports.map (·.key) = ((fieldRecords records).map (·.key)).eraseDups
  report : ∀ key, (Report.empty key).addAll (recordsAt records key) = .ok (l.report key)

theorem reflects_nil : Reflects {} [] where
  keys := rfl
  report _ := rfl

theorem recordsAt_append (before after : List Record) (key : ReportKey) :
    recordsAt (before ++ after) key = recordsAt before key ++ recordsAt after key := by
  simp only [recordsAt, fieldRecords, List.filterMap_append, List.filter_append]

/-- A field record comes last among those of its own report. -/
theorem recordsAt_concat (records : List Record) (f : FieldRecord) (key : ReportKey) :
    recordsAt (records ++ [.field f]) key =
      recordsAt records key ++ if f.key = key then [f] else [] := by
  rw [recordsAt_append]
  by_cases hkey : f.key = key <;> simp [recordsAt, fieldRecords, Record.field?, hkey]

/-- **One step**: laying out a record changes the report of that record only. -/
theorem Reflects.add (h : l.Reflects records) (hadd : (l.report f.key).add f = .ok r) :
    Reflects ⟨insert r l.reports⟩ (records ++ [.field f]) := by
  have hkey : r.key = f.key := (Report.key_add hadd).trans (l.key_report f.key)
  constructor
  · rw [keys_insert, hkey, h.keys, fieldRecords, fieldRecords, List.filterMap_append,
      List.map_append]
    simp only [List.filterMap_cons, Record.field?, List.filterMap_nil, List.map_singleton,
      eraseDups_concat, List.mem_eraseDups]
  · intro key
    rw [recordsAt_concat, report_insert hkey, Report.addAll, List.foldlM_append, ← Report.addAll,
      h.report key]
    by_cases hf : f.key = key
    · rw [if_pos hf, if_pos hf, ← hf]
      simp only [List.foldlM_cons, List.foldlM_nil, bind, Except.bind, hadd]
      rfl
    · rw [if_neg hf, if_neg hf]
      rfl

/-- Any record keeps the layout in step, as records of other kinds change nothing. -/
theorem Reflects.addRecord {record : Record} (h : l.Reflects records)
    (hadd : l.addRecord record = .ok l') : l'.Reflects (records ++ [record]) := by
  cases record with
  | field f =>
      obtain ⟨r, hr, rfl⟩ := add_eq_ok hadd
      exact h.add hr
  | _ =>
      -- no field record, and no change
      cases hadd
      constructor
      · rw [h.keys, fieldRecords, fieldRecords, List.filterMap_append]
        simp [Record.field?]
      · intro key
        rw [← h.report key, recordsAt, recordsAt, fieldRecords, fieldRecords,
          List.filterMap_append]
        simp [Record.field?]

/-- **A run**: so do any number of records. -/
theorem Reflects.foldlM {rest : List Record} (h : l.Reflects records)
    (hadd : rest.foldlM Layout.addRecord l = .ok l') : l'.Reflects (records ++ rest) := by
  refine foldlM_keeps (I := fun records l => l.Reflects records) records h ?_ hadd
  intro record _ seen m m' hm hstep
  exact hm.addRecord hstep

/-- **A layout reflects the records that it was made from.** -/
theorem reflects_ofRecords (h : ofRecords records = .ok l) : l.Reflects records :=
  reflects_nil.foldlM h

namespace Reflects

/-- Every report is what its own records amount to. -/
theorem holds_report (h : l.Reflects records) (key : ReportKey) :
    (l.report key).Holds (recordsAt records key) :=
  (Report.holds_empty key).addAll (fun _ hf => key_of_mem_recordsAt hf) (h.report key)

theorem size_report (h : l.Reflects records) (key : ReportKey) :
    (l.report key).size = bitsAt records key := (h.holds_report key).size_eq

/-- As no key comes twice, a report that is listed is the one that is found. -/
theorem report_key (h : l.Reflects records) (hr : r ∈ l.reports) : l.report r.key = r := by
  have hnodup : (l.reports.map (·.key)).Nodup := h.keys ▸ nodup_eraseDups _
  have hfind : l.reports.find? (·.key = r.key) = some r := by
    generalize l.reports = reports at hr hnodup
    induction reports with
    | nil => cases hr
    | cons s rest ih =>
        rw [List.map_cons, List.nodup_cons] at hnodup
        rcases List.mem_cons.mp hr with rfl | hr
        · simp
        · have hne : s.key ≠ r.key := fun hs =>
            hnodup.1 (List.mem_map.mpr ⟨r, hr, hs.symm⟩)
          rw [List.find?_cons_of_neg (by simpa using hne)]
          exact ih hr hnodup.2
  rw [Layout.report, find?, hfind, Option.getD_some]

end Reflects

end Layout
end HidDescriptor
