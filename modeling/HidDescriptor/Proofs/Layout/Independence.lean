import HidDescriptor.Proofs.Layout.Grouping

/-! # Reports do not depend on each other

A descriptor interleaves the records of its reports as it likes. For the layout this makes no
difference: each report comes out as if its records had been the only ones, and there is a layout
exactly if there is one for the records of each report alone (`ofRecords_independent`).

That a layout has nothing but what its records amount to is `Layout.Reflects`. What is added here is
the way back: records that can be laid out report by report can be laid out together
(`exists_ofRecords_iff`), as no report takes room from another. -/

namespace HidDescriptor
namespace Layout

variable {l : Layout} {records : List Record} {key : ReportKey}

/-! ## Looking up a report -/

/-- A layout lists its reports direction by direction, and a report is found in its own list. -/
theorem find?_inDirection (l : Layout) (direction : Direction) (id : Option ReportId) :
    (l.inDirection direction).find? (·.key.id = id) = l.find? ⟨direction, id⟩ := by
  rw [inDirection, List.find?_filter, find?]
  congr 1
  funext r
  obtain ⟨⟨direction', id'⟩, size, fields⟩ := r
  simp

theorem recordsAt_eq_nil_iff :
    recordsAt records key = [] ↔ key ∉ (fieldRecords records).map (·.key) := by
  rw [recordsAt, List.filter_eq_nil_iff, List.mem_map]
  constructor
  · rintro h ⟨f, hf, hkey⟩
    exact h f hf (by simpa using hkey)
  · intro h f hf hkey
    exact h ⟨f, hf, by simpa using hkey⟩

theorem Reflects.find?_of_nil (h : l.Reflects records) (hnil : recordsAt records key = []) :
    l.find? key = none := by
  apply List.find?_eq_none.mpr
  intro r hr hkey
  apply recordsAt_eq_nil_iff.mp hnil
  rw [← List.mem_eraseDups, ← h.keys, List.mem_map]
  exact ⟨r, hr, by simpa using hkey⟩

theorem Reflects.find?_of_ne_nil (h : l.Reflects records) (hne : recordsAt records key ≠ []) :
    l.find? key = some (l.report key) := by
  rw [Ne, recordsAt_eq_nil_iff, not_not, ← List.mem_eraseDups, ← h.keys, List.mem_map] at hne
  obtain ⟨r, hr, hkey⟩ := hne
  cases hfind : l.find? key with
  | none =>
      have hno := List.find?_eq_none.mp hfind r hr
      simp [hkey] at hno
  | some r => rw [Layout.report, hfind, Option.getD_some]

/-- Layouts with the same records of a report have the same report. -/
theorem Reflects.report_congr {m : Layout} {other : List Record} (h : l.Reflects records)
    (hm : m.Reflects other) (hkey : recordsAt other key = recordsAt records key) :
    m.report key = l.report key := by
  have hreport := hm.report key
  rw [hkey, h.report key] at hreport
  exact (Except.ok.inj hreport).symm

theorem Reflects.find?_congr {m : Layout} {other : List Record} (h : l.Reflects records)
    (hm : m.Reflects other) (hkey : recordsAt other key = recordsAt records key) :
    m.find? key = l.find? key := by
  by_cases hnil : recordsAt records key = []
  · rw [h.find?_of_nil hnil, hm.find?_of_nil (hkey.trans hnil)]
  · rw [h.find?_of_ne_nil hnil, hm.find?_of_ne_nil (hkey ▸ hnil), h.report_congr hm hkey]

/-! ## From the reports to the layout -/

/-- The last record is laid out behind all others. -/
theorem ofRecords_concat (h : ofRecords records = .ok l) (record : Record) :
    ofRecords (records ++ [record]) = l.addRecord record := by
  rw [ofRecords, List.foldlM_append, ← ofRecords, h]
  exact bind_pure (l.addRecord record)

/-- A record that its own report can take is one that the layout can take. -/
theorem add_of_report_add {f : FieldRecord} {r : Report} (h : (l.report f.key).add f = .ok r) :
    l.add f = .ok ⟨insert r l.reports⟩ := by
  obtain ⟨slots, hslots, rfl⟩ := Report.add_eq_ok h
  rw [add, hslots]
  rfl

/-- **There is a layout if and only if every report can be built.** -/
theorem exists_ofRecords_iff (records : List Record) :
    (∃ l, ofRecords records = .ok l) ↔
      ∀ key, ∃ r, (Report.empty key).addAll (recordsAt records key) = .ok r := by
  constructor
  · rintro ⟨l, h⟩ key
    exact ⟨l.report key, (reflects_ofRecords h).report key⟩
  · intro h
    induction records using List.reverseRecOn with
    | nil => exact ⟨{}, rfl⟩
    | append_singleton records record ih =>
        -- what comes before the last record can be laid out, as each of its reports can be built
        have hbefore : ∀ key, ∃ r, (Report.empty key).addAll (recordsAt records key) = .ok r := by
          intro key
          obtain ⟨r, hr⟩ := h key
          rw [recordsAt_append, Report.addAll, List.foldlM_append] at hr
          obtain ⟨q, hq, -⟩ := bind_eq_ok hr
          exact ⟨q, hq⟩
        obtain ⟨l, hl⟩ := ih hbefore
        rw [ofRecords_concat hl]
        cases record with
        | field f =>
            -- and the last one finds its report as it would be without the others
            obtain ⟨r, hr⟩ := h f.key
            rw [recordsAt_concat, if_pos rfl, Report.addAll, List.foldlM_append, ← Report.addAll,
              (reflects_ofRecords hl).report f.key] at hr
            have hadd : (l.report f.key).add f = .ok r := by
              rw [← hr]
              exact (bind_pure _).symm
            exact ⟨_, add_of_report_add hadd⟩
        | _ => exact ⟨l, rfl⟩

/-! ## One report alone -/

/-- The records of one report, and no others. -/
def alone (records : List Record) (key : ReportKey) : List Record :=
  (recordsAt records key).map .field

theorem fieldRecords_alone (records : List Record) (key : ReportKey) :
    fieldRecords (alone records key) = recordsAt records key := by
  rw [fieldRecords, alone, List.filterMap_map]
  exact List.filterMap_some

theorem recordsAt_alone_self (records : List Record) (key : ReportKey) :
    recordsAt (alone records key) key = recordsAt records key := by
  rw [recordsAt, fieldRecords_alone, recordsAt, List.filter_filter]
  simp only [Bool.and_self]

theorem recordsAt_alone_of_ne {other : ReportKey} (h : other ≠ key) :
    recordsAt (alone records key) other = [] := by
  rw [recordsAt, fieldRecords_alone, List.filter_eq_nil_iff]
  intro f hf hother
  have hkey := (List.mem_filter.mp hf).2
  simp only [decide_eq_true_eq] at hkey hother
  exact h (hother.symm.trans hkey)

/-- The records of a report can be laid out alone exactly if the report can be built. -/
theorem exists_ofRecords_alone_iff :
    (∃ l, ofRecords (alone records key) = .ok l) ↔
      ∃ r, (Report.empty key).addAll (recordsAt records key) = .ok r := by
  rw [exists_ofRecords_iff]
  constructor
  · intro h
    have hkey := h key
    rwa [recordsAt_alone_self] at hkey
  · intro h other
    by_cases hother : other = key
    · rwa [hother, recordsAt_alone_self]
    · rw [recordsAt_alone_of_ne hother]
      exact ⟨_, rfl⟩

/-- The layout of one report alone has this report only. -/
theorem Reflects.reports_alone (h : l.Reflects (alone records key))
    (hne : recordsAt records key ≠ []) : l.reports = [l.report key] := by
  have hkeys : l.reports.map (·.key) = [key] := by
    rw [h.keys, fieldRecords_alone]
    apply eraseDups_of_forall_eq
    · simpa using hne
    · intro other hother
      obtain ⟨f, hf, rfl⟩ := List.mem_map.mp hother
      simpa using (List.mem_filter.mp hf).2
  obtain ⟨r, hr⟩ := List.length_eq_one_iff.mp (by simpa using congrArg List.length hkeys)
  rw [hr] at hkeys
  have hkey : r.key = key := List.singleton_inj.mp hkeys
  have hreport := h.report_key (r := r) (by rw [hr]; exact List.mem_singleton_self r)
  rw [hr, ← hreport, hkey]

/-- Alone, the records of a report make the report that they make among others. -/
theorem ofRecords_alone (h : ofRecords records = .ok l) (hne : recordsAt records key ≠ []) :
    ofRecords (alone records key) = .ok ⟨[l.report key]⟩ := by
  have href := reflects_ofRecords h
  obtain ⟨m, hm⟩ := exists_ofRecords_alone_iff.mpr ⟨_, href.report key⟩
  have hmref := reflects_ofRecords hm
  have hreport : m.report key = l.report key :=
    href.report_congr hmref (recordsAt_alone_self records key)
  rw [hm, ← hreport, ← hmref.reports_alone hne]

/-- What is found depends on the records of each report only. -/
theorem find?_ofRecords_congr {other : List Record}
    (hsame : ∀ key, recordsAt other key = recordsAt records key) (key : ReportKey) :
    (ofRecords other).toOption.map (·.find? key) =
      (ofRecords records).toOption.map (·.find? key) := by
  have hexists : (∃ m, ofRecords other = .ok m) ↔ ∃ l, ofRecords records = .ok l := by
    rw [exists_ofRecords_iff, exists_ofRecords_iff]
    simp only [hsame]
  cases hm : ofRecords other with
  | ok m =>
      obtain ⟨l, hl⟩ := hexists.mp ⟨m, hm⟩
      have hfind : m.find? key = l.find? key :=
        (reflects_ofRecords hl).find?_congr (reflects_ofRecords hm) (hsame key)
      rw [hl]
      exact congrArg some hfind
  | error fault =>
      cases hl : ofRecords records with
      | ok l =>
          obtain ⟨m, hm'⟩ := hexists.mpr ⟨l, hl⟩
          rw [hm] at hm'
          cases hm'
      | error fault' => rfl

/-- **Reports do not depend on each other.** There is a layout exactly if there is one for the
records of each report alone. Looking a report up then gives the one report of that layout, or
nothing if there are no records of it. So records that are interleaved in another way, and with
other records than those of fields, give the same answers. -/
theorem ofRecords_independent (records : List Record) :
    ((∃ l, ofRecords records = .ok l) ↔ ∀ key, ∃ l, ofRecords (alone records key) = .ok l) ∧
      (∀ l, ofRecords records = .ok l → ∀ direction id,
        (l.inDirection direction).find? (·.key.id = id) = l.find? ⟨direction, id⟩ ∧
          (recordsAt records ⟨direction, id⟩ = [] → l.find? ⟨direction, id⟩ = none) ∧
          (recordsAt records ⟨direction, id⟩ ≠ [] → ∃ r,
            ofRecords (alone records ⟨direction, id⟩) = .ok ⟨[r]⟩ ∧
              l.find? ⟨direction, id⟩ = some r)) ∧
      ∀ other, (∀ key, recordsAt other key = recordsAt records key) → ∀ key,
        (ofRecords other).toOption.map (·.find? key) =
          (ofRecords records).toOption.map (·.find? key) := by
  refine ⟨?_, ?_, fun other hsame => find?_ofRecords_congr hsame⟩
  · simp only [exists_ofRecords_iff records, exists_ofRecords_alone_iff]
  · intro l h direction id
    have href := reflects_ofRecords h
    refine ⟨find?_inDirection l direction id, href.find?_of_nil, ?_⟩
    intro hne
    exact ⟨_, ofRecords_alone h hne, href.find?_of_ne_nil hne⟩

/-- Records of two reports, interleaved in two ways and with different records between them. -/
theorem ofRecords_independent_interleaved :
    ∃ records other l r, ofRecords records = .ok l ∧ records.length = 4 ∧ other ≠ records ∧
      (∀ key, recordsAt other key = recordsAt records key) ∧
      (recordsAt records ⟨.input, some 1⟩).length = 2 ∧
      ofRecords (alone records ⟨.input, some 1⟩) = .ok ⟨[r]⟩ ∧ l.find? ⟨.input, some 1⟩ = some r ∧
      l.find? ⟨.feature, none⟩ = none ∧
      ∀ key, (ofRecords other).toOption.map (·.find? key) =
        (ofRecords records).toOption.map (·.find? key) := by
  obtain ⟨l, hok⟩ : ∃ l, ofRecords [
      .field ⟨4, .input, ⟨1⟩,
        { reportId := some 1, reportSize := some 8, reportCount := some 2 }, {}, []⟩,
      .collection ⟨0⟩,
      .field ⟨6, .output, ⟨1⟩, { reportSize := some 3, reportCount := some 1 }, {}, []⟩,
      .field ⟨8, .input, ⟨1⟩,
        { reportId := some 1, reportSize := some 4, reportCount := some 1 }, {}, []⟩] = .ok l :=
    ⟨_, rfl⟩
  have hsame : ∀ key, recordsAt [
      .usagePage 1,
      .field ⟨6, .output, ⟨1⟩, { reportSize := some 3, reportCount := some 1 }, {}, []⟩,
      .field ⟨4, .input, ⟨1⟩,
        { reportId := some 1, reportSize := some 8, reportCount := some 2 }, {}, []⟩,
      .field ⟨8, .input, ⟨1⟩,
        { reportId := some 1, reportSize := some 4, reportCount := some 1 }, {}, []⟩] key =
      recordsAt [
        .field ⟨4, .input, ⟨1⟩,
          { reportId := some 1, reportSize := some 8, reportCount := some 2 }, {}, []⟩,
        .collection ⟨0⟩,
        .field ⟨6, .output, ⟨1⟩, { reportSize := some 3, reportCount := some 1 }, {}, []⟩,
        .field ⟨8, .input, ⟨1⟩,
          { reportId := some 1, reportSize := some 4, reportCount := some 1 }, {}, []⟩] key := by
    intro key
    by_cases hinput : key = ⟨.input, some 1⟩
    · rw [hinput]
      rfl
    · simp [recordsAt, fieldRecords, Record.field?, FieldRecord.key, List.filter_cons,
        Ne.symm hinput]
  obtain ⟨-, hfind, hother⟩ := ofRecords_independent _
  obtain ⟨-, -, hinput⟩ := hfind l hok .input (some 1)
  obtain ⟨r, halone, hr⟩ := hinput (by decide +kernel)
  obtain ⟨-, hfeature, -⟩ := hfind l hok .feature none
  exact ⟨_, _, l, r, hok, rfl, by decide +kernel, hsame, rfl, halone, hr, hfeature rfl,
    hother _ hsame⟩

end Layout
end HidDescriptor
