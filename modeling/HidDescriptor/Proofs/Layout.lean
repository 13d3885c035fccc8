import HidDescriptor.Proofs.Layout.Grouping

/-! # What a layout is, and when there is none

The three main statements on `Layout.ofRecords`, for records with any values:

* `ofRecords_fits`: the fields of each report tile its bits, and the report fits the largest size;
* `ofRecords_content`: which reports there are, how large they are and which fields they have, in
  terms of the records alone;
* `ofRecords_eq_error_iff`: there is no layout exactly if some record offends, and the fault is that
  of the first one that does.

All of them rest on `Layout.Reflects`: what a layout has at a key are the records with that key. -/

namespace HidDescriptor

namespace Report

/-- The report is tiled by its fields and not too large, and no bit of a field is outside of the
bytes that are sent. -/
structure Fits (r : Report) : Prop where
  tiled : r.Tiled
  size_le : r.size ≤ 131072
  in_payload : ∀ f ∈ r.fields, ∀ bit, f.bits.first ≤ bit → bit ≤ f.bits.last →
    bit < 8 * (r.byteSize - if r.key.id.isSome then 1 else 0)
  byteSize_le : r.byteSize ≤ 16384 + if r.key.id.isSome then 1 else 0

/-- A report is within its bounds because its records were. -/
theorem Holds.fits {r : Report} {fs : List FieldRecord} (h : r.Holds fs) : r.Fits where
  tiled := h.tiled
  size_le := h.size_le
  in_payload f hf bit _ hlast := by
    have hlt := h.tiled.last_lt f hf
    simp only [byteSize, payloadBytes]
    omega
  byteSize_le := by
    have hle := h.size_le
    simp only [byteSize, payloadBytes]
    omega

end Report

namespace Layout

variable {records : List Record} {l : Layout}

theorem mem_inDirection {direction : Direction} {r : Report} :
    r ∈ l.inDirection direction ↔ r ∈ l.reports ∧ r.key.direction = direction := by
  simp [inDirection]

namespace Reflects

/-- The ids of the reports in one direction are those of the records in that direction. -/
theorem ids_inDirection (h : l.Reflects records) (direction : Direction) :
    (l.inDirection direction).map (·.key.id) =
      (((fieldRecords records).filter (·.direction = direction)).map
        (·.globals.reportId)).eraseDups := by
  have hids := map_filter_eraseDups (p := fun key : ReportKey => key.direction = direction)
    (g := fun key => key.id) (fun x y hx hy hxy => by
      obtain ⟨_, _⟩ := x
      obtain ⟨_, _⟩ := y
      simp_all) ((fieldRecords records).map (·.key))
  rw [← h.keys, List.filter_map, List.map_map, List.filter_map, List.map_map] at hids
  exact hids

theorem holds (h : l.Reflects records) {direction : Direction} {r : Report}
    (hr : r ∈ l.inDirection direction) : r.Holds (recordsAt records ⟨direction, r.key.id⟩) := by
  obtain ⟨hmem, rfl⟩ := mem_inDirection.mp hr
  have hholds := h.holds_report r.key
  rwa [h.report_key hmem] at hholds

end Reflects

/-- **Fields tile their report.** No two reports in one direction have the same id; the fields of
each report belong to it and take up its bits one behind the other, without a gap or an overlap, from
bit 0 to the last; and the report is within the largest size. -/
theorem ofRecords_fits (h : ofRecords records = .ok l) (direction : Direction) :
    ((l.inDirection direction).map (·.key.id)).Nodup ∧
      ∀ r ∈ l.inDirection direction, r.key.direction = direction ∧ r.Fits := by
  have href := reflects_ofRecords h
  refine ⟨?_, fun r hr => ⟨(mem_inDirection.mp hr).2, (href.holds hr).fits⟩⟩
  rw [href.ids_inDirection direction]
  exact nodup_eraseDups _

/-- Records of three reports in turn, among them one of no bits, padding, and one with more elements
than usages. -/
theorem ofRecords_fits_interleaved :
    ∃ records l, ofRecords records = .ok l ∧
      (l.inDirection .input).map (fun r => (r.key.id, r.fields.toList.map (·.bits))) =
        [(some 1, [⟨0, 7⟩, ⟨8, 15⟩, ⟨16, 23⟩, ⟨24, 39⟩]), (none, [⟨0, 2⟩])] ∧
      (l.inDirection .output).map (fun r => (r.key.id, r.size)) = [(some 1, 0)] ∧
      ∀ direction, ((l.inDirection direction).map (·.key.id)).Nodup ∧
        ∀ r ∈ l.inDirection direction, r.key.direction = direction ∧ r.Fits := by
  have h : ofRecords [
      .field ⟨4, .input, ⟨2⟩,
        { reportId := some 1, reportSize := some 8, reportCount := some 3,
          logicalMinimum := some 0, logicalMaximum := some 127 },
        { usages := #[⟨some 1, 0x30⟩, ⟨some 1, 0x31⟩] }, []⟩,
      .field ⟨6, .output, ⟨2⟩,
        { reportId := some 1, reportSize := some 0, reportCount := some 9 }, {}, []⟩,
      .endCollection,
      .field ⟨8, .input, ⟨1⟩, { reportSize := some 1, reportCount := some 3 }, {}, []⟩,
      .field ⟨9, .input, ⟨0⟩,
        { reportId := some 1, reportSize := some 8, reportCount := some 2,
          logicalMinimum := some 0, logicalMaximum := some 127 },
        { usages := #[⟨some 1, 0x30⟩, ⟨some 1, 0x31⟩] }, []⟩] = .ok _ := rfl
  exact ⟨_, _, h, by decide +kernel, by decide +kernel, ofRecords_fits h⟩

/-- **A layout has what its records say, and nothing else.** In each direction there is a report for
each report id among the records, in the order in which the ids come first. A report is as large as
its records together, and its fields are the expansions of its records, one behind the other. -/
theorem ofRecords_content (h : ofRecords records = .ok l) (direction : Direction) :
    (l.inDirection direction).map (·.key.id) =
        (((fieldRecords records).filter (·.direction = direction)).map
          (·.globals.reportId)).eraseDups ∧
      ∀ r ∈ l.inDirection direction,
        (∀ f ∈ recordsAt records ⟨direction, r.key.id⟩,
          f.globals.reportSize.isSome ∧ f.globals.reportCount.isSome) ∧
        r.size = ((recordsAt records ⟨direction, r.key.id⟩).map (·.bits)).sum ∧
        ∃ parts, List.Forall₂ FieldRecord.Expands (recordsAt records ⟨direction, r.key.id⟩) parts ∧
          r.fields.toList.map (·.slot) = parts.flatten := by
  have href := reflects_ofRecords h
  refine ⟨href.ids_inDirection direction, fun r hr => ?_⟩
  have hholds := href.holds hr
  exact ⟨hholds.known, hholds.size_eq, hholds.expands⟩

/-- The last usage stays for the third element, the padding in another direction does not count,
and a physical range needs both its ends. -/
theorem ofRecords_content_lastUsage :
    ∃ records l r, ofRecords records = .ok l ∧ l.inDirection .input = [r] ∧ r.key.id = none ∧
      r.fields.toList.map (·.slot) =
        [0x30, 0x31, 0x31].map (fun u =>
          ⟨8, .variableOf ⟨1, u⟩ ⟨⟨-127, 127⟩, none, none, some 5, [⟨1⟩]⟩⟩) ∧
      r.size = ((recordsAt records ⟨.input, none⟩).map (·.bits)).sum ∧
      ∃ parts, List.Forall₂ FieldRecord.Expands (recordsAt records ⟨.input, none⟩) parts ∧
        r.fields.toList.map (·.slot) = parts.flatten := by
  have h : ofRecords [
      .field ⟨0, .feature, ⟨1⟩, { reportSize := some 4, reportCount := some 1 }, {}, []⟩,
      .field ⟨2, .input, ⟨2⟩,
        { usagePage := some 1, logicalMinimum := some (-127), logicalMaximum := some 127,
          physicalMinimum := some 0, unitExponent := some 5, reportSize := some 8,
          reportCount := some 3 },
        { usages := #[⟨none, 0x30⟩, ⟨none, 0x31⟩] }, [⟨1⟩]⟩,
      .field ⟨4, .input, ⟨0⟩, { reportSize := some 0, reportCount := some 1 }, {}, []⟩] = .ok _ := rfl
  obtain ⟨-, hreports⟩ := ofRecords_content h .input
  obtain ⟨-, hsize, hparts⟩ := hreports _ List.mem_cons_self
  exact ⟨_, _, _, h, rfl, rfl, by decide +kernel, hsize, hparts⟩

/-! ## The first record that offends -/

/-- The record at a place offends, given what the records before it take up, and `fault` says how
and where. -/
def OffendsAt (records : List Record) (i : Nat) (fault : Fault) : Prop :=
  ∃ f cause, records[i]? = some (.field f) ∧
    f.offence? (bitsAt (records.take i) f.key) = some cause ∧ fault = ⟨f.offset, cause⟩

theorem OffendsAt.unique {i : Nat} {fault fault' : Fault} (h : OffendsAt records i fault)
    (h' : OffendsAt records i fault') : fault = fault' := by
  obtain ⟨f, cause, hf, hcause, rfl⟩ := h
  obtain ⟨g, cause', hg, hcause', rfl⟩ := h'
  rw [hf] at hg
  cases hg
  rw [hcause] at hcause'
  cases hcause'
  rfl

/-- Whether a record offends depends on those before it, and not on those behind it. -/
theorem offendsAt_length {record : Record} {rest : List Record} {fault : Fault} :
    OffendsAt (records ++ record :: rest) records.length fault ↔
      ∃ f cause, record = .field f ∧ f.offence? (bitsAt records f.key) = some cause ∧
        fault = ⟨f.offset, cause⟩ := by
  simp [OffendsAt]

/-- **One step** fails if the record offends, and only then. -/
theorem Reflects.addRecord_or (h : l.Reflects records) (record : Record) (rest : List Record) :
    (∃ l', l.addRecord record = .ok l' ∧
        ∀ fault, ¬ OffendsAt (records ++ record :: rest) records.length fault) ∨
      ∃ fault, l.addRecord record = .error fault ∧
        OffendsAt (records ++ record :: rest) records.length fault := by
  simp only [offendsAt_length]
  cases record with
  | field f =>
      have hsize := h.size_report f.key
      cases hoff : f.offence? (bitsAt records f.key) with
      | none =>
          obtain ⟨slots, hslots, -⟩ := FieldRecord.slots_of_no_offence hoff
          left
          refine ⟨⟨insert ((l.report f.key).append f.key slots) l.reports⟩, ?_, ?_⟩
          · rw [Layout.addRecord, Layout.add, hsize, hslots]
            rfl
          · rintro fault ⟨g, cause, hg, hcause, -⟩
            cases hg
            rw [hoff] at hcause
            cases hcause
      | some cause =>
          right
          refine ⟨⟨f.offset, cause⟩, ?_, f, cause, rfl, hoff, rfl⟩
          rw [Layout.addRecord, Layout.add, hsize, FieldRecord.slots_of_offence hoff]
          rfl
  | _ =>
      -- no field record, and nothing to do
      left
      refine ⟨l, rfl, ?_⟩
      rintro fault ⟨f, _, hf, -⟩
      cases hf

/-- **A run** goes on to the first record that offends. -/
theorem Reflects.foldlM_or (h : l.Reflects records) (rest : List Record) :
    (∃ l', rest.foldlM Layout.addRecord l = .ok l' ∧
        ∀ i fault, records.length ≤ i → ¬ OffendsAt (records ++ rest) i fault) ∨
      ∃ i fault, rest.foldlM Layout.addRecord l = .error fault ∧
        OffendsAt (records ++ rest) i fault ∧
        ∀ j other, records.length ≤ j → j < i → ¬ OffendsAt (records ++ rest) j other := by
  induction rest generalizing l records with
  | nil =>
      left
      refine ⟨l, rfl, ?_⟩
      rintro i fault hi ⟨f, cause, hf, -⟩
      rw [List.append_nil, List.getElem?_eq_none hi] at hf
      cases hf
  | cons record rest ih =>
      rw [List.foldlM_cons]
      rcases h.addRecord_or record rest with ⟨m, hm, hno⟩ | ⟨fault, herr, hoff⟩
      · -- the record is laid out, and what offends comes after it
        have hmore := ih (h.addRecord hm)
        rw [hm]
        rw [List.append_assoc, List.singleton_append, List.length_append,
          List.length_singleton] at hmore
        rcases hmore with ⟨l', hok, hnone⟩ | ⟨i, fault, herr, hoff, hfirst⟩
        · left
          refine ⟨l', hok, fun i fault hi => ?_⟩
          rcases Nat.eq_or_lt_of_le hi with rfl | hi
          · exact hno fault
          · exact hnone i fault hi
        · right
          refine ⟨i, fault, herr, hoff, fun j other hj hji => ?_⟩
          rcases Nat.eq_or_lt_of_le hj with rfl | hj
          · exact hno other
          · exact hfirst j other hj hji
      · right
        refine ⟨records.length, fault, ?_, hoff, fun j other hj hji => by omega⟩
        rw [herr]
        rfl

/-- **When there is no layout.** Some record offends, and the fault is that of the first one that
does. All sums and products are exact, whatever the sizes and counts are. -/
theorem ofRecords_eq_error_iff (records : List Record) :
    ((∃ fault, ofRecords records = .error fault) ↔ ∃ i fault, OffendsAt records i fault) ∧
      ∀ fault, ofRecords records = .error fault ↔
        ∃ i, OffendsAt records i fault ∧ ∀ j < i, ∀ other, ¬ OffendsAt records j other := by
  rw [ofRecords]
  rcases reflects_nil.foldlM_or records with ⟨l, hok, hno⟩ | ⟨i, fault, herr, hoff, hfirst⟩
  · have hnone : ∀ i fault, ¬ OffendsAt records i fault := fun i fault => hno i fault (Nat.zero_le i)
    rw [hok]
    refine ⟨⟨?_, ?_⟩, fun fault => ⟨?_, ?_⟩⟩
    · rintro ⟨_, h⟩; cases h
    · rintro ⟨i, fault, hoff⟩; exact absurd hoff (hnone i fault)
    · intro h; cases h
    · rintro ⟨i, hoff, -⟩; exact absurd hoff (hnone i fault)
  · rw [List.nil_append] at hoff hfirst
    rw [herr]
    refine ⟨⟨fun _ => ⟨i, fault, hoff⟩, fun _ => ⟨fault, rfl⟩⟩, fun other => ⟨?_, ?_⟩⟩
    · intro h
      cases h
      exact ⟨i, hoff, fun j hji other => hfirst j other (Nat.zero_le j) hji⟩
    · rintro ⟨k, hk, hkfirst⟩
      -- there is only one first place
      rcases Nat.lt_trichotomy i k with hik | rfl | hki
      · exact absurd hoff (hkfirst i hik fault)
      · rw [hoff.unique hk]
      · exact absurd hk (hfirst k other (Nat.zero_le k) hki)

-- in 64-bit words this product would be zero
example : ofRecords [.field ⟨4, .input, ⟨1⟩,
    { reportSize := some 0x8000000000000000, reportCount := some 2 }, {}, []⟩] =
    .error ⟨4, .reportTooLarge⟩ := rfl

end Layout
end HidDescriptor
