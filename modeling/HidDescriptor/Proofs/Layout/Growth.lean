import HidDescriptor.Proofs.Layout
import HidDescriptor.Proofs.Stopping

/-! # Layouts only grow

A record that is laid out adds fields behind those that are there, and a report behind the others if
it is the first of its report. Nothing is moved, changed or taken away: this is `Report.GrowsTo` and
`Layout.GrowsTo`, which hold of one record and so of any number of them.

As more bytes only add records, the layout of a descriptor that is cut off anywhere is what the
layout of the whole descriptor has grown from (`ofBytes_append_grows`). -/

namespace HidDescriptor

/-- The fields of a report are where they were in an earlier one, and there may be more of them. -/
structure Report.GrowsTo (r s : Report) : Prop where
  key : s.key = r.key
  size_le : r.size ≤ s.size
  fields : r.fields.toList <+: s.fields.toList

/-- The reports of a layout are in the order of an earlier one, and there may be more of them. -/
structure Layout.GrowsTo (l l' : Layout) : Prop where
  keys : l.reports.map (·.key) <+: l'.reports.map (·.key)
  report : ∀ key, (l.report key).GrowsTo (l'.report key)

/-! ## One report -/

namespace Report

theorem GrowsTo.refl (r : Report) : r.GrowsTo r := ⟨rfl, Nat.le_refl _, List.prefix_rfl⟩

theorem GrowsTo.trans {r s t : Report} (h : r.GrowsTo s) (h' : s.GrowsTo t) : r.GrowsTo t where
  key := h'.key.trans h.key
  size_le := Nat.le_trans h.size_le h'.size_le
  fields := h.fields.trans h'.fields

theorem growsTo_push (r : Report) (key : ReportKey) (s : Slot) : r.GrowsTo (r.push key s) where
  key := rfl
  size_le := Nat.le_add_right _ _
  fields := by
    rw [push, Array.toList_push]
    exact List.prefix_append _ _

/-- Fields that are added go behind those that are there. -/
theorem growsTo_append (r : Report) (key : ReportKey) (slots : List Slot) :
    r.GrowsTo (r.append key slots) := by
  induction slots generalizing r with
  | nil => exact .refl r
  | cons s slots ih => exact (growsTo_push r key s).trans (ih (r.push key s))

end Report

/-! ## A layout -/

namespace Layout

variable {l l' : Layout} {records rest : List Record}

theorem GrowsTo.refl (l : Layout) : l.GrowsTo l := ⟨List.prefix_rfl, fun _ => .refl _⟩

theorem GrowsTo.trans {m : Layout} (h : l.GrowsTo m) (h' : m.GrowsTo l') : l.GrowsTo l' where
  keys := h.keys.trans h'.keys
  report key := (h.report key).trans (h'.report key)

/-- A report that is put back larger makes the layout larger. -/
theorem growsTo_insert {f : FieldRecord} {r : Report} (h : (l.report f.key).GrowsTo r) :
    l.GrowsTo ⟨insert r l.reports⟩ := by
  have hkey : r.key = f.key := h.key.trans (l.key_report f.key)
  constructor
  · rw [keys_insert]
    split
    · exact List.prefix_rfl
    · exact List.prefix_append _ _
  · intro key
    rw [report_insert hkey]
    split
    · next heq =>
        rw [← heq]
        exact h
    · exact .refl _

/-- **One step**: a record that is laid out takes nothing back. -/
theorem growsTo_addRecord {record : Record} (h : l.addRecord record = .ok l') : l.GrowsTo l' := by
  cases record with
  | field f =>
      obtain ⟨r, hadd, rfl⟩ := add_eq_ok h
      obtain ⟨slots, -, rfl⟩ := Report.add_eq_ok hadd
      exact growsTo_insert (Report.growsTo_append _ _ slots)
  | _ =>
      -- no field record, and no change
      cases h
      exact .refl _

/-- **A run**: nor do several of them. -/
theorem growsTo_foldlM (h : rest.foldlM Layout.addRecord l = .ok l') : l.GrowsTo l' := by
  refine foldlM_keeps (I := fun _ m => l.GrowsTo m) [] (.refl l) ?_ h
  intro record _ seen m m' hm hstep
  exact hm.trans (growsTo_addRecord hstep)

/-- If records have a layout, then so have the first of them. -/
theorem exists_ofRecords (h : ofRecords (records ++ rest) = .ok l') :
    ∃ l, ofRecords records = .ok l ∧ l.GrowsTo l' := by
  rw [ofRecords, List.foldlM_append] at h
  obtain ⟨l, hfirst, hrest⟩ := bind_eq_ok h
  exact ⟨l, hfirst, growsTo_foldlM hrest⟩

/-! ## By direction and id -/

theorem map_key_inDirection (l : Layout) (direction : Direction) :
    (l.inDirection direction).map (·.key.id) =
      ((l.reports.map (·.key)).filter (·.direction = direction)).map (·.id) := by
  rw [List.filter_map, List.map_map]
  rfl

/-- In each direction, new reports come behind those that are there. -/
theorem GrowsTo.prefix_ids (h : l.GrowsTo l') (direction : Direction) :
    (l.inDirection direction).map (·.key.id) <+: (l'.inDirection direction).map (·.key.id) := by
  rw [map_key_inDirection, map_key_inDirection]
  exact (h.keys.filter _).map _

/-- The report with a key that is listed is the one that is found. -/
theorem Reflects.mem_inDirection_iff {direction : Direction} {id : Option ReportId}
    (h : l.Reflects records) (hid : id ∈ (l.inDirection direction).map (·.key.id)) (q : Report) :
    q ∈ l.inDirection direction ∧ q.key.id = id ↔ q = l.report ⟨direction, id⟩ := by
  have hfound : ∀ s ∈ l.inDirection direction, s = l.report ⟨direction, s.key.id⟩ := by
    intro s hs
    obtain ⟨hmem, rfl⟩ := mem_inDirection.mp hs
    exact (h.report_key hmem).symm
  constructor
  · rintro ⟨hq, rfl⟩
    exact hfound q hq
  · rintro rfl
    obtain ⟨s, hs, rfl⟩ := List.mem_map.mp hid
    rw [← hfound s hs]
    exact ⟨hs, rfl⟩

/-- **Later bytes take nothing back.** If a descriptor has a layout, then the records of a piece cut
off its front have one, wherever the cut is. In each direction the reports of the piece are the first
of those of the descriptor; and the one report of the descriptor with the same id starts with the
fields of the piece, in their places. -/
theorem ofBytes_append_grows {front back : List UInt8} {full : Layout}
    (h : ofBytes (front ++ back) = .ok full) :
    ∃ part, ofRecords (decode front).records = .ok part ∧
      ∀ direction,
        (part.inDirection direction).map (·.key.id) <+:
            (full.inDirection direction).map (·.key.id) ∧
        ∀ r ∈ part.inDirection direction, ∃ s,
          (∀ q, q ∈ full.inDirection direction ∧ q.key.id = r.key.id ↔ q = s) ∧
          r.fields.toList <+: s.fields.toList ∧ r.size ≤ s.size := by
  obtain ⟨records, hwhole, hfull⟩ := bind_eq_ok h
  obtain ⟨-, rfl⟩ := (Decoded.whole_eq_ok_iff _ _).mp hwhole
  obtain ⟨rest, hrest⟩ := prefix_records_decode front back
  rw [← hrest] at hfull
  obtain ⟨part, hpart, hgrows⟩ := exists_ofRecords hfull
  refine ⟨part, hpart, fun direction => ⟨hgrows.prefix_ids direction, ?_⟩⟩
  intro r hr
  have hid : r.key.id ∈ (full.inDirection direction).map (·.key.id) :=
    (hgrows.prefix_ids direction).subset (List.mem_map_of_mem hr)
  have hfound : r = part.report ⟨direction, r.key.id⟩ :=
    ((reflects_ofRecords hpart).mem_inDirection_iff (List.mem_map_of_mem hr) r).mp ⟨hr, rfl⟩
  have hreport := hgrows.report ⟨direction, r.key.id⟩
  rw [← hfound] at hreport
  exact ⟨_, (reflects_ofRecords hfull).mem_inDirection_iff hid, hreport.fields, hreport.size_le⟩

/-- A descriptor that is cut inside of its second field item. With the rest of it, the report gets a
second field, and another report comes up. -/
theorem ofBytes_append_grows_seam :
    ∃ front back full part, ofBytes (front ++ back) = .ok full ∧
      (decode front).fault = some ⟨10, .truncated 1 0⟩ ∧
      ofRecords (decode front).records = .ok part ∧
      part.reports = [⟨⟨.input, some 1⟩, 16, #[⟨⟨0, 15⟩, ⟨.input, some 1⟩, .constant⟩]⟩] ∧
      full.reports.map (fun r => (r.key.id, r.size)) = [(some 1, 24), (some 2, 8)] ∧
      ∀ direction,
        (part.inDirection direction).map (·.key.id) <+:
            (full.inDirection direction).map (·.key.id) ∧
        ∀ r ∈ part.inDirection direction, ∃ s,
          (∀ q, q ∈ full.inDirection direction ∧ q.key.id = r.key.id ↔ q = s) ∧
          r.fields.toList <+: s.fields.toList ∧ r.size ≤ s.size := by
  have hfull : ofBytes ([0x75, 0x08, 0x85, 0x01, 0x95, 0x02, 0x81, 0x01, 0x95, 0x01, 0x81] ++
      [0x01, 0x85, 0x02, 0x81, 0x01]) = .ok ⟨[
        ⟨⟨.input, some 1⟩, 24, #[⟨⟨0, 15⟩, ⟨.input, some 1⟩, .constant⟩,
          ⟨⟨16, 23⟩, ⟨.input, some 1⟩, .constant⟩]⟩,
        ⟨⟨.input, some 2⟩, 8, #[⟨⟨0, 7⟩, ⟨.input, some 2⟩, .constant⟩]⟩]⟩ := by
    decide +kernel
  have hpart : ofRecords
      (decode [0x75, 0x08, 0x85, 0x01, 0x95, 0x02, 0x81, 0x01, 0x95, 0x01, 0x81]).records =
      .ok ⟨[⟨⟨.input, some 1⟩, 16, #[⟨⟨0, 15⟩, ⟨.input, some 1⟩, .constant⟩]⟩]⟩ := by
    decide +kernel
  obtain ⟨part, hrecords, hgrows⟩ := ofBytes_append_grows hfull
  rw [hpart] at hrecords
  cases hrecords
  exact ⟨_, _, _, _, hfull, by decide +kernel, hpart, rfl, rfl, hgrows⟩

end Layout
end HidDescriptor
