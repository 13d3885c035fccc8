import HidDescriptor.Proofs.Decoding
import HidDescriptor.Proofs.History

/-! # Field records are snapshots

The record of an Input, Output or Feature item carries the registers, the listed usages and the open
collections. The context hands them over as it holds them at that moment. What this amounts to, for
the whole descriptor and without the context, is `snapshot_of_mem_decode`: with `before` the items
in front of the field,

* a global register is that of the last item in `before` that assigns it and is not enclosed by a
  Push and its Pop;
* the collections are those in `before` whose End Collection is not in `before`;
* usages and local registers are those of the items in `before` since the last Main item. -/

namespace HidDescriptor

namespace Context

/-- Only a field item has a field record, which is a copy of the context. -/
theorem field_of_feedItem {c d : Context} {offset : Nat} {x : Item} {f : FieldRecord}
    (h : c.feedItem offset x = .ok (d, some (.field f))) :
    x = .field f.direction f.flags ∧ f = c.fieldRecord offset f.direction f.flags := by
  cases x with
  | field direction flags =>
      simp only [feedItem, Except.ok.injEq, Prod.mk.injEq, Option.some.injEq,
        Record.field.injEq] at h
      obtain ⟨-, rfl⟩ := h
      exact ⟨rfl, rfl⟩
  | setGlobal r w =>
      simp only [feedItem, Except.ok.injEq, Prod.mk.injEq, Option.map_eq_some_iff] at h
      obtain ⟨-, page, -, hpage⟩ := h
      cases hpage
  | endCollection =>
      obtain ⟨kind, outer, -, -, hrecord⟩ := feedItem_endCollection_eq_ok h
      cases hrecord
  | pop =>
      obtain ⟨globals, saved, -, -, hrecord⟩ := feedItem_pop_eq_ok h
      cases hrecord
  | _ => cases h

/-- **A run takes snapshots**: the record of a field holds what the items before it have said, those
`before` the run included. -/
theorem snapshot_of_mem_run {c : Context} (before : List Token) {ts : List Token}
    {f : FieldRecord} (hc : c.Follows (before.map (·.item)))
    (hf : .field f ∈ (c.run ts).records) :
    ∃ i t, ts[i]? = some t ∧ t.offset = f.offset ∧ t.item = .field f.direction f.flags ∧
      f.globals.Recalls ((before ++ ts.take i).map (·.item)) ∧
      f.collections = History.collections ((before ++ ts.take i).map (·.item)) ∧
      f.locals.Recalls ((before ++ ts.take i).map (·.item)) := by
  induction ts generalizing c before with
  | nil => simp [run] at hf
  | cons t ts ih =>
      cases hfeed : c.feed t with
      | error fault => simp [run_of_error hfeed] at hf
      | ok taken =>
          obtain ⟨d, record⟩ := taken
          simp only [run_of_ok hfeed, List.mem_append, Option.mem_toList] at hf
          rcases hf with rfl | hf
          · -- the record of `t` itself
            obtain ⟨hitem, hrecord⟩ := field_of_feedItem hfeed
            refine ⟨0, t, rfl, ?_, hitem, ?_⟩
            · rw [hrecord]; rfl
            · rw [hrecord]
              simpa using ⟨hc.globals, hc.collections, hc.locals⟩
          · -- a record of the run that goes on from here
            have hd : d.Follows ((before ++ [t]).map (·.item)) := by
              simpa using hc.feedItem hfeed
            obtain ⟨i, s, hget, hs⟩ := ih (before ++ [t]) hd hf
            exact ⟨i + 1, s, by simpa using hget, by simpa using hs⟩

end Context

/-- **The meaning of a field record.** The record stands for one item of the descriptor, the one at
its offset, and holds what the items before that one have said. -/
theorem snapshot_of_mem_decode {bytes : List UInt8} {f : FieldRecord}
    (hf : .field f ∈ (decode bytes).records) :
    ∃ i t before, (Tokens.ofBytes bytes).items[i]? = some t ∧
      t.item = .field f.direction f.flags ∧
      (∀ j s, (Tokens.ofBytes bytes).items[j]? = some s → (s.offset = f.offset ↔ j = i)) ∧
      before = ((Tokens.ofBytes bytes).items.take i).map (·.item) ∧
      (∀ r, f.globals.get r = History.global? before r) ∧
      f.collections = History.collections before ∧
      f.locals.usages.toList = History.usages before ∧
      ∀ r, f.locals.get r = History.local? before r := by
  rw [records_decode] at hf
  obtain ⟨i, t, hget, hoffset, hitem, hglobals, hcollections, hlocals⟩ :=
    Context.snapshot_of_mem_run [] Context.follows_nil hf
  refine ⟨i, t, _, hget, hitem, fun j s hs => ?_, rfl, hglobals, hcollections, hlocals.usages,
    hlocals.get⟩
  rw [← hoffset]
  exact Tokens.offset_eq_iff hs hget

/-- Two tables saved one inside the other, a collection that is closed again, usages that belong to
it, a reserved Main tag between the usages of the field: the field at offset 33 sees what it
should. -/
theorem snapshot_of_mem_decode_nested :
    ∃ bytes f, .field f ∈ (decode bytes).records ∧ f.offset = 33 ∧
      f.globals = { usagePage := some 1, reportId := some 3, logicalMaximum := some 127 } ∧
      f.collections = [⟨1⟩] ∧ f.locals.usages = #[⟨none, 0x31⟩, ⟨some 9, 0x32⟩] ∧
    ∃ i t before, (Tokens.ofBytes bytes).items[i]? = some t ∧
      t.item = .field f.direction f.flags ∧
      (∀ j s, (Tokens.ofBytes bytes).items[j]? = some s → (s.offset = f.offset ↔ j = i)) ∧
      before = ((Tokens.ofBytes bytes).items.take i).map (·.item) ∧
      (∀ r, f.globals.get r = History.global? before r) ∧
      f.collections = History.collections before ∧
      f.locals.usages.toList = History.usages before ∧
      ∀ r, f.locals.get r = History.local? before r :=
  ⟨[0x05, 0x01, 0x85, 0x03, 0xa4, 0x05, 0x09, 0xa4, 0x85, 0x07, 0xb4, 0x75, 0x10, 0xb4,
      0xa1, 0x01, 0x09, 0x30, 0xa1, 0x00, 0x09, 0x33, 0xc0, 0x25, 0x7f,
      0x09, 0x31, 0xf0, 0x0b, 0x32, 0x00, 0x09, 0x00, 0x81, 0x02],
    { offset := 33
      direction := .input
      flags := ⟨2⟩
      globals := { usagePage := some 1, reportId := some 3, logicalMaximum := some 127 }
      locals := { usages := #[⟨none, 0x31⟩, ⟨some 9, 0x32⟩] }
      collections := [⟨1⟩] },
    by decide +kernel, rfl, rfl, rfl, rfl, snapshot_of_mem_decode (by decide +kernel)⟩

end HidDescriptor
