import HidDescriptor.Proofs.ItemTable
import HidDescriptor.Proofs.Stopping
import Mathlib.Data.List.Forall2

/-! # One record for each visible item

The items that can be seen in the records are the Usage Pages, the Usages and the Main items. Each
of them has one record (`Token.Shows`), and no other item has any. A context that takes a token
makes the record of that token, if it has one, and so it is with a run of them
(`shows_of_run`).

Through the offset of a field record one comes from the record to the bytes: the item that stands
there is the one that the record is about (`records_decode_visible`). -/

namespace HidDescriptor

/-- The item has a record of its own. -/
def Item.isVisible : Item → Bool
  | .field .. | .collection _ | .endCollection | .usage _ | .setGlobal .usagePage _ => true
  | _ => false

/-- The record is about this token. -/
inductive Token.Shows (t : Token) : Record → Prop
  | usagePage {page : UsagePage} (h : t.item = .setGlobal .usagePage page) :
    t.Shows (.usagePage page)
  | usage {u : LocalUsage} (h : t.item = .usage u) : t.Shows (.usage u)
  | collection {kind : Collection} (h : t.item = .collection kind) : t.Shows (.collection kind)
  | endCollection (h : t.item = .endCollection) : t.Shows .endCollection
  | field {f : FieldRecord} (h : t.item = .field f.direction f.flags)
    (hoffset : f.offset = t.offset) : t.Shows (.field f)

/-- Where the item of the record stands, as far as the record tells. -/
def Record.offset? : Record → Option Nat
  | .field f => some f.offset
  | _ => none

/-! ## Runs -/

namespace Context

variable {c d : Context} {t : Token} {ts : List Token} {records : List Record}

/-- **One step**: a token that is taken has its record, or none if it is not visible. -/
theorem shows_of_feed {record : Option Record} (h : c.feed t = .ok (d, record)) :
    (t.item.isVisible = true ∧ ∃ r, record = some r ∧ t.Shows r) ∨
      (t.item.isVisible = false ∧ record = none) := by
  unfold feed at h
  cases hitem : t.item with
  | field direction flags =>
      rw [hitem] at h
      cases h
      exact .inl ⟨rfl, _, rfl, .field hitem rfl⟩
  | collection kind =>
      rw [hitem] at h
      cases h
      exact .inl ⟨rfl, _, rfl, .collection hitem⟩
  | endCollection =>
      rw [hitem] at h
      obtain ⟨kind, outer, -, -, rfl⟩ := feedItem_endCollection_eq_ok h
      exact .inl ⟨rfl, _, rfl, .endCollection hitem⟩
  | usage u =>
      rw [hitem] at h
      cases h
      exact .inl ⟨rfl, _, rfl, .usage hitem⟩
  | setGlobal r w =>
      rw [hitem] at h
      cases h
      cases r with
      | usagePage => exact .inl ⟨rfl, _, rfl, .usagePage hitem⟩
      | _ => exact .inr ⟨rfl, rfl⟩
  | pop =>
      rw [hitem] at h
      obtain ⟨globals, saved, -, -, rfl⟩ := feedItem_pop_eq_ok h
      exact .inr ⟨rfl, rfl⟩
  | push | setLocal | reserved =>
      rw [hitem] at h
      cases h
      exact .inr ⟨rfl, rfl⟩

/-- **A run** that takes all tokens has one record for each visible token, in their order. -/
theorem shows_of_run (h : c.run ts = ⟨records, .ok d⟩) :
    List.Forall₂ Token.Shows (ts.filter (·.item.isVisible)) records := by
  induction ts generalizing c records with
  | nil =>
      cases h
      exact .nil
  | cons t ts ih =>
      obtain ⟨e, record, records, hfeed, hrun, rfl⟩ := run_cons_eq_ok h
      have hrest := ih hrun
      rcases shows_of_feed hfeed with ⟨hvisible, r, rfl, hshows⟩ | ⟨hhidden, rfl⟩
      · rw [List.filter_cons, if_pos hvisible]
        exact .cons hshows hrest
      · rw [List.filter_cons, if_neg (by rw [hhidden]; decide)]
        exact hrest

end Context

/-! ## From the records to the tokens -/

variable {ts : List Token} {records : List Record}

theorem token_of_mem (h : List.Forall₂ Token.Shows ts records) {r : Record} (hr : r ∈ records) :
    ∃ t ∈ ts, t.Shows r := by
  induction h with
  | nil => cases hr
  | cons hshows _ ih =>
      rcases List.mem_cons.mp hr with rfl | hr
      · exact ⟨_, List.mem_cons_self, hshows⟩
      · obtain ⟨t, ht, hrest⟩ := ih hr
        exact ⟨t, List.mem_cons_of_mem _ ht, hrest⟩

/-- The offsets in the records are offsets of the tokens, in the same order. -/
theorem offsets_sublist (h : List.Forall₂ Token.Shows ts records) :
    (records.filterMap (·.offset?)).Sublist (ts.map (·.offset)) := by
  induction h with
  | nil => exact .slnil
  | @cons t r ts records hshows _ ih =>
      cases hshows with
      | field _ hoffset =>
          rw [List.map_cons, ← hoffset]
          exact ih.cons_cons _
      | _ => exact ih.cons _

/-! ## From the tokens to the bytes -/

/-- The bytes at the offset of an item are its own. -/
theorem bytes_of_mem_items {bytes : List UInt8} {t : Token}
    (ht : t ∈ (Tokens.ofBytes bytes).items) :
    t.WellSized ∧ ∃ more, bytes.drop t.offset = t.header :: (t.data ++ more) := by
  have hsplits := Tokens.splits_ofBytes bytes
  exact ⟨hsplits.wellSized t ht, hsplits.drop_offset ht⟩

/-- The flags of a field are the number that its data stand for. -/
theorem flags_of_item {t : Token} {direction : Direction} {flags : Flags} (hsized : t.WellSized)
    (h : t.item = .field direction flags) :
    t.code = direction.code ∧ flags.bits.toNat = LittleEndian.toNat t.data := by
  have hcode : t.code = direction.code := by
    have := t.hasCode_item
    rwa [h] at this
  have hread := ShortItem.item_of_fieldCode hcode
  rw [h] at hread
  cases hread
  exact ⟨hcode, UInt32.toNat_ofNat_of_lt' hsized.toNat_value_lt⟩

/-- **The records of a descriptor, item by item.** Of the items in front of the fault, each Usage
Page, each Usage and each Main item has one record, in the order of the items, and there are no
other records. A field record tells where its item begins, namely at a header byte of its own
direction, whose data are its flags; and these offsets increase from record to record. -/
theorem records_decode_visible (bytes : List UInt8) :
    List.Forall₂ Token.Shows ((itemsDecoded bytes).filter (·.item.isVisible))
        (decode bytes).records ∧
      (∀ f, .field f ∈ (decode bytes).records → ∃ header data more,
        bytes.drop f.offset = header :: (data ++ more) ∧ data.length = announcedLength header ∧
          header &&& 0xfc = f.direction.code ∧
          f.flags.bits.toNat = LittleEndian.toNat data) ∧
      ((decode bytes).records.filterMap (·.offset?)).Pairwise (· < ·) := by
  obtain ⟨d, hrun⟩ := run_itemsDecoded bytes
  have hshows := Context.shows_of_run hrun
  have hsublist : ((itemsDecoded bytes).filter (·.item.isVisible)).Sublist
      (Tokens.ofBytes bytes).items :=
    (List.filter_sublist).trans List.filter_sublist
  refine ⟨hshows, ?_, ?_⟩
  · intro f hf
    obtain ⟨t, ht, hfield⟩ := token_of_mem hshows hf
    cases hfield with
    | field hitem hoffset =>
        obtain ⟨hsized, more, hdrop⟩ := bytes_of_mem_items (hsublist.subset ht)
        obtain ⟨hcode, hflags⟩ := flags_of_item hsized hitem
        refine ⟨t.header, t.data, more, ?_, hsized, hcode, hflags⟩
        rw [hoffset, hdrop]
  · have hincrease := (Tokens.pairwise_offset_lt 0 bytes).2
    exact (List.pairwise_map.mpr (hincrease.sublist hsublist)).sublist (offsets_sublist hshows)

/-- A collection that is closed once too often: four items have records, the Report Size and the
last item have none. The flags of the field take two bytes. -/
theorem records_decode_visible_closedTwice :
    ∃ bytes f, (decode bytes).fault = some ⟨10, .endWithoutCollection⟩ ∧
      (decode bytes).records = [.usagePage 1, .collection ⟨1⟩, .field f, .endCollection] ∧
      f.offset = 6 ∧ f.flags = ⟨0x0102⟩ ∧
      List.Forall₂ Token.Shows ((itemsDecoded bytes).filter (·.item.isVisible))
        (decode bytes).records ∧
      ∃ header data more, bytes.drop f.offset = header :: (data ++ more) ∧
        data.length = announcedLength header ∧ header &&& 0xfc = f.direction.code ∧
        f.flags.bits.toNat = LittleEndian.toNat data := by
  let bytes : List UInt8 := [0x05, 0x01, 0xa1, 0x01, 0x75, 0x08, 0x82, 0x02, 0x01, 0xc0, 0xc0]
  let f : FieldRecord := {
    offset := 6
    direction := .input
    flags := ⟨0x0102⟩
    globals := { usagePage := some 1, reportSize := some 8 }
    locals := {}
    collections := [⟨1⟩] }
  have hrecords : (decode bytes).records =
      [.usagePage 1, .collection ⟨1⟩, .field f, .endCollection] := by decide +kernel
  obtain ⟨hshows, hbegins, -⟩ := records_decode_visible bytes
  exact ⟨bytes, f, by decide +kernel, hrecords, rfl, rfl, hshows,
    hbegins f (by rw [hrecords]; simp)⟩

end HidDescriptor
