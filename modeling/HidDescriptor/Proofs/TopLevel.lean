import HidDescriptor.Proofs.Acceptance
import HidDescriptor.TopLevel

/-! # The top-level usage and the records

`topLevelUsage?` finds the first usage without decoding, and `Record.firstUsage?` looks it up among
the records that decoding gives. The two agree as long as decoding reaches the usage
(`topLevelUsage?_agrees`).

Both are compared with one fold that does not stop. The search may stop where it does, as a sighting
that is complete does not change any more (`see_of_usage?`); the records may take the place of the
items, as a record shows whatever the search looks at (`see_of_feedItem`). -/

namespace HidDescriptor

/-! ## The first usage of records -/

namespace Record

def page? : Record → Option UsagePage
  | .usagePage page => some page
  | _ => none

def usage? : Record → Option LocalUsage
  | .usage u => some u
  | _ => none

/-- The first usage among the records. Its page is the first one that was set before it, else its
own, else the first one that is set after it. -/
def firstUsage? (records : List Record) : Option Usage :=
  let before := records.takeWhile (·.usage?.isNone)
  match records.dropWhile (·.usage?.isNone) with
  | .usage u :: after =>
    (before.findSome? page? <|> u.page <|> after.findSome? page?).map fun page => ⟨page, u.id⟩
  | _ => none

end Record

/-! ## A search that does not stop -/

namespace Sighting

/-- Takes note of a record, as `see` does of its item. -/
def seeRecord (s : Sighting) : Record → Sighting
  | .usagePage page => { s with page := s.page <|> some page }
  | .usage u =>
    match s.id with
    | some _ => s
    | none => { page := s.page <|> u.page, id := some u.id }
  | _ => s

variable {s : Sighting}

/-- What is complete stays as it is. -/
theorem see_of_usage? {u : Usage} (h : s.usage? = some u) (x : Item) : s.see x = s := by
  obtain ⟨page, id⟩ := s
  cases page with
  | none => cases h
  | some page =>
  cases id with
  | none => cases h
  | some id => cases x <;> rfl

/-- A usage that has been found stands. -/
theorem foldl_see_of_usage? {u : Usage} (h : s.usage? = some u) (xs : List Item) :
    xs.foldl see s = s := by
  induction xs with
  | nil => rfl
  | cons x xs ih => rw [List.foldl_cons, see_of_usage? h, ih]

/-- The record of an item shows all that the search looks at. -/
theorem see_of_feedItem {c d : Context} {offset : Nat} {x : Item} {record : Option Record}
    (h : c.feedItem offset x = .ok (d, record)) :
    s.see x = record.toList.foldl seeRecord s := by
  cases x with
  | setGlobal r w =>
      cases h
      cases hpage : r.assignedPage? w with
      | none => simp [see, hpage]
      | some page => simp [see, seeRecord, hpage]
  | endCollection =>
      obtain ⟨kind, outer, -, -, rfl⟩ := Context.feedItem_endCollection_eq_ok h
      rfl
  | pop =>
      obtain ⟨globals, saved, -, -, rfl⟩ := Context.feedItem_pop_eq_ok h
      rfl
  | _ =>
      cases h
      rfl

/-- A run is seen through its records: they show what there is to see in the tokens that were
taken. -/
theorem foldl_seeRecord_run (s : Sighting) (c : Context) (ts : List Token) :
    ∃ taken rest, ts = taken ++ rest ∧
      (c.run ts).records.foldl seeRecord s = (taken.map (·.item)).foldl see s ∧
      ∀ d, (c.run ts).outcome = .ok d → rest = [] := by
  induction ts generalizing s c with
  | nil => exact ⟨[], [], rfl, rfl, fun _ _ => rfl⟩
  | cons t ts ih =>
      cases hfeed : c.feed t with
      | error fault =>
          rw [Context.run_of_error hfeed]
          refine ⟨[], t :: ts, rfl, rfl, ?_⟩
          intro d hok
          cases hok
      | ok taken =>
          obtain ⟨d, record⟩ := taken
          rw [Context.run_of_ok hfeed]
          obtain ⟨taken, rest, rfl, hfold, hrest⟩ := ih (s.see t.item) d
          refine ⟨t :: taken, rest, rfl, ?_, hrest⟩
          rw [List.foldl_append, ← see_of_feedItem hfeed, hfold]
          rfl

/-- A record of no usage that counts adds a page at most. -/
theorem seeRecord_page {r : Record} (h : s.id.isSome = true ∨ r.usage? = none) :
    s.seeRecord r = { s with page := s.page <|> r.page? } := by
  obtain ⟨page, id⟩ := s
  cases r with
  | usagePage page' => rfl
  | usage u =>
      cases id with
      | none => simp [Record.usage?] at h
      | some id => cases page <;> rfl
  | _ => cases page <;> rfl

/-- With the id known, or none in sight, the first page is all that is still looked for. -/
theorem foldl_seeRecord_pages {records : List Record}
    (h : s.id.isSome = true ∨ ∀ r ∈ records, r.usage? = none) :
    records.foldl seeRecord s = { s with page := s.page <|> records.findSome? Record.page? } := by
  induction records generalizing s with
  | nil => cases s with | mk page id => cases page <;> rfl
  | cons r records ih =>
      have hr : s.id.isSome = true ∨ r.usage? = none := h.imp_right fun h => h r List.mem_cons_self
      have hrest : s.id.isSome = true ∨ ∀ r ∈ records, r.usage? = none :=
        h.imp_right fun h r hr => h r (List.mem_cons_of_mem _ hr)
      rw [List.foldl_cons, seeRecord_page hr, ih (s := ⟨s.page <|> r.page?, s.id⟩) hrest,
        List.findSome?_cons]
      cases s.page <;> cases r.page? <;> rfl

/-- The first usage of the records is what is in sight after all of them. -/
theorem usage?_foldl_seeRecord (records : List Record) :
    (records.foldl seeRecord {}).usage? = Record.firstUsage? records := by
  have hbefore : ∀ r ∈ records.takeWhile (·.usage?.isNone), r.usage? = none := by
    intro r hr
    simpa using List.mem_takeWhile_imp hr
  have hfold : records.foldl seeRecord {} =
      (records.dropWhile (·.usage?.isNone)).foldl seeRecord
        ⟨(records.takeWhile (·.usage?.isNone)).findSome? Record.page?, none⟩ := by
    conv => lhs; rw [← List.takeWhile_append_dropWhile (p := (·.usage?.isNone)) (l := records)]
    rw [List.foldl_append, foldl_seeRecord_pages (.inr hbefore)]
    rfl
  rw [hfold, Record.firstUsage?]
  generalize (records.takeWhile (·.usage?.isNone)).findSome? Record.page? = page
  cases hrest : records.dropWhile (·.usage?.isNone) with
  | nil => cases page <;> rfl
  | cons r after =>
      have hhead := List.head?_dropWhile_not (·.usage?.isNone) records
      rw [hrest] at hhead
      cases r with
      | usage u =>
          obtain ⟨own, id⟩ := u
          show (after.foldl seeRecord ⟨page <|> own, some id⟩).usage? =
            (page <|> own <|> after.findSome? Record.page?).map fun page => ⟨page, id⟩
          rw [foldl_seeRecord_pages (.inl rfl)]
          cases page <;> cases own <;> cases after.findSome? Record.page? <;> rfl
      | _ => simp [Record.usage?] at hhead

end Sighting

/-- It makes no difference that the search stops early. -/
theorem TopLevel.usage_runList (fault : Option Fault) {s : Sighting} (h : s.usage? = none)
    (ts : List Token) :
    (reader.runList fault s ts).usage = ((ts.map (·.item)).foldl Sighting.see s).usage? := by
  induction ts generalizing s with
  | nil => exact h.symm
  | cons t ts ih =>
      rw [Reader.runList, List.map_cons, List.foldl_cons]
      cases hseen : (s.see t.item).usage? with
      | none =>
          simp only [reader, hseen]
          exact ih hseen
      | some u =>
          simp only [reader, hseen, Sighting.foldl_see_of_usage? hseen]

/-- The search takes note of all items, if only they are whole. -/
theorem topLevelUsage?_eq_foldl (bytes : List UInt8) :
    topLevelUsage? bytes =
      (((Tokens.ofBytes bytes).items.map (·.item)).foldl Sighting.see {}).usage? := by
  rw [topLevelUsage?, TopLevel.ofBytes, Reader.run_eq_runTokens]
  exact TopLevel.usage_runList _ rfl _

/-- **The search agrees with decoding.** If the records that were decoded name a first usage, the
search finds it. If decoding was not stopped by a bracket that has no counterpart, the records name
all that the search can find. -/
theorem topLevelUsage?_agrees (bytes : List UInt8) :
    (∀ u, Record.firstUsage? (decode bytes).records = some u → topLevelUsage? bytes = some u) ∧
      (((decode bytes).fault = none ∨ ∃ offset needed available,
          (decode bytes).fault = some ⟨offset, .truncated needed available⟩) →
        topLevelUsage? bytes = Record.firstUsage? (decode bytes).records) := by
  rw [topLevelUsage?_eq_foldl, ← Sighting.usage?_foldl_seeRecord, records_decode]
  obtain ⟨taken, rest, hsplit, hfold, hrest⟩ :=
    Sighting.foldl_seeRecord_run {} {} (Tokens.ofBytes bytes).items
  rw [hfold, hsplit, List.map_append, List.foldl_append]
  constructor
  · intro u hu
    rw [Sighting.foldl_see_of_usage? hu, hu]
  · intro hfault
    obtain ⟨d, hok⟩ := Context.run_of_not_refused hfault
    rw [hrest d hok]
    rfl

/-- The page is set inside of a Push and its Pop, behind the usage, before a Pop too many. And an
extended usage does not supply the page for the usage before it, up to an item that is cut off. -/
theorem topLevelUsage?_agrees_pageBehind :
    (∃ bytes, Record.firstUsage? (decode bytes).records = some ⟨9, 0x30⟩ ∧
      (decode bytes).fault = some ⟨7, .popWithoutPush⟩ ∧
      topLevelUsage? bytes = some ⟨9, 0x30⟩) ∧
    ∃ bytes, (decode bytes).fault = some ⟨7, .truncated 2 0⟩ ∧
      Record.firstUsage? (decode bytes).records = none ∧
      topLevelUsage? bytes = Record.firstUsage? (decode bytes).records := by
  constructor
  · have h : Record.firstUsage?
        (decode [0x0a, 0x30, 0x00, 0xa4, 0x05, 0x09, 0xb4, 0xb4]).records = some ⟨9, 0x30⟩ := by
      decide +kernel
    obtain ⟨hfirst, -⟩ := topLevelUsage?_agrees [0x0a, 0x30, 0x00, 0xa4, 0x05, 0x09, 0xb4, 0xb4]
    exact ⟨_, h, by decide +kernel, hfirst _ h⟩
  · have h : (decode [0x09, 0x02, 0x0b, 0x30, 0x00, 0x01, 0x00, 0x26]).fault =
        some ⟨7, .truncated 2 0⟩ := by
      decide +kernel
    obtain ⟨-, hagree⟩ := topLevelUsage?_agrees [0x09, 0x02, 0x0b, 0x30, 0x00, 0x01, 0x00, 0x26]
    exact ⟨_, h, by decide +kernel, hagree (.inr ⟨7, 2, 0, h⟩)⟩

-- behind a Pop too many the search finds what decoding does not reach
example : topLevelUsage? [0xb4, 0x05, 0x01, 0x09, 0x02] = some ⟨1, 2⟩ ∧
    (decode [0xb4, 0x05, 0x01, 0x09, 0x02]).records = [] := by
  decide +kernel

end HidDescriptor
