import HidDescriptor.Proofs.ItemTable
import HidDescriptor.Proofs.Stopping

/-! # What decoding has to say

Decoding passes over an item without a meaning, and it stops at a fault. Neither goes unsaid. Each
item that was passed over has a message, which can be told from its header byte alone
(`Token.remark?`), and there is one more in the end if decoding was stopped or if collections are
left open, which can be told from what was decoded (`Decoded.closing`). Nothing else is said
(`messages_decode`).

The number of open collections is where the two meet: decoding has it from its stack, and here it is
counted among the records (`length_enclosing_run`). -/

namespace HidDescriptor

structure Message where
  level : Note.Level
  text : String
  deriving DecidableEq, Repr

def Note.message (note : Note) : Message := ⟨note.level, note.text⟩

/-! ## Items that are passed over -/

namespace Token

/-- The message that an item is passed over: where it stands, and a byte that tells which it is. -/
def skipping (t : Token) (wording : String) (byte : UInt8) : Message :=
  ⟨.debug, Hex.text 4 t.offset ++ wording ++ Hex.text 2 byte.toNat⟩

/-- What is said of the item, by its header byte. The codes of the global and of the local type tell
the tag, so the size is left out; the others stand as they are. -/
def remark? (t : Token) : Option Message :=
  if t.code ∈ Reserved.globalCodes then
    some (t.skipping ": skipping reserved global item " t.code)
  else if t.code ∈ Reserved.localCodes then
    some (t.skipping ": skipping reserved local item " t.code)
  else if t.code ∈ Reserved.mainCodes ∨ t.code ∈ Reserved.typeCodes then
    some (t.skipping ": skipping reserved item " t.header)
  else none

/-- There is nothing to note on an item that has a meaning. -/
theorem skipNote?_eq_none {t : Token} (hglobal : t.code ∉ Reserved.globalCodes)
    (hlocal : t.code ∉ Reserved.localCodes)
    (hrest : ¬ (t.code ∈ Reserved.mainCodes ∨ t.code ∈ Reserved.typeCodes)) :
    t.skipNote? = none := by
  have hcode := t.hasCode_item
  cases hitem : t.item with
  | reserved place =>
      rw [hitem] at hcode
      cases place with
      | globalTag code =>
          obtain ⟨hcode, hmem⟩ := hcode
          rw [← hcode] at hmem
          exact absurd hmem hglobal
      | localTag code =>
          obtain ⟨hcode, hmem⟩ := hcode
          rw [← hcode] at hmem
          exact absurd hmem hlocal
      | unassigned => exact absurd hcode hrest
  | _ => rw [skipNote?, hitem]

/-- The items that have a note are those in the reserved places of the item table. -/
theorem map_message_skipNote? (t : Token) : t.skipNote?.map Note.message = t.remark? := by
  unfold remark?
  by_cases hglobal : t.code ∈ Reserved.globalCodes
  · rw [if_pos hglobal, skipNote?, ShortItem.item_of_mem_globalCodes hglobal]
    rfl
  by_cases hlocal : t.code ∈ Reserved.localCodes
  · rw [if_neg hglobal, if_pos hlocal, skipNote?, ShortItem.item_of_mem_localCodes hlocal]
    rfl
  by_cases hrest : t.code ∈ Reserved.mainCodes ∨ t.code ∈ Reserved.typeCodes
  · have hitem : t.item = .reserved .unassigned :=
      hrest.elim ShortItem.item_of_mem_mainCodes ShortItem.item_of_mem_typeCodes
    rw [if_neg hglobal, if_neg hlocal, if_pos hrest, skipNote?, hitem]
    rfl
  · rw [if_neg hglobal, if_neg hlocal, if_neg hrest, skipNote?_eq_none hglobal hlocal hrest]
    rfl

end Token

/-! ## Collections that are left open -/

namespace Record

def opens : Record → Bool
  | .collection _ => true
  | _ => false

def closes : Record → Bool
  | .endCollection => true
  | _ => false

end Record

namespace Context

variable {c d : Context}

/-- As many collections are open as the records have opened beyond those they have closed. -/
theorem length_enclosing_feedItem {offset : Nat} {x : Item} {record : Option Record}
    (h : c.feedItem offset x = .ok (d, record)) :
    d.enclosing.length + record.toList.countP Record.closes =
      c.enclosing.length + record.toList.countP Record.opens := by
  cases x with
  | setGlobal r w =>
      cases h
      cases r <;> rfl
  | endCollection =>
      obtain ⟨kind, outer, hopen, rfl, rfl⟩ := feedItem_endCollection_eq_ok h
      rw [hopen]
      rfl
  | pop =>
      obtain ⟨globals, saved, -, rfl, rfl⟩ := feedItem_pop_eq_ok h
      rfl
  | _ =>
      cases h
      rfl

/-- Every collection that a run has opened was closed by it, or it is still open. -/
theorem length_enclosing_run {ts : List Token} {records : List Record}
    (h : c.run ts = ⟨records, .ok d⟩) :
    d.enclosing.length + records.countP Record.closes =
      c.enclosing.length + records.countP Record.opens := by
  induction ts generalizing c records with
  | nil =>
      cases h
      rfl
  | cons t ts ih =>
      obtain ⟨e, record, records, hfeed, hrun, rfl⟩ := run_cons_eq_ok h
      have hstep := length_enclosing_feedItem hfeed
      have hrest := ih hrun
      rw [List.countP_append, List.countP_append]
      omega

end Context

/-! ## The log -/

namespace Decoded

def unclosed (d : Decoded) : Nat := d.records.countP Record.opens - d.records.countP Record.closes

/-- The last message: why decoding stopped, or else how many collections are open. -/
def closing (d : Decoded) : List Message :=
  match d.fault with
  | some fault =>
    let number := d.records.length
    [⟨.warn, s!"Decoding stopped after {number} records: " ++ fault.message⟩]
  | none =>
    let number := d.unclosed
    if 0 < number then
      [⟨.debug, s!"{number} collection(s) still open at end of report descriptor"⟩]
    else []

end Decoded

/-- There is a note on each item that was passed over, in their order, and then the last word. -/
theorem notes_decode (bytes : List UInt8) :
    ∃ last, (decode bytes).notes = (itemsDecoded bytes).filterMap (·.skipNote?) ++ last ∧
      last.map Note.message = (decode bytes).closing := by
  obtain ⟨d, hrun, hdecode⟩ := decode_itemsDecoded bytes
  have hnotes := congrArg Decoded.notes hdecode
  unfold Decoded.closing
  cases hfault : (decode bytes).fault with
  | some fault =>
      rw [hfault] at hnotes
      refine ⟨[.decodingStopped (decode bytes).records.length fault], ?_, rfl⟩
      rw [hnotes]
      simp [Decoded.Progress.reader, Decoded.Progress.stop, Decoded.Progress.past]
  | none =>
      rw [hfault] at hnotes
      have hopen : (decode bytes).unclosed = d.enclosing.length := by
        have hlength := Context.length_enclosing_run hrun
        rw [List.length_nil, Nat.zero_add] at hlength
        rw [Decoded.unclosed, ← hlength, Nat.add_sub_cancel]
      rw [hopen]
      refine ⟨if d.enclosing.isEmpty then [] else [.collectionsOpen d.enclosing.length], ?_, ?_⟩
      · rw [hnotes]
        simp [Decoded.Progress.reader, Decoded.Progress.complete, Decoded.Progress.past]
      · cases d.enclosing <;> rfl

/-- **All that is said, and nothing else.** Of the items in front of the fault, or of all if there is
none, those in the reserved places of the item table are named one after the other. Then it is said
why decoding stopped and after how many records; or, if it did not stop and if the records open more
collections than they close, how many are open. -/
theorem messages_decode (bytes : List UInt8) :
    (decode bytes).notes.map Note.message =
      (itemsDecoded bytes).filterMap (·.remark?) ++ (decode bytes).closing := by
  obtain ⟨last, hnotes, hlast⟩ := notes_decode bytes
  rw [hnotes, List.map_append, hlast, List.map_filterMap]
  congr 2
  funext t
  exact t.map_message_skipNote?

-- a reserved item behind a Pop too many is not reached, and the collection in front of it is not
-- said to be open
example : (decode [0xc5, 0x00, 0xa1, 0x01, 0xf2, 0x00, 0x00, 0xb4, 0x0c]).notes.map Note.message =
    [⟨.debug, "0x0000: skipping reserved global item 0xc4"⟩,
      ⟨.debug, "0x0004: skipping reserved item 0xf2"⟩,
      ⟨.warn, "Decoding stopped after 1 records: Pop without a matching Push at offset 7"⟩] := by
  decide +kernel

end HidDescriptor
