import HidDescriptor.Proofs.ItemTable
import HidDescriptor.Proofs.Relocation
import HidDescriptor.Proofs.TopLevel

/-! # Reserved items are passed over

An item without a meaning may be put in anywhere between two items. What stands behind it moves up to
make room (`makeRoom`), and that is all: a context takes the item as it takes no item at all
(`Context.run_insert`), and so the records, the fault, the layout and the top-level usage are as they
were, in their new places (`decode_insert_reserved`). -/

namespace HidDescriptor

/-- Where an offset comes to if so many bytes are put in at `start`. -/
def makeRoom (start length offset : Nat) : Nat :=
  if start ≤ offset then offset + length else offset

theorem makeRoom_of_lt {start length offset : Nat} (h : offset < start) :
    makeRoom start length offset = offset := if_neg (by omega)

theorem makeRoom_add (start length n : Nat) : makeRoom start length (start + n) = start + n + length :=
  if_pos (by omega)

/-! ## One item more -/

variable {before : List UInt8} {x : ShortItem}

/-- With an item put in, the tokens are the same, in their new places, but for the item itself. -/
theorem Tokens.ofBytes_insert (hbefore : (Tokens.ofBytes before).fault = none) (hx : x.WellSized)
    (after : List UInt8) :
    ∃ front back fault, Tokens.ofBytes (before ++ after) = ⟨front ++ back, fault⟩ ∧
      Tokens.ofBytes (before ++ x.bytes ++ after) =
        ⟨front.map (·.relocate (makeRoom before.length x.size)) ++
            ⟨x, before.length⟩ :: back.map (·.relocate (makeRoom before.length x.size)),
          fault.map (·.relocate (makeRoom before.length x.size))⟩ := by
  refine ⟨(ofBytes before).items, (ofBytesAt before.length after).items,
    (ofBytesAt before.length after).fault, ofBytes_append_of_whole hbefore after, ?_⟩
  -- what stands before the item stays in its place
  have hfront : (ofBytes before).items.map (·.relocate (makeRoom before.length x.size)) =
      (ofBytes before).items := by
    conv => rhs; rw [← List.map_id (ofBytes before).items]
    apply List.map_congr_left
    intro t ht
    have hlt := offset_lt_of_whole hbefore ht
    show Token.mk t.toShortItem (makeRoom _ _ t.offset) = t
    rw [makeRoom_of_lt hlt]
  -- and what stands behind it is read from an offset that is larger by its size
  have hroom : makeRoom before.length x.size before.length = before.length + x.size :=
    makeRoom_add before.length x.size 0
  have hback : ofBytesAt (before.length + x.size) after =
      (ofBytesAt before.length after).relocate (makeRoom before.length x.size) := by
    rw [← hroom]
    apply ofBytesAt_relocate
    intro n
    rw [makeRoom_add, hroom]
    omega
  rw [List.append_assoc, ofBytes_append_of_whole hbefore, ofBytesAt_append hx, hback, hfront]
  rfl

/-- A run does not see an item that has no meaning. -/
theorem Context.run_insert {t : Token} {place : Reserved} (ht : t.item = .reserved place)
    (c : Context) (ts us : List Token) : c.run (ts ++ t :: us) = c.run (ts ++ us) := by
  cases houtcome : (c.run ts).outcome with
  | error fault => rw [run_append_of_error houtcome, run_append_of_error houtcome]
  | ok d =>
      have hfeed : d.feed t = .ok (d, none) := by
        rw [feed, ht]
        rfl
      rw [run_append_of_ok houtcome, run_append_of_ok houtcome, run_of_ok hfeed]
      rfl

/-! ## A reserved item more -/

variable {place : Reserved}

/-- A reserved item makes room for itself, and has no part in the run. -/
theorem run_insert_reserved (hbefore : (Tokens.ofBytes before).fault = none) (hx : x.WellSized)
    (hplace : x.item = .reserved place) (after : List UInt8) :
    Context.run {} (Tokens.ofBytes (before ++ x.bytes ++ after)).items =
        (Context.run {} (Tokens.ofBytes (before ++ after)).items).relocate
          (makeRoom before.length x.size) ∧
      (Tokens.ofBytes (before ++ x.bytes ++ after)).fault =
        (Tokens.ofBytes (before ++ after)).fault.map
          (·.relocate (makeRoom before.length x.size)) := by
  obtain ⟨front, back, fault, hplain, hmore⟩ := Tokens.ofBytes_insert hbefore hx after
  rw [hplain, hmore]
  refine ⟨?_, rfl⟩
  rw [Context.run_insert hplace, ← List.map_append, Context.run_relocate]

/-- The records behind the item tell other places, and nothing else is new. -/
theorem records_insert_reserved (hbefore : (Tokens.ofBytes before).fault = none)
    (hx : x.WellSized) (hplace : x.item = .reserved place) (after : List UInt8) :
    (decode (before ++ x.bytes ++ after)).records =
      (decode (before ++ after)).records.map (·.relocate (makeRoom before.length x.size)) := by
  rw [records_decode, records_decode, (run_insert_reserved hbefore hx hplace after).1]
  rfl

theorem fault_insert_reserved (hbefore : (Tokens.ofBytes before).fault = none)
    (hx : x.WellSized) (hplace : x.item = .reserved place) (after : List UInt8) :
    (decode (before ++ x.bytes ++ after)).fault =
      (decode (before ++ after)).fault.map (·.relocate (makeRoom before.length x.size)) := by
  obtain ⟨hrun, hcut⟩ := run_insert_reserved hbefore hx hplace after
  rw [fault_decode, fault_decode, hrun, hcut]
  generalize Context.run {} (Tokens.ofBytes (before ++ after)).items = run
  obtain ⟨records, outcome⟩ := run
  cases outcome <;> rfl

/-- There is the same layout, or a fault that has been moved. -/
theorem Layout.ofBytes_insert_reserved (hbefore : (Tokens.ofBytes before).fault = none)
    (hx : x.WellSized) (hplace : x.item = .reserved place) (after : List UInt8) :
    Layout.ofBytes (before ++ x.bytes ++ after) =
      (Layout.ofBytes (before ++ after)).mapError
        (·.relocate (makeRoom before.length x.size)) := by
  have hwhole : (decode (before ++ x.bytes ++ after)).whole =
      ((decode (before ++ after)).whole.map
        (List.map (·.relocate (makeRoom before.length x.size)))).mapError
          (·.relocate (makeRoom before.length x.size)) := by
    rw [Decoded.whole, Decoded.whole, fault_insert_reserved hbefore hx hplace,
      records_insert_reserved hbefore hx hplace]
    cases (decode (before ++ after)).fault <;> rfl
  rw [ofBytes, ofBytes, hwhole, mapError_bind]
  cases (decode (before ++ after)).whole with
  | error fault => rfl
  | ok records => exact ofRecords_relocate records

/-- The search does not look at a reserved item. -/
theorem topLevelUsage?_insert_reserved (hbefore : (Tokens.ofBytes before).fault = none)
    (hx : x.WellSized) (hplace : x.item = .reserved place) (after : List UInt8) :
    topLevelUsage? (before ++ x.bytes ++ after) = topLevelUsage? (before ++ after) := by
  obtain ⟨front, back, fault, hplain, hmore⟩ := Tokens.ofBytes_insert hbefore hx after
  have hitems (ts : List Token) :
      (ts.map (·.relocate (makeRoom before.length x.size))).map (·.item) = ts.map (·.item) := by
    rw [List.map_map]
    rfl
  -- the search looks at the items alone, and a reserved one leaves what is in sight as it is
  rw [topLevelUsage?_eq_foldl, topLevelUsage?_eq_foldl, hplain, hmore, List.map_append,
    List.map_append, List.map_cons, hitems, hitems, List.foldl_append, List.foldl_append,
    List.foldl_cons]
  show ((back.map (·.item)).foldl Sighting.see (Sighting.see _ x.item)).usage? = _
  rw [hplace]
  rfl

/-- **Reserved items change nothing.** A reserved item of any kind, with any data, may be put in
behind whole items. Decoding gives the records and the fault that it gave without the item; those at
the place of the item or behind it have moved up by its size. The layout is the same, or the fault
is the same that there was in place of one; and so is the top-level usage. No context is changed by
the item, the local registers that wait for their Main item included. -/
theorem decode_insert_reserved (hbefore : (Tokens.ofBytes before).fault = none)
    (hx : x.WellSized) (hcode : x.code ∈ Reserved.codes) (after : List UInt8) :
    (decode (before ++ x.bytes ++ after)).records =
        (decode (before ++ after)).records.map (·.relocate (makeRoom before.length x.size)) ∧
      (decode (before ++ x.bytes ++ after)).fault =
        (decode (before ++ after)).fault.map (·.relocate (makeRoom before.length x.size)) ∧
      Layout.ofBytes (before ++ x.bytes ++ after) =
        (Layout.ofBytes (before ++ after)).mapError
          (·.relocate (makeRoom before.length x.size)) ∧
      topLevelUsage? (before ++ x.bytes ++ after) = topLevelUsage? (before ++ after) ∧
      ∀ (c : Context) (offset : Nat), c.feed ⟨x, offset⟩ = .ok (c, none) := by
  obtain ⟨place, hplace⟩ := ShortItem.item_of_mem_codes hcode
  refine ⟨records_insert_reserved hbefore hx hplace after,
    fault_insert_reserved hbefore hx hplace after,
    Layout.ofBytes_insert_reserved hbefore hx hplace after,
    topLevelUsage?_insert_reserved hbefore hx hplace after, ?_⟩
  intro c offset
  show c.feedItem offset x.item = .ok (c, none)
  rw [hplace]
  rfl

/-- A reserved Main tag between a usage and the field that it belongs to. The field keeps its usage,
and the Pop too many behind it is found two bytes later. -/
theorem decode_insert_reserved_mainTag :
    ∃ (before : List UInt8) (x : ShortItem) (after : List UInt8) (r : Report),
      (Tokens.ofBytes before).fault = none ∧ x.WellSized ∧
      x.code ∈ Reserved.mainCodes ∧
      Layout.ofBytes (before ++ x.bytes ++ [0x81, 0x02]) = .ok ⟨[r]⟩ ∧
      r.fields = #[⟨⟨0, 7⟩, ⟨.input, none⟩,
        .variableOf ⟨1, 0x30⟩ ⟨⟨0, 127⟩, none, none, none, []⟩⟩] ∧
      (decode (before ++ after)).fault = some ⟨14, .popWithoutPush⟩ ∧
      (decode (before ++ x.bytes ++ after)).fault = some ⟨16, .popWithoutPush⟩ ∧
      (decode (before ++ x.bytes ++ after)).records =
        (decode (before ++ after)).records.map (·.relocate (makeRoom before.length x.size)) ∧
      topLevelUsage? (before ++ x.bytes ++ after) = topLevelUsage? (before ++ after) := by
  let before : List UInt8 :=
    [0x05, 0x01, 0x75, 0x08, 0x95, 0x01, 0x15, 0x00, 0x25, 0x7f, 0x09, 0x30]
  let x : ShortItem := ⟨0xd1, [0x2a]⟩
  have hbefore : (Tokens.ofBytes before).fault = none := by decide +kernel
  have hsized : x.WellSized := by decide
  have hcode : x.code ∈ Reserved.codes := by decide +kernel
  have hlayout : Layout.ofBytes (before ++ [0x81, 0x02]) = .ok ⟨[⟨⟨.input, none⟩, 8,
      #[⟨⟨0, 7⟩, ⟨.input, none⟩,
        .variableOf ⟨1, 0x30⟩ ⟨⟨0, 127⟩, none, none, none, []⟩⟩]⟩]⟩ := by
    decide +kernel
  have hfault : (decode (before ++ [0x81, 0x02, 0xb4])).fault = some ⟨14, .popWithoutPush⟩ := by
    decide +kernel
  obtain ⟨-, -, hinsert, -, -⟩ := decode_insert_reserved hbefore hsized hcode [0x81, 0x02]
  rw [hlayout] at hinsert
  obtain ⟨hrecords, hmoved, -, htop, -⟩ :=
    decode_insert_reserved hbefore hsized hcode [0x81, 0x02, 0xb4]
  rw [hfault] at hmoved
  exact ⟨before, x, _, _, hbefore, hsized, by decide +kernel, hinsert, rfl, hfault, hmoved, hrecords,
    htop⟩

end HidDescriptor
