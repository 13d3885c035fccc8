import HidDescriptor.Proofs.Decoding

/-! # Where decoding stops

Decoding stops at the first fault and keeps the records before it. Everything about this comes from
one picture (`decode_parts`): the items of the descriptor are parted in two, `before ++ after`; a
fresh context takes `before` and makes the records of it; and if there is a fault, it is where
`after` begins.

So bytes that come later do not change what has been decoded, and a descriptor that is cut where the
fault is has the same records and no fault (`decode_stable`). -/

namespace HidDescriptor

variable {bytes : List UInt8} {fault : Fault}

/-! ## The items in front of the fault -/

/-- The items in front of the fault, or all items if there is none. -/
def itemsDecoded (bytes : List UInt8) : List Token :=
  (Tokens.ofBytes bytes).items.filter fun t => (decode bytes).fault.all (t.offset < ·.offset)

/-- How far decoding has come when it has taken the items. -/
abbrev Decoded.behind (bytes : List UInt8) (taken : List Token) (d : Context) : Decoded.Progress :=
  Decoded.Progress.past {} taken (decode bytes).records d

/-- **The picture of decoding.** -/
theorem decode_parts (bytes : List UInt8) :
    ∃ before after d, (Tokens.ofBytes bytes).items = before ++ after ∧
      Context.run {} before = ⟨(decode bytes).records, .ok d⟩ ∧
      decode bytes =
        Decoded.Progress.reader.finish (Decoded.behind bytes before d) (decode bytes).fault ∧
      (((decode bytes).fault = none ∧ after = []) ∨
        ∃ fault, (decode bytes).fault = some fault ∧
          fault.offset = (Tokens.bytes before).length ∧ fault.offset < bytes.length) := by
  have hsplits := Tokens.splits_ofBytes bytes
  unfold Decoded.behind
  rw [fault_decode, records_decode, decode_eq_runList]
  rcases Decoded.Progress.runList_eq_past (Tokens.ofBytes bytes).fault {}
      (Tokens.ofBytes bytes).items with
    ⟨d, hrun, hlist⟩ | ⟨taken, t, rest, d, refused, hitems, houtcome, hrun, hfeed, hlist⟩
  · -- all items are taken, and only an item that is cut off can be behind them
    have houtcome : (Context.run {} (Tokens.ofBytes bytes).items).outcome = .ok d :=
      congrArg Run.outcome hrun
    rw [houtcome]
    refine ⟨(Tokens.ofBytes bytes).items, [], d, (List.append_nil _).symm, hrun, hlist, ?_⟩
    cases hfault : (Tokens.ofBytes bytes).fault with
    | none => exact .inl ⟨rfl, rfl⟩
    | some fault =>
        right
        refine ⟨fault, rfl, ?_, (hsplits.offset_fault hfault).1⟩
        rw [hsplits.offset_cut hfault, Nat.zero_add]
  · have houtcome : (Context.run {} (Tokens.ofBytes bytes).items).outcome = .error refused :=
      houtcome
    rw [houtcome]
    refine ⟨taken, t :: rest, d, hitems, hrun, hlist, .inr ⟨refused, rfl, ?_, ?_⟩⟩
    · rw [Context.offset_of_feed_error hfeed, hsplits.offset_of_append hitems, Nat.zero_add]
    · have ht : t ∈ (Tokens.ofBytes bytes).items := by
        rw [hitems]
        exact List.mem_append_right _ List.mem_cons_self
      obtain ⟨more, hdrop⟩ := hsplits.drop_offset ht
      have hlen := congrArg List.length hdrop
      rw [List.length_drop, List.length_append, ShortItem.length_bytes] at hlen
      have hsize := t.size_pos
      rw [Context.offset_of_feed_error hfeed]
      omega

/-- Without a fault all items have been decoded. -/
theorem itemsDecoded_of_none (h : (decode bytes).fault = none) :
    itemsDecoded bytes = (Tokens.ofBytes bytes).items := by
  unfold itemsDecoded
  rw [h]
  apply List.filter_eq_self.mpr
  intro t _
  rfl

/-- The items that have been decoded are told by the offset of the fault. -/
theorem itemsDecoded_of_parts {before after : List Token}
    (hitems : (Tokens.ofBytes bytes).items = before ++ after)
    (hfault : (decode bytes).fault = some fault)
    (hoffset : fault.offset = (Tokens.bytes before).length) : itemsDecoded bytes = before := by
  have hsplits := Tokens.splits_ofBytes bytes
  obtain ⟨hbefore, hafter⟩ := hsplits.offset_of_parts hitems
  rw [Nat.zero_add, ← hoffset] at hbefore hafter
  unfold itemsDecoded
  rw [hfault, hitems, List.filter_append, List.filter_eq_self.mpr, List.filter_eq_nil_iff.mpr,
    List.append_nil]
  · intro t ht
    simpa using hafter t ht
  · intro t ht
    simpa using hbefore t ht

/-- The records are those of the items in front of the fault, all of which are taken. Behind them
decoding ends. -/
theorem decode_itemsDecoded (bytes : List UInt8) :
    ∃ d, Context.run {} (itemsDecoded bytes) = ⟨(decode bytes).records, .ok d⟩ ∧
      decode bytes = Decoded.Progress.reader.finish (Decoded.behind bytes (itemsDecoded bytes) d)
        (decode bytes).fault := by
  obtain ⟨before, after, d, hitems, hrun, hdecode, hend⟩ := decode_parts bytes
  have hbefore : itemsDecoded bytes = before := by
    rcases hend with ⟨hnone, rfl⟩ | ⟨fault, hfault, hoffset, -⟩
    · rw [itemsDecoded_of_none hnone, hitems, List.append_nil]
    · exact itemsDecoded_of_parts hitems hfault hoffset
  rw [hbefore]
  exact ⟨d, hrun, hdecode⟩

/-- The items in front of the fault go through, and all records are theirs. -/
theorem run_itemsDecoded (bytes : List UInt8) :
    ∃ d, Context.run {} (itemsDecoded bytes) = ⟨(decode bytes).records, .ok d⟩ := by
  obtain ⟨d, hrun, -⟩ := decode_itemsDecoded bytes
  exact ⟨d, hrun⟩

/-! ## More bytes -/

/-- More bytes can only add records. -/
theorem prefix_records_decode (bytes more : List UInt8) :
    (decode bytes).records <+: (decode (bytes ++ more)).records := by
  obtain ⟨rest, hrest⟩ := Tokens.prefix_items 0 bytes more
  rw [records_decode, records_decode]
  show (Context.run {} (Tokens.ofBytesAt 0 bytes).items).records <+:
    (Context.run {} (Tokens.ofBytesAt 0 (bytes ++ more)).items).records
  rw [← hrest]
  exact Context.prefix_records_run _ _ _

/-- A reader that has been stopped by the context does not see what comes behind. -/
theorem Decoded.Progress.runList_of_refused {p : Progress} {ts : List Token}
    (h : (p.context.run ts).outcome = .error fault) (cut cut' : Option Fault) (more : List Token) :
    reader.runList cut' p (ts ++ more) = reader.runList cut p ts := by
  obtain ⟨taken, t, rest, d, rfl, hrun, hfeed⟩ := Context.exists_refused h
  rw [List.append_assoc, List.cons_append, runList_append_of_ok hrun, runList_append_of_ok hrun,
    runList_of_feed_error hfeed, runList_of_feed_error hfeed]

/-- A bracket without its counterpart is a refusal. Reading alone makes no such fault. -/
theorem outcome_of_bracket (h : (decode bytes).fault = some fault)
    (hcause : fault.cause = .popWithoutPush ∨ fault.cause = .endWithoutCollection) :
    (Context.run {} (Tokens.ofBytes bytes).items).outcome = .error fault := by
  rw [fault_decode] at h
  cases houtcome : (Context.run {} (Tokens.ofBytes bytes).items).outcome with
  | error refused =>
      rw [houtcome] at h
      cases h
      rfl
  | ok d =>
      rw [houtcome] at h
      obtain ⟨header, rest, -, -, rfl⟩ := (Tokens.splits_ofBytes bytes).cut fault h
      rcases hcause with hcause | hcause <;> cases hcause

/-- What stands behind a bracket without its counterpart is not looked at. -/
theorem decode_append_of_bracket (h : (decode bytes).fault = some fault)
    (hcause : fault.cause = .popWithoutPush ∨ fault.cause = .endWithoutCollection)
    (more : List UInt8) : decode (bytes ++ more) = decode bytes := by
  obtain ⟨rest, hrest⟩ := Tokens.prefix_items 0 bytes more
  have hrefused := outcome_of_bracket h hcause
  rw [decode_eq_runList, decode_eq_runList, Tokens.ofBytes, Tokens.ofBytes, ← hrest]
  exact Decoded.Progress.runList_of_refused hrefused _ _ rest

/-! ## Fewer bytes -/

/-- Cut where the fault is, the descriptor has the items in front of the fault and no others. -/
theorem ofBytes_take_fault (h : (decode bytes).fault = some fault) :
    fault.offset < bytes.length ∧
      Tokens.ofBytes (bytes.take fault.offset) = ⟨itemsDecoded bytes, none⟩ := by
  obtain ⟨before, after, d, hitems, -, -, ⟨hnone, -⟩ | ⟨fault', hfault, hoffset, hlt⟩⟩ :=
    decode_parts bytes
  · rw [hnone] at h
    cases h
  · rw [hfault] at h
    cases h
    refine ⟨hlt, ?_⟩
    have hbefore : before <+: (Tokens.ofBytesAt 0 bytes).items := ⟨after, hitems.symm⟩
    have hsplits := Tokens.splits_ofBytes bytes
    have htake := List.prefix_iff_eq_take.mp (hsplits.prefix_bytes_of_append hitems)
    rw [hoffset, ← htake, itemsDecoded_of_parts hitems hfault hoffset]
    exact Tokens.ofBytesAt_bytes hbefore

/-- The items in front of the fault are a descriptor of their own. -/
theorem decode_take_fault (h : (decode bytes).fault = some fault) :
    (decode (bytes.take fault.offset)).fault = none ∧
      (decode (bytes.take fault.offset)).records = (decode bytes).records := by
  obtain ⟨d, hrun⟩ := run_itemsDecoded bytes
  obtain ⟨-, htokens⟩ := ofBytes_take_fault h
  rw [fault_decode, records_decode, htokens, hrun]
  exact ⟨rfl, rfl⟩

/-- **What has been decoded stays.** More bytes can only add records, and none at all behind a
bracket without its counterpart. The records that come with a fault are those of the descriptor
that is cut in front of the faulty item, which has no fault. -/
theorem decode_stable :
    (∀ bytes more, (decode bytes).records <+: (decode (bytes ++ more)).records) ∧
      (∀ bytes fault, (decode bytes).fault = some fault →
        fault.cause = .popWithoutPush ∨ fault.cause = .endWithoutCollection →
        ∀ more, decode (bytes ++ more) = decode bytes) ∧
      ∀ bytes fault, (decode bytes).fault = some fault → fault.offset < bytes.length ∧
        (decode (bytes.take fault.offset)).fault = none ∧
        (decode (bytes.take fault.offset)).records = (decode bytes).records := by
  refine ⟨prefix_records_decode, ?_, ?_⟩
  · intro bytes fault h hcause more
    exact decode_append_of_bracket h hcause more
  · intro bytes fault h
    exact ⟨(ofBytes_take_fault h).1, decode_take_fault h⟩

/-- A descriptor that is cut inside of an item, which turns out to be a Usage Page; and a Pop too
many, with a reserved item in front of it and more items behind. -/
theorem decode_stable_seam :
    (∃ bytes more, (decode bytes).fault = some ⟨2, .truncated 2 1⟩ ∧
      (decode bytes).records = [.usage ⟨none, 2⟩] ∧
      (decode (bytes ++ more)).records = [.usage ⟨none, 2⟩, .usagePage 0x0901] ∧
      (decode bytes).records <+: (decode (bytes ++ more)).records ∧
      (decode (bytes.take 2)).fault = none ∧
      (decode (bytes.take 2)).records = (decode bytes).records) ∧
    ∃ bytes more, (decode bytes).fault = some ⟨3, .popWithoutPush⟩ ∧
      (decode bytes).notes.length = 2 ∧ (decode more).records = [.usagePage 1] ∧
      decode (bytes ++ more) = decode bytes := by
  obtain ⟨hgrows, hbracket, hcut⟩ := decode_stable
  constructor
  · have h : (decode [0x09, 0x02, 0x06, 0x01]).fault = some ⟨2, .truncated 2 1⟩ := by decide +kernel
    obtain ⟨-, hfront⟩ := hcut _ _ h
    exact ⟨_, [0x09], h, by decide +kernel, by decide +kernel, hgrows _ _, hfront⟩
  · have h : (decode [0xf0, 0x09, 0x02, 0xb4]).fault = some ⟨3, .popWithoutPush⟩ := by
      decide +kernel
    exact ⟨_, [0x05, 0x01], h, by decide +kernel, by decide +kernel,
      hbracket _ _ h (.inl rfl) _⟩

end HidDescriptor
