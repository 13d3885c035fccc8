import HidDescriptor.Cursor
import HidDescriptor.Proofs.Tokens

/-! # Walking over a descriptor

A cursor that is drained yields the tokens of the bytes in front of it, and then the fault if the
last item is cut off (`drain_eq_results`). Together with the laws of `Tokens.ofBytes` this makes the
cursor of a byte string and the byte string two forms of the same thing: `drain_ofBytes`. -/

namespace HidDescriptor

/-- What a cursor yields for the tokens: the items, and then the fault if there is one. -/
def Tokens.results (tokens : Tokens) : List (Except Fault Token) :=
  tokens.items.map .ok ++ tokens.fault.toList.map .error

namespace Cursor

/-! ## One step -/

variable {c d : Cursor}

theorem next_of_exhausted (h : c.exhausted = true) : c.next = (none, c) := by
  rw [next, if_pos h]

theorem next_of_read?_none (h : c.exhausted = false)
    (hread : Token.read? c.offset (c.bytes.drop c.offset) = none) :
    c.next = (none, { c with exhausted := true }) := by
  simp only [next, h, hread, Bool.false_eq_true, ↓reduceIte]

theorem next_of_read?_error {fault : Fault} (h : c.exhausted = false)
    (hread : Token.read? c.offset (c.bytes.drop c.offset) = some (.error fault)) :
    c.next = (some (.error fault), { c with exhausted := true }) := by
  simp only [next, h, hread, Bool.false_eq_true, ↓reduceIte]

theorem next_of_read?_ok {t : Token} (h : c.exhausted = false)
    (hread : Token.read? c.offset (c.bytes.drop c.offset) = some (.ok t)) :
    c.next = (some (.ok t), { c with offset := t.stop }) := by
  simp only [next, h, hread, Bool.false_eq_true, ↓reduceIte]

theorem drain_of_next_none (h : c.next = (none, d)) : c.drain = ([], d) := by
  rw [drain, h]

theorem drain_of_next_some {r : Except Fault Token} (h : c.next = (some r, d)) :
    c.drain = (r :: d.drain.1, d.drain.2) := by
  rw [drain, h]

/-- The end stays the end. -/
theorem next_of_next_none (h : c.next = (none, d)) : d.next = (none, d) := by
  unfold next at h
  split at h
  · next hex =>
      cases h
      exact next_of_exhausted hex
  · split at h
    · cases h
      exact next_of_exhausted rfl
    · cases h
    · cases h

/-! ## To the end -/

/-- A cursor gives the results of the bytes from its place on. -/
theorem drain_eq_results (h : c.exhausted = false) :
    c.drain.1 = (Tokens.ofBytesAt c.offset (c.bytes.drop c.offset)).results := by
  -- the bytes in front of the cursor become fewer, and the cursor moves along with them
  generalize hoffset : c.offset = offset
  generalize hbytes : c.bytes.drop offset = bytes
  induction offset, bytes using Tokens.ofBytesAt_ind generalizing c with
  | done offset =>
      have hread : Token.read? c.offset (c.bytes.drop c.offset) = none := by
        rw [hoffset, hbytes]
        rfl
      rw [drain_of_next_none (next_of_read?_none h hread)]
      rfl
  | cut offset bytes fault hread =>
      rw [← hbytes, ← hoffset] at hread
      rw [drain_of_next_some (next_of_read?_error h hread),
        drain_of_next_none (next_of_exhausted rfl)]
      rfl
  | take offset bytes t tokens hread ih =>
      have hstop : t.stop = offset + t.size := by rw [Token.stop, Token.offset_of_read? hread]
      have hrest : c.bytes.drop t.stop = bytes.drop t.size := by
        rw [← hbytes, hstop, List.drop_drop]
      rw [← hbytes, ← hoffset] at hread
      rw [drain_of_next_some (next_of_read?_ok h hread)]
      show .ok t :: (drain { c with offset := t.stop }).1 = .ok t :: tokens.results
      rw [ih (c := { c with offset := t.stop }) h hstop (by rw [← hstop]; exact hrest)]

theorem drain_ofBytes_eq_results (bytes : List UInt8) :
    (ofBytes bytes).drain.1 = (Tokens.ofBytes bytes).results := drain_eq_results rfl

/-- There is nothing behind what was drained. -/
theorem next_drain (c : Cursor) : c.drain.2.next = (none, c.drain.2) := by
  induction c using drain.induct with
  | case1 c d h =>
      rw [drain_of_next_none h]
      exact next_of_next_none h
  | case2 c r d h _ _ _ ih =>
      rw [drain_of_next_some h]
      exact ih

/-- **Byte strings and lists of items are two forms of the same thing.** A cursor yields finitely
many items and then at most one fault, and nothing after that. The items take up the bytes without a
gap and without an overlap, up to the fault or else to the end. The other way round, items that are
written one behind the other come out again, and nothing else does. -/
theorem drain_ofBytes :
    (∀ bytes : List UInt8, ∃ (items : List Token) (fault : Option Fault),
      (ofBytes bytes).drain.1 = items.map .ok ++ fault.toList.map .error ∧
      (ofBytes bytes).drain.2.next.1 = none ∧
      (∀ t ∈ items, t.data.length = announcedLength t.header) ∧
      (∀ i t, items[i]? = some t → t.offset = ((items.take i).map (·.size)).sum) ∧
      match fault with
      | none => items.flatMap (fun t => t.header :: t.data) = bytes
      | some fault => fault.offset < bytes.length ∧
          items.flatMap (fun t => t.header :: t.data) = bytes.take fault.offset) ∧
    ∀ items : List ShortItem, (∀ x ∈ items, x.data.length = announcedLength x.header) →
      ∃ ts : List Token, ts.map (·.toShortItem) = items ∧
        (ofBytes (items.flatMap fun x => x.header :: x.data)).drain.1 = ts.map .ok := by
  constructor
  · intro bytes
    have hsplits : (Tokens.ofBytes bytes).Splits 0 bytes := Tokens.splits_ofBytesAt 0 bytes
    refine ⟨_, _, drain_ofBytes_eq_results bytes, ?_, hsplits.wellSized, ?_, ?_⟩
    · rw [next_drain]
    · intro i t ht
      rw [hsplits.offset_eq i t ht, Nat.zero_add]
    · cases hfault : (Tokens.ofBytes bytes).fault with
      | none => exact hsplits.whole hfault
      | some fault => exact hsplits.offset_fault hfault
  · intro items h
    refine ⟨Tokens.place 0 items, Tokens.map_toShortItem_place 0 items, ?_⟩
    show (ofBytes (items.flatMap (·.bytes))).drain.1 = _
    rw [drain_ofBytes_eq_results, Tokens.ofBytes, Tokens.ofBytesAt_flatMap h]
    exact List.append_nil _

/-- Items of every length, the size code of 3 for four bytes among them. -/
theorem drain_ofBytes_everyLength :
    ∃ items : List ShortItem, (∀ x ∈ items, x.data.length = announcedLength x.header) ∧
      items.map (·.data.length) = [1, 4, 0, 2] ∧
      ∃ ts : List Token, ts.map (·.toShortItem) = items ∧
        (ofBytes (items.flatMap fun x => x.header :: x.data)).drain.1 = ts.map .ok := by
  have h : ∀ x ∈ [ShortItem.mk 0x05 [0x01], ⟨0x0b, [0x30, 0x00, 0x01, 0x00]⟩, ⟨0xc0, []⟩,
      ⟨0x26, [0xff, 0x03]⟩], x.data.length = announcedLength x.header := by decide
  obtain ⟨-, hdrain⟩ := drain_ofBytes
  exact ⟨_, h, rfl, hdrain _ h⟩

end Cursor
end HidDescriptor
