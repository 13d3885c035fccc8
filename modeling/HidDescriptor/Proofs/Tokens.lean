import HidDescriptor.Token
import Mathlib.Algebra.GroupWithZero.Nat

/-! # The tokens of a byte string

`Tokens.ofBytesAt` goes through the bytes by well-founded recursion. Statements about its answer are
proved by `Tokens.ofBytesAt_ind`, which has one case for each way in which reading can go on: the
bytes are used up, the last item is cut off, or an item is taken off the front.

Reading and writing are inverse to each other. The items that are read take up the bytes without a
gap, up to the end or to the item that is cut off (`splits_ofBytesAt`), and items that are written
one behind the other are read back (`ofBytesAt_flatMap`). -/

namespace HidDescriptor

namespace Token

/-- A token that was read has the data that its header byte announces. -/
theorem wellSized_of_read? {offset : Nat} {bytes : List UInt8} {t : Token}
    (h : read? offset bytes = some (.ok t)) : t.WellSized := by
  cases bytes with
  | nil => cases h
  | cons header rest =>
      simp only [read?] at h
      split at h
      · next hlen =>
          cases h
          exact hlen
      · cases h

/-- An item that is cut off has its header byte, and too few bytes behind it. -/
theorem cut_of_read? {offset : Nat} {bytes : List UInt8} {fault : Fault}
    (h : read? offset bytes = some (.error fault)) :
    ∃ header rest, bytes = header :: rest ∧ rest.length < announcedLength header ∧
      fault = ⟨offset, .truncated (announcedLength header) rest.length⟩ := by
  cases bytes with
  | nil => cases h
  | cons header rest =>
      simp only [read?] at h
      split at h
      · cases h
      · next hlen =>
          cases h
          rw [List.length_take] at hlen
          have hlt : rest.length < announcedLength header := by omega
          refine ⟨header, rest, rfl, hlt, ?_⟩
          rw [List.take_of_length_le (Nat.le_of_lt hlt)]

/-- An item that was written is read back, whatever comes behind it. -/
theorem read?_append {item : ShortItem} (h : item.WellSized) (offset : Nat) (rest : List UInt8) :
    read? offset (item.bytes ++ rest) = some (.ok ⟨item, offset⟩) := by
  have hdata : (item.data ++ rest).take (announcedLength item.header) = item.data := by
    rw [← show item.data.length = announcedLength item.header from h, List.take_left]
  show read? offset (item.header :: (item.data ++ rest)) = _
  simp only [read?, hdata]
  exact if_pos h

end Token

namespace Tokens

theorem read?_eq_none_iff {offset : Nat} {bytes : List UInt8} :
    Token.read? offset bytes = none ↔ bytes = [] := by
  cases bytes with
  | nil => simp
  | cons header rest =>
      simp only [Token.read?, reduceCtorEq, iff_false]
      split <;> simp

/-- Induction along the bytes: they are used up, the next item is cut off, or it is taken. -/
theorem ofBytesAt_ind {motive : Nat → List UInt8 → Tokens → Prop}
    (done : ∀ offset, motive offset [] ⟨[], none⟩)
    (cut : ∀ offset bytes fault, Token.read? offset bytes = some (.error fault) →
      motive offset bytes ⟨[], some fault⟩)
    (take : ∀ offset bytes t tokens, Token.read? offset bytes = some (.ok t) →
      motive (offset + t.size) (bytes.drop t.size) tokens →
      motive offset bytes ⟨t :: tokens.items, tokens.fault⟩)
    (offset : Nat) (bytes : List UInt8) : motive offset bytes (ofBytesAt offset bytes) := by
  induction hn : bytes.length using Nat.strongRecOn generalizing offset bytes with
  | ind n ih =>
    match hread : Token.read? offset bytes with
    | none =>
        rw [ofBytesAt_of_read?_none hread]
        obtain rfl := read?_eq_none_iff.mp hread
        exact done offset
    | some (.error fault) =>
        rw [ofBytesAt_of_read?_error hread]
        exact cut offset bytes fault hread
    | some (.ok t) =>
        rw [ofBytesAt_of_read?_ok hread]
        have hlt := Token.length_drop_size_lt hread
        exact take offset bytes t _ hread (ih _ (hn ▸ hlt) _ _ rfl)

/-! ## Reading what was written -/

/-- The items in their places, if the first of them starts at `offset`. -/
def place (offset : Nat) : List ShortItem → List Token
  | [] => []
  | x :: xs => ⟨x, offset⟩ :: place (offset + x.size) xs

/-- Whatever does not depend on the place is as it was. -/
theorem map_place {α : Type} (f : ShortItem → α) (offset : Nat) (items : List ShortItem) :
    (place offset items).map (fun t => f t.toShortItem) = items.map f := by
  induction items generalizing offset with
  | nil => rfl
  | cons x items ih => rw [place, List.map_cons, List.map_cons, ih]

theorem map_toShortItem_place (offset : Nat) (items : List ShortItem) :
    (place offset items).map (·.toShortItem) = items := by
  have hid := map_place id offset items
  rwa [List.map_id] at hid

theorem ofBytesAt_append {x : ShortItem} (hx : x.WellSized) (offset : Nat) (rest : List UInt8) :
    ofBytesAt offset (x.bytes ++ rest) =
      ⟨⟨x, offset⟩ :: (ofBytesAt (offset + x.size) rest).items,
        (ofBytesAt (offset + x.size) rest).fault⟩ := by
  rw [ofBytesAt_of_read?_ok (Token.read?_append hx offset rest)]
  show Tokens.mk (_ :: (ofBytesAt (offset + x.size) ((x.bytes ++ rest).drop x.size)).items) _ = _
  rw [← ShortItem.length_bytes, List.drop_left]

/-- Items that were written one behind the other are read back, each in its place. -/
theorem ofBytesAt_flatMap {items : List ShortItem} (h : ∀ x ∈ items, x.WellSized) (offset : Nat) :
    ofBytesAt offset (items.flatMap (·.bytes)) = ⟨place offset items, none⟩ := by
  induction items generalizing offset with
  | nil => exact ofBytesAt_of_read?_none rfl
  | cons x items ih =>
      rw [List.flatMap_cons, ofBytesAt_append (h x List.mem_cons_self)]
      rw [ih (fun y hy => h y (List.mem_cons_of_mem x hy))]
      rfl

/-! ## Writing what was read -/

/-- The tokens take up the bytes, which start at `offset`, one behind the other. What is left over
is an item that is cut off. -/
structure Splits (tokens : Tokens) (offset : Nat) (bytes : List UInt8) : Prop where
  wellSized : ∀ t ∈ tokens.items, t.WellSized
  offset_eq : ∀ i t, tokens.items[i]? = some t →
    t.offset = offset + ((tokens.items.take i).map (·.size)).sum
  whole : tokens.fault = none → Tokens.bytes tokens.items = bytes
  cut : ∀ fault, tokens.fault = some fault → ∃ header rest,
    bytes = Tokens.bytes tokens.items ++ header :: rest ∧ rest.length < announcedLength header ∧
      fault = ⟨offset + (Tokens.bytes tokens.items).length,
        .truncated (announcedLength header) rest.length⟩

theorem Splits.cons {offset : Nat} {t : Token} {tokens : Tokens} {rest : List UInt8}
    (ht : t.WellSized) (hoffset : t.offset = offset) (h : tokens.Splits (offset + t.size) rest) :
    Splits ⟨t :: tokens.items, tokens.fault⟩ offset (t.bytes ++ rest) where
  wellSized := List.forall_mem_cons.mpr ⟨ht, h.wellSized⟩
  offset_eq i s hs := by
    cases i with
    | zero =>
        cases hs
        exact hoffset
    | succ i =>
        have hs' := h.offset_eq i s hs
        simp only [List.take_succ_cons, List.map_cons, List.sum_cons]
        omega
  whole hfault := by
    show t.bytes ++ Tokens.bytes tokens.items = t.bytes ++ rest
    rw [h.whole hfault]
  cut fault hfault := by
    obtain ⟨header, more, rfl, hlt, rfl⟩ := h.cut fault hfault
    refine ⟨header, more, (List.append_assoc _ _ _).symm, hlt, ?_⟩
    show Fault.mk _ _ = Fault.mk (offset + (t.bytes ++ Tokens.bytes tokens.items).length) _
    rw [List.length_append, ShortItem.length_bytes, Nat.add_assoc]

/-- **Reading splits the bytes**, from wherever they start. -/
theorem splits_ofBytesAt (offset : Nat) (bytes : List UInt8) :
    (ofBytesAt offset bytes).Splits offset bytes := by
  induction offset, bytes using ofBytesAt_ind with
  | done offset =>
      refine ⟨by simp, by simp, fun _ => rfl, ?_⟩
      intro fault hfault
      cases hfault
  | cut offset bytes fault hread =>
      refine ⟨by simp, by simp, ?_, ?_⟩
      · intro hfault
        cases hfault
      · intro _ hfault
        cases hfault
        obtain ⟨header, rest, rfl, hlt, rfl⟩ := Token.cut_of_read? hread
        exact ⟨header, rest, rfl, hlt, rfl⟩
  | take offset bytes t tokens hread ih =>
      rw [← Token.bytes_append_drop_of_read? hread]
      exact ih.cons (Token.wellSized_of_read? hread) (Token.offset_of_read? hread)

theorem splits_ofBytes (bytes : List UInt8) : (ofBytes bytes).Splits 0 bytes :=
  splits_ofBytesAt 0 bytes

/-- The item that is cut off stands behind the items. -/
theorem Splits.offset_cut {offset : Nat} {tokens : Tokens} {bytes : List UInt8} {fault : Fault}
    (h : tokens.Splits offset bytes) (hfault : tokens.fault = some fault) :
    fault.offset = offset + (Tokens.bytes tokens.items).length := by
  obtain ⟨header, rest, -, -, rfl⟩ := h.cut fault hfault
  rfl

/-- An item that is cut off begins where the whole items end. -/
theorem Splits.offset_fault {tokens : Tokens} {bytes : List UInt8} {fault : Fault}
    (h : tokens.Splits 0 bytes) (hfault : tokens.fault = some fault) :
    fault.offset < bytes.length ∧ Tokens.bytes tokens.items = bytes.take fault.offset := by
  obtain ⟨header, rest, rfl, -, rfl⟩ := h.cut fault hfault
  simp

/-- A fault tells the header byte behind the items and how many bytes come after it. -/
theorem Splits.fault_eq_some_iff {tokens : Tokens} {bytes : List UInt8} {fault : Fault}
    (h : tokens.Splits 0 bytes) :
    tokens.fault = some fault ↔ ∃ offset header,
      offset = (Tokens.bytes tokens.items).length ∧ bytes[offset]? = some header ∧
        bytes.length - offset - 1 < announcedLength header ∧
        fault = ⟨offset, .truncated (announcedLength header) (bytes.length - offset - 1)⟩ := by
  cases hfault : tokens.fault with
  | none =>
      -- there is no byte behind the items
      have hbytes := h.whole hfault
      constructor
      · intro h
        cases h
      · rintro ⟨offset, header, rfl, hheader, -, -⟩
        rw [hbytes, List.getElem?_eq_none (Nat.le_refl _)] at hheader
        cases hheader
  | some cutOff =>
      obtain ⟨header, rest, hbytes, hlt, rfl⟩ := h.cut cutOff hfault
      have hheader : bytes[(Tokens.bytes tokens.items).length]? = some header := by
        rw [hbytes]
        simp
      have hrest : bytes.length - (Tokens.bytes tokens.items).length - 1 = rest.length := by
        rw [hbytes, List.length_append, List.length_cons]
        omega
      constructor
      · intro h
        cases h
        refine ⟨_, header, rfl, hheader, ?_, ?_⟩
        · rwa [hrest]
        · rw [hrest, Nat.zero_add]
      · rintro ⟨offset, header', rfl, hheader', -, rfl⟩
        rw [hheader] at hheader'
        cases hheader'
        rw [hrest, Nat.zero_add]

/-! ## Offsets -/

/-- The items stand one behind the other, so their offsets increase. -/
theorem pairwise_offset_lt (offset : Nat) (bytes : List UInt8) :
    (∀ t ∈ (ofBytesAt offset bytes).items, offset ≤ t.offset) ∧
      (ofBytesAt offset bytes).items.Pairwise (·.offset < ·.offset) := by
  induction offset, bytes using ofBytesAt_ind with
  | done offset => simp
  | cut offset bytes fault hread => simp
  | take offset bytes t tokens hread ih =>
      obtain ⟨hle, hpair⟩ := ih
      have hoffset := Token.offset_of_read? hread
      refine ⟨?_, List.pairwise_cons.mpr ⟨fun s hs => ?_, hpair⟩⟩
      · intro s hs
        rcases List.mem_cons.mp hs with rfl | hs
        · exact Nat.le_of_eq hoffset.symm
        · exact Nat.le_trans (Nat.le_add_right _ _) (hle s hs)
      · have hs := hle s hs
        have hsize := t.size_pos
        omega

/-- An item is told by its offset. -/
theorem offset_eq_iff {bytes : List UInt8} {i j : Nat} {s t : Token}
    (hs : (ofBytes bytes).items[i]? = some s) (ht : (ofBytes bytes).items[j]? = some t) :
    s.offset = t.offset ↔ i = j := by
  have hpair := (pairwise_offset_lt 0 bytes).2
  obtain ⟨hi, rfl⟩ := List.getElem?_eq_some_iff.mp hs
  obtain ⟨hj, rfl⟩ := List.getElem?_eq_some_iff.mp ht
  constructor
  · intro heq
    rcases Nat.lt_trichotomy i j with hij | rfl | hij
    · have := List.pairwise_iff_getElem.mp hpair i j hi hj hij
      exact absurd heq (Nat.ne_of_lt this)
    · rfl
    · have := List.pairwise_iff_getElem.mp hpair j i hj hi hij
      exact absurd heq.symm (Nat.ne_of_lt this)
  · rintro rfl
    rfl

/-! ## Bytes behind, and bytes cut off -/

/-- An item that is there already is read with any bytes behind. -/
theorem read?_of_more {offset : Nat} {bytes : List UInt8} {t : Token}
    (h : Token.read? offset bytes = some (.ok t)) (more : List UInt8) :
    Token.read? offset (bytes ++ more) = some (.ok t) := by
  have hoffset := Token.offset_of_read? h
  subst hoffset
  rw [← Token.bytes_append_drop_of_read? h, List.append_assoc]
  exact Token.read?_append (Token.wellSized_of_read? h) t.offset _

/-- More bytes can only add items. -/
theorem prefix_items (offset : Nat) (bytes more : List UInt8) :
    (ofBytesAt offset bytes).items <+: (ofBytesAt offset (bytes ++ more)).items := by
  induction offset, bytes using ofBytesAt_ind with
  | done offset => exact List.nil_prefix
  | cut offset bytes fault hread => exact List.nil_prefix
  | take offset bytes t tokens hread ih =>
      have hsize : t.size ≤ bytes.length := by
        have hlen := congrArg List.length (Token.bytes_append_drop_of_read? hread)
        rw [List.length_append, ShortItem.length_bytes] at hlen
        omega
      rw [ofBytesAt_of_read?_ok (read?_of_more hread more), List.drop_append_of_le_length hsize]
      exact List.cons_prefix_cons.mpr ⟨rfl, ih⟩

/-- Behind bytes that are whole items, reading goes on as if it started there. -/
theorem ofBytesAt_append_of_whole {offset : Nat} {bytes : List UInt8}
    (h : (ofBytesAt offset bytes).fault = none) (more : List UInt8) :
    ofBytesAt offset (bytes ++ more) =
      ⟨(ofBytesAt offset bytes).items ++ (ofBytesAt (offset + bytes.length) more).items,
        (ofBytesAt (offset + bytes.length) more).fault⟩ := by
  induction offset, bytes using ofBytesAt_ind with
  | done offset => rfl
  | cut offset bytes fault hread => cases h
  | take offset bytes t tokens hread ih =>
      have hlen := congrArg List.length (Token.bytes_append_drop_of_read? hread)
      rw [List.length_append, ShortItem.length_bytes] at hlen
      have hsize : t.size ≤ bytes.length := by omega
      have hstop : offset + t.size + (bytes.drop t.size).length = offset + bytes.length := by omega
      rw [ofBytesAt_of_read?_ok (read?_of_more hread more), List.drop_append_of_le_length hsize,
        ih h, hstop]
      rfl

/-- Behind whole items, reading goes on at the next byte. -/
theorem ofBytes_append_of_whole {bytes : List UInt8} (h : (ofBytes bytes).fault = none)
    (more : List UInt8) :
    ofBytes (bytes ++ more) =
      ⟨(ofBytes bytes).items ++ (ofBytesAt bytes.length more).items,
        (ofBytesAt bytes.length more).fault⟩ := by
  have hparts := ofBytesAt_append_of_whole h more
  rwa [Nat.zero_add] at hparts

/-- The first items of a descriptor, written one behind the other, are a descriptor of their own. -/
theorem ofBytesAt_bytes {offset : Nat} {bytes : List UInt8} {before : List Token}
    (h : before <+: (ofBytesAt offset bytes).items) :
    ofBytesAt offset (Tokens.bytes before) = ⟨before, none⟩ := by
  induction offset, bytes using ofBytesAt_ind generalizing before with
  | done offset =>
      rw [List.prefix_nil.mp h]
      exact ofBytesAt_of_read?_none rfl
  | cut offset bytes fault hread =>
      rw [List.prefix_nil.mp h]
      exact ofBytesAt_of_read?_none rfl
  | take offset bytes t tokens hread ih =>
      cases before with
      | nil => exact ofBytesAt_of_read?_none rfl
      | cons s before =>
          obtain ⟨rfl, hbefore⟩ := List.cons_prefix_cons.mp h
          have hoffset := Token.offset_of_read? hread
          subst hoffset
          show ofBytesAt s.offset (s.bytes ++ Tokens.bytes before) = _
          rw [ofBytesAt_append (Token.wellSized_of_read? hread), ih hbefore]

theorem bytes_append (before after : List Token) :
    Tokens.bytes (before ++ after) = Tokens.bytes before ++ Tokens.bytes after :=
  List.flatMap_append

theorem Splits.prefix_bytes {offset : Nat} {tokens : Tokens} {bytes : List UInt8}
    (h : tokens.Splits offset bytes) : Tokens.bytes tokens.items <+: bytes := by
  cases hfault : tokens.fault with
  | none =>
      exact ⟨[], by rw [List.append_nil, h.whole hfault]⟩
  | some fault =>
      obtain ⟨header, rest, rfl, -, -⟩ := h.cut fault hfault
      exact List.prefix_append _ _

/-- The first items take up the first bytes. -/
theorem Splits.prefix_bytes_of_append {offset : Nat} {tokens : Tokens} {bytes : List UInt8}
    {before after : List Token} (h : tokens.Splits offset bytes)
    (hitems : tokens.items = before ++ after) : Tokens.bytes before <+: bytes := by
  apply List.IsPrefix.trans _ h.prefix_bytes
  rw [hitems, bytes_append]
  exact List.prefix_append _ _

theorem length_bytes (ts : List Token) : (Tokens.bytes ts).length = (ts.map (·.size)).sum := by
  induction ts with
  | nil => rfl
  | cons t ts ih =>
      show (t.bytes ++ Tokens.bytes ts).length = _
      rw [List.length_append, ih, ShortItem.length_bytes, List.map_cons, List.sum_cons]

/-- An item stands behind the bytes of the items before it. -/
theorem Splits.offset_of_append {offset : Nat} {tokens : Tokens} {bytes : List UInt8}
    {before after : List Token} {t : Token} (h : tokens.Splits offset bytes)
    (hitems : tokens.items = before ++ t :: after) :
    t.offset = offset + (Tokens.bytes before).length := by
  have ht : tokens.items[before.length]? = some t := by
    rw [hitems, List.getElem?_append_right (Nat.le_refl _), Nat.sub_self]
    rfl
  rw [h.offset_eq _ t ht, hitems, List.take_left, length_bytes]

/-- Where the items are parted, there is an offset that parts them. -/
theorem Splits.offset_of_parts {offset : Nat} {tokens : Tokens} {bytes : List UInt8}
    {before after : List Token} (h : tokens.Splits offset bytes)
    (hitems : tokens.items = before ++ after) :
    (∀ t ∈ before, t.offset < offset + (Tokens.bytes before).length) ∧
      ∀ t ∈ after, offset + (Tokens.bytes before).length ≤ t.offset := by
  constructor
  · intro t ht
    obtain ⟨front, back, rfl⟩ := List.append_of_mem ht
    rw [List.append_assoc] at hitems
    have hlen : (Tokens.bytes (front ++ t :: back)).length =
        (Tokens.bytes front).length + (t.size + (Tokens.bytes back).length) := by
      rw [length_bytes, length_bytes, length_bytes, List.map_append, List.sum_append]
      rfl
    have hsize := t.size_pos
    rw [h.offset_of_append hitems, hlen]
    omega
  · intro t ht
    obtain ⟨front, back, rfl⟩ := List.append_of_mem ht
    rw [← List.append_assoc] at hitems
    rw [h.offset_of_append hitems, bytes_append, List.length_append]
    omega

theorem offset_lt_of_whole {bytes : List UInt8} (h : (ofBytes bytes).fault = none) {t : Token}
    (ht : t ∈ (ofBytes bytes).items) : t.offset < bytes.length := by
  have hsplits := splits_ofBytes bytes
  have hlt := (hsplits.offset_of_parts (List.append_nil _).symm).1 t ht
  rwa [hsplits.whole h, Nat.zero_add] at hlt

/-- The bytes of a token stand at its offset. -/
theorem Splits.drop_offset {tokens : Tokens} {bytes : List UInt8} {t : Token}
    (h : tokens.Splits 0 bytes) (ht : t ∈ tokens.items) :
    ∃ more, bytes.drop t.offset = t.bytes ++ more := by
  obtain ⟨before, after, hitems⟩ := List.append_of_mem ht
  obtain ⟨more, rfl⟩ := h.prefix_bytes
  refine ⟨Tokens.bytes after ++ more, ?_⟩
  rw [h.offset_of_append hitems, hitems, bytes_append, Nat.zero_add, List.append_assoc,
    List.drop_left]
  exact List.append_assoc t.bytes (Tokens.bytes after) more

end Tokens
end HidDescriptor
