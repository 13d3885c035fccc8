import HidDescriptor.Proofs.TopLevel
import HidDescriptor.Proofs.Tokens

/-! # When the search is over

The search for the top-level usage is over at the item that supplies the half that was missing
(`exists_completing`). Up to there it looks at whole items only, and beyond at nothing. So the answer
depends on the bytes up to the end of that item and on no others: fewer of them have no answer, and
more of them do not change it (`topLevelUsage?_settled`).

This is so even though more bytes may turn what was cut off into an item: that item comes behind all
others that were there before. -/

namespace HidDescriptor

/-! ## The item that completes the usage -/

/-- What the search looks at: the items that supply a page or an id. -/
def Item.IsSight (x : Item) : Prop :=
  (∃ page, x = .setGlobal .usagePage page) ∨ ∃ u, x = .usage u

/-- Any other item is passed over. -/
theorem Sighting.see_of_not_isSight {x : Item} (h : ¬ x.IsSight) (s : Sighting) : s.see x = s := by
  cases x with
  | setGlobal r w =>
      cases r with
      | usagePage => exact absurd (.inl ⟨w, rfl⟩) h
      | _ => simp [see, GlobalRegister.assignedPage?]
  | usage u => exact absurd (.inr ⟨u, rfl⟩) h
  | _ => rfl

/-- The usage that has been sighted after all of the tokens. -/
def sighted? (ts : List Token) : Option Usage := ((ts.map (·.item)).foldl Sighting.see {}).usage?

variable {ts us before after : List Token} {t : Token} {u : Usage}

theorem sighted?_concat (ts : List Token) (t : Token) :
    sighted? (ts ++ [t]) = (((ts.map (·.item)).foldl Sighting.see {}).see t.item).usage? := by
  rw [sighted?, List.map_append, List.foldl_append]
  rfl

/-- What was found in fewer items is found in more. -/
theorem sighted?_mono (hle : ts <+: us) (h : sighted? ts = some u) :
    sighted? us = some u := by
  obtain ⟨more, rfl⟩ := hle
  rw [sighted?, List.map_append, List.foldl_append, Sighting.foldl_see_of_usage? h]
  exact h

/-- A usage that is sighted has been completed by one of the items, and not before it. -/
theorem exists_completing (h : sighted? ts = some u) :
    ∃ before t after, ts = before ++ t :: after ∧ t.item.IsSight ∧
      sighted? before = none ∧ sighted? (before ++ [t]) = some u := by
  -- from the end, as what was complete before the last token is complete still
  induction ts using List.reverseRecOn with
  | nil => cases h
  | append_singleton ts t ih =>
      cases hts : sighted? ts with
      | none =>
          refine ⟨ts, t, [], rfl, ?_, hts, h⟩
          by_contra hnot
          rw [sighted?_concat, Sighting.see_of_not_isSight hnot] at h
          rw [sighted?, h] at hts
          cases hts
      | some v =>
          have hv := sighted?_mono (List.prefix_append ts [t]) hts
          rw [h] at hv
          cases hv
          obtain ⟨before, s, after, rfl, hs, hnone, hsome⟩ := ih hts
          refine ⟨before, s, after ++ [t], ?_, hs, hnone, hsome⟩
          rw [List.append_assoc, List.cons_append]

/-! ## Up to the end of an item -/

namespace Tokens

variable {bytes : List UInt8}

/-- The bytes up to the end of an item. -/
theorem Splits.stop_eq {tokens : Tokens} (h : tokens.Splits 0 bytes)
    (hitems : tokens.items = before ++ t :: after) :
    t.stop = (Tokens.bytes (before ++ [t])).length := by
  rw [Token.stop, h.offset_of_append hitems, length_bytes, length_bytes, List.map_append,
    List.sum_append, Nat.zero_add]
  rfl

/-- Bytes that do not reach the end of an item have no other items than those in front of it. -/
theorem prefix_of_length_lt (hitems : (ofBytes bytes).items = before ++ t :: after)
    {front : List UInt8} (hfront : front <+: bytes)
    (hlt : front.length < (Tokens.bytes (before ++ [t])).length) :
    (ofBytes front).items <+: before := by
  have hshort : ¬ before ++ [t] <+: (ofBytes front).items := by
    rintro ⟨rest, hrest⟩
    have hle := ((splits_ofBytes front).prefix_bytes_of_append hrest.symm).length_le
    omega
  have hall : (ofBytes front).items <+: (before ++ [t]) ++ after := by
    obtain ⟨more, rfl⟩ := hfront
    rw [List.append_assoc, List.singleton_append, ← hitems]
    exact prefix_items 0 front more
  rcases List.prefix_or_prefix_of_prefix hall (List.prefix_append _ _) with hle | hge
  · rcases List.prefix_concat_iff.mp hle with heq | hbefore
    · exact absurd ⟨[], by rw [heq, List.append_nil]⟩ hshort
    · exact hbefore
  · exact absurd hge hshort

end Tokens

/-! ## The answer and the bytes -/

variable {bytes : List UInt8}

theorem topLevelUsage?_eq_sighted? (bytes : List UInt8) :
    topLevelUsage? bytes = sighted? (Tokens.ofBytes bytes).items :=
  topLevelUsage?_eq_foldl bytes

/-- More bytes do not change an answer. -/
theorem topLevelUsage?_append (h : topLevelUsage? bytes = some u) (more : List UInt8) :
    topLevelUsage? (bytes ++ more) = some u := by
  rw [topLevelUsage?_eq_sighted?] at h ⊢
  exact sighted?_mono (Tokens.prefix_items 0 bytes more) h

/-- **What has been found stays, and it is found at the first item that allows it.** More bytes do
not change the answer, be the last item cut off or not. And there is a first place at which there is
an answer, which is the end of a Usage Page or Usage item: the bytes up to there have the answer, and
fewer have none. -/
theorem topLevelUsage?_settled :
    (∀ bytes u, topLevelUsage? bytes = some u →
        ∀ more, topLevelUsage? (bytes ++ more) = some u) ∧
      ∀ bytes u, topLevelUsage? bytes = some u →
        ∃ front, front <+: bytes ∧ topLevelUsage? front = some u ∧
          (∃ t ∈ (Tokens.ofBytes bytes).items, t.item.IsSight ∧ t.stop = front.length) ∧
          ∀ less more, bytes = less ++ more → less.length < front.length →
            topLevelUsage? less = none := by
  constructor
  · intro bytes u h more
    exact topLevelUsage?_append h more
  · intro bytes u h
    rw [topLevelUsage?_eq_sighted?] at h
    obtain ⟨before, t, after, hitems, ht, hnone, hsome⟩ := exists_completing h
    have hsplits := Tokens.splits_ofBytes bytes
    have hparts : (Tokens.ofBytes bytes).items = (before ++ [t]) ++ after := by
      rw [hitems, List.append_assoc, List.singleton_append]
    refine ⟨Tokens.bytes (before ++ [t]), hsplits.prefix_bytes_of_append hparts, ?_, ?_, ?_⟩
    · have hfront : Tokens.ofBytes (Tokens.bytes (before ++ [t])) = ⟨before ++ [t], none⟩ :=
        Tokens.ofBytesAt_bytes ⟨after, hparts.symm⟩
      rw [topLevelUsage?_eq_sighted?, hfront]
      exact hsome
    · refine ⟨t, ?_, ht, hsplits.stop_eq hitems⟩
      rw [hitems]
      exact List.mem_append_right _ List.mem_cons_self
    · intro less more hbytes hlt
      have hbefore := Tokens.prefix_of_length_lt hitems ⟨more, hbytes.symm⟩ hlt
      rw [topLevelUsage?_eq_sighted?, Option.eq_none_iff_forall_ne_some]
      intro v hv
      rw [sighted?_mono hbefore hv] at hnone
      cases hnone

/-- An item that is cut off behind the answer, which more bytes turn into one with another page
behind it; and a page that comes behind the usage and inside of a collection, with another usage
behind it. -/
theorem topLevelUsage?_settled_seam :
    (∃ bytes more, (Tokens.ofBytes bytes).fault = some ⟨4, .truncated 2 1⟩ ∧
      topLevelUsage? bytes = some ⟨1, 2⟩ ∧ topLevelUsage? more = some ⟨9, 0x30⟩ ∧
      topLevelUsage? (bytes ++ more) = some ⟨1, 2⟩) ∧
    ∃ bytes, topLevelUsage? bytes = some ⟨1, 0x30⟩ ∧
      ∃ front, front <+: bytes ∧ topLevelUsage? front = some ⟨1, 0x30⟩ ∧
        (∃ t ∈ (Tokens.ofBytes bytes).items, t.item.IsSight ∧ t.stop = front.length) ∧
        ∀ less more, bytes = less ++ more → less.length < front.length →
          topLevelUsage? less = none := by
  obtain ⟨hstands, hshortest⟩ := topLevelUsage?_settled
  constructor
  · have h : topLevelUsage? [0x05, 0x01, 0x09, 0x02, 0x06, 0xff] = some ⟨1, 2⟩ := by decide +kernel
    exact ⟨_, [0x05, 0x09, 0x09, 0x30], by decide +kernel, h, by decide +kernel,
      hstands _ _ h _⟩
  · have h : topLevelUsage? [0x09, 0x30, 0xa1, 0x01, 0x05, 0x01, 0x09, 0x31] =
        some ⟨1, 0x30⟩ := by
      decide +kernel
    exact ⟨_, h, hshortest _ _ h⟩

end HidDescriptor
