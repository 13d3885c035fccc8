import HidDescriptor.Proofs.Decoding
import HidDescriptor.Proofs.History

/-! # Which descriptors are accepted

A descriptor is decoded to its end if its bytes split into whole items and at no point more brackets
have been closed than opened, Push and Pop on the one side and Collection and End Collection on the
other. Nothing else can be wrong: brackets that stay open are no fault. If something is wrong,
`decode` tells the first thing that is.

What is wrong with an item is said by counting (`OffendsAt`), whereas the context looks at its
stacks. The two come together in `Context.Follows`: after any items the stacks have as many entries
as there are open brackets. -/

namespace HidDescriptor

/-! ## What a run has taken -/

namespace Context

/-- **A run**: behind tokens that were all taken, the context holds what they have said. -/
theorem Follows.run {c d : Context} {before ts : List Token} (hc : c.Follows (before.map (·.item)))
    (h : (c.run ts).outcome = .ok d) : d.Follows ((before ++ ts).map (·.item)) := by
  induction ts generalizing c before with
  | nil =>
      cases h
      rwa [List.append_nil]
  | cons t ts ih =>
      cases hfeed : c.feed t with
      | error fault =>
          rw [run_of_error hfeed] at h
          cases h
      | ok taken =>
          obtain ⟨e, record⟩ := taken
          rw [run_of_ok hfeed] at h
          have he : e.Follows ((before ++ [t]).map (·.item)) := by
            simpa using hc.feedItem hfeed
          simpa using ih he h

/-- A run takes all tokens, or it stops at one that is refused after all tokens before it have been
taken. -/
theorem run_cases {c : Context} (before : List Token) (ts : List Token)
    (hc : c.Follows (before.map (·.item))) :
    (∃ d, (c.run ts).outcome = .ok d ∧ d.Follows ((before ++ ts).map (·.item))) ∨
      ∃ taken t rest, ∃ (d : Context) (fault : Fault), ts = taken ++ t :: rest ∧
        d.Follows ((before ++ taken).map (·.item)) ∧ d.feed t = .error fault ∧
        (c.run ts).outcome = .error fault := by
  cases houtcome : (c.run ts).outcome with
  | ok d => exact .inl ⟨d, rfl, hc.run houtcome⟩
  | error fault =>
      obtain ⟨taken, t, rest, d, hsplit, hrun, hfeed⟩ := exists_refused houtcome
      have hd : d.Follows ((before ++ taken).map (·.item)) := hc.run (by rw [hrun])
      exact .inr ⟨taken, t, rest, d, fault, hsplit, hd, hfeed, rfl⟩

/-- Where decoding was not stopped by a bracket, the context has taken all items. -/
theorem run_of_not_refused {bytes : List UInt8}
    (h : (decode bytes).fault = none ∨ ∃ offset needed available,
      (decode bytes).fault = some ⟨offset, .truncated needed available⟩) :
    ∃ d, (run {} (Tokens.ofBytes bytes).items).outcome = .ok d := by
  rcases run_cases [] (Tokens.ofBytes bytes).items follows_nil with
    ⟨d, hok, -⟩ | ⟨_, _, _, _, _, _, -, hfeed, herr⟩
  · exact ⟨d, hok⟩
  · rw [fault_decode, herr] at h
    rcases feedItem_eq_error_iff.mp hfeed with ⟨-, -, rfl⟩ | ⟨-, -, rfl⟩ <;> simp at h

end Context

/-! ## Items that offend -/

/-- The fault of the item, if it closes a bracket and there is none to close. -/
def Token.refusal? (t : Token) : Option Fault :=
  match t.item with
  | .pop => some ⟨t.offset, .popWithoutPush⟩
  | .endCollection => some ⟨t.offset, .endWithoutCollection⟩
  | _ => none

/-- The item at a place among the items of the descriptor is faulty, and `fault` says how and
where. -/
inductive OffendsAt (bytes : List UInt8) : Nat → Fault → Prop
  /-- Up to this Pop there are more Pops than Pushes. -/
  | pop {i t} : (Tokens.ofBytes bytes).items[i]? = some t → t.item = .pop →
      Bracket.saving.depth (((Tokens.ofBytes bytes).items.take (i + 1)).map (·.item)) < 0 →
      OffendsAt bytes i ⟨t.offset, .popWithoutPush⟩
  /-- Up to this End Collection there are more End Collections than Collections. -/
  | endCollection {i t} : (Tokens.ofBytes bytes).items[i]? = some t → t.item = .endCollection →
      Bracket.nesting.depth (((Tokens.ofBytes bytes).items.take (i + 1)).map (·.item)) < 0 →
      OffendsAt bytes i ⟨t.offset, .endWithoutCollection⟩
  /-- Behind all whole items there is a header byte with too few bytes after it. -/
  | cut {i offset header} : i = (Tokens.ofBytes bytes).items.length →
      offset = (Tokens.bytes (Tokens.ofBytes bytes).items).length →
      bytes[offset]? = some header → bytes.length - offset - 1 < announcedLength header →
      OffendsAt bytes i ⟨offset, .truncated (announcedLength header) (bytes.length - offset - 1)⟩

namespace OffendsAt

variable {bytes : List UInt8} {i : Nat} {fault other : Fault}

/-- What offends is one of the items, or the one that is cut off behind them. -/
theorem item_or_cut (h : OffendsAt bytes i fault) :
    (∃ t, (Tokens.ofBytes bytes).items[i]? = some t ∧ t.refusal? = some fault) ∨
      i = (Tokens.ofBytes bytes).items.length ∧ (Tokens.ofBytes bytes).fault = some fault := by
  cases h with
  | pop hget hitem _ =>
      left
      refine ⟨_, hget, ?_⟩
      rw [Token.refusal?, hitem]
  | endCollection hget hitem _ =>
      left
      refine ⟨_, hget, ?_⟩
      rw [Token.refusal?, hitem]
  | cut hi hoffset hheader hlt =>
      right
      have hsplits := Tokens.splits_ofBytes bytes
      exact ⟨hi, hsplits.fault_eq_some_iff.mpr ⟨_, _, hoffset, hheader, hlt, rfl⟩⟩

theorem unique (h : OffendsAt bytes i fault) (h' : OffendsAt bytes i other) : fault = other := by
  rcases h.item_or_cut with ⟨t, hget, ht⟩ | ⟨hi, hcut⟩
  · have hlt := (List.getElem?_eq_some_iff.mp hget).1
    rcases h'.item_or_cut with ⟨s, hget', hs⟩ | ⟨hi, -⟩
    · rw [hget] at hget'
      cases hget'
      exact Option.some.inj (ht.symm.trans hs)
    · omega
  · rcases h'.item_or_cut with ⟨s, hget', -⟩ | ⟨-, hcut'⟩
    · have hlt := (List.getElem?_eq_some_iff.mp hget').1
      omega
    · exact Option.some.inj (hcut.symm.trans hcut')

/-- An item that is cut off is the offence behind all whole items. -/
theorem of_fault (h : (Tokens.ofBytes bytes).fault = some fault) :
    OffendsAt bytes (Tokens.ofBytes bytes).items.length fault := by
  have hsplits := Tokens.splits_ofBytes bytes
  obtain ⟨offset, header, hoffset, hheader, hlt, rfl⟩ := hsplits.fault_eq_some_iff.mp h
  exact .cut rfl hoffset hheader hlt

/-- Where the brackets are in order, no item offends. -/
theorem not_of_covered {n : Nat}
    (hsaving : Bracket.saving.Covered (((Tokens.ofBytes bytes).items.take n).map (·.item)))
    (hnesting : Bracket.nesting.Covered (((Tokens.ofBytes bytes).items.take n).map (·.item)))
    (hi : i < n) (hn : n ≤ (Tokens.ofBytes bytes).items.length) : ¬ OffendsAt bytes i fault := by
  have htake : (((Tokens.ofBytes bytes).items.take n).map (·.item)).take (i + 1) =
      ((Tokens.ofBytes bytes).items.take (i + 1)).map (·.item) := by
    rw [← List.map_take, List.take_take, Nat.min_eq_left hi]
  intro h
  cases h with
  | pop _ _ hdepth =>
      have hle := hsaving.take (i + 1)
      rw [htake] at hle
      omega
  | endCollection _ _ hdepth =>
      have hle := hnesting.take (i + 1)
      rw [htake] at hle
      omega
  | cut hlen _ _ _ => omega

/-- Whole items that close no bracket too early do not offend anywhere. -/
theorem not_of_whole (hwhole : (Tokens.ofBytes bytes).fault = none)
    (hsaving : Bracket.saving.Covered ((Tokens.ofBytes bytes).items.map (·.item)))
    (hnesting : Bracket.nesting.Covered ((Tokens.ofBytes bytes).items.map (·.item))) :
    ¬ OffendsAt bytes i fault := by
  intro h
  rcases h.item_or_cut with ⟨t, hget, -⟩ | ⟨-, hcut⟩
  · have hlt := (List.getElem?_eq_some_iff.mp hget).1
    rw [← List.take_length (l := (Tokens.ofBytes bytes).items)] at hsaving hnesting
    exact not_of_covered hsaving hnesting hlt (Nat.le_refl _) h
  · rw [hwhole] at hcut
    cases hcut

/-- There is only one first item that offends. -/
theorem first_unique {k : Nat} (h : OffendsAt bytes i fault)
    (hfirst : ∀ j < i, ∀ other, ¬ OffendsAt bytes j other) (h' : OffendsAt bytes k other)
    (hfirst' : ∀ j < k, ∀ other, ¬ OffendsAt bytes j other) : fault = other := by
  rcases Nat.lt_trichotomy i k with hlt | rfl | hlt
  · exact absurd h (hfirst' i hlt fault)
  · exact h.unique h'
  · exact absurd h' (hfirst k hlt other)

/-- An item that a context refuses, after the items before it have been taken, offends. -/
theorem of_refused {taken rest : List Token} {t : Token} {d : Context}
    (hsplit : (Tokens.ofBytes bytes).items = taken ++ t :: rest)
    (hd : d.Follows (taken.map (·.item))) (hfeed : d.feed t = .error fault) :
    OffendsAt bytes taken.length fault := by
  have hget : (Tokens.ofBytes bytes).items[taken.length]? = some t := by
    rw [hsplit]
    simp
  have htake : ((Tokens.ofBytes bytes).items.take (taken.length + 1)).map (·.item) =
      taken.map (·.item) ++ [t.item] := by
    rw [hsplit, List.take_length_add_append, List.map_append]
    rfl
  rcases Context.feedItem_eq_error_iff.mp hfeed with ⟨hx, hempty, rfl⟩ | ⟨hx, hempty, rfl⟩
  · apply OffendsAt.pop hget hx
    rw [htake, Bracket.depth_append, hd.saved.depth_eq, hempty, hx, Bracket.depth_close rfl]
    decide
  · apply OffendsAt.endCollection hget hx
    rw [htake, Bracket.depth_append, hd.enclosing.depth_eq, hempty, hx, Bracket.depth_close rfl]
    decide

end OffendsAt

/-- Decoding goes on to the first item that offends. -/
theorem fault_decode_cases (bytes : List UInt8) :
    ((decode bytes).fault = none ∧ (Tokens.ofBytes bytes).fault = none ∧
        Bracket.saving.Covered ((Tokens.ofBytes bytes).items.map (·.item)) ∧
        Bracket.nesting.Covered ((Tokens.ofBytes bytes).items.map (·.item))) ∨
      ∃ i fault, (decode bytes).fault = some fault ∧ OffendsAt bytes i fault ∧
        ∀ j < i, ∀ other, ¬ OffendsAt bytes j other := by
  rw [fault_decode]
  rcases Context.run_cases [] (Tokens.ofBytes bytes).items Context.follows_nil with
    ⟨d, hok, hd⟩ | ⟨taken, t, rest, d, fault, hsplit, hd, hfeed, herr⟩
  · -- no item is refused, and so only an item that is cut off can offend
    rw [hok]
    cases hfault : (Tokens.ofBytes bytes).fault with
    | none => exact .inl ⟨rfl, rfl, hd.saved.covered, hd.enclosing.covered⟩
    | some fault =>
        right
        refine ⟨_, fault, rfl, .of_fault hfault, fun j hj other => ?_⟩
        apply OffendsAt.not_of_covered _ _ hj (Nat.le_refl _)
        · simpa using hd.saved.covered
        · simpa using hd.enclosing.covered
  · rw [herr]
    right
    refine ⟨taken.length, fault, rfl, .of_refused hsplit hd hfeed, fun j hj other => ?_⟩
    have htake : (Tokens.ofBytes bytes).items.take taken.length = taken := by
      rw [hsplit, List.take_left]
    apply OffendsAt.not_of_covered _ _ hj
    · rw [hsplit, List.length_append]
      exact Nat.le_add_right _ _
    · rw [htake]
      exact hd.saved.covered
    · rw [htake]
      exact hd.enclosing.covered

/-- Decoding goes through exactly if the bytes are whole items which never close a bracket that they
have not opened. -/
theorem fault_decode_eq_none_iff (bytes : List UInt8) :
    (decode bytes).fault = none ↔ ∃ items : List ShortItem, (∀ x ∈ items, x.WellSized) ∧
      items.flatMap (·.bytes) = bytes ∧ Bracket.saving.Covered (items.map (·.item)) ∧
      Bracket.nesting.Covered (items.map (·.item)) := by
  constructor
  · intro hnone
    rcases fault_decode_cases bytes with ⟨-, hwhole, hsaving, hnesting⟩ | ⟨i, fault, hsome, -, -⟩
    · have hsplits := Tokens.splits_ofBytes bytes
      refine ⟨(Tokens.ofBytes bytes).items.map (·.toShortItem), ?_, ?_, ?_, ?_⟩
      · intro x hx
        obtain ⟨t, ht, rfl⟩ := List.mem_map.mp hx
        exact hsplits.wellSized t ht
      · rw [List.flatMap_map]
        exact hsplits.whole hwhole
      · rwa [List.map_map]
      · rwa [List.map_map]
    · rw [hnone] at hsome
      cases hsome
  · rintro ⟨items, hsized, rfl, hsaving, hnesting⟩
    -- the items come out again when their bytes are split
    have htokens := Tokens.ofBytesAt_flatMap hsized 0
    have hitems : (Tokens.place 0 items).map (·.item) = items.map (·.item) :=
      Tokens.map_place ShortItem.item 0 items
    rcases fault_decode_cases (items.flatMap (·.bytes)) with ⟨hnone, -⟩ | ⟨i, fault, -, hoff, -⟩
    · exact hnone
    · refine absurd hoff (OffendsAt.not_of_whole ?_ ?_ ?_) <;> rw [Tokens.ofBytes, htokens]
      · rwa [hitems]
      · rwa [hitems]

/-- The fault of decoding is that of the first place that offends. -/
theorem fault_decode_eq_some_iff (bytes : List UInt8) (fault : Fault) :
    (decode bytes).fault = some fault ↔
      ∃ i, OffendsAt bytes i fault ∧ ∀ j < i, ∀ other, ¬ OffendsAt bytes j other := by
  rcases fault_decode_cases bytes with
    ⟨hnone, hwhole, hsaving, hnesting⟩ | ⟨i, other, hsome, hoff, hfirst⟩
  · rw [hnone]
    constructor
    · intro h
      cases h
    · rintro ⟨k, hk, -⟩
      exact absurd hk (OffendsAt.not_of_whole hwhole hsaving hnesting)
  · rw [hsome]
    constructor
    · intro h
      cases h
      exact ⟨i, hoff, hfirst⟩
    · rintro ⟨k, hk, hkfirst⟩
      rw [hoff.first_unique hfirst hk hkfirst]

/-- **What is accepted, and what is the first fault.** A descriptor is decoded to its end exactly if
its bytes are whole items, written one behind the other, and no prefix of them closes more brackets
than it opens, each kind of bracket for itself. If not, the fault is that of the first item that
offends. The records count as a whole only where there is no fault. -/
theorem decode_accepts (bytes : List UInt8) :
    ((decode bytes).fault = none ↔ ∃ items : List ShortItem, (∀ x ∈ items, x.WellSized) ∧
        items.flatMap (·.bytes) = bytes ∧ Bracket.saving.Covered (items.map (·.item)) ∧
        Bracket.nesting.Covered (items.map (·.item))) ∧
      (∀ fault, (decode bytes).fault = some fault ↔
        ∃ i, OffendsAt bytes i fault ∧ ∀ j < i, ∀ other, ¬ OffendsAt bytes j other) ∧
      (∀ records, (decode bytes).whole = .ok records ↔
        (decode bytes).fault = none ∧ records = (decode bytes).records) ∧
      ∀ fault, (decode bytes).whole = .error fault ↔ (decode bytes).fault = some fault :=
  ⟨fault_decode_eq_none_iff bytes, fault_decode_eq_some_iff bytes,
    (decode bytes).whole_eq_ok_iff, (decode bytes).whole_eq_error_iff⟩

-- an End Collection too many comes before a Pop too many and an item that is cut off
example : (decode [0xa4, 0xc0, 0xb4, 0xb4, 0x26]).fault = some ⟨1, .endWithoutCollection⟩ := by
  decide +kernel

end HidDescriptor
