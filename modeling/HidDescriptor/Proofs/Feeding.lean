import HidDescriptor.Context
import HidDescriptor.Proofs.Bracket

/-! # Feeding on after faults

`Context.feedAll` does not stop at a fault. It keeps the context as it was before the token that was
refused, and has one result for each token.

What is between a Push and its Pop does not get at the tables that were saved before the Push. So it
makes no difference to it which tables these are, or if there are any (`Context.feedAll_above`), as
long as the Pops have enough tables of their own (`Context.Provides`). That is why a Push before, and
a Pop behind, leave no trace but the registers that they bring back (`Context.feedAll_enclosed`). -/

namespace HidDescriptor
namespace Context

variable {c d : Context} {t : Token} {ts : List Token}

/-! ## One token after the other -/

theorem feedAll_of_ok {record : Option Record} (h : c.feed t = .ok (d, record))
    (ts : List Token) :
    c.feedAll (t :: ts) = ((d.feedAll ts).1, .ok record :: (d.feedAll ts).2) := by
  rw [feedAll, h]

/-- After a fault, feeding goes on with the context before it. -/
theorem feedAll_of_error {fault : Fault} (h : c.feed t = .error fault) (ts : List Token) :
    c.feedAll (t :: ts) = ((c.feedAll ts).1, .error fault :: (c.feedAll ts).2) := by
  rw [feedAll, h]

theorem feedAll_append (c : Context) (ts us : List Token) :
    c.feedAll (ts ++ us) =
      (((c.feedAll ts).1.feedAll us).1, (c.feedAll ts).2 ++ ((c.feedAll ts).1.feedAll us).2) := by
  induction ts generalizing c with
  | nil => rfl
  | cons t ts ih =>
      rw [List.cons_append]
      cases hfeed : c.feed t with
      | error fault => rw [feedAll_of_error hfeed, feedAll_of_error hfeed, ih, List.cons_append]
      | ok taken =>
          obtain ⟨d, record⟩ := taken
          rw [feedAll_of_ok hfeed, feedAll_of_ok hfeed, ih, List.cons_append]

/-! ## Tables below -/

/-- The context, with tables below those that it has saved. -/
def above (c : Context) (below : List Globals) : Context := { c with saved := c.saved ++ below }

/-- The tables that have been saved are enough for the Pops among the items. -/
def Provides (c : Context) (l : List Item) : Prop :=
  ∀ n, 0 ≤ (c.saved.length : Int) + Bracket.saving.depth (l.take n)

theorem Provides.head {x : Item} {l : List Item} (h : c.Provides (x :: l)) :
    0 ≤ (c.saved.length : Int) + Bracket.saving.depth [x] := by
  simpa using h 1

theorem Provides.tail {x : Item} {l : List Item} (h : c.Provides (x :: l))
    (hd : (d.saved.length : Int) = c.saved.length + Bracket.saving.depth [x]) : d.Provides l := by
  intro n
  have hnext := h (n + 1)
  rw [List.take_succ_cons, Bracket.depth_cons] at hnext
  omega

/-- **One step**: what happens with a token does not depend on the tables below, and happens above
them. A token that is refused is no Pop. -/
theorem feed_above (h : 0 ≤ (c.saved.length : Int) + Bracket.saving.depth [t.item])
    (below : List Globals) :
    (∃ fault, c.feed t = .error fault ∧ (c.above below).feed t = .error fault ∧
        t.item ≠ .pop ∧ Bracket.saving.depth [t.item] = 0) ∨
      ∃ d record, c.feed t = .ok (d, record) ∧
        (c.above below).feed t = .ok (d.above below, record) ∧
        (t.item = .pop → record = none) ∧
        (d.saved.length : Int) = c.saved.length + Bracket.saving.depth [t.item] := by
  unfold feed
  generalize t.offset = offset
  cases hx : t.item with
  | endCollection =>
      cases hopen : c.enclosing with
      | nil =>
          left
          refine ⟨⟨offset, .endWithoutCollection⟩, ?_, ?_, by simp, rfl⟩
          · simp only [feedItem, hopen]
          · simp only [feedItem, above, hopen]
      | cons kind outer =>
          right
          refine ⟨{ c with locals := {}, enclosing := outer }, some .endCollection, ?_, ?_,
            by simp, (Int.add_zero _).symm⟩
          · simp only [feedItem, hopen]
          · simp only [feedItem, above, hopen]
  | pop =>
      rw [hx] at h
      cases hsaved : c.saved with
      | nil =>
          -- there would be a table to bring back
          rw [hsaved, Bracket.depth_close rfl] at h
          simp at h
      | cons globals saved =>
          right
          refine ⟨{ c with globals, saved }, none, ?_, ?_, fun _ => rfl, ?_⟩
          · simp only [feedItem, hsaved]
          · simp only [feedItem, above, hsaved, List.cons_append]
          · show (saved.length : Int) = _
            rw [Bracket.depth_close rfl, List.length_cons]
            omega
  | push =>
      right
      refine ⟨_, _, rfl, rfl, by simp, ?_⟩
      rw [Bracket.depth_open rfl]
      rfl
  | _ => exact .inr ⟨_, _, rfl, rfl, by simp, (Int.add_zero _).symm⟩

/-- **A run**: neither do the results of many tokens, and the tables below stay where they are. -/
theorem feedAll_above (h : c.Provides (ts.map (·.item))) (below : List Globals) :
    (c.above below).feedAll ts = ((c.feedAll ts).1.above below, (c.feedAll ts).2) ∧
      ((c.feedAll ts).1.saved.length : Int) =
        c.saved.length + Bracket.saving.depth (ts.map (·.item)) := by
  induction ts generalizing c with
  | nil => exact ⟨rfl, (Int.add_zero _).symm⟩
  | cons t ts ih =>
      rw [List.map_cons] at h ⊢
      rw [Bracket.depth_cons]
      rcases feed_above h.head below with
        ⟨fault, hfeed, habove, -, hdepth⟩ | ⟨d, record, hfeed, habove, -, hsaved⟩
      · obtain ⟨hrest, hlength⟩ := ih (h.tail (d := c) (by omega))
        rw [feedAll_of_error hfeed, feedAll_of_error habove, hrest]
        exact ⟨rfl, by rw [hlength]; omega⟩
      · obtain ⟨hrest, hlength⟩ := ih (h.tail hsaved)
        rw [feedAll_of_ok hfeed, feedAll_of_ok habove, hrest]
        exact ⟨rfl, by rw [hlength]; omega⟩

/-- No Pop is refused if there are tables enough. -/
theorem feedAll_of_pop (h : c.Provides (ts.map (·.item))) {i : Nat} (hi : ts[i]? = some t)
    (ht : t.item = .pop) : (c.feedAll ts).2[i]? = some (.ok none) := by
  induction ts generalizing c i with
  | nil => cases hi
  | cons s ts ih =>
      rw [List.map_cons] at h
      rcases feed_above h.head [] with
        ⟨fault, hfeed, -, hs, hdepth⟩ | ⟨d, record, hfeed, -, hs, hsaved⟩
      · rw [feedAll_of_error hfeed]
        cases i with
        | zero =>
            cases hi
            exact absurd ht hs
        | succ i => exact ih (h.tail (d := c) (by omega)) hi
      · rw [feedAll_of_ok hfeed]
        cases i with
        | zero =>
            cases hi
            rw [hs ht]
            rfl
        | succ i => exact ih (h.tail hsaved) hi

/-! ## Between Push and Pop -/

/-- Balanced items need no tables but their own. -/
theorem provides_of_balanced {l : List Item} (h : Bracket.saving.Balanced l) (c : Context) :
    c.Provides l := by
  intro n
  have hn := h.covered.take n
  omega

/-- **What a Push and its Pop enclose.** Between a Push and a Pop, tokens among which Push and Pop
are balanced do what they do alone, and have the results that they have alone, whatever they are:
those that are refused included. Only the global registers are, in the end, as they were before
the Push, and so are the tables that had been saved. No Pop is refused. -/
theorem feedAll_enclosed {opening closing : Token} (hopening : opening.item = .push)
    (hclosing : closing.item = .pop) (hts : Bracket.saving.Balanced (ts.map (·.item)))
    (c : Context) :
    c.feedAll (opening :: ts ++ [closing]) =
        ({ (c.feedAll ts).1 with globals := c.globals, saved := c.saved },
          .ok none :: (c.feedAll ts).2 ++ [.ok none]) ∧
      (c.feedAll ts).1.saved = c.saved ∧
      ∀ (i : Nat) (t : Token), ts[i]? = some t → t.item = .pop →
        (c.feedAll ts).2[i]? = some (.ok none) := by
  -- alone and between the brackets, the tokens are fed to the same context without tables, with
  -- different ones below
  let bare : Context := { c with saved := [] }
  obtain ⟨halone, hlength⟩ := feedAll_above (provides_of_balanced hts bare) c.saved
  obtain ⟨hinside, -⟩ := feedAll_above (provides_of_balanced hts bare) (c.globals :: c.saved)
  have hnone : (bare.feedAll ts).1.saved = [] := by
    apply List.eq_nil_of_length_eq_zero
    rw [hts.level] at hlength
    exact Int.ofNat.inj hlength
  have hpush : c.feed opening = .ok (bare.above (c.globals :: c.saved), none) := by
    rw [feed, hopening]
    rfl
  have hpop : ((bare.feedAll ts).1.above (c.globals :: c.saved)).feed closing =
      .ok ({ (bare.feedAll ts).1 with globals := c.globals, saved := c.saved }, none) := by
    rw [feed, hclosing]
    simp only [above, hnone, List.nil_append, feedItem]
  have hc : bare.above c.saved = c := rfl
  rw [hc] at halone
  rw [halone]
  refine ⟨?_, ?_, ?_⟩
  · rw [feedAll_append, feedAll_of_ok hpush, hinside, feedAll_of_ok hpop]
    rfl
  · simp only [above, hnone, List.nil_append]
  · intro i t hi ht
    exact feedAll_of_pop (provides_of_balanced hts bare) hi ht

/-- Between Push and Pop: a page, another Push with its Pop, an End Collection too many, a
collection that stays open, and a usage that waits for its Main item. -/
theorem feedAll_enclosed_nested :
    ∃ (c : Context) (opening closing : Token) (ts : List Token),
      c = ⟨{ usagePage := some 1 }, [{ reportSize := some 8 }], {}, []⟩ ∧
      opening.item = .push ∧ closing.item = .pop ∧ Bracket.saving.Balanced (ts.map (·.item)) ∧
      c.feedAll ts =
        (⟨{ usagePage := some 9 }, [{ reportSize := some 8 }], { usages := #[⟨none, 0x30⟩] },
            [⟨1⟩]⟩,
          [.ok (some (.usagePage 9)), .ok none, .ok none, .ok none,
            .error ⟨7, .endWithoutCollection⟩, .ok (some (.collection ⟨1⟩)),
            .ok (some (.usage ⟨none, 0x30⟩))]) ∧
      c.feedAll (opening :: ts ++ [closing]) =
        (⟨{ usagePage := some 1 }, [{ reportSize := some 8 }], { usages := #[⟨none, 0x30⟩] },
            [⟨1⟩]⟩,
          .ok none :: (c.feedAll ts).2 ++ [.ok none]) := by
  let c : Context := ⟨{ usagePage := some 1 }, [{ reportSize := some 8 }], {}, []⟩
  let opening : Token := ⟨⟨0xa4, []⟩, 0⟩
  let closing : Token := ⟨⟨0xb4, []⟩, 12⟩
  let ts : List Token := [⟨⟨0x05, [0x09]⟩, 1⟩, ⟨⟨0xa4, []⟩, 3⟩, ⟨⟨0x85, [0x02]⟩, 4⟩,
    ⟨⟨0xb4, []⟩, 6⟩, ⟨⟨0xc0, []⟩, 7⟩, ⟨⟨0xa1, [0x01]⟩, 8⟩, ⟨⟨0x09, [0x30]⟩, 10⟩]
  have hopening : opening.item = .push := by decide +kernel
  have hclosing : closing.item = .pop := by decide +kernel
  have hts : Bracket.saving.Balanced (ts.map (·.item)) := by decide +kernel
  have halone : c.feedAll ts = (⟨{ usagePage := some 9 }, [{ reportSize := some 8 }],
        { usages := #[⟨none, 0x30⟩] }, [⟨1⟩]⟩,
      [.ok (some (.usagePage 9)), .ok none, .ok none, .ok none,
        .error ⟨7, .endWithoutCollection⟩, .ok (some (.collection ⟨1⟩)),
        .ok (some (.usage ⟨none, 0x30⟩))]) := by
    decide +kernel
  obtain ⟨henclosed, -, -⟩ := feedAll_enclosed hopening hclosing hts c
  refine ⟨c, opening, closing, ts, rfl, hopening, hclosing, hts, halone, ?_⟩
  rw [henclosed, halone]

end Context
end HidDescriptor
