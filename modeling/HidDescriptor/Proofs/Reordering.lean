import HidDescriptor.Proofs.ItemTable
import HidDescriptor.Proofs.Layout.Report
import HidDescriptor.Proofs.Layout.Grouping
import HidDescriptor.Proofs.Decoding

/-! # Items in another order

Of a descriptor, a layout gets to see the records of its fields, and whether there is a fault. Items
that are no Main items have no part in that but through the registers that they leave behind. So
where two of them work on registers of their own, they may stand in either order.

Each step of the argument is about what an item leaves behind (`Context.after?`). A global item does
not look at the local registers, nor does it change them (`after?_of_isGlobal`); a local item works
on nothing else (`after?_of_isLocal`); and assignments by items of different kinds commute
(`Globals.assign_comm`, `Locals.assign_comm`). What a run shows to the layout (`Run.gist`) depends on
such an item through the context behind it only (`Context.gist_of_not_main`). -/

namespace HidDescriptor

/-! ## Assignments -/

namespace Globals

/-- Different registers may be assigned in either order. -/
theorem set_comm (g : Globals) {r s : GlobalRegister} (h : r ≠ s) (w : r.Word) (v : s.Word) :
    (g.set r w).set s v = (g.set s v).set r w := by
  cases r <;> cases s <;> first | rfl | exact absurd rfl h

def assign (g : Globals) : Item → Globals
  | .setGlobal r w => g.set r w
  | _ => g

/-- Items of the global type with different codes may be assigned in either order. -/
theorem assign_comm (g : Globals) {x y : Item} {p q : UInt8} (hx : x.HasCode p) (hy : y.HasCode q)
    (h : p ≠ q) : (g.assign x).assign y = (g.assign y).assign x := by
  cases x with
  | setGlobal r w =>
      cases y with
      | setGlobal s v =>
          have hrs : r ≠ s := by
            rintro rfl
            exact h (Eq.trans hx (Eq.symm hy))
          exact g.set_comm hrs w v
      | _ => rfl
  | _ => rfl

end Globals

namespace Locals

theorem set_comm (l : Locals) {r s : LocalRegister} (h : r ≠ s) (w v : UInt32) :
    (l.set r w).set s v = (l.set s v).set r w := by
  cases r <;> cases s <;> first | rfl | exact absurd rfl h

theorem addUsage_set (l : Locals) (u : LocalUsage) (r : LocalRegister) (w : UInt32) :
    (l.addUsage u).set r w = (l.set r w).addUsage u := by
  cases r <;> rfl

def assign (l : Locals) : Item → Locals
  | .usage u => l.addUsage u
  | .setLocal r w => l.set r w
  | _ => l

/-- Items of the local type with different codes may be assigned in either order, a usage among
them. -/
theorem assign_comm (l : Locals) {x y : Item} {p q : UInt8} (hx : x.HasCode p) (hy : y.HasCode q)
    (h : p ≠ q) : (l.assign x).assign y = (l.assign y).assign x := by
  cases x with
  | usage u =>
      cases y with
      | usage v => exact absurd (Eq.trans hx (Eq.symm hy)) h
      | setLocal r w => exact l.addUsage_set u r w
      | _ => rfl
  | setLocal r w =>
      cases y with
      | usage u => exact (l.addUsage_set u r w).symm
      | setLocal s v =>
          have hrs : r ≠ s := by
            rintro rfl
            exact h (Eq.trans hx (Eq.symm hy))
          exact l.set_comm hrs w v
      | _ => rfl
  | _ => rfl

end Locals

/-! ## Global and local items -/

namespace Item

def isGlobal : Item → Bool
  | .setGlobal .. | .push | .pop | .reserved (.globalTag _) => true
  | _ => false

def isLocal : Item → Bool
  | .usage _ | .setLocal .. | .reserved (.localTag _) => true
  | _ => false

theorem isMain_of_isGlobal {x : Item} (h : x.isGlobal = true) : x.isMain = false := by
  cases x <;> first | rfl | cases h

theorem isMain_of_isLocal {x : Item} (h : x.isLocal = true) : x.isMain = false := by
  cases x <;> first | rfl | cases h

end Item

namespace ShortItem

variable {s t : ShortItem}

theorem isGlobal_item (h : s.type = .globalItem) : s.item.isGlobal = true := by
  have hmeaning : s.item = s.globalMeaning := by rw [item, h]
  rw [hmeaning, globalMeaning]
  split
  · rfl
  · split <;> rfl

theorem isLocal_item (h : s.type = .localItem) : s.item.isLocal = true := by
  have hmeaning : s.item = s.localMeaning := by rw [item, h]
  rw [hmeaning, localMeaning]
  split
  · rfl
  · split <;> rfl

/-- The items work on registers of their own: one is global and the other local, or both are of one
type and of different kinds, none of them a Push or Pop. -/
inductive Independent (s t : ShortItem) : Prop
  | globalLocal (hs : s.type = .globalItem) (ht : t.type = .localItem)
  | localGlobal (hs : s.type = .localItem) (ht : t.type = .globalItem)
  | globals (hs : s.type = .globalItem) (ht : t.type = .globalItem) (hcode : s.code ≠ t.code)
      (hsaving : ∀ x ∈ [s, t], x.item ≠ .push ∧ x.item ≠ .pop)
  | locals (hs : s.type = .localItem) (ht : t.type = .localItem) (hcode : s.code ≠ t.code)

theorem Independent.isMain (h : s.Independent t) :
    s.item.isMain = false ∧ t.item.isMain = false := by
  cases h with
  | globalLocal hs ht =>
      exact ⟨Item.isMain_of_isGlobal (isGlobal_item hs), Item.isMain_of_isLocal (isLocal_item ht)⟩
  | localGlobal hs ht =>
      exact ⟨Item.isMain_of_isLocal (isLocal_item hs), Item.isMain_of_isGlobal (isGlobal_item ht)⟩
  | globals hs ht =>
      exact ⟨Item.isMain_of_isGlobal (isGlobal_item hs), Item.isMain_of_isGlobal (isGlobal_item ht)⟩
  | locals hs ht =>
      exact ⟨Item.isMain_of_isLocal (isLocal_item hs), Item.isMain_of_isLocal (isLocal_item ht)⟩

end ShortItem

/-! ## What an item leaves behind -/

namespace Context

variable {c d : Context} {x y : Item}

/-- The context after the item, unless the item is refused. -/
def after? (c : Context) (x : Item) : Option Context := (c.feedItem 0 x).toOption.map (·.1)

/-- A global item does not look at the local registers, and leaves them as they are. -/
theorem after?_of_isGlobal (hx : x.isGlobal = true) (c : Context) (locals : Locals) :
    { c with locals }.after? x = (c.after? x).map ({ · with locals }) := by
  cases x with
  | pop =>
      unfold after? feedItem
      cases c.saved <;> rfl
  | _ => first | rfl | cases hx

theorem locals_of_isGlobal (hx : x.isGlobal = true) (h : c.after? x = some d) :
    d.locals = c.locals := by
  have hsame := after?_of_isGlobal hx c c.locals
  rw [h] at hsame
  have hd : d = { d with locals := c.locals } := Option.some.inj hsame
  rw [hd]

/-- If it is neither Push nor Pop, it works on the global registers only. -/
theorem after?_of_assigning (hx : x.isGlobal = true) (hsaving : x ≠ .push ∧ x ≠ .pop)
    (c : Context) : c.after? x = some { c with globals := c.globals.assign x } := by
  cases x with
  | push => exact absurd rfl hsaving.1
  | pop => exact absurd rfl hsaving.2
  | _ => first | rfl | cases hx

/-- A local item works on the local registers only. -/
theorem after?_of_isLocal (hx : x.isLocal = true) (c : Context) :
    c.after? x = some { c with locals := c.locals.assign x } := by
  cases x <;> first | rfl | cases hx

/-- The global and the local registers do not see each other. -/
theorem after?_comm_of_isGlobal (hx : x.isGlobal = true) (hy : y.isLocal = true) (c : Context) :
    (c.after? x).bind (·.after? y) = (c.after? y).bind (·.after? x) := by
  have hother := after?_of_isGlobal hx c (c.locals.assign y)
  rw [after?_of_isLocal hy, Option.bind_some, hother]
  cases h : c.after? x with
  | none => rfl
  | some d =>
      rw [Option.bind_some, after?_of_isLocal hy, locals_of_isGlobal hx h]
      rfl

/-- **Independent items leave the same behind in either order.** -/
theorem after?_comm {s t : ShortItem} (h : s.Independent t) (c : Context) :
    (c.after? s.item).bind (·.after? t.item) = (c.after? t.item).bind (·.after? s.item) := by
  cases h with
  | globalLocal hs ht => exact after?_comm_of_isGlobal (s.isGlobal_item hs) (t.isLocal_item ht) c
  | localGlobal hs ht =>
      exact (after?_comm_of_isGlobal (t.isGlobal_item ht) (s.isLocal_item hs) c).symm
  | globals hs ht hcode hsaving =>
      have hs' := after?_of_assigning (s.isGlobal_item hs) (hsaving s (by simp))
      have ht' := after?_of_assigning (t.isGlobal_item ht) (hsaving t (by simp))
      rw [hs', ht', Option.bind_some, Option.bind_some, hs', ht',
        c.globals.assign_comm s.hasCode_item t.hasCode_item hcode]
  | locals hs ht hcode =>
      have hs' := after?_of_isLocal (s.isLocal_item hs)
      have ht' := after?_of_isLocal (t.isLocal_item ht)
      rw [hs', ht', Option.bind_some, Option.bind_some, hs', ht',
        c.locals.assign_comm s.hasCode_item t.hasCode_item hcode]

end Context

/-! ## What the layout gets to see -/

/-- The records of the fields, and the context in the end unless the run was refused. -/
def Run.gist (r : Run) : List FieldRecord × Option Context :=
  (Layout.fieldRecords r.records, r.outcome.toOption)

namespace Context

variable {c : Context} {ts us : List Token}

/-- **One step**: the rest of a run depends on what the item leaves behind. -/
theorem gist_of_not_main {t : Token} (ht : t.item.isMain = false) (c : Context)
    (ts : List Token) :
    (c.run (t :: ts)).gist = (c.after? t.item).elim ([], none) fun d => (d.run ts).gist := by
  have hfeed : c.feed t = c.feedItem t.offset t.item := rfl
  generalize t.item = x at ht hfeed
  cases x with
  | pop =>
      rw [feedItem] at hfeed
      unfold after? feedItem
      cases hsaved : c.saved with
      | nil =>
          rw [hsaved] at hfeed
          rw [run_of_error hfeed]
          rfl
      | cons globals saved =>
          rw [hsaved] at hfeed
          rw [run_of_ok hfeed]
          rfl
  | setGlobal r w =>
      rw [run_of_ok hfeed]
      cases r <;> rfl
  | push | usage _ | setLocal _ _ | reserved _ =>
      rw [run_of_ok hfeed]
      rfl
  | field _ _ | collection _ | endCollection => cases ht

/-- **A run**: what comes before two runs does not tell them apart. -/
theorem gist_append (h : ∀ c : Context, (c.run ts).gist = (c.run us).gist) (c : Context)
    (before : List Token) : (c.run (before ++ ts)).gist = (c.run (before ++ us)).gist := by
  cases houtcome : (c.run before).outcome with
  | error fault => rw [run_append_of_error houtcome, run_append_of_error houtcome]
  | ok d =>
      have hd := h d
      simp only [Run.gist, Prod.mk.injEq] at hd
      obtain ⟨hfields, hcontext⟩ := hd
      rw [run_append_of_ok houtcome, run_append_of_ok houtcome]
      simp only [Run.gist, Layout.fieldRecords, List.filterMap_append] at hfields ⊢
      rw [hfields, hcontext]

/-- Two items that are no Main items add nothing to the gist but what they do to the context. -/
theorem gist_pair {s t : ShortItem} (hs : s.item.isMain = false) (ht : t.item.isMain = false)
    (i j : Nat) (c : Context) (ts : List Token) :
    (c.run (⟨s, i⟩ :: ⟨t, j⟩ :: ts)).gist =
      ((c.after? s.item).bind (·.after? t.item)).elim ([], none) fun d => (d.run ts).gist := by
  rw [gist_of_not_main (t := ⟨s, i⟩) hs]
  cases c.after? s.item with
  | none => rfl
  | some d => exact gist_of_not_main (t := ⟨t, j⟩) ht d ts

/-- Wherever they stand, independent items can be taken in either order. -/
theorem gist_swap {s t : ShortItem} (h : s.Independent t) (i j i' j' : Nat) (c : Context)
    (ts : List Token) :
    (c.run (⟨s, i⟩ :: ⟨t, j⟩ :: ts)).gist = (c.run (⟨t, i'⟩ :: ⟨s, j'⟩ :: ts)).gist := by
  obtain ⟨hs, ht⟩ := h.isMain
  rw [gist_pair hs ht, gist_pair ht hs, after?_comm h]

end Context

/-! ## The layout -/

variable {before bytes bytes' : List UInt8} {s t : ShortItem} {l : Layout}

/-- Two items among others are read where they stand. -/
theorem Tokens.ofBytes_pair (hbefore : (Tokens.ofBytes before).fault = none) (hs : s.WellSized)
    (ht : t.WellSized) (after : List UInt8) :
    Tokens.ofBytes (before ++ s.bytes ++ t.bytes ++ after) =
      ⟨(Tokens.ofBytes before).items ++ ⟨s, before.length⟩ :: ⟨t, before.length + s.size⟩ ::
          (ofBytesAt (before.length + (s.size + t.size)) after).items,
        (ofBytesAt (before.length + (s.size + t.size)) after).fault⟩ := by
  rw [List.append_assoc, List.append_assoc, ofBytes_append_of_whole hbefore, ofBytesAt_append hs,
    ofBytesAt_append ht, Nat.add_assoc]

/-- Only field records count for the layout. -/
theorem Layout.ofRecords_eq_foldlM (records : List Record) :
    ofRecords records = (fieldRecords records).foldlM add {} := by
  rw [ofRecords]
  generalize ({} : Layout) = l
  induction records generalizing l with
  | nil => rfl
  | cons record records ih =>
      cases record with
      | field f =>
          show (l.add f >>= fun l => records.foldlM addRecord l) =
            l.add f >>= fun l => (fieldRecords records).foldlM add l
          rw [funext ih]
      | _ => exact ih l

/-- The layout and its absence are told by the field records, and by whether there is a fault. -/
theorem Layout.ofBytes_eq_ok_iff :
    ofBytes bytes = .ok l ↔ (decode bytes).fault = none ∧
      (fieldRecords (decode bytes).records).foldlM add {} = .ok l := by
  rw [ofBytes, Decoded.whole, ← ofRecords_eq_foldlM]
  cases (decode bytes).fault with
  | none => exact ⟨fun h => ⟨rfl, h⟩, fun h => h.2⟩
  | some fault =>
      constructor
      · intro h
        cases h
      · rintro ⟨h, -⟩
        cases h

theorem fault_decode_none_iff_run (bytes : List UInt8) :
    (decode bytes).fault = none ↔
      (Context.run {} (Tokens.ofBytes bytes).items).outcome.toOption.isSome ∧
        (Tokens.ofBytes bytes).fault = none := by
  rw [fault_decode]
  cases (Context.run {} (Tokens.ofBytes bytes).items).outcome <;> simp [Except.toOption]

/-- Runs with the same gist come to the same field records, and both to a fault or both to none. -/
theorem decode_of_gist
    (hrun : (Context.run {} (Tokens.ofBytes bytes).items).gist =
      (Context.run {} (Tokens.ofBytes bytes').items).gist)
    (hfault : (Tokens.ofBytes bytes).fault = (Tokens.ofBytes bytes').fault) :
    ((decode bytes).fault = none ↔ (decode bytes').fault = none) ∧
      Layout.fieldRecords (decode bytes).records =
        Layout.fieldRecords (decode bytes').records := by
  simp only [Run.gist, Prod.mk.injEq] at hrun
  obtain ⟨hfields, hcontext⟩ := hrun
  rw [fault_decode_none_iff_run, fault_decode_none_iff_run, records_decode, records_decode,
    hcontext, hfault, hfields]
  exact ⟨Iff.rfl, rfl⟩

/-- **The order of independent items does not matter.** Behind whole items, two items that work on
registers of their own may change places. There is a layout in the one order if and only if there
is one in the other, and it is the same. The records of the fields are the same as well, each with
its offset and with all that applies to it, and so is whether there is a fault. -/
theorem Layout.ofBytes_swap (hbefore : (Tokens.ofBytes before).fault = none) (hs : s.WellSized)
    (ht : t.WellSized) (h : s.Independent t) (after : List UInt8) :
    (∀ l, ofBytes (before ++ s.bytes ++ t.bytes ++ after) = .ok l ↔
        ofBytes (before ++ t.bytes ++ s.bytes ++ after) = .ok l) ∧
      ((decode (before ++ s.bytes ++ t.bytes ++ after)).fault = none ↔
        (decode (before ++ t.bytes ++ s.bytes ++ after)).fault = none) ∧
      fieldRecords (decode (before ++ s.bytes ++ t.bytes ++ after)).records =
        fieldRecords (decode (before ++ t.bytes ++ s.bytes ++ after)).records := by
  have hst := Tokens.ofBytes_pair hbefore hs ht after
  have hts := Tokens.ofBytes_pair hbefore ht hs after
  rw [Nat.add_comm t.size] at hts
  obtain ⟨hfault, hfields⟩ : ((decode (before ++ s.bytes ++ t.bytes ++ after)).fault = none ↔
        (decode (before ++ t.bytes ++ s.bytes ++ after)).fault = none) ∧
      fieldRecords (decode (before ++ s.bytes ++ t.bytes ++ after)).records =
        fieldRecords (decode (before ++ t.bytes ++ s.bytes ++ after)).records := by
    apply decode_of_gist
    · rw [hst, hts]
      apply Context.gist_append
      intro c
      exact Context.gist_swap h _ _ _ _ c _
    · rw [hst, hts]
  refine ⟨?_, hfault, hfields⟩
  intro l
  rw [ofBytes_eq_ok_iff, ofBytes_eq_ok_iff, hfault, hfields]

/-- A usage and the page behind it. The usage is on that page, and not on the one before it. -/
theorem Layout.ofBytes_swap_pageBehind :
    ∃ (before : List UInt8) (s t : ShortItem) (after : List UInt8) (l : Layout),
      s.item = .usage ⟨none, 0x30⟩ ∧ t.item = .setGlobal .usagePage 0x0c ∧ s.Independent t ∧
      (decode before).records = [.usagePage 1] ∧
      ofBytes (before ++ s.bytes ++ t.bytes ++ after) = .ok l ∧
      ofBytes (before ++ t.bytes ++ s.bytes ++ after) = .ok l ∧
      l.reports.map (·.fields) = [#[⟨⟨0, 7⟩, ⟨.input, none⟩,
        .variableOf ⟨0x0c, 0x30⟩ ⟨⟨0, 127⟩, none, none, none, []⟩⟩]] := by
  let before : List UInt8 := [0x05, 0x01, 0x75, 0x08, 0x95, 0x01, 0x15, 0x00, 0x25, 0x7f]
  let s : ShortItem := ⟨0x09, [0x30]⟩
  let t : ShortItem := ⟨0x05, [0x0c]⟩
  have hbefore : (Tokens.ofBytes before).fault = none := by decide +kernel
  have h : s.Independent t := .localGlobal (by decide) (by decide)
  have hlayout : ofBytes (before ++ s.bytes ++ t.bytes ++ [0x81, 0x02]) =
      .ok ⟨[⟨⟨.input, none⟩, 8, #[⟨⟨0, 7⟩, ⟨.input, none⟩,
        .variableOf ⟨0x0c, 0x30⟩ ⟨⟨0, 127⟩, none, none, none, []⟩⟩]⟩]⟩ := by
    decide +kernel
  obtain ⟨hswap, -, -⟩ := ofBytes_swap hbefore (by decide) (by decide) h [0x81, 0x02]
  exact ⟨before, s, t, [0x81, 0x02], _, by decide +kernel, by decide +kernel, h, by decide +kernel,
    hlayout, (hswap _).mp hlayout, rfl⟩

end HidDescriptor
