import HidDescriptor.Context
import HidDescriptor.Proofs.Bracket
import Mathlib.Data.List.DropRight

/-! # What the items so far have said

`Context.feedItem` folds one item after the other into registers and stacks. This file says what
has to be in them, in terms of the whole list of items so far and without a state: a global
register holds the word of the last item that assigns it, passing over what was enclosed by a Push
and its Pop; a collection is open if its End Collection has not come; and the local registers and
usages are those of the items since the last Main item.

Main statement: `Context.Follows`, that a context holds exactly this, is kept by every item that
the context takes (`Follows.feedItem`). The invariant has to speak of the saved tables as well:
each is what the history said when its Push came. -/

namespace HidDescriptor

namespace Item

def globalWord? (r : GlobalRegister) : Item → Option r.Word
  | .setGlobal s w => if h : s = r then some (h ▸ w) else none
  | _ => none

def localWord? (r : LocalRegister) : Item → Option UInt32
  | .setLocal s w => if s = r then some w else none
  | _ => none

def usage? : Item → Option LocalUsage
  | .usage u => some u
  | _ => none

def collection? : Item → Option Collection
  | .collection kind => some kind
  | _ => none

theorem globalWord?_self (r : GlobalRegister) (w : r.Word) :
    (setGlobal r w).globalWord? r = some w := by
  simp [globalWord?]

theorem globalWord?_of_ne {r s : GlobalRegister} (h : s ≠ r) (w : s.Word) :
    (setGlobal s w).globalWord? r = none := by
  simp [globalWord?, h]

/-- No other item puts a word into the register. -/
theorem eq_of_globalWord? {x : Item} {r : GlobalRegister} {w : r.Word}
    (h : x.globalWord? r = some w) : x = .setGlobal r w := by
  cases x with
  | setGlobal s v =>
      by_cases hs : s = r
      · subst hs
        rw [globalWord?_self, Option.some.injEq] at h
        rw [h]
      · rw [globalWord?_of_ne hs] at h
        cases h
  | _ => cases h

end Item

namespace History

/-- The word of the last item that assigns the register and is not enclosed by a Push and its
Pop. -/
def global? (h : List Item) (r : GlobalRegister) : Option r.Word :=
  ((Bracket.saving.live h).filterMap (·.globalWord? r)).getLast?

/-- The collections without their End Collection, outermost first. -/
def collections (h : List Item) : List Collection :=
  (Bracket.nesting.opened h).filterMap (·.collection?)

def sinceMain (h : List Item) : List Item := h.rtakeWhile fun x => !x.isMain

def usages (h : List Item) : List LocalUsage := (sinceMain h).filterMap (·.usage?)

/-- The word of the last item since the last Main item that assigns the register. -/
def local? (h : List Item) (r : LocalRegister) : Option UInt32 :=
  ((sinceMain h).filterMap (·.localWord? r)).getLast?

/-! ## One more item -/

variable {h : List Item} {x : Item}

/-- An item other than Pop is live, so what it assigns is what stands in the register. -/
theorem global?_concat (hx : Bracket.saving.closes x = false) (r : GlobalRegister) :
    global? (h ++ [x]) r = (x.globalWord? r).or (global? h r) := by
  rw [global?, Bracket.live_append (Bracket.covered_singleton hx), Bracket.live_singleton,
    List.filterMap_append, List.getLast?_append]
  cases hw : x.globalWord? r <;> simp [hw, global?]

/-- A word is in a register because an item has put it there. -/
theorem mem_of_global? {r : GlobalRegister} {w : r.Word} (hw : global? h r = some w) :
    .setGlobal r w ∈ h := by
  obtain ⟨y, hy, hword⟩ := List.mem_filterMap.mp (List.mem_of_getLast? hw)
  rw [← Item.eq_of_globalWord? hword]
  exact Bracket.mem_of_mem_select hy

/-- After a Pop the registers are as they were before its Push. -/
theorem global?_append_pair {o c : Item} {m : List Item} (ho : Bracket.saving.opens o = true)
    (hm : Bracket.saving.Balanced m) (hc : Bracket.saving.closes c = true) (r : GlobalRegister) :
    global? (h ++ (o :: m ++ [c])) r = global? h r := by
  have howord : o.globalWord? r = none := by cases o <;> first | rfl | cases ho
  have hcword : c.globalWord? r = none := by cases c <;> first | rfl | cases hc
  rw [global?, Bracket.live_append (Bracket.Balanced.pair ho hm hc).covered,
    Bracket.live_pair ho hm hc]
  simp [global?, howord, hcword]

theorem sinceMain_concat_main (hx : x.isMain = true) : sinceMain (h ++ [x]) = [] :=
  List.rtakeWhile_concat_neg _ _ _ (by simp [hx])

theorem sinceMain_concat (hx : x.isMain = false) : sinceMain (h ++ [x]) = sinceMain h ++ [x] :=
  List.rtakeWhile_concat_pos _ _ _ (by simp [hx])

theorem usages_concat (hx : x.isMain = false) :
    usages (h ++ [x]) = usages h ++ x.usage?.toList := by
  rw [usages, sinceMain_concat hx, List.filterMap_append]
  cases hu : x.usage? <;> simp [hu, usages]

/-- The last item that assigns the register counts. -/
theorem local?_concat (hx : x.isMain = false) (r : LocalRegister) :
    local? (h ++ [x]) r = (x.localWord? r).or (local? h r) := by
  rw [local?, sinceMain_concat hx, List.filterMap_append, List.getLast?_append]
  cases hw : x.localWord? r <;> simp [hw, local?]

end History

/-! ## Contexts and histories -/

namespace Globals

/-- The registers hold what the items so far have put into them. -/
def Recalls (g : Globals) (h : List Item) : Prop := ∀ r, g.get r = History.global? h r

variable {g : Globals} {h : List Item}

/-- An item that neither assigns a global register nor closes a Push makes no difference. -/
theorem Recalls.concat {x : Item} (hg : g.Recalls h) (hx : Bracket.saving.closes x = false)
    (hword : ∀ r, x.globalWord? r = none) : g.Recalls (h ++ [x]) := by
  intro r
  rw [History.global?_concat hx, hword r]
  exact hg r

/-- What was assigned last is recalled at its register, and the other registers are as they were. -/
theorem Recalls.set (hg : g.Recalls h) (r : GlobalRegister) (w : r.Word) :
    (g.set r w).Recalls (h ++ [.setGlobal r w]) := by
  intro s
  rw [History.global?_concat rfl]
  by_cases hs : r = s
  · subst hs
    rw [get_set_self, Item.globalWord?_self]
    rfl
  · rw [get_set_of_ne g hs, Item.globalWord?_of_ne hs]
    exact hg s

end Globals

namespace Locals

/-- The usages and registers are those of the items since the last Main item. -/
structure Recalls (l : Locals) (h : List Item) : Prop where
  usages : l.usages.toList = History.usages h
  get : ∀ r, l.get r = History.local? h r

variable {l : Locals} {h : List Item}

/-- An item that is no Main item and puts nothing into the local registers makes no difference. -/
theorem Recalls.concat {x : Item} (hl : l.Recalls h) (hx : x.isMain = false)
    (husage : x.usage? = none) (hword : ∀ r, x.localWord? r = none) : l.Recalls (h ++ [x]) where
  usages := by
    rw [History.usages_concat hx, husage, hl.usages]
    simp
  get r := by
    rw [History.local?_concat hx, hword r]
    exact hl.get r

theorem recalls_concat_main {x : Item} (hx : x.isMain = true) : Recalls {} (h ++ [x]) where
  usages := by rw [History.usages, History.sinceMain_concat_main hx]; rfl
  get r := by rw [History.local?, History.sinceMain_concat_main hx]; cases r <;> rfl

theorem Recalls.addUsage (hl : l.Recalls h) (u : LocalUsage) :
    (l.addUsage u).Recalls (h ++ [.usage u]) where
  usages := by
    rw [History.usages_concat rfl, usages_addUsage, Array.toList_push, hl.usages]
    rfl
  get r := by
    rw [History.local?_concat rfl, get_addUsage]
    exact hl.get r

theorem Recalls.set (hl : l.Recalls h) (r : LocalRegister) (w : UInt32) :
    (l.set r w).Recalls (h ++ [.setLocal r w]) where
  usages := by
    rw [History.usages_concat rfl, usages_set, hl.usages]
    simp [Item.usage?]
  get s := by
    rw [History.local?_concat rfl]
    by_cases hs : r = s
    · subst hs
      simp [Item.localWord?]
    · rw [get_set_of_ne l hs, hl.get s]
      simp [Item.localWord?, hs]

end Locals

namespace Context

/-- **The context holds what the items so far have said.** -/
structure Follows (c : Context) (h : List Item) : Prop where
  globals : c.globals.Recalls h
  /-- Each saved table is what the items before its Push had said. -/
  saved : Bracket.saving.Stack (fun g _ table => table.Recalls g) h c.saved
  enclosing : Bracket.nesting.Stack (fun _ o kind => o = .collection kind) h c.enclosing
  locals : c.locals.Recalls h

theorem follows_nil : Follows {} [] where
  globals r := by cases r <;> rfl
  saved := .nil Bracket.balanced_nil
  enclosing := .nil Bracket.balanced_nil
  locals := ⟨rfl, fun r => by cases r <;> rfl⟩

variable {c d : Context} {h : List Item} {x : Item} {offset : Nat} {record : Option Record}

/-- The open collections are those that have no End Collection. -/
theorem Follows.collections (hc : c.Follows h) : c.collections = History.collections h := by
  rw [Context.collections, History.collections, hc.enclosing.filterMap_opened]
  rintro _ _ kind rfl
  rfl

/-- **One step**: a context that takes an item follows the history with that item. -/
theorem Follows.feedItem (hc : c.Follows h) (hfeed : c.feedItem offset x = .ok (d, record)) :
    d.Follows (h ++ [x]) := by
  obtain ⟨hglobals, hsaved, henclosing, hlocals⟩ := hc
  -- an item leaves the stacks alone unless it is one of their brackets
  have hsaved' : Bracket.saving.opens x = false → Bracket.saving.closes x = false → _ :=
    fun ho hcl => hsaved.append (Bracket.balanced_singleton ho hcl)
  have henclosing' : Bracket.nesting.opens x = false → Bracket.nesting.closes x = false → _ :=
    fun ho hcl => henclosing.append (Bracket.balanced_singleton ho hcl)
  cases x with
  | field direction flags =>
      cases hfeed
      exact ⟨hglobals.concat rfl fun _ => rfl, hsaved' rfl rfl, henclosing' rfl rfl,
        Locals.recalls_concat_main rfl⟩
  | collection kind =>
      cases hfeed
      exact ⟨hglobals.concat rfl fun _ => rfl, hsaved' rfl rfl, henclosing.push rfl rfl,
        Locals.recalls_concat_main rfl⟩
  | endCollection =>
      obtain ⟨kind, outer, hopen, rfl, -⟩ := feedItem_endCollection_eq_ok hfeed
      rw [hopen] at henclosing
      exact ⟨hglobals.concat rfl fun _ => rfl, hsaved' rfl rfl, (henclosing.pop rfl).1,
        Locals.recalls_concat_main rfl⟩
  | setGlobal r w =>
      cases hfeed
      exact ⟨hglobals.set r w, hsaved' rfl rfl, henclosing' rfl rfl,
        hlocals.concat rfl rfl fun _ => rfl⟩
  | push =>
      cases hfeed
      exact ⟨hglobals.concat rfl fun _ => rfl, hsaved.push rfl hglobals, henclosing' rfl rfl,
        hlocals.concat rfl rfl fun _ => rfl⟩
  | pop =>
      obtain ⟨table, rest, hopen, rfl, -⟩ := feedItem_pop_eq_ok hfeed
      rw [hopen] at hsaved
      -- the table that comes back is the one of the matching Push
      obtain ⟨hrest, g, o, m, hsplit, ho, hm, htable⟩ := hsaved.pop (c := .pop) rfl
      refine ⟨fun r => ?_, hrest, henclosing' rfl rfl, hlocals.concat rfl rfl fun _ => rfl⟩
      rw [hsplit, History.global?_append_pair ho hm rfl]
      exact htable r
  | usage u =>
      cases hfeed
      exact ⟨hglobals.concat rfl fun _ => rfl, hsaved' rfl rfl, henclosing' rfl rfl,
        hlocals.addUsage u⟩
  | setLocal r w =>
      cases hfeed
      exact ⟨hglobals.concat rfl fun _ => rfl, hsaved' rfl rfl, henclosing' rfl rfl,
        hlocals.set r w⟩
  | reserved place =>
      cases hfeed
      exact ⟨hglobals.concat rfl fun _ => rfl, hsaved' rfl rfl, henclosing' rfl rfl,
        hlocals.concat rfl rfl fun _ => rfl⟩

end Context

end HidDescriptor
