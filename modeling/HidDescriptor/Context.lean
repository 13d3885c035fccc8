import HidDescriptor.Record
import HidDescriptor.Token

/-!
# The decoding context

What a descriptor has said so far: the registers, the global registers that were saved, and the
collections that are open. `Context.feed` folds one token into it and tells the record of the
token, if it has one.

Only two items can fail, and only for want of a counterpart: Pop when nothing is saved, and End
Collection when nothing is open. A token that fails gives no new context, so the old one stays in
force, pending local registers included.
-/

namespace HidDescriptor

/-- The state of decoding between two items. -/
structure Context where
  globals : Globals := {}
  /-- The saved global registers, the last saved first. -/
  saved : List Globals := []
  locals : Locals := {}
  /-- The open collections, innermost first. -/
  enclosing : List Collection := []
  deriving DecidableEq, Repr

namespace Context

/-- The open collections, outermost first. -/
def collections (c : Context) : List Collection := c.enclosing.reverse

def pushDepth (c : Context) : Nat := c.saved.length

/-- The record of a field at this point of the descriptor. -/
def fieldRecord (c : Context) (offset : Nat) (direction : Direction) (flags : Flags) :
    FieldRecord where
  offset := offset
  direction := direction
  flags := flags
  globals := c.globals
  locals := c.locals
  collections := c.collections

/-- Folds an item that stands at `offset` into the context. Main items clear the local registers
after they have been used. -/
def feedItem (c : Context) (offset : Nat) : Item → Except Fault (Context × Option Record)
  | .field direction flags =>
    .ok ({ c with locals := {} }, some (.field (c.fieldRecord offset direction flags)))
  | .collection kind =>
    .ok ({ c with locals := {}, enclosing := kind :: c.enclosing }, some (.collection kind))
  | .endCollection =>
    match c.enclosing with
    | [] => .error ⟨offset, .endWithoutCollection⟩
    | _ :: outer => .ok ({ c with locals := {}, enclosing := outer }, some .endCollection)
  | .setGlobal r w =>
    .ok ({ c with globals := c.globals.set r w }, (r.assignedPage? w).map .usagePage)
  | .push => .ok ({ c with saved := c.globals :: c.saved }, none)
  | .pop =>
    match c.saved with
    | [] => .error ⟨offset, .popWithoutPush⟩
    | globals :: saved => .ok ({ c with globals, saved }, none)
  | .usage u => .ok ({ c with locals := c.locals.addUsage u }, some (.usage u))
  | .setLocal r w => .ok ({ c with locals := c.locals.set r w }, none)
  | .reserved _ => .ok (c, none)

/-- An End Collection that is taken closes the innermost collection. -/
theorem feedItem_endCollection_eq_ok {c d : Context} {offset : Nat} {record : Option Record}
    (h : c.feedItem offset .endCollection = .ok (d, record)) :
    ∃ kind outer, c.enclosing = kind :: outer ∧
      d = { c with locals := {}, enclosing := outer } ∧ record = some .endCollection := by
  simp only [feedItem] at h
  split at h
  · cases h
  · next kind outer hopen =>
    cases h
    exact ⟨kind, outer, hopen, rfl, rfl⟩

/-- A Pop that is taken brings back the globals that were saved last. -/
theorem feedItem_pop_eq_ok {c d : Context} {offset : Nat} {record : Option Record}
    (h : c.feedItem offset .pop = .ok (d, record)) :
    ∃ globals saved, c.saved = globals :: saved ∧ d = { c with globals, saved } ∧
      record = none := by
  simp only [feedItem] at h
  split at h
  · cases h
  · next globals saved hsaved =>
    cases h
    exact ⟨globals, saved, hsaved, rfl, rfl⟩

def feed (c : Context) (t : Token) : Except Fault (Context × Option Record) :=
  c.feedItem t.offset t.item

/-- Folds tokens into the context, and goes on after a fault with the context before it. -/
def feedAll (c : Context) : List Token → Context × List (Except Fault (Option Record))
  | [] => (c, [])
  | t :: ts =>
    match c.feed t with
    | .ok (d, record) =>
      let (stop, results) := feedAll d ts
      (stop, .ok record :: results)
    | .error fault =>
      let (stop, results) := feedAll c ts
      (stop, .error fault :: results)

end Context

end HidDescriptor
