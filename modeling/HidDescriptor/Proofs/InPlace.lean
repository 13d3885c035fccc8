import HidDescriptor.Proofs.Decoding
import HidDescriptor.Proofs.Feeding

/-! # Feeding in place

`Context.feed` makes a new context or none at all, so a fault cannot leave half of a change behind.
Whoever keeps the context in a variable and writes to it step by step has no such guarantee: a table
is taken off the saved ones and then found missing, the local registers are cleared or not. Here the
feeding is done that way. A fault leaves the variable as the writes so far have made it.

The order of the writes is right: where a token is refused, the writes so far have changed nothing
(`InPlace.run_feed`). So a refused token might as well not have been there. If all refused tokens are
taken out of a list, the same context comes out in the end, and every other token has the result
that it had (`feed_refused_no_trace`). -/

namespace HidDescriptor
namespace Context
namespace InPlace

/-! ## The writes of an item -/

/-- Takes the table that was saved last off the saved ones, if there is one. -/
def takeSaved : EStateM Fault Context (Option Globals) :=
  modifyGet fun c => (c.saved.head?, { c with saved := c.saved.tail })

/-- Takes the innermost collection off the open ones, if there is one. -/
def takeCollection : EStateM Fault Context (Option Collection) :=
  modifyGet fun c => (c.enclosing.head?, { c with enclosing := c.enclosing.tail })

/-- What was taken, or the fault if there was nothing to take. -/
def orFault {α : Type} (fault : Fault) : Option α → EStateM Fault Context α
  | some a => pure a
  | none => throw fault

def clearLocals : EStateM Fault Context Unit := modify fun c => { c with locals := {} }

/-- Folds an item that stands at `offset` into the context, which is written to as it goes. -/
def feedItem (offset : Nat) : Item → EStateM Fault Context (Option Record)
  | .field direction flags => do
    let record := (← get).fieldRecord offset direction flags
    clearLocals
    return some (.field record)
  | .collection kind => do
    modify fun c => { c with enclosing := kind :: c.enclosing }
    clearLocals
    return some (.collection kind)
  | .endCollection => do
    let _ ← orFault ⟨offset, .endWithoutCollection⟩ (← takeCollection)
    clearLocals
    return some .endCollection
  | .setGlobal r w => do
    modify fun c => { c with globals := c.globals.set r w }
    return (r.assignedPage? w).map .usagePage
  | .push => do
    modify fun c => { c with saved := c.globals :: c.saved }
    return none
  | .pop => do
    let globals ← orFault ⟨offset, .popWithoutPush⟩ (← takeSaved)
    modify fun c => { c with globals }
    return none
  | .usage u => do
    modify fun c => { c with locals := c.locals.addUsage u }
    return some (.usage u)
  | .setLocal r w => do
    modify fun c => { c with locals := c.locals.set r w }
    return none
  | .reserved _ => return none

def feed (t : Token) : EStateM Fault Context (Option Record) := feedItem t.offset t.item

/-- Folds tokens into the context. After a fault it goes on with whatever the fault has left. -/
def feedAll (c : Context) : List Token → Context × List (Except Fault (Option Record))
  | [] => (c, [])
  | t :: ts =>
    match (feed t).run c with
    | .ok record d => ((feedAll d ts).1, .ok record :: (feedAll d ts).2)
    | .error fault d => ((feedAll d ts).1, .error fault :: (feedAll d ts).2)

/-! ## Nothing is left of a fault -/

variable {c d : Context} {t : Token} {fault : Fault}

/-- **One step**: in place, the context becomes the new one if there is a new one, and else stays. -/
theorem run_feed (c : Context) (t : Token) :
    (feed t).run c =
      match c.feed t with
      | .ok (d, record) => .ok record d
      | .error fault => .error fault c := by
  obtain ⟨globals, saved, locals, enclosing⟩ := c
  unfold feed Context.feed
  generalize t.offset = offset
  cases t.item with
  | endCollection =>
      cases enclosing with
      | nil => rfl
      | cons kind outer => rfl
  | pop =>
      cases saved with
      | nil => rfl
      | cons table below => rfl
  | _ => rfl

/-- In place, those tokens are taken that `feed` takes, and they leave the same context. -/
theorem run_feed_eq_ok_iff {record : Option Record} :
    (feed t).run c = .ok record d ↔ c.feed t = .ok (d, record) := by
  rw [run_feed]
  cases hfeed : c.feed t with
  | error fault => simp
  | ok taken =>
      obtain ⟨e, made⟩ := taken
      simp [and_comm]

/-- In place, those tokens are refused that `feed` refuses, and they leave no trace. -/
theorem run_feed_eq_error_iff :
    (feed t).run c = .error fault d ↔ c.feed t = .error fault ∧ d = c := by
  rw [run_feed]
  cases hfeed : c.feed t with
  | error refused => simp [eq_comm]
  | ok taken => simp

/-- **A run**: in place or not, the same context comes out of it, with the same results. -/
theorem feedAll_eq (c : Context) (ts : List Token) : feedAll c ts = c.feedAll ts := by
  induction ts generalizing c with
  | nil => rfl
  | cons t ts ih =>
      cases hfeed : c.feed t with
      | error fault =>
          have hrun : (feed t).run c = .error fault c := run_feed_eq_error_iff.mpr ⟨hfeed, rfl⟩
          rw [feedAll, hrun, feedAll_of_error hfeed]
          dsimp only
          rw [ih]
      | ok taken =>
          obtain ⟨d, record⟩ := taken
          have hrun : (feed t).run c = .ok record d := run_feed_eq_ok_iff.mpr hfeed
          rw [feedAll, hrun, feedAll_of_ok hfeed]
          dsimp only
          rw [ih]

end InPlace

/-! ## Without the refused tokens -/

/-- The tokens that have been taken, by their results: those whose result is no fault. -/
def taken (ts : List Token) (results : List (Except Fault (Option Record))) : List Token :=
  ((ts.zip results).filter (·.2.isOk)).map (·.1)

variable {c d : Context} {t : Token} {ts : List Token}

theorem length_feedAll (c : Context) (ts : List Token) : (c.feedAll ts).2.length = ts.length := by
  induction ts generalizing c with
  | nil => rfl
  | cons t ts ih =>
      cases hfeed : c.feed t with
      | error fault => rw [feedAll_of_error hfeed, List.length_cons, List.length_cons, ih]
      | ok first => rw [feedAll_of_ok hfeed, List.length_cons, List.length_cons, ih]

/-- Only the tokens that are taken count. -/
theorem feedAll_taken (c : Context) (ts : List Token) :
    c.feedAll (taken ts (c.feedAll ts).2) =
      ((c.feedAll ts).1, (c.feedAll ts).2.filter (·.isOk)) := by
  induction ts generalizing c with
  | nil => rfl
  | cons t ts ih =>
      cases hfeed : c.feed t with
      | error fault =>
          -- the token goes, and its result goes with it
          rw [feedAll_of_error hfeed]
          exact ih c
      | ok first =>
          obtain ⟨d, record⟩ := first
          rw [feedAll_of_ok hfeed]
          show c.feedAll (t :: taken ts (d.feedAll ts).2) = _
          rw [feedAll_of_ok hfeed, ih d]
          rfl

/-- **A refused token leaves no trace.** Feeding is refused if and only if the token is a Pop and no
table is saved, or an End Collection and no collection is open; the fault is at the token, and the
context is as it was: global registers, saved tables, local registers and open collections. So it
is with the context that is written to in place, which otherwise does what `Context.feed` does. And
if tokens are fed on after faults, the refused ones may be left out: what remains ends in the same
context, and has the results that it had. -/
theorem feed_refused_no_trace :
    (∀ (c d : Context) (t : Token) (fault : Fault),
        (InPlace.feed t).run c = .error fault d ↔
          d = c ∧
            (t.item = .pop ∧ c.saved = [] ∧ fault = ⟨t.offset, .popWithoutPush⟩ ∨
              t.item = .endCollection ∧ c.enclosing = [] ∧
                fault = ⟨t.offset, .endWithoutCollection⟩)) ∧
      (∀ (c : Context) (t : Token),
        (InPlace.feed t).run c =
          match c.feed t with
          | .ok (d, record) => .ok record d
          | .error fault => .error fault c) ∧
      ∀ (c : Context) (ts : List Token),
        (InPlace.feedAll c ts).2.length = ts.length ∧
          InPlace.feedAll c (taken ts (InPlace.feedAll c ts).2) =
            ((InPlace.feedAll c ts).1, (InPlace.feedAll c ts).2.filter (·.isOk)) ∧
          InPlace.feedAll c ts = c.feedAll ts := by
  refine ⟨?_, InPlace.run_feed, ?_⟩
  · intro c d t fault
    rw [InPlace.run_feed_eq_error_iff, feed, feedItem_eq_error_iff, and_comm]
  · intro c ts
    rw [InPlace.feedAll_eq, InPlace.feedAll_eq]
    exact ⟨length_feedAll c ts, feedAll_taken c ts, rfl⟩

/-- A usage waits for its field, and nothing is saved or open. An End Collection and a Pop do not get
at it, and without them there is the same field. -/
theorem feed_refused_no_trace_pending :
    ∃ (c : Context) (closing popping main : Token) (f : FieldRecord),
      c = { locals := { usages := #[⟨none, 0x30⟩] } } ∧
      f.locals = { usages := #[⟨none, 0x30⟩] } ∧
      (InPlace.feed closing).run c = .error ⟨7, .endWithoutCollection⟩ c ∧
      (InPlace.feedAll c [closing, main, popping]).2 = [.error ⟨7, .endWithoutCollection⟩,
        .ok (some (.field f)), .error ⟨9, .popWithoutPush⟩] ∧
      InPlace.feedAll c [main] =
        ((InPlace.feedAll c [closing, main, popping]).1, [.ok (some (.field f))]) := by
  let c : Context := { locals := { usages := #[⟨none, 0x30⟩] } }
  let closing : Token := ⟨⟨0xc0, []⟩, 7⟩
  let main : Token := ⟨⟨0x80, []⟩, 8⟩
  let popping : Token := ⟨⟨0xb4, []⟩, 9⟩
  let f : FieldRecord := ⟨8, .input, ⟨0⟩, {}, { usages := #[⟨none, 0x30⟩] }, []⟩
  have hclosing : closing.item = .endCollection := by decide +kernel
  have hresults : (InPlace.feedAll c [closing, main, popping]).2 =
      [.error ⟨7, .endWithoutCollection⟩, .ok (some (.field f)), .error ⟨9, .popWithoutPush⟩] := by
    decide +kernel
  obtain ⟨hrefused, -, hfed⟩ := feed_refused_no_trace
  obtain ⟨-, hwithout, -⟩ := hfed c [closing, main, popping]
  rw [hresults] at hwithout
  refine ⟨c, closing, popping, main, f, rfl, rfl, ?_, hresults, hwithout⟩
  apply (hrefused c c closing _).mpr
  exact ⟨rfl, .inr ⟨hclosing, rfl, rfl⟩⟩

end Context
end HidDescriptor
