import HidDescriptor.Proofs.Cursor
import Mathlib.Logic.Function.Basic

/-! # Cursors and their copies

A cursor may be wound back at any time, and copied, and a copy may take its place later. Here any
number of cursors go over the same bytes, each under a name, and every move is made with one of them
(`Move`). To say what a cursor still has to yield, one has to know whether it has been at the end
already, and that depends on its past: on what `next` has returned since the cursor was last wound
back. The past goes along with a cursor that is copied (`Track`).

What holds of every cursor after any moves is `Track.Sound`: the cursor stands between two items, and
it is exhausted if and only if it has returned the end or a fault. Each move keeps this
(`sound_step`), because `next` returns the item behind the cursor, or what comes after the last item
(`next_cases`). What is still to come follows from it (`walk_sound`). -/

namespace HidDescriptor

/-! ## From the middle of the bytes -/

namespace Tokens

variable {bytes : List UInt8} {before after : List Token}

/-- Read from a place between two items, the bytes have the items that are behind it. -/
theorem ofBytesAt_drop (h : (ofBytes bytes).items = before ++ after) :
    ofBytesAt (Tokens.bytes before).length (bytes.drop (Tokens.bytes before).length) =
      ⟨after, (ofBytes bytes).fault⟩ := by
  have hsplits := splits_ofBytes bytes
  have hbefore : ofBytes (Tokens.bytes before) = ⟨before, none⟩ := ofBytesAt_bytes ⟨after, h.symm⟩
  obtain ⟨back, rfl⟩ := hsplits.prefix_bytes_of_append h
  have hwhole : (ofBytes (Tokens.bytes before)).fault = none := by rw [hbefore]
  have hparts := ofBytes_append_of_whole hwhole back
  rw [List.drop_left]
  rw [hparts, hbefore] at h ⊢
  rw [← List.append_cancel_left h]

theorem length_bytes_concat (before : List Token) (t : Token) :
    (Tokens.bytes (before ++ [t])).length = (Tokens.bytes before).length + t.size := by
  rw [length_bytes, length_bytes, List.map_append, List.sum_append]
  rfl

theorem ok_mem_results {tokens : Tokens} {t : Token} (h : t ∈ tokens.items) :
    .ok t ∈ tokens.results :=
  List.mem_append_left _ (List.mem_map_of_mem h)

/-- Where a result stands: the offset of the item, or of the fault. -/
def offsetOf : Except Fault Token → Nat
  | .ok t => t.offset
  | .error fault => fault.offset

/-- The results that stand behind a place between two items. -/
theorem filter_results (h : (ofBytes bytes).items = before ++ after) :
    (ofBytes bytes).results.filter ((Tokens.bytes before).length ≤ offsetOf ·) =
      results ⟨after, (ofBytes bytes).fault⟩ := by
  have hsplits := splits_ofBytes bytes
  obtain ⟨hbefore, hafter⟩ := hsplits.offset_of_parts h
  rw [Nat.zero_add] at hbefore hafter
  have hfault : ∀ fault ∈ (ofBytes bytes).fault, (Tokens.bytes before).length ≤ fault.offset := by
    intro fault hfault
    rw [hsplits.offset_cut hfault, h, bytes_append, List.length_append]
    omega
  have hdropped : (before.map Except.ok).filter ((Tokens.bytes before).length ≤ offsetOf ·) = [] := by
    apply List.filter_eq_nil_iff.mpr
    intro r hr
    obtain ⟨t, ht, rfl⟩ := List.mem_map.mp hr
    intro hle
    exact Nat.not_le.mpr (hbefore t ht) (of_decide_eq_true hle)
  have hkept : (results ⟨after, (ofBytes bytes).fault⟩).filter
      ((Tokens.bytes before).length ≤ offsetOf ·) = results ⟨after, (ofBytes bytes).fault⟩ := by
    apply List.filter_eq_self.mpr
    intro r hr
    rcases List.mem_append.mp hr with hr | hr
    · obtain ⟨t, ht, rfl⟩ := List.mem_map.mp hr
      exact decide_eq_true (hafter t ht)
    · obtain ⟨fault, hmem, rfl⟩ := List.mem_map.mp hr
      exact decide_eq_true (hfault fault (Option.mem_toList.mp hmem))
  rw [← hkept, results, h, List.map_append, List.append_assoc, List.filter_append, hdropped]
  rfl

end Tokens

namespace Cursor

/-! ## One step of one cursor -/

/-- **All that `next` can do**: behind the last item there is the fault or the end, and anywhere
else there is an item. -/
theorem next_cases {c : Cursor} {before after : List Token} (h : c.exhausted = false)
    (hitems : (Tokens.ofBytes c.bytes).items = before ++ after)
    (hoffset : c.offset = (Tokens.bytes before).length) :
    (after = [] ∧
        c.next = ((Tokens.ofBytes c.bytes).fault.map .error, { c with exhausted := true })) ∨
      ∃ t rest, after = t :: rest ∧ t.offset = c.offset ∧
        c.next = (some (.ok t), { c with offset := t.stop }) := by
  -- the first step of the cursor is the first step of reading from its place
  have hmiddle := Tokens.ofBytesAt_drop hitems
  rw [← hoffset] at hmiddle
  cases hread : Token.read? c.offset (c.bytes.drop c.offset) with
  | none =>
      left
      rw [Tokens.ofBytesAt_of_read?_none hread] at hmiddle
      obtain ⟨hafter, hfault⟩ := Tokens.mk.inj hmiddle
      rw [next_of_read?_none h hread, ← hfault]
      exact ⟨hafter.symm, rfl⟩
  | some result =>
      cases result with
      | error fault =>
          left
          rw [Tokens.ofBytesAt_of_read?_error hread] at hmiddle
          obtain ⟨hafter, hfault⟩ := Tokens.mk.inj hmiddle
          rw [next_of_read?_error h hread, ← hfault]
          exact ⟨hafter.symm, rfl⟩
      | ok t =>
          right
          rw [Tokens.ofBytesAt_of_read?_ok hread] at hmiddle
          obtain ⟨hafter, -⟩ := Tokens.mk.inj hmiddle
          exact ⟨t, _, hafter.symm, Token.offset_of_read? hread, next_of_read?_ok h hread⟩

/-! ## Cursors with a past -/

/-- A cursor with what `next` has returned since the cursor was last wound back. -/
structure Track where
  cursor : Cursor
  returned : List (Option (Except Fault Token))

namespace Track

def start (bytes : List UInt8) : Track := ⟨ofBytes bytes, []⟩

def next (x : Track) : Track := ⟨x.cursor.next.2, x.returned ++ [x.cursor.next.1]⟩

def drain (x : Track) : Track where
  cursor := x.cursor.drain.2
  returned := x.returned ++ (x.cursor.drain.1.map some ++ [none])

/-- Goes back to the first byte, which makes an end of the past. -/
def rewind (x : Track) : Track := ⟨x.cursor.rewind, []⟩

/-- The end or a fault has been returned. -/
def ended (x : Track) : Bool :=
  x.returned.any fun
    | some (.ok _) => false
    | some (.error _) | none => true

variable {bytes : List UInt8} {x : Track} {d : Cursor}

theorem ended_next_of_ended (h : x.ended = true) : x.next.ended = true := by
  rw [ended, next, List.any_append]
  rw [ended] at h
  rw [h, Bool.true_or]

/-- What `next` keeps is kept by as many of them as there are to the end. -/
theorem drain_ind {motive : Track → Prop} (hnext : ∀ x, motive x → motive x.next) {x : Track}
    (h : motive x) : motive x.drain := by
  obtain ⟨c, returned⟩ := x
  induction c using Cursor.drain.induct generalizing returned with
  | case1 c d hc =>
      have hdrain : drain ⟨c, returned⟩ = next ⟨c, returned⟩ := by
        simp only [drain, next, drain_of_next_none hc, hc]
        rfl
      rw [hdrain]
      exact hnext _ h
  | case2 c r d hc _ _ _ ih =>
      have hdrain : drain ⟨c, returned⟩ = drain ⟨d, returned ++ [some r]⟩ := by
        simp only [drain, drain_of_next_some hc, List.map_cons, List.append_assoc, List.cons_append,
          List.nil_append]
      have hmoved := hnext _ h
      simp only [next, hc] at hmoved
      rw [hdrain]
      exact ih _ hmoved

/-- The cursor stands between two items of the bytes, and is exhausted if and only if that can be
told from its past. -/
structure Sound (bytes : List UInt8) (x : Track) : Prop where
  bytes_eq : x.cursor.bytes = bytes
  between : ∃ before after, (Tokens.ofBytes bytes).items = before ++ after ∧
    x.cursor.offset = (Tokens.bytes before).length
  exhausted_eq : x.cursor.exhausted = x.ended

theorem sound_start (bytes : List UInt8) : (start bytes).Sound bytes where
  bytes_eq := rfl
  between := ⟨[], (Tokens.ofBytes bytes).items, rfl, rfl⟩
  exhausted_eq := rfl

theorem Sound.rewind (h : x.Sound bytes) : x.rewind.Sound bytes := by
  have hrewind : x.rewind = start bytes := by rw [Track.rewind, Cursor.rewind, h.bytes_eq, start]
  rw [hrewind]
  exact sound_start bytes

/-- **One step** keeps the cursor sound. -/
theorem Sound.next (h : x.Sound bytes) : x.next.Sound bytes := by
  obtain ⟨rfl, ⟨before, after, hitems, hoffset⟩, hended⟩ := h
  cases hex : x.cursor.exhausted with
  | true =>
      have hstay := next_of_exhausted hex
      rw [hex] at hended
      refine ⟨?_, ⟨before, after, hitems, ?_⟩, ?_⟩
      · rw [Track.next, hstay]
      · rw [Track.next, hstay, hoffset]
      · rw [ended_next_of_ended hended.symm, Track.next, hstay, hex]
  | false =>
      rw [hex] at hended
      rcases next_cases hex hitems hoffset with ⟨rfl, hend⟩ | ⟨t, rest, rfl, ht, hitem⟩
      · refine ⟨?_, ⟨before, [], hitems, ?_⟩, ?_⟩
        · rw [Track.next, hend]
        · rw [Track.next, hend]
          exact hoffset
        · rw [Track.next, hend, ended, List.any_append]
          cases (Tokens.ofBytes x.cursor.bytes).fault <;> simp
      · refine ⟨?_, ⟨before ++ [t], rest, ?_, ?_⟩, ?_⟩
        · rw [Track.next, hitem]
        · rw [hitems, List.append_assoc]
          rfl
        · rw [Track.next, hitem, Tokens.length_bytes_concat, ← hoffset, ← ht]
          rfl
        · rw [Track.next, hitem, ended, List.any_append]
          rw [ended] at hended
          show x.cursor.exhausted = _
          rw [hex, ← hended]
          rfl

theorem Sound.drain (h : x.Sound bytes) : x.drain.Sound bytes :=
  drain_ind (motive := fun x => x.Sound bytes) (fun _ => Sound.next) h

theorem ended_drain_of_ended (h : x.ended = true) : x.drain.ended = true :=
  drain_ind (motive := fun x => x.ended = true) (fun _ => ended_next_of_ended) h

/-! ## Where a sound cursor is, and what it still yields -/

theorem Sound.offset_le (h : x.Sound bytes) : x.cursor.offset ≤ bytes.length := by
  obtain ⟨before, after, hitems, hoffset⟩ := h.between
  have hsplits := Tokens.splits_ofBytes bytes
  rw [hoffset]
  exact (hsplits.prefix_bytes_of_append hitems).length_le

/-- A cursor stands at the first byte or behind an item. -/
theorem Sound.offset_eq (h : x.Sound bytes) :
    x.cursor.offset = 0 ∨ ∃ t, .ok t ∈ (ofBytes bytes).drain.1 ∧ x.cursor.offset = t.stop := by
  obtain ⟨before, after, hitems, hoffset⟩ := h.between
  rw [drain_ofBytes_eq_results]
  -- the last item before the cursor is the one that it has come from
  rcases List.eq_nil_or_concat before with rfl | ⟨front, t, rfl⟩
  · left
    exact hoffset
  · right
    have hsplits := Tokens.splits_ofBytes bytes
    rw [List.concat_eq_append] at hitems hoffset
    rw [List.append_assoc] at hitems
    refine ⟨t, ?_, ?_⟩
    · apply Tokens.ok_mem_results
      rw [hitems]
      exact List.mem_append_right _ List.mem_cons_self
    · rw [Token.stop, hsplits.offset_of_append hitems, hoffset, Tokens.length_bytes_concat,
        Nat.zero_add]

/-- What a cursor still has to give are the results from its offset on. -/
theorem Sound.drain_eq (h : x.Sound bytes) (hended : x.ended = false) :
    x.cursor.drain.1 =
      (ofBytes bytes).drain.1.filter (x.cursor.offset ≤ Tokens.offsetOf ·) := by
  obtain ⟨rfl, ⟨before, after, hitems, hoffset⟩, hexhausted⟩ := h
  rw [drain_eq_results (hexhausted.trans hended), drain_ofBytes_eq_results, hoffset,
    Tokens.ofBytesAt_drop hitems, Tokens.filter_results hitems]

/-- At its end a cursor stays where it is. -/
theorem Sound.next_of_ended (h : x.Sound bytes) (hended : x.ended = true) :
    x.cursor.next = (none, x.cursor) :=
  next_of_exhausted (h.exhausted_eq.trans hended)

/-- An item is taken off the bytes where the cursor stands, and the cursor is moved behind it. If
there is no item, the cursor stays in its place. -/
theorem Sound.next_eq (h : x.Sound bytes) :
    (∃ t d, x.cursor.next = (some (.ok t), d) ∧ d.offset = x.cursor.offset + t.size ∧
        d.offset ≤ bytes.length ∧ t.bytes = (bytes.drop x.cursor.offset).take t.size) ∨
      (∀ t, x.cursor.next.1 ≠ some (.ok t)) ∧ x.cursor.next.2.offset = x.cursor.offset := by
  have hmoved := h.next.offset_le
  obtain ⟨rfl, ⟨before, after, hitems, hoffset⟩, hexhausted⟩ := h
  cases hex : x.cursor.exhausted with
  | true =>
      right
      rw [next_of_exhausted hex]
      exact ⟨nofun, rfl⟩
  | false =>
      rcases next_cases hex hitems hoffset with ⟨-, hend⟩ | ⟨t, rest, rfl, ht, hitem⟩
      · right
        rw [hend]
        constructor
        · intro t
          cases (Tokens.ofBytes x.cursor.bytes).fault <;> simp
        · rfl
      · left
        rw [Track.next, hitem] at hmoved
        have hsplits := Tokens.splits_ofBytes x.cursor.bytes
        have hmem : t ∈ (Tokens.ofBytes x.cursor.bytes).items := by
          rw [hitems]
          exact List.mem_append_right _ List.mem_cons_self
        obtain ⟨more, hdrop⟩ := hsplits.drop_offset hmem
        refine ⟨t, _, hitem, ?_, hmoved, ?_⟩
        · rw [← ht]
          rfl
        · rw [← ht, hdrop, ← ShortItem.length_bytes, List.take_left]

end Track

/-! ## Moves -/

variable {Name : Type} [DecidableEq Name]

/-- What can be done with one of the cursors. To keep a copy is to `copy` it under another name, and
to take it up again is to `copy` it back. -/
inductive Move (Name : Type) where
  | next (name : Name)
  | drain (name : Name)
  | rewind (name : Name)
  /-- Puts a copy of the first cursor in the place of the second. -/
  | copy (source target : Name)

namespace Move

/-- The one cursor that the move is made with. A cursor that is copied is only looked at. -/
def target : Move Name → Name
  | next name | drain name | rewind name | copy _ name => name

/-- The cursor begins anew after the move, from the first byte or from where a copy stands. -/
def restarts : Move Name → Bool
  | next _ | drain _ => false
  | rewind _ | copy _ _ => true

def outcome (tracks : Name → Track) : Move Name → Track
  | next name => (tracks name).next
  | drain name => (tracks name).drain
  | rewind name => (tracks name).rewind
  | copy source _ => tracks source

end Move

def step (tracks : Name → Track) (move : Move Name) : Name → Track :=
  Function.update tracks move.target (move.outcome tracks)

/-- All cursors after some moves. At first they all stand at the first byte. -/
def walk (bytes : List UInt8) (moves : List (Move Name)) : Name → Track :=
  moves.foldl step fun _ => .start bytes

variable {bytes : List UInt8} {tracks : Name → Track} {name : Name} {move : Move Name}

theorem step_of_ne (h : move.target ≠ name) : step tracks move name = tracks name :=
  Function.update_of_ne h.symm _ _

theorem step_of_eq (h : move.target = name) : step tracks move name = move.outcome tracks := by
  rw [step, h, Function.update_self]

/-- **One move** keeps all cursors sound. -/
theorem sound_step (h : ∀ name, (tracks name).Sound bytes) (move : Move Name) (name : Name) :
    (step tracks move name).Sound bytes := by
  by_cases htarget : move.target = name
  · rw [step_of_eq htarget]
    cases move with
    | next other => exact (h other).next
    | drain other => exact (h other).drain
    | rewind other => exact (h other).rewind
    | copy source _ => exact h source
  · rw [step_of_ne htarget]
    exact h name

/-- **Any moves** do. -/
theorem sound_walk (bytes : List UInt8) (moves : List (Move Name)) (name : Name) :
    (walk bytes moves name).Sound bytes := by
  have hrun : ∀ tracks : Name → Track, (∀ name, (tracks name).Sound bytes) →
      ∀ name, (moves.foldl step tracks name).Sound bytes := by
    induction moves with
    | nil =>
        intro tracks h
        exact h
    | cons move moves ih =>
        intro tracks h
        exact ih _ (sound_step h move)
  exact hrun _ (fun _ => Track.sound_start bytes) name

/-- A cursor stays at its end until it begins anew. -/
theorem ended_step (h : (tracks name).ended = true)
    (hmove : move.target = name → move.restarts = false) :
    (step tracks move name).ended = true := by
  by_cases htarget : move.target = name
  · rw [step_of_eq htarget]
    cases move with
    | next other =>
        obtain rfl : other = name := htarget
        exact Track.ended_next_of_ended h
    | drain other =>
        obtain rfl : other = name := htarget
        exact Track.ended_drain_of_ended h
    | rewind other => exact nomatch hmove htarget
    | copy source target => exact nomatch hmove htarget
  · rw [step_of_ne htarget]
    exact h

/-- What has come to its end stays there until it restarts. -/
theorem ended_walk_append {moves more : List (Move Name)}
    (h : (walk bytes moves name).ended = true)
    (hmore : ∀ move ∈ more, move.target = name → move.restarts = false) :
    (walk bytes (moves ++ more) name).ended = true := by
  have hrun : ∀ tracks : Name → Track, (tracks name).ended = true →
      (more.foldl step tracks name).ended = true := by
    induction more with
    | nil =>
        intro tracks h
        exact h
    | cons move more ih =>
        intro tracks h
        obtain ⟨hmove, hrest⟩ := List.forall_mem_cons.mp hmore
        exact ih hrest _ (ended_step h hmove)
  rw [walk, List.foldl_append]
  exact hrun _ h

/-- **Walking to and fro.** After any moves with any number of cursors, each stands at the first byte
or behind an item that a fresh cursor yields, and so within the bytes. A cursor that has not
returned the end or a fault since it was last wound back still yields what a fresh one yields from
its place on, the fault included; one that has returned them yields nothing any more until it
restarts. An item that `next` returns is taken off the bytes at the cursor, which moves on by its
size; with the end and with a fault it stays. And no move changes any cursor but the one that it is
made with, so that a copy can be drained without harm. -/
theorem walk_sound (bytes : List UInt8) (moves : List (Move Name)) (name : Name) :
    let all := (ofBytes bytes).drain.1
    let track := walk bytes moves name
    let c := track.cursor
    (c.offset = 0 ∨ ∃ t, .ok t ∈ all ∧ c.offset = t.stop) ∧
      c.offset ≤ bytes.length ∧
      (track.ended = false → c.drain.1 = all.filter (c.offset ≤ Tokens.offsetOf ·)) ∧
      (track.ended = true → ∀ more : List (Move Name),
        (∀ move ∈ more, move.target = name → move.restarts = false) →
          (walk bytes (moves ++ more) name).cursor.next.1 = none) ∧
      ((∃ t d, c.next = (some (.ok t), d) ∧ d.offset = c.offset + t.size ∧
          d.offset ≤ bytes.length ∧ t.bytes = (bytes.drop c.offset).take t.size) ∨
        (∀ t, c.next.1 ≠ some (.ok t)) ∧ c.next.2.offset = c.offset) ∧
      ∀ move : Move Name, move.target ≠ name →
        walk bytes (moves ++ [move]) name = walk bytes moves name := by
  have hsound := sound_walk bytes moves name
  refine ⟨hsound.offset_eq, hsound.offset_le, hsound.drain_eq, ?_, hsound.next_eq, ?_⟩
  · intro hended more hmore
    have hlater := ended_walk_append hended hmore
    rw [(sound_walk bytes (moves ++ more) name).next_of_ended hlater]
  · intro move hmove
    rw [walk, List.foldl_append]
    exact step_of_ne hmove

/-- A Usage Page, and an item that is cut off. A cursor takes the page and is copied, and then it is
drained, which leaves it at the fault with nothing more to yield, whatever is done with the copy. The
copy yields the fault still, and so does the cursor that is put back where the copy was made. -/
theorem walk_sound_saved :
    ∃ (bytes : List UInt8) (moves : List (Move Bool)),
      moves = [.next false, .copy false true, .drain false] ∧
      (walk bytes moves false).ended = true ∧
      (walk bytes moves false).cursor.offset = 2 ∧
      (walk bytes (moves ++ [.drain true, .next false]) false).cursor.next.1 = none ∧
      walk bytes (moves ++ [.drain true]) false = walk bytes moves false ∧
      (walk bytes moves true).ended = false ∧
      (walk bytes moves true).cursor.drain.1 = [.error ⟨2, .truncated 2 1⟩] ∧
      (walk bytes (moves ++ [.copy true false]) false).ended = false ∧
      (walk bytes (moves ++ [.copy true false]) false).cursor.drain.1 =
        [.error ⟨2, .truncated 2 1⟩] := by
  let bytes : List UInt8 := [0x05, 0x01, 0x26, 0xff]
  let moves : List (Move Bool) := [.next false, .copy false true, .drain false]
  have hended : (walk bytes moves false).ended = true := by decide +kernel
  have hsaved : (walk bytes moves true).ended = false := by decide +kernel
  have hback : (walk bytes (moves ++ [.copy true false]) false).ended = false := by decide +kernel
  have hfresh : (ofBytes bytes).drain.1 =
      [.ok ⟨⟨0x05, [0x01]⟩, 0⟩, .error ⟨2, .truncated 2 1⟩] := by
    have htokens : Tokens.ofBytes bytes =
        ⟨[⟨⟨0x05, [0x01]⟩, 0⟩], some ⟨2, .truncated 2 1⟩⟩ := by
      decide +kernel
    rw [drain_ofBytes_eq_results, htokens]
    rfl
  have hplace : (walk bytes moves true).cursor.offset = 2 := by decide +kernel
  have hreplaced : (walk bytes (moves ++ [.copy true false]) false).cursor.offset = 2 := by
    decide +kernel
  obtain ⟨-, -, -, hstays, -, hother⟩ := walk_sound bytes moves false
  obtain ⟨-, -, hcopy, -⟩ := walk_sound bytes moves true
  obtain ⟨-, -, hrestored, -⟩ := walk_sound bytes (moves ++ [.copy true false]) false
  refine ⟨bytes, moves, rfl, hended, by decide +kernel, ?_, ?_, hsaved, ?_, hback, ?_⟩
  · exact hstays hended _ (by decide)
  · exact hother (.drain true) (by decide)
  · rw [hcopy hsaved, hfresh, hplace]
    rfl
  · rw [hrestored hback, hfresh, hreplaced]
    rfl

end Cursor
end HidDescriptor
