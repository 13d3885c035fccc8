import HidDescriptor.Token

/-!
# Cursors

A cursor walks over a report descriptor token by token, can be wound back to the first byte, and,
being a value, can be kept and taken up again later. When it has come to the end, or has reported
an item that is cut off, it yields nothing more until it is wound back; its offset stays where it
was, which for a cut-off item is the header byte of that item.
-/

namespace HidDescriptor

/-- A place in a report descriptor from which tokens are taken. -/
structure Cursor where
  /-- The whole descriptor. -/
  bytes : List UInt8
  /-- Where the next token starts. -/
  offset : Nat
  /-- The end or a cut-off item has been met. -/
  exhausted : Bool
  deriving DecidableEq, Repr

namespace Cursor

def ofBytes (bytes : List UInt8) : Cursor := ⟨bytes, 0, false⟩

def rewind (c : Cursor) : Cursor := ofBytes c.bytes

/-- Takes one token. The result is `none` at the end and after it. -/
def next (c : Cursor) : Option (Except Fault Token) × Cursor :=
  if c.exhausted then (none, c)
  else
    match Token.read? c.offset (c.bytes.drop c.offset) with
    | none => (none, { c with exhausted := true })
    | some (.error fault) => (some (.error fault), { c with exhausted := true })
    | some (.ok t) => (some (.ok t), { c with offset := t.stop })

/-- A bound on the number of results that are still to come. -/
def remaining (c : Cursor) : Nat :=
  if c.exhausted then 0 else c.bytes.length - c.offset + 1

/-- Every result of `next` brings the end closer. -/
theorem remaining_next_lt {c d : Cursor} {r : Except Fault Token} (h : c.next = (some r, d)) :
    d.remaining < c.remaining := by
  unfold next at h
  split at h
  · simp at h
  · next hex =>
    split at h
    · simp at h
    · cases h
      simp [remaining, hex]
    · next t ht =>
      cases h
      -- a token has at least its header byte, so the offset moves on
      have hlt := Token.length_drop_size_lt ht
      simp only [List.length_drop] at hlt
      simp only [remaining, Token.stop, Token.offset_of_read? ht, hex, Bool.false_eq_true,
        ↓reduceIte]
      omega

/-- Takes tokens until there are no more, and leaves the cursor at the end. -/
def drain (c : Cursor) : List (Except Fault Token) × Cursor :=
  match _h : c.next with
  | (none, d) => ([], d)
  | (some r, d) =>
    let (rest, stop) := drain d
    (r :: rest, stop)
termination_by c.remaining
decreasing_by exact remaining_next_lt _h

end Cursor

end HidDescriptor
