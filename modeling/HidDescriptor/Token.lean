import HidDescriptor.Fault
import HidDescriptor.Item.Meaning

/-!
# Tokens

A token is a short item in its place. `Token.read?` takes one off the front of a byte string;
everything that goes through a descriptor is built on this step.

A `Reader` consumes tokens one at a time and may have its answer before the bytes are used up; it
looks at no byte beyond the token that gave the answer. `Reader.run` lets it loose on bytes, and
`Reader.runTokens` on tokens that have been split off beforehand (`Tokens.ofBytes`). The two agree:

    run_eq_runTokens : reader.run s offset bytes = reader.runTokens s (Tokens.ofBytesAt offset bytes)

so that statements about readers can be made, and proved, on lists of tokens.
-/

namespace HidDescriptor

/-- A short item with the offset of its header byte in the descriptor. -/
structure Token extends ShortItem where
  offset : Nat
  deriving DecidableEq, Repr

namespace Token

/-- The offset of the byte after the item. -/
def stop (t : Token) : Nat := t.offset + t.size

/-- The token at the front of the bytes, which start at `offset`. No bytes have no token, and too
few of them are a fault. -/
def read? (offset : Nat) : List UInt8 → Option (Except Fault Token)
  | [] => none
  | header :: rest =>
    let needed := announcedLength header
    let data := rest.take needed
    if data.length = needed then
      some (.ok { header, data, offset })
    else
      some (.error ⟨offset, .truncated needed data.length⟩)

def first? (bytes : List UInt8) : Except DataError Token :=
  match read? 0 bytes with
  | some (.ok t) => .ok t
  | _ => .error .insufficient

@[simp] theorem read?_nil (offset : Nat) : read? offset [] = none := rfl

/-- A token that was read stands at the front of the bytes. -/
theorem bytes_append_drop_of_read? {offset : Nat} {bytes : List UInt8} {t : Token}
    (h : read? offset bytes = some (.ok t)) : t.bytes ++ bytes.drop t.size = bytes := by
  cases bytes with
  | nil => simp at h
  | cons header rest =>
    simp only [read?] at h
    split at h
    · next hlen =>
      cases h
      simp only [ShortItem.bytes, ShortItem.size, hlen, Nat.add_comm 1, List.drop_succ_cons,
        List.cons_append, List.take_append_drop]
    · simp at h

/-- A token that was read stands where the bytes start. -/
theorem offset_of_read? {offset : Nat} {bytes : List UInt8} {t : Token}
    (h : read? offset bytes = some (.ok t)) : t.offset = offset := by
  cases bytes with
  | nil => simp at h
  | cons header rest =>
    simp only [read?] at h
    split at h
    · cases h; rfl
    · simp at h

/-- Reading makes progress: the bytes behind a token are fewer. -/
theorem length_drop_size_lt {offset : Nat} {bytes : List UInt8} {t : Token}
    (h : read? offset bytes = some (.ok t)) : (bytes.drop t.size).length < bytes.length := by
  have hb := congrArg List.length (bytes_append_drop_of_read? h)
  simp only [List.length_append, ShortItem.length_bytes] at hb
  have hpos := t.size_pos
  omega

end Token

/-- What a reader does after one token. -/
inductive Reader.Step (σ α : Type) where
  /-- It goes on in another state. -/
  | next (state : σ)
  /-- It has its answer. -/
  | done (answer : α)

/-- A way to consume tokens. -/
structure Reader (σ α : Type) where
  /-- What to do with a token. -/
  step : σ → Token → Reader.Step σ α
  /-- The answer when the tokens are used up or the last one is cut off. -/
  finish : σ → Option Fault → α

/-- The tokens of a byte string. If the last item is cut off, a fault takes its place. -/
structure Tokens where
  items : List Token
  fault : Option Fault
  deriving DecidableEq, Repr

namespace Reader

variable {σ α : Type}

/-- Runs the reader on bytes that start at `offset`, from the state `s`. -/
def run (reader : Reader σ α) (s : σ) (offset : Nat) (bytes : List UInt8) : α :=
  match _h : Token.read? offset bytes with
  | none => reader.finish s none
  | some (.error fault) => reader.finish s (some fault)
  | some (.ok t) =>
    match reader.step s t with
    | .next s => run reader s (offset + t.size) (bytes.drop t.size)
    | .done answer => answer
termination_by bytes.length
decreasing_by exact Token.length_drop_size_lt _h

/-- Runs the reader on a list of tokens with what comes after them. -/
def runList (reader : Reader σ α) (fault : Option Fault) : σ → List Token → α
  | s, [] => reader.finish s fault
  | s, t :: ts =>
    match reader.step s t with
    | .next s => runList reader fault s ts
    | .done answer => answer

def runTokens (reader : Reader σ α) (s : σ) (tokens : Tokens) : α :=
  reader.runList tokens.fault s tokens.items

end Reader

namespace Tokens

def collector : Reader (Array Token) Tokens where
  step ts t := .next (ts.push t)
  finish ts fault := ⟨ts.toList, fault⟩

/-- The tokens of bytes that start at `offset`. -/
def ofBytesAt (offset : Nat) (bytes : List UInt8) : Tokens := collector.run #[] offset bytes

def ofBytes (bytes : List UInt8) : Tokens := ofBytesAt 0 bytes

/-- All tokens, or the fault if the last item is cut off. -/
def whole (tokens : Tokens) : Except Fault (List Token) :=
  match tokens.fault with
  | none => .ok tokens.items
  | some fault => .error fault

def bytes (ts : List Token) : List UInt8 := ts.flatMap (·.bytes)

end Tokens

namespace Reader

variable {σ α : Type}

/-- Splitting the bytes into tokens first makes no difference to a reader. -/
theorem run_eq_runList (reader : Reader σ α) (s : σ) (offset : Nat) (bytes : List UInt8)
    (ts : Array Token) :
    ∃ rest fault, Tokens.collector.run ts offset bytes = ⟨ts.toList ++ rest, fault⟩ ∧
      reader.run s offset bytes = reader.runList fault s rest := by
  -- on the number of bytes left, for the states of both readers at once
  induction hn : bytes.length using Nat.strongRecOn generalizing s offset bytes ts with
  | ind n ih =>
    rw [Reader.run, Reader.run]
    split
    · exact ⟨[], none, by simp [Tokens.collector], rfl⟩
    · next fault _ => exact ⟨[], some fault, by simp [Tokens.collector], rfl⟩
    · next t ht =>
      have hlt := Token.length_drop_size_lt ht
      cases hs : reader.step s t with
      | next s' =>
        obtain ⟨rest, fault, hc, hr⟩ := ih _ (hn ▸ hlt) s' (offset + t.size)
          (bytes.drop t.size) (ts.push t) rfl
        refine ⟨t :: rest, fault, ?_, ?_⟩
        · simpa [Tokens.collector] using hc
        · simp only [runList, hs, hr]
      | done answer =>
        obtain ⟨rest, fault, hc, -⟩ := ih _ (hn ▸ hlt) s (offset + t.size)
          (bytes.drop t.size) (ts.push t) rfl
        refine ⟨t :: rest, fault, ?_, ?_⟩
        · simpa [Tokens.collector] using hc
        · simp only [runList, hs]

/-- A reader on bytes answers as it does on their tokens. -/
theorem run_eq_runTokens (reader : Reader σ α) (s : σ) (offset : Nat) (bytes : List UInt8) :
    reader.run s offset bytes = reader.runTokens s (Tokens.ofBytesAt offset bytes) := by
  obtain ⟨rest, fault, hc, hr⟩ := run_eq_runList reader s offset bytes #[]
  rw [Tokens.ofBytesAt, hc, hr]
  rfl

end Reader

namespace Tokens

/-- Tokens collected before stand in front of those of the bytes. -/
theorem run_collector (ts : Array Token) (offset : Nat) (bytes : List UInt8) :
    collector.run ts offset bytes =
      ⟨ts.toList ++ (ofBytesAt offset bytes).items, (ofBytesAt offset bytes).fault⟩ := by
  -- the collector never stops early, so it gives back any list of tokens it runs on
  have hlist : ∀ (rest : List Token) (fault : Option Fault) (ts : Array Token),
      collector.runList fault ts rest = ⟨ts.toList ++ rest, fault⟩ := by
    intro rest fault
    induction rest with
    | nil => intro ts; simp [Reader.runList, collector]
    | cons t rest ih => intro ts; simpa [Reader.runList, collector] using ih (ts.push t)
  rw [Reader.run_eq_runTokens, Reader.runTokens, hlist]

theorem ofBytesAt_of_read?_none {offset : Nat} {bytes : List UInt8}
    (h : Token.read? offset bytes = none) : ofBytesAt offset bytes = ⟨[], none⟩ := by
  rw [ofBytesAt, Reader.run, h]
  rfl

theorem ofBytesAt_of_read?_error {offset : Nat} {bytes : List UInt8} {fault : Fault}
    (h : Token.read? offset bytes = some (.error fault)) :
    ofBytesAt offset bytes = ⟨[], some fault⟩ := by
  rw [ofBytesAt, Reader.run, h]
  rfl

/-- A token that can be read comes first, and the tokens behind it follow. -/
theorem ofBytesAt_of_read?_ok {offset : Nat} {bytes : List UInt8} {t : Token}
    (h : Token.read? offset bytes = some (.ok t)) :
    ofBytesAt offset bytes =
      ⟨t :: (ofBytesAt (offset + t.size) (bytes.drop t.size)).items,
        (ofBytesAt (offset + t.size) (bytes.drop t.size)).fault⟩ := by
  rw [ofBytesAt, Reader.run, h]
  simpa [collector] using run_collector #[t] (offset + t.size) (bytes.drop t.size)

end Tokens

end HidDescriptor
