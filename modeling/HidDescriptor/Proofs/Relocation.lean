import HidDescriptor.Layout.Basic
import HidDescriptor.Proofs.Decoding
import HidDescriptor.Proofs.Generic

/-! # The same items in other places

A token hands its offset on to the record or the fault that comes of it. Nothing is decided by an
offset. So the same items in other places come to the same thing, and the offsets in it are moved
as those of the items were: one item (`Context.feed_relocate`), a run of them
(`Context.run_relocate`), and the layout of the records (`Layout.ofRecords_relocate`).

Reading counts on from the offset at which it starts. The same bytes behind other ones have the same
items, in other places (`Tokens.ofBytesAt_relocate`). -/

namespace HidDescriptor

/-! ## Moving offsets -/

section Relocate

variable (move : Nat → Nat)

/-- The same item in another place. -/
def Token.relocate (t : Token) : Token := { t with offset := move t.offset }

def Fault.relocate (fault : Fault) : Fault := { fault with offset := move fault.offset }

def FieldRecord.relocate (f : FieldRecord) : FieldRecord := { f with offset := move f.offset }

/-- The same record from another place. Only the record of a field tells its place. -/
def Record.relocate : Record → Record
  | .field f => .field (f.relocate move)
  | record => record

def Tokens.relocate (tokens : Tokens) : Tokens where
  items := tokens.items.map (·.relocate move)
  fault := tokens.fault.map (·.relocate move)

def Run.relocate (run : Run) : Run where
  records := run.records.map (·.relocate move)
  outcome := run.outcome.mapError (·.relocate move)

end Relocate

variable {move : Nat → Nat}

/-! ## Feeding -/

namespace Context

/-- **One step**: the item of a token does to the context what it does anywhere. -/
theorem feed_relocate (c : Context) (t : Token) :
    c.feed (t.relocate move) =
      ((c.feed t).mapError (·.relocate move)).map fun (d, record) =>
        (d, record.map (·.relocate move)) := by
  show c.feedItem (move t.offset) t.item = ((c.feedItem t.offset t.item).mapError _).map _
  cases t.item with
  | setGlobal r w =>
      cases hpage : r.assignedPage? w <;> simp only [feedItem, hpage] <;> rfl
  | endCollection => cases hopen : c.enclosing <;> simp only [feedItem, hopen] <;> rfl
  | pop => cases hsaved : c.saved <;> simp only [feedItem, hsaved] <;> rfl
  | _ => rfl

theorem feed_relocate_of_error {c : Context} {t : Token} {fault : Fault}
    (h : c.feed t = .error fault) : c.feed (t.relocate move) = .error (fault.relocate move) := by
  rw [feed_relocate, h]
  rfl

theorem feed_relocate_of_ok {c d : Context} {t : Token} {record : Option Record}
    (h : c.feed t = .ok (d, record)) :
    c.feed (t.relocate move) = .ok (d, record.map (·.relocate move)) := by
  rw [feed_relocate, h]
  rfl

/-- **A run** over items in other places is the same run. -/
theorem run_relocate (c : Context) (ts : List Token) :
    c.run (ts.map (·.relocate move)) = (c.run ts).relocate move := by
  induction ts generalizing c with
  | nil => rfl
  | cons t ts ih =>
      rw [List.map_cons]
      cases hfeed : c.feed t with
      | error fault =>
          rw [run_of_error (feed_relocate_of_error hfeed), run_of_error hfeed]
          rfl
      | ok taken =>
          obtain ⟨d, record⟩ := taken
          rw [run_of_ok (feed_relocate_of_ok hfeed), run_of_ok hfeed, ih d]
          cases record <;> rfl

end Context

/-! ## Laying out -/

namespace FieldRecord

variable (f : FieldRecord)

theorem require_relocate (r : GlobalRegister) :
    (f.relocate move).require r = (f.require r).mapError (·.relocate move) := by
  have hget : (f.relocate move).globals.get r = f.globals.get r := rfl
  rw [require, require, hget]
  cases f.globals.get r <;> rfl

theorem traits_relocate : (f.relocate move).traits = f.traits.mapError (·.relocate move) := by
  simp only [traits, require_relocate, mapError_bind]
  rfl

theorem dataSlots_relocate (size count : Nat) :
    (f.relocate move).dataSlots size count =
      (f.dataSlots size count).mapError (·.relocate move) := by
  simp only [dataSlots, traits_relocate, mapError_bind]
  congr 1
  funext traits
  rw [show (f.relocate move).usages = f.usages from rfl]
  cases f.usages with
  | nil => rfl
  | cons first rest =>
      rw [show (f.relocate move).flags = f.flags from rfl]
      dsimp only
      split <;> rfl

/-- A record has the same slots in any place. -/
theorem slots_relocate (used : Nat) :
    (f.relocate move).slots used = (f.slots used).mapError (·.relocate move) := by
  simp only [slots, require_relocate, mapError_bind]
  congr 1
  funext size
  congr 1
  funext count
  rw [show (f.relocate move).bitSize? = f.bitSize? from rfl]
  cases f.bitSize? with
  | none => rfl
  | some bits =>
      rw [show (f.relocate move).flags = f.flags from rfl, dataSlots_relocate]
      dsimp only
      split
      · rfl
      · split
        · rfl
        · split <;> rfl

end FieldRecord

namespace Layout

/-- **One step**: a record is laid out in the same way in any place. -/
theorem addRecord_relocate (l : Layout) (record : Record) :
    l.addRecord (record.relocate move) = (l.addRecord record).mapError (·.relocate move) := by
  cases record with
  | field f =>
      show l.add (f.relocate move) = (l.add f).mapError _
      simp only [add, mapError_bind, ← FieldRecord.slots_relocate]
      rfl
  | _ => rfl

/-- The layout of records has nothing to do with their places. Only the fault has, if there is
none. -/
theorem ofRecords_relocate (records : List Record) :
    ofRecords (records.map (·.relocate move)) =
      (ofRecords records).mapError (·.relocate move) := by
  unfold ofRecords
  generalize ({} : Layout) = l
  induction records generalizing l with
  | nil => rfl
  | cons record records ih =>
      rw [List.map_cons, List.foldlM_cons, List.foldlM_cons, mapError_bind, addRecord_relocate]
      simp only [ih]

end Layout

/-! ## Reading -/

namespace Tokens

/-- The same item is read off the same bytes in any place. -/
theorem read?_relocate (offset : Nat) (bytes : List UInt8) :
    Token.read? (move offset) bytes =
      (Token.read? offset bytes).map fun result =>
        (result.mapError (·.relocate move)).map (·.relocate move) := by
  cases bytes with
  | nil => rfl
  | cons header rest =>
      simp only [Token.read?]
      split <;> rfl

/-- The same bytes behind other ones have the same items, in other places. -/
theorem ofBytesAt_relocate {offset : Nat} (hmove : ∀ n, move (offset + n) = move offset + n)
    (bytes : List UInt8) : ofBytesAt (move offset) bytes = (ofBytesAt offset bytes).relocate move := by
  induction offset, bytes using ofBytesAt_ind with
  | done offset => exact ofBytesAt_of_read?_none rfl
  | cut offset bytes fault hread =>
      have hmoved : Token.read? (move offset) bytes = some (.error (fault.relocate move)) := by
        rw [read?_relocate, hread]
        rfl
      exact ofBytesAt_of_read?_error hmoved
  | take offset bytes t tokens hread ih =>
      have hmoved : Token.read? (move offset) bytes = some (.ok (t.relocate move)) := by
        rw [read?_relocate, hread]
        rfl
      have hstop : move offset + t.size = move (offset + t.size) := (hmove t.size).symm
      have hnext : ∀ n, move (offset + t.size + n) = move (offset + t.size) + n := by
        intro n
        rw [Nat.add_assoc, hmove, hmove, Nat.add_assoc]
      rw [ofBytesAt_of_read?_ok hmoved]
      show Tokens.mk (_ :: (ofBytesAt (move offset + t.size) (bytes.drop t.size)).items)
        (ofBytesAt (move offset + t.size) (bytes.drop t.size)).fault = _
      rw [hstop, ih hnext]
      rfl

end Tokens
end HidDescriptor
