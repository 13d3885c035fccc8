import HidDescriptor.Proofs.Acceptance
import HidDescriptor.Proofs.ItemTable
import HidDescriptor.Proofs.Layout
import HidDescriptor.Proofs.Snapshot

/-! # The sizes of decoded fields

In a record, report size and report count are 64-bit words, and so a record can be made up whose bits
no 64-bit word can count. In a descriptor there is no such field: an item has four bytes at most for
the number that it puts into a register, and whatever way a word comes into the record of a field,
through saved registers as well, some item has put it there (`exists_token_of_mem_decode`).

So for decoded records neither the product of size and count nor the sum with what the report has
already comes near the end of the 64-bit words, and a report that is refused as too large is too
large indeed (`decode_sizes_exact`). -/

namespace HidDescriptor

/-! ## Words and items -/

/-- A word that a field has in a register stands in the data of some item of the descriptor. -/
theorem exists_token_of_mem_decode {bytes : List UInt8} {f : FieldRecord}
    (hf : .field f ∈ (decode bytes).records) {r : GlobalRegister} {w : r.Word}
    (hw : f.globals.get r = some w) :
    ∃ t ∈ (Tokens.ofBytes bytes).items, t.WellSized ∧ w = r.read t.value := by
  rw [records_decode] at hf
  obtain ⟨i, -, -, -, -, hglobals, -, -⟩ := Context.snapshot_of_mem_run [] Context.follows_nil hf
  rw [hglobals r] at hw
  obtain ⟨t, ht, hitem⟩ := List.mem_map.mp (History.mem_of_global? hw)
  have hmem : t ∈ (Tokens.ofBytes bytes).items := List.mem_of_mem_take ht
  exact ⟨t, hmem, (Tokens.splits_ofBytes bytes).wellSized t hmem, ShortItem.word_of_item hitem⟩

namespace FieldRecord

/-- Size and count are numbers that an item can give. -/
structure Narrow (f : FieldRecord) : Prop where
  size_lt : ∀ size, f.globals.reportSize = some size → size.toNat < UInt32.size
  count_lt : ∀ count, f.globals.reportCount = some count → count.toNat < UInt32.size

/-- Decoded fields are narrow, as all their words come from items. -/
theorem narrow_of_mem_decode {bytes : List UInt8} {f : FieldRecord}
    (hf : .field f ∈ (decode bytes).records) : f.Narrow := by
  have hnarrow : ∀ v : Value, v.toNat < UInt32.size → v.toUInt64.toNat < UInt32.size := by
    intro v hv
    rw [Value.toUInt64, UInt64.toNat_ofNat']
    exact Nat.lt_of_le_of_lt (Nat.mod_le _ _) hv
  constructor
  · intro size hsize
    obtain ⟨t, -, hsized, rfl⟩ := exists_token_of_mem_decode hf (r := .reportSize) hsize
    exact hnarrow _ hsized.toNat_value_lt
  · intro count hcount
    obtain ⟨t, -, hsized, rfl⟩ := exists_token_of_mem_decode hf (r := .reportCount) hcount
    exact hnarrow _ hsized.toNat_value_lt

/-! ## Products and sums -/

variable {f : FieldRecord}

theorem Narrow.bits_le (h : f.Narrow) : f.bits ≤ 0xffffffff * 0xffffffff := by
  apply Nat.mul_le_mul
  · unfold elementSize
    cases hsize : f.globals.reportSize with
    | none => exact Nat.zero_le _
    | some size => exact Nat.le_of_lt_succ (h.size_lt size hsize)
  · unfold elementCount
    cases hcount : f.globals.reportCount with
    | none => exact Nat.zero_le _
    | some count => exact Nat.le_of_lt_succ (h.count_lt count hcount)

/-- The bits of a field have room in a 64-bit word, and the largest report behind them as well. -/
theorem Narrow.add_bits_lt (h : f.Narrow) {used : Nat} (hused : used ≤ 131072) :
    used + f.bits < UInt64.size := by
  have hbits := h.bits_le
  have hroom : 131072 + 0xffffffff * 0xffffffff < UInt64.size := by decide
  omega

/-- The product of size and count does not wrap. -/
theorem Narrow.bitSize?_eq (h : f.Narrow) {size count : UInt64}
    (hsize : f.globals.reportSize = some size) (hcount : f.globals.reportCount = some count) :
    f.bitSize? = some (size.toNat * count.toNat) := by
  have hlt := h.add_bits_lt (Nat.zero_le _)
  rw [Nat.zero_add] at hlt
  rw [bitSize?_of_some hsize hcount, if_pos hlt, bits_of_some hsize hcount]

theorem Narrow.isSome_bitSize? (h : f.Narrow) :
    f.bitSize?.isSome ↔ f.globals.reportSize.isSome ∧ f.globals.reportCount.isSome := by
  cases hsize : f.globals.reportSize with
  | none => simp [bitSize?, hsize]
  | some size =>
      cases hcount : f.globals.reportCount with
      | none => simp [bitSize?, hsize, hcount]
      | some count => simp [h.bitSize?_eq hsize hcount]

/-! ## Reports that are too large -/

theorem dataOffence?_ne_tooLarge (f : FieldRecord) :
    f.dataOffence? ≠ some .reportTooLarge := by
  unfold dataOffence?
  split
  · simp
  · split
    · simp
    · split <;> simp

/-- A report that is refused for its size is too large. -/
theorem lt_of_tooLarge {used : Nat} (h : f.offence? used = some .reportTooLarge) :
    131072 < used + f.bits := by
  unfold offence? at h
  split at h
  · cases h
  · split at h
    · cases h
    · split at h
      · next hlarge => exact hlarge.2
      · split at h
        · cases h
        · exact absurd h f.dataOffence?_ne_tooLarge

end FieldRecord

/-- No fault of the bytes is about the size of a report. -/
theorem cause_fault_decode_ne {bytes : List UInt8} {fault : Fault}
    (h : (decode bytes).fault = some fault) : fault.cause ≠ .reportTooLarge := by
  rcases fault_decode_cases bytes with ⟨hnone, -⟩ | ⟨i, other, hsome, hoff, -⟩
  · rw [hnone] at h
    cases h
  · rw [hsome] at h
    cases h
    cases hoff <;> simp

namespace Layout

variable {records : List Record} {bytes : List UInt8}

theorem bitsAt_concat (records : List Record) (f : FieldRecord) :
    bitsAt (records ++ [.field f]) f.key = bitsAt records f.key + f.bits := by
  simp [bitsAt, recordsAt_concat]

/-- A layout that fails for a report that is too large has come to a field that is too much. -/
theorem exists_tooLarge {offset : Nat}
    (h : ofRecords records = .error ⟨offset, .reportTooLarge⟩) :
    ∃ before f after, records = before ++ .field f :: after ∧ f.offset = offset ∧
      131072 < bitsAt (before ++ [.field f]) f.key := by
  rw [ofRecords] at h
  rcases reflects_nil.foldlM_or records with ⟨l, hok, -⟩ | ⟨i, fault, herr, hoff, -⟩
  · rw [hok] at h
    cases h
  · rw [herr] at h
    cases h
    obtain ⟨f, cause, hget, hcause, hfault⟩ := hoff
    cases hfault
    obtain ⟨hi, hget⟩ := List.getElem?_eq_some_iff.mp hget
    refine ⟨records.take i, f, records.drop (i + 1), ?_, rfl, ?_⟩
    · rw [← hget]
      simp
    · rw [bitsAt_concat]
      exact FieldRecord.lt_of_tooLarge hcause

/-- What a layout has of a report is not too large, so a decoded field can be added to it without
leaving the 64-bit words. -/
theorem size_add_bits_lt {l : Layout} {f : FieldRecord} (h : ofRecords records = .ok l)
    (hf : f.Narrow) : (l.report f.key).size + f.bits < UInt64.size :=
  hf.add_bits_lt ((reflects_ofRecords h).holds_report f.key).size_le

/-- **The sizes of decoded fields are exact.** Report size and report count of a decoded field are
32-bit numbers, if it has them; and if it has both, its number of bits is their product. While the
records are laid out, no product and no sum with the size of the report leaves the 64-bit words. So
if a descriptor has no layout because a report is too large, then at that offset stands a field with
which the fields of the report so far come to more than 131072 bits. -/
theorem decode_sizes_exact (bytes : List UInt8) :
    (∀ f, .field f ∈ (decode bytes).records →
      (∀ size, f.globals.reportSize = some size → size.toNat < UInt32.size) ∧
      (∀ count, f.globals.reportCount = some count → count.toNat < UInt32.size) ∧
      (f.bitSize?.isSome ↔ f.globals.reportSize.isSome ∧ f.globals.reportCount.isSome) ∧
      ∀ size count, f.globals.reportSize = some size → f.globals.reportCount = some count →
        f.bitSize? = some (size.toNat * count.toNat)) ∧
    (∀ before f after l size count, (decode bytes).records = before ++ .field f :: after →
      ofRecords before = .ok l →
      f.globals.reportSize = some size → f.globals.reportCount = some count →
        size.toNat * count.toNat < UInt64.size ∧
        (l.report f.key).size + size.toNat * count.toNat < UInt64.size) ∧
    ∀ offset, ofBytes bytes = .error ⟨offset, .reportTooLarge⟩ →
      ∃ before f after, (decode bytes).whole = .ok (before ++ .field f :: after) ∧
        f.offset = offset ∧ 131072 < bitsAt (before ++ [.field f]) f.key := by
  refine ⟨?_, ?_, ?_⟩
  · intro f hf
    have hnarrow := FieldRecord.narrow_of_mem_decode hf
    exact ⟨hnarrow.size_lt, hnarrow.count_lt, hnarrow.isSome_bitSize?,
      fun size count hsize hcount => hnarrow.bitSize?_eq hsize hcount⟩
  · intro before f after l size count hrecords hl hsize hcount
    have hf : .field f ∈ (decode bytes).records := by
      rw [hrecords]
      exact List.mem_append_right _ List.mem_cons_self
    have hlt := size_add_bits_lt hl (FieldRecord.narrow_of_mem_decode hf)
    rw [FieldRecord.bits_of_some hsize hcount] at hlt
    exact ⟨by omega, hlt⟩
  · intro offset h
    cases hwhole : (decode bytes).whole with
    | error fault =>
        rw [ofBytes, hwhole] at h
        cases h
        exact absurd rfl (cause_fault_decode_ne (((decode bytes).whole_eq_error_iff _).mp hwhole))
    | ok records =>
        rw [ofBytes, hwhole] at h
        obtain ⟨before, f, after, rfl, hoffset, hlarge⟩ := exists_tooLarge h
        exact ⟨before, f, after, rfl, hoffset, hlarge⟩

/-- A field that fills its report, and behind it the largest field there is in the same report. The
size of the latter is given by an item of four bytes and comes back with a Pop. -/
theorem decode_sizes_exact_restored :
    ∃ bytes g f l, (decode bytes).records = [.field g, .field f] ∧
      ofRecords [.field g] = .ok l ∧ (l.report f.key).size = 131072 ∧
      f.globals.reportSize = some 0xffffffff ∧ f.globals.reportCount = some 0xffffffff ∧
      f.bitSize? = some (4294967295 * 4294967295) ∧
      (l.report f.key).size + 4294967295 * 4294967295 < UInt64.size ∧
      ofBytes bytes = .error ⟨23, .reportTooLarge⟩ ∧
      ∃ before h after, (decode bytes).whole = .ok (before ++ .field h :: after) ∧
        h.offset = 23 ∧ 131072 < bitsAt (before ++ [.field h]) h.key := by
  let bytes : List UInt8 :=
    [0x75, 0x01, 0x97, 0x00, 0x00, 0x02, 0x00, 0x81, 0x01,
      0x77, 0xff, 0xff, 0xff, 0xff, 0xa4, 0x75, 0x08, 0xb4, 0x97, 0xff, 0xff, 0xff, 0xff, 0x81, 0x01]
  let g : FieldRecord := {
    offset := 7
    direction := .input
    flags := ⟨1⟩
    globals := { reportSize := some 1, reportCount := some 0x20000 }
    locals := {}
    collections := [] }
  let f : FieldRecord := {
    offset := 23
    direction := .input
    flags := ⟨1⟩
    globals := { reportSize := some 0xffffffff, reportCount := some 0xffffffff }
    locals := {}
    collections := [] }
  have hrecords : (decode bytes).records = [.field g, .field f] := by decide +kernel
  have hlaidOut : ofRecords [.field g] =
      .ok ⟨[⟨⟨.input, none⟩, 131072, #[⟨⟨0, 131071⟩, ⟨.input, none⟩, .constant⟩]⟩]⟩ := by
    decide +kernel
  have hlarge : ofBytes bytes = .error ⟨23, .reportTooLarge⟩ := by decide +kernel
  obtain ⟨hfields, hsums, htooLarge⟩ := decode_sizes_exact bytes
  obtain ⟨-, -, -, hbits⟩ := hfields f (by rw [hrecords]; simp)
  obtain ⟨-, hsum⟩ := hsums [.field g] f [] _ _ _ hrecords hlaidOut rfl rfl
  exact ⟨bytes, g, f, _, hrecords, hlaidOut, by decide +kernel, rfl, rfl, hbits _ _ rfl rfl, hsum,
    hlarge, htooLarge 23 hlarge⟩

end Layout

end HidDescriptor
