import HidDescriptor.Proofs.ItemTable
import HidDescriptor.Proofs.Tokens

/-! # Writing items

An item is written as its code, joined with the size code of a width, and then its data in as many
bytes as the width says. An `Encoding` is an item together with one of the ways to write it. There
are many: a number can be written at each width that can hold it, and items whose data mean nothing
can be written with any data.

Reading undoes all of them (`item_short`), one item or a list of them one behind the other
(`whole_ofBytes_encodings`). So an item means the same, however it was written. -/

namespace HidDescriptor

/-! ## Numbers at a width -/

namespace LittleEndian

/-- The number `n` in two's complement, in `width` bytes. -/
def ofInt (width : Nat) (n : Int) : List UInt8 := ofNat width (n % span width).toNat

theorem toNat_ofNat_of_lt {width n : Nat} (h : n < span width) : toNat (ofNat width n) = n := by
  rw [toNat_ofNat, Nat.mod_eq_of_lt h]

/-- A number in the signed range of so many bytes is read back from them. -/
theorem toInt_ofInt {width : Nat} {n : Int} (hlow : -(span width : Int) ≤ 2 * n)
    (hhigh : 2 * n < span width) : toInt (ofInt width n) = n := by
  have hpos := span_pos width
  have hmod : ((n % span width).toNat : Int) = n % span width :=
    Int.toNat_of_nonneg (Int.emod_nonneg n (by omega))
  have hlt : (n % span width).toNat < span width := by
    have := Int.emod_lt_of_pos n (Int.natCast_pos.mpr hpos)
    omega
  -- what is written is the remainder, which is in the same class
  rw [toInt, ofInt, toNat_ofNat_of_lt hlt, length_ofNat, hmod, Int.emod_bmod]
  exact Int.bmod_eq_of_le_mul_two (by omega) (by omega)

end LittleEndian

/-- How many data bytes an item is written with. -/
inductive Width where
  | none
  | one
  | two
  | four
  deriving DecidableEq, Repr

namespace Width

def bytes : Width → Nat
  | none => 0
  | one => 1
  | two => 2
  | four => 4

/-- The size code, which goes into the lowest two bits of the header byte. -/
def code : Width → UInt8
  | none => 0
  | one => 1
  | two => 2
  | four => 3

end Width

/-! ## What the data say -/

/-- What the data of an item have to say. -/
inductive Payload where
  /-- A number, in two's complement. -/
  | signed (n : Int)
  /-- A number, without a sign. -/
  | unsigned (n : Nat)
  /-- Nothing. -/
  | any
  deriving DecidableEq, Repr

namespace Payload

/-- The number can be written in so many bytes. In no bytes at all, this is zero only. -/
def Fits (bytes : Nat) : Payload → Prop
  | signed n => -(LittleEndian.span bytes : Int) ≤ 2 * n ∧ 2 * n < LittleEndian.span bytes
  | unsigned n => n < LittleEndian.span bytes
  | any => True

instance (bytes : Nat) : (p : Payload) → Decidable (p.Fits bytes)
  | signed n =>
    inferInstanceAs (Decidable
      (-(LittleEndian.span bytes : Int) ≤ 2 * n ∧ 2 * n < LittleEndian.span bytes))
  | unsigned n => inferInstanceAs (Decidable (n < LittleEndian.span bytes))
  | any => inferInstanceAs (Decidable True)

def IsWritten (bytes : Nat) : Payload → List UInt8 → Prop
  | signed n, data => data = LittleEndian.ofInt bytes n
  | unsigned n, data => data = LittleEndian.ofNat bytes n
  | any, data => data.length = bytes

instance (bytes : Nat) (data : List UInt8) : (p : Payload) → Decidable (p.IsWritten bytes data)
  | signed n => inferInstanceAs (Decidable (data = LittleEndian.ofInt bytes n))
  | unsigned n => inferInstanceAs (Decidable (data = LittleEndian.ofNat bytes n))
  | any => inferInstanceAs (Decidable (data.length = bytes))

theorem length_of_isWritten {bytes : Nat} {p : Payload} {data : List UInt8}
    (h : p.IsWritten bytes data) : data.length = bytes := by
  cases p with
  | signed n =>
      rw [show data = LittleEndian.ofInt bytes n from h]
      exact LittleEndian.length_ofNat _ _
  | unsigned n =>
      rw [show data = LittleEndian.ofNat bytes n from h]
      exact LittleEndian.length_ofNat _ _
  | any => exact h

/-- Whatever there is to say, some data of that length say it. -/
theorem exists_isWritten (bytes : Nat) (p : Payload) : ∃ data, p.IsWritten bytes data := by
  cases p with
  | signed n => exact ⟨_, rfl⟩
  | unsigned n => exact ⟨_, rfl⟩
  | any => exact ⟨List.replicate bytes 0, List.length_replicate⟩

end Payload

def GlobalRegister.payload : (r : GlobalRegister) → r.Word → Payload
  | .usagePage, w => .unsigned w.toNat
  | .logicalMinimum, w | .logicalMaximum, w | .physicalMinimum, w | .physicalMaximum, w =>
    .signed w.toInt
  | .unitExponent, w | .unit, w => .unsigned w.toNat
  | .reportSize, w | .reportCount, w => .unsigned w.toNat
  | .reportId, w => .unsigned w.toNat

namespace Item

def payload : Item → Payload
  | .field _ flags => .unsigned flags.bits.toNat
  | .collection kind => .unsigned kind.code.toNat
  | .setGlobal r w => r.payload w
  | .usage ⟨some page, id⟩ => .unsigned (page.toNat * 65536 + id.toNat)
  | .usage ⟨none, id⟩ => .unsigned id.toNat
  | .setLocal _ w => .unsigned w.toNat
  | .endCollection | .push | .pop | .reserved _ => .any

/-- The item can be written at the width. A usage has its page in it if it has four data bytes, and
only then. -/
def Fits (width : Width) (x : Item) : Prop :=
  x.payload.Fits width.bytes ∧
    match x with
    | .usage u => u.page.isSome ↔ width = .four
    | _ => True

instance (width : Width) (x : Item) : Decidable (x.Fits width) :=
  match x with
  | .usage u => inferInstanceAs (Decidable (_ ∧ (u.page.isSome ↔ width = .four)))
  | .field .. | .collection _ | .endCollection | .setGlobal .. | .push | .pop | .setLocal ..
  | .reserved _ => inferInstanceAs (Decidable (_ ∧ True))

end Item

/-- An item with one of the ways to write it. -/
structure Encoding where
  item : Item
  width : Width
  code : UInt8
  data : List UInt8
  fits : item.Fits width
  hasCode : item.HasCode code
  isWritten : item.payload.IsWritten width.bytes data

namespace Encoding

def short (e : Encoding) : ShortItem := ⟨e.code ||| e.width.code, e.data⟩

end Encoding

/-! ## The header byte -/

/-- The lowest two bits of a code are free for the size. -/
theorem Item.HasCode.toNat_mod {x : Item} {code : UInt8} (h : x.HasCode code) :
    code.toNat % 4 = 0 := by
  have hmain : ∀ c ∈ Reserved.mainCodes, c.toNat % 4 = 0 := by decide +kernel
  have hglobal : ∀ c ∈ Reserved.globalCodes, c.toNat % 4 = 0 := by decide +kernel
  have hlocal : ∀ c ∈ Reserved.localCodes, c.toNat % 4 = 0 := by decide +kernel
  have htype : ∀ c ∈ Reserved.typeCodes, c.toNat % 4 = 0 := by decide +kernel
  cases x with
  | field direction flags => cases direction <;> cases h <;> rfl
  | setGlobal r w => cases r <;> cases h <;> rfl
  | setLocal r w => cases r <;> cases h <;> rfl
  | reserved place =>
      cases place with
      | globalTag c => exact hglobal code (h.1 ▸ h.2)
      | localTag c => exact hlocal code (h.1 ▸ h.2)
      | unassigned => exact h.elim (hmain code) (htype code)
  | _ => cases h; rfl

/-- Code and size code share no bit, so that one goes into the other by adding. -/
theorem Width.toNat_or {code : UInt8} (h : code.toNat % 4 = 0) (w : Width) :
    (code ||| w.code).toNat = code.toNat + w.code.toNat := by
  have hlt : w.code.toNat < 4 := by cases w <;> decide
  have hfour : code.toNat = 2 ^ 2 * (code.toNat / 4) := by omega
  rw [UInt8.toNat_or, hfour]
  exact (Nat.two_pow_add_eq_or_of_lt (i := 2) hlt _).symm

namespace Encoding

variable (e : Encoding)

theorem toNat_header : e.short.header.toNat = e.code.toNat + e.width.code.toNat :=
  e.width.toNat_or e.hasCode.toNat_mod

theorem code_short : e.short.code = e.code := by
  have hlt : e.width.code.toNat < 4 := by cases e.width <;> decide
  have hmod := e.hasCode.toNat_mod
  apply UInt8.toNat_inj.mp
  rw [ShortItem.toNat_code, toNat_header]
  omega

theorem length_data : e.data.length = e.width.bytes := Payload.length_of_isWritten e.isWritten

theorem size_short : e.short.size = 1 + e.width.bytes := by
  show 1 + e.data.length = _
  rw [length_data]

/-- An item is written with as many data bytes as its header byte announces. -/
theorem wellSized_short : e.short.WellSized := by
  show e.data.length = announcedLength e.short.header
  have hmod := e.hasCode.toNat_mod
  have hlow : e.short.header.toNat % 4 = e.width.code.toNat := by
    have hlt : e.width.code.toNat < 4 := by cases e.width <;> decide
    rw [toNat_header]
    omega
  rw [length_data, announcedLength, hlow]
  cases e.width <;> rfl

end Encoding

/-! ## Reading one item back -/

namespace Payload

variable {bytes : Nat} {data : List UInt8}

theorem toNat_of_isWritten {n : Nat} (hfits : (unsigned n).Fits bytes)
    (h : (unsigned n).IsWritten bytes data) : (Value.mk data).toNat = n := by
  rw [show data = LittleEndian.ofNat bytes n from h]
  exact LittleEndian.toNat_ofNat_of_lt hfits

theorem toInt_of_isWritten {n : Int} (hfits : (signed n).Fits bytes)
    (h : (signed n).IsWritten bytes data) : (Value.mk data).toInt = n := by
  rw [show data = LittleEndian.ofInt bytes n from h]
  exact LittleEndian.toInt_ofInt hfits.1 hfits.2

theorem toUInt32_of_isWritten {w : UInt32} (hfits : (unsigned w.toNat).Fits bytes)
    (h : (unsigned w.toNat).IsWritten bytes data) : (Value.mk data).toUInt32 = w := by
  rw [Value.toUInt32, toNat_of_isWritten hfits h, UInt32.ofNat_toNat]

theorem toInt32_of_isWritten {w : Int32} (hfits : (signed w.toInt).Fits bytes)
    (h : (signed w.toInt).IsWritten bytes data) : (Value.mk data).toInt32 = w := by
  rw [Value.toInt32, toInt_of_isWritten hfits h, Int32.ofInt_toInt]

end Payload

/-- A register reads the word that was written for it. -/
theorem GlobalRegister.read_of_isWritten {r : GlobalRegister} {w : r.Word} {bytes : Nat}
    {data : List UInt8} (hfits : (r.payload w).Fits bytes)
    (h : (r.payload w).IsWritten bytes data) : r.read ⟨data⟩ = w := by
  cases r with
  | usagePage =>
      show UInt16.ofNat (Value.mk data).toNat = w
      rw [Payload.toNat_of_isWritten hfits h, UInt16.ofNat_toNat]
  | logicalMinimum | logicalMaximum | physicalMinimum | physicalMaximum =>
      exact Payload.toInt32_of_isWritten hfits h
  | unitExponent | unit => exact Payload.toUInt32_of_isWritten hfits h
  | reportSize | reportCount =>
      show UInt64.ofNat (Value.mk data).toNat = w
      rw [Payload.toNat_of_isWritten hfits h, UInt64.ofNat_toNat]
  | reportId =>
      show UInt8.ofNat (Value.mk data).toNat = w
      rw [Payload.toNat_of_isWritten hfits h, UInt8.ofNat_toNat]

/-- A usage is read as it was written. The number of data bytes tells whether its page is there. -/
theorem LocalUsage.ofValue_of_isWritten {u : LocalUsage} {width : Width} {data : List UInt8}
    (hfits : (Item.usage u).Fits width)
    (h : (Item.usage u).payload.IsWritten width.bytes data) : ofValue ⟨data⟩ = u := by
  obtain ⟨hfits, hwidth⟩ := hfits
  have hlength : data.length = width.bytes := Payload.length_of_isWritten h
  obtain ⟨page, id⟩ := u
  cases page with
  | some page =>
      obtain rfl : width = .four := hwidth.mp rfl
      have hword : (Value.mk data).toUInt32 = (Usage.mk page id).toWord := by
        rw [Value.toUInt32, Payload.toNat_of_isWritten hfits h]
        rfl
      have hfour : (Value.mk data).length = 4 := hlength
      rw [ofValue, if_pos hfour, hword, Usage.ofWord_toWord]
  | none =>
      have hshort : (Value.mk data).length ≠ 4 := by
        rw [show (Value.mk data).length = width.bytes from hlength]
        cases width with
        | four => simp at hwidth
        | _ => decide
      rw [ofValue, if_neg hshort, Value.toUInt16, Payload.toNat_of_isWritten hfits h,
        UInt16.ofNat_toNat]

/-- **What is read is the item that was written.** -/
theorem Encoding.item_short (e : Encoding) : e.short.item = e.item := by
  have hcode : e.item.HasCode e.short.code := by
    rw [e.code_short]
    exact e.hasCode
  have hfits := e.fits
  have hwritten : e.item.payload.IsWritten e.width.bytes e.short.value.bytes := e.isWritten
  generalize e.short = s at hcode hwritten ⊢
  generalize e.item = x at hcode hfits hwritten ⊢
  cases x with
  | field direction flags =>
      rw [ShortItem.item_of_fieldCode hcode]
      rw [show s.value.toUInt32 = flags.bits from Payload.toUInt32_of_isWritten hfits.1 hwritten]
  | collection kind =>
      rw [ShortItem.item_of_collectionCode hcode, Value.toUInt8]
      rw [show s.value.toNat = kind.code.toNat from Payload.toNat_of_isWritten hfits.1 hwritten]
      rw [UInt8.ofNat_toNat]
  | setGlobal r w =>
      rw [ShortItem.item_of_globalCode hcode]
      rw [show r.read s.value = w from GlobalRegister.read_of_isWritten hfits.1 hwritten]
  | usage u =>
      rw [ShortItem.item_of_usageCode hcode]
      rw [show LocalUsage.ofValue s.value = u from LocalUsage.ofValue_of_isWritten hfits hwritten]
  | setLocal r w =>
      rw [ShortItem.item_of_localCode hcode]
      rw [show s.value.toUInt32 = w from Payload.toUInt32_of_isWritten hfits.1 hwritten]
  | endCollection => exact ShortItem.item_of_endCollectionCode hcode
  | push => exact ShortItem.item_of_pushCode hcode
  | pop => exact ShortItem.item_of_popCode hcode
  | reserved place =>
      cases place with
      | globalTag c =>
          obtain ⟨rfl, hmem⟩ := hcode
          exact ShortItem.item_of_mem_globalCodes hmem
      | localTag c =>
          obtain ⟨rfl, hmem⟩ := hcode
          exact ShortItem.item_of_mem_localCodes hmem
      | unassigned =>
          rcases hcode with hmem | hmem
          · exact ShortItem.item_of_mem_mainCodes hmem
          · exact ShortItem.item_of_mem_typeCodes hmem

/-- Whatever can be read can be written, at each width that can hold it. -/
theorem exists_encoding (s : ShortItem) {width : Width} (h : s.item.Fits width) :
    ∃ e : Encoding, e.item = s.item ∧ e.width = width := by
  obtain ⟨data, hdata⟩ := s.item.payload.exists_isWritten width.bytes
  exact ⟨⟨s.item, width, s.code, data, h, s.hasCode_item, hdata⟩, rfl, rfl⟩

/-! ## Reading a list of items back -/

/-- Items that are written one behind the other are read in their places. -/
theorem ofBytes_encodings (encodings : List Encoding) :
    Tokens.ofBytes (encodings.flatMap (·.short.bytes)) =
      ⟨Tokens.place 0 (encodings.map (·.short)), none⟩ := by
  have hsized : ∀ s ∈ encodings.map (·.short), s.WellSized := by
    intro s hs
    obtain ⟨e, -, rfl⟩ := List.mem_map.mp hs
    exact e.wellSized_short
  have hread := Tokens.ofBytesAt_flatMap hsized 0
  rwa [List.flatMap_map] at hread

/-- **Reading undoes writing.** Items that are written one behind the other, each at any width that
can hold it and with any of the codes and data that stand for it, are read back: the same items in
the same order, each where it was written. So two ways of writing are read alike if and only if they
write the same item. And every item that can be read at all has been covered. -/
theorem whole_ofBytes_encodings :
    (∀ encodings : List Encoding, ∃ ts,
      (Tokens.ofBytes (encodings.flatMap (·.short.bytes))).whole = .ok ts ∧
      ts.map (·.item) = encodings.map (·.item) ∧
      ts.map (·.size) = encodings.map (1 + ·.width.bytes) ∧
      ts.map (·.header) = encodings.map (fun e => e.code ||| e.width.code) ∧
      ∀ i t, ts[i]? = some t →
        t.offset = ((encodings.take i).map (1 + ·.width.bytes)).sum) ∧
    (∀ d e : Encoding, d.short.item = e.short.item ↔ d.item = e.item) ∧
    ∀ (s : ShortItem) (width : Width), s.item.Fits width →
      ∃ e : Encoding, e.item = s.item ∧ e.width = width := by
  refine ⟨?_, ?_, ?_⟩
  · intro encodings
    have hread := ofBytes_encodings encodings
    have hsize : (Tokens.place 0 (encodings.map (·.short))).map (·.size) =
        encodings.map (1 + ·.width.bytes) := by
      rw [Tokens.map_place ShortItem.size, List.map_map]
      exact List.map_congr_left fun e _ => e.size_short
    refine ⟨Tokens.place 0 (encodings.map (·.short)), ?_, ?_, hsize, ?_, ?_⟩
    · rw [hread]
      rfl
    · rw [Tokens.map_place ShortItem.item, List.map_map]
      exact List.map_congr_left fun e _ => e.item_short
    · rw [Tokens.map_place ShortItem.header, List.map_map]
      rfl
    · intro i t ht
      have hsplits := Tokens.splits_ofBytesAt 0 (encodings.flatMap (·.short.bytes))
      rw [show Tokens.ofBytesAt 0 _ = _ from hread] at hsplits
      rw [hsplits.offset_eq i t ht, List.map_take, hsize, List.map_take, Nat.zero_add]
  · intro d e
    rw [d.item_short, e.item_short]
  · intro s width h
    exact exists_encoding s h

/-- A minimum of -1 at each width that can hold it, a usage with its page, and a reserved item with
data that mean nothing. -/
theorem whole_ofBytes_encodings_minimum :
    (∃ encodings : List Encoding,
      encodings.flatMap (·.short.bytes) =
        [0x15, 0xff, 0x16, 0xff, 0xff, 0x17, 0xff, 0xff, 0xff, 0xff, 0x0b, 0x02, 0x00, 0x01, 0x00,
          0xf5, 0x2a] ∧
      ∃ ts, (Tokens.ofBytes (encodings.flatMap (·.short.bytes))).whole = .ok ts ∧
        ts.map (·.item) =
          [.setGlobal .logicalMinimum (-1), .setGlobal .logicalMinimum (-1),
            .setGlobal .logicalMinimum (-1), .usage ⟨some 1, 2⟩, .reserved (.globalTag 0xf4)] ∧
        ∀ t, ts[3]? = some t → t.offset = 10) ∧
    ∃ e : Encoding, e.item = .pop ∧ e.width = .four := by
  obtain ⟨hread, -, hcovered⟩ := whole_ofBytes_encodings
  constructor
  · let minimum (width : Width) (data : List UInt8)
        (fits : (Item.setGlobal .logicalMinimum (-1)).Fits width)
        (written : data = LittleEndian.ofInt width.bytes (-1)) : Encoding :=
      ⟨.setGlobal .logicalMinimum (-1), width, 0x14, data, fits, rfl, written⟩
    let encodings : List Encoding := [minimum .one [0xff] (by decide) (by decide),
      minimum .two [0xff, 0xff] (by decide) (by decide),
      minimum .four [0xff, 0xff, 0xff, 0xff] (by decide) (by decide),
      ⟨.usage ⟨some 1, 2⟩, .four, 0x08, [2, 0, 1, 0], by decide, rfl, by decide⟩,
      ⟨.reserved (.globalTag 0xf4), .one, 0xf4, [0x2a], by decide, ⟨rfl, by decide⟩, rfl⟩]
    obtain ⟨ts, hwhole, hitems, -, -, hoffset⟩ := hread encodings
    refine ⟨encodings, by decide, ts, hwhole, hitems, ?_⟩
    intro t ht
    exact hoffset 3 t ht
  · exact hcovered ⟨0xb4, []⟩ .four (by decide)

end HidDescriptor
