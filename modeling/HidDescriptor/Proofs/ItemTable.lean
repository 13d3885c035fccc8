import HidDescriptor.Item.Meaning

/-! # The item table, read from the items

`ShortItem.item` looks the meaning of an item up by its type and its tag. Here the table is read the
other way: `Item.HasCode` says by which header bytes, their size left out, items of a kind are
written. The reserved places come at the end, as those that no other item has taken.

The two readings fit together. The code alone tells which kind of item it is (`item_of_fieldCode` and
its neighbours, one for each line of the table), the size in the header byte has no part in that; and
as every code has a line (`code_cases`), the meaning of an item has the code that the item was
written with (`hasCode_item`). -/

namespace HidDescriptor

/-! ## The table -/

def Direction.code : Direction → UInt8
  | .input => 0x80
  | .output => 0x90
  | .feature => 0xb0

def GlobalRegister.code : GlobalRegister → UInt8
  | usagePage => 0x04
  | logicalMinimum => 0x14
  | logicalMaximum => 0x24
  | physicalMinimum => 0x34
  | physicalMaximum => 0x44
  | unitExponent => 0x54
  | unit => 0x64
  | reportSize => 0x74
  | reportId => 0x84
  | reportCount => 0x94

def LocalRegister.code : LocalRegister → UInt8
  | usageMinimum => 0x18
  | usageMaximum => 0x28
  | designatorIndex => 0x38
  | designatorMinimum => 0x48
  | designatorMaximum => 0x58
  | stringIndex => 0x78
  | stringMinimum => 0x88
  | stringMaximum => 0x98
  | delimiter => 0xa8

def Direction.all : List Direction := [.input, .output, .feature]

def GlobalRegister.all : List GlobalRegister :=
  [.usagePage, .logicalMinimum, .logicalMaximum, .physicalMinimum, .physicalMaximum, .unitExponent,
    .unit, .reportSize, .reportId, .reportCount]

def LocalRegister.all : List LocalRegister :=
  [.usageMinimum, .usageMaximum, .designatorIndex, .designatorMinimum, .designatorMaximum,
    .stringIndex, .stringMinimum, .stringMaximum, .delimiter]

namespace Reserved

def mainCodes : List UInt8 :=
  [0x00, 0x10, 0x20, 0x30, 0x40, 0x50, 0x60, 0x70, 0xd0, 0xe0, 0xf0]

def globalCodes : List UInt8 := [0xc4, 0xd4, 0xe4, 0xf4]

def localCodes : List UInt8 := [0x68, 0xb8, 0xc8, 0xd8, 0xe8, 0xf8]

def typeCodes : List UInt8 :=
  [0x0c, 0x1c, 0x2c, 0x3c, 0x4c, 0x5c, 0x6c, 0x7c, 0x8c, 0x9c, 0xac, 0xbc, 0xcc, 0xdc, 0xec, 0xfc]

/-- All codes that no item has. -/
def codes : List UInt8 := mainCodes ++ globalCodes ++ localCodes ++ typeCodes

end Reserved

/-- Items of this kind are written with this code, the header byte without its size. -/
def Item.HasCode : Item → UInt8 → Prop
  | .field direction _, code => code = direction.code
  | .collection _, code => code = 0xa0
  | .endCollection, code => code = 0xc0
  | .setGlobal r _, code => code = r.code
  | .push, code => code = 0xa4
  | .pop, code => code = 0xb4
  | .usage _, code => code = 0x08
  | .setLocal r _, code => code = r.code
  | .reserved (.globalTag c), code => code = c ∧ c ∈ Reserved.globalCodes
  | .reserved (.localTag c), code => code = c ∧ c ∈ Reserved.localCodes
  -- these two do not tell which code they were written with
  | .reserved .unassigned, code => code ∈ Reserved.mainCodes ∨ code ∈ Reserved.typeCodes

/-- The number of the type, as the header byte has it. -/
def ItemType.number : ItemType → Nat
  | mainItem => 0
  | globalItem => 1
  | localItem => 2
  | reservedType => 3

namespace ShortItem

/-! ## Type and tag -/

theorem toNat_code (s : ShortItem) : s.code.toNat = s.header.toNat / 4 * 4 := by
  have hclear : ∀ n : Fin 256, n.val &&& 0xfc = n.val / 4 * 4 := by decide +kernel
  rw [code, UInt8.toNat_and]
  exact hclear ⟨s.header.toNat, s.header.toNat_lt⟩

theorem number_type (s : ShortItem) : s.type.number = s.header.toNat / 4 % 4 := by
  have hlt : s.header.toNat / 4 % 4 < 4 := Nat.mod_lt _ (by decide)
  unfold type
  generalize s.header.toNat / 4 % 4 = n at hlt ⊢
  match n, hlt with
  | 0, _ => rfl
  | 1, _ => rfl
  | 2, _ => rfl
  | 3, _ => rfl

theorem tag_eq (s : ShortItem) : s.tag = s.code.toNat / 16 := by
  rw [toNat_code, tag]
  omega

variable {s : ShortItem}

theorem type_of_code {t : ItemType} (h : s.code.toNat / 4 % 4 = t.number) : s.type = t := by
  have hnumber : s.type.number = t.number := by
    rw [number_type, ← h, toNat_code]
    omega
  cases htype : s.type <;> cases t <;> first | rfl | (rw [htype] at hnumber; cases hnumber)

/-! ## The code tells the kind of item -/

theorem item_of_fieldCode {direction : Direction} (h : s.code = direction.code) :
    s.item = .field direction ⟨s.value.toUInt32⟩ := by
  have htype : s.type = .mainItem := type_of_code (by rw [h]; cases direction <;> rfl)
  unfold item mainMeaning
  rw [htype, tag_eq, h]
  cases direction <;> rfl

theorem item_of_collectionCode (h : s.code = 0xa0) : s.item = .collection ⟨s.value.toUInt8⟩ := by
  unfold item mainMeaning
  rw [type_of_code (t := .mainItem) (by rw [h]; rfl), tag_eq, h]
  rfl

theorem item_of_endCollectionCode (h : s.code = 0xc0) : s.item = .endCollection := by
  unfold item mainMeaning
  rw [type_of_code (t := .mainItem) (by rw [h]; rfl), tag_eq, h]
  rfl

theorem item_of_globalCode {r : GlobalRegister} (h : s.code = r.code) :
    s.item = .setGlobal r (r.read s.value) := by
  have htype : s.type = .globalItem := type_of_code (by rw [h]; cases r <;> rfl)
  have htag : GlobalRegister.ofTag? s.tag = some r := by rw [tag_eq, h]; cases r <;> rfl
  unfold item globalMeaning
  rw [htype, htag]

example : (ShortItem.mk 0x25 [0xff]).item = .setGlobal .logicalMaximum (-1) := by decide

theorem item_of_pushCode (h : s.code = 0xa4) : s.item = .push := by
  unfold item globalMeaning
  rw [type_of_code (t := .globalItem) (by rw [h]; rfl), tag_eq, h]
  rfl

theorem item_of_popCode (h : s.code = 0xb4) : s.item = .pop := by
  unfold item globalMeaning
  rw [type_of_code (t := .globalItem) (by rw [h]; rfl), tag_eq, h]
  rfl

theorem item_of_usageCode (h : s.code = 0x08) : s.item = .usage (.ofValue s.value) := by
  unfold item localMeaning
  rw [type_of_code (t := .localItem) (by rw [h]; rfl), tag_eq, h]
  rfl

example : (ShortItem.mk 0x0b [0x30, 0x00, 0x01, 0x00]).item = .usage ⟨some 1, 0x30⟩ := by decide

theorem item_of_localCode {r : LocalRegister} (h : s.code = r.code) :
    s.item = .setLocal r s.value.toUInt32 := by
  have htype : s.type = .localItem := type_of_code (by rw [h]; cases r <;> rfl)
  have htag : LocalRegister.ofTag? s.tag = some r := by rw [tag_eq, h]; cases r <;> rfl
  unfold item localMeaning
  rw [htype, htag]

/-! The places that no item has taken are those that are left over in each type. -/

theorem item_of_mem_mainCodes (h : s.code ∈ Reserved.mainCodes) :
    s.item = .reserved .unassigned := by
  have htable : ∀ c ∈ Reserved.mainCodes,
      c.toNat / 4 % 4 = 0 ∧ c.toNat / 16 ∉ [8, 9, 10, 11, 12] := by decide +kernel
  obtain ⟨htype, htag⟩ := htable _ h
  rw [← tag_eq] at htag
  unfold item mainMeaning
  rw [type_of_code (t := .mainItem) htype]
  dsimp only
  split
  case h_6 => rfl
  all_goals
    next heq =>
      rw [heq] at htag
      exact absurd (by decide) htag

theorem item_of_mem_globalCodes (h : s.code ∈ Reserved.globalCodes) :
    s.item = .reserved (.globalTag s.code) := by
  have htable : ∀ c ∈ Reserved.globalCodes, c.toNat / 4 % 4 = 1 ∧
      GlobalRegister.ofTag? (c.toNat / 16) = none ∧ c.toNat / 16 ∉ [10, 11] := by decide +kernel
  obtain ⟨htype, hnone, htag⟩ := htable _ h
  rw [← tag_eq] at hnone htag
  unfold item globalMeaning
  rw [type_of_code (t := .globalItem) htype, hnone]
  dsimp only
  split
  case h_3 => rfl
  all_goals
    next heq =>
      rw [heq] at htag
      exact absurd (by decide) htag

theorem item_of_mem_localCodes (h : s.code ∈ Reserved.localCodes) :
    s.item = .reserved (.localTag s.code) := by
  have htable : ∀ c ∈ Reserved.localCodes, c.toNat / 4 % 4 = 2 ∧
      LocalRegister.ofTag? (c.toNat / 16) = none ∧ c.toNat / 16 ≠ 0 := by decide +kernel
  obtain ⟨htype, hnone, htag⟩ := htable _ h
  rw [← tag_eq] at hnone htag
  unfold item localMeaning
  rw [type_of_code (t := .localItem) htype, hnone]
  dsimp only
  split
  case h_1 heq => exact absurd heq htag
  case h_2 => rfl

theorem item_of_mem_typeCodes (h : s.code ∈ Reserved.typeCodes) :
    s.item = .reserved .unassigned := by
  have htable : ∀ c ∈ Reserved.typeCodes, c.toNat / 4 % 4 = 3 := by decide +kernel
  unfold item
  rw [type_of_code (t := .reservedType) (htable _ h)]

/-- A code that no item has stands for one of the reserved places. -/
theorem item_of_mem_codes (h : s.code ∈ Reserved.codes) : ∃ place, s.item = .reserved place := by
  simp only [Reserved.codes, List.mem_append] at h
  rcases h with ((h | h) | h) | h
  · exact ⟨_, item_of_mem_mainCodes h⟩
  · exact ⟨_, item_of_mem_globalCodes h⟩
  · exact ⟨_, item_of_mem_localCodes h⟩
  · exact ⟨_, item_of_mem_typeCodes h⟩

/-! ## The meaning has the code -/

/-- The table is complete: each of the 64 codes has its line in it. -/
theorem code_cases (s : ShortItem) :
    (∃ direction ∈ Direction.all, s.code = direction.code) ∨ s.code = 0xa0 ∨ s.code = 0xc0 ∨
      (∃ r ∈ GlobalRegister.all, s.code = r.code) ∨ s.code = 0xa4 ∨ s.code = 0xb4 ∨
      s.code = 0x08 ∨ (∃ r ∈ LocalRegister.all, s.code = r.code) ∨
      s.code ∈ Reserved.mainCodes ∨ s.code ∈ Reserved.globalCodes ∨
      s.code ∈ Reserved.localCodes ∨ s.code ∈ Reserved.typeCodes := by
  obtain ⟨n, hn⟩ : ∃ n : Fin 64, s.code = UInt8.ofNat (n * 4) := by
    have hlt := s.header.toNat_lt
    refine ⟨⟨s.header.toNat / 4, by omega⟩, UInt8.toNat_inj.mp ?_⟩
    rw [toNat_code, UInt8.toNat_ofNat']
    exact (Nat.mod_eq_of_lt (by omega)).symm
  rw [hn]
  clear hn
  revert n
  decide +kernel

/-- **Whatever an item means, the meaning has the code that the item was written with.** -/
theorem hasCode_item (s : ShortItem) : s.item.HasCode s.code := by
  rcases s.code_cases with
    ⟨direction, -, h⟩ | h | h | ⟨r, -, h⟩ | h | h | h | ⟨r, -, h⟩ | h | h | h | h
  · rwa [item_of_fieldCode h]
  · rwa [item_of_collectionCode h]
  · rwa [item_of_endCollectionCode h]
  · rwa [item_of_globalCode h]
  · rwa [item_of_pushCode h]
  · rwa [item_of_popCode h]
  · rwa [item_of_usageCode h]
  · rwa [item_of_localCode h]
  · rw [item_of_mem_mainCodes h]
    exact .inl h
  · rw [item_of_mem_globalCodes h]
    exact ⟨rfl, h⟩
  · rw [item_of_mem_localCodes h]
    exact ⟨rfl, h⟩
  · rw [item_of_mem_typeCodes h]
    exact .inr h

/-- The usage that is listed has been read off the data of the item. -/
theorem usage_of_item {u : LocalUsage} (h : s.item = .usage u) : u = .ofValue s.value := by
  have hcode : s.code = 0x08 := by
    have hhas := s.hasCode_item
    rwa [h] at hhas
  have hread := item_of_usageCode hcode
  rw [h] at hread
  cases hread
  rfl

/-- What is put into a register has been read off the data of the item. -/
theorem word_of_item {r : GlobalRegister} {w : r.Word} (h : s.item = .setGlobal r w) :
    w = r.read s.value := by
  have hcode : s.code = r.code := by
    have hhas := s.hasCode_item
    rwa [h] at hhas
  have hread := item_of_globalCode hcode
  rw [h] at hread
  cases hread
  rfl

end ShortItem
end HidDescriptor
