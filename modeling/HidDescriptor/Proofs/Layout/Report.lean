import HidDescriptor.Layout.Basic
import HidDescriptor.Proofs.Generic
import HidDescriptor.Proofs.Layout.Expansion
import Mathlib.Data.List.Forall2

/-! # One report, record by record

A report grows by the slots of one record after the other (`Report.add`). If these are records of the
report, and not of another one, the report is at every moment tiled by its fields (`Report.Tiled`),
and its fields are the expansions of its records, one behind the other. Both are part of
`Report.Holds`, which relates a report to the records that went into it; a record that is added keeps
it (`Holds.add`), and so it holds after any number of them (`Holds.addAll`). -/

namespace HidDescriptor

/-- The field without its place. -/
def Field.slot (f : Field) : Slot := ⟨f.bits.last + 1 - f.bits.first, f.content⟩

namespace Report

/-- The fields of the report take up its bits from the first to the last, each of them at least one
bit, without a gap and without an overlap, in their order. -/
structure Tiled (r : Report) : Prop where
  key : ∀ f ∈ r.fields, f.key = r.key
  first : ∀ f, r.fields[0]? = some f → f.bits.first = 0
  first_le_last : ∀ f ∈ r.fields, f.bits.first ≤ f.bits.last
  next : ∀ k f g, r.fields[k]? = some f → r.fields[k + 1]? = some g →
    g.bits.first = f.bits.last + 1
  last : ∀ f, r.fields.back? = some f → f.bits.last + 1 = r.size
  last_lt : ∀ f ∈ r.fields, f.bits.last < r.size
  empty_iff : r.fields = #[] ↔ r.size = 0

theorem tiled_empty (key : ReportKey) : (empty key).Tiled where
  key := by simp [empty]
  first := by simp [empty]
  first_le_last := by simp [empty]
  next := by simp [empty]
  last := by simp [empty]
  last_lt := by simp [empty]
  empty_iff := by simp [empty]

/-- A report grows by exactly the bits of the fields that are added. -/
theorem size_append (r : Report) (key : ReportKey) (slots : List Slot) :
    (r.append key slots).size = r.size + (slots.map (·.width)).sum := by
  induction slots generalizing r with
  | nil => rfl
  | cons s slots ih =>
      rw [List.map_cons, List.sum_cons, ← Nat.add_assoc]
      exact ih (r.push key s)

variable {r r' : Report} {key : ReportKey} {s : Slot}

/-- A slot of at least one bit that belongs to the report goes behind the last field. -/
theorem Tiled.push (h : r.Tiled) (hkey : key = r.key) (hs : 0 < s.width) :
    (r.push key s).Tiled where
  key f hf := by
    rcases Array.mem_push.mp hf with hf | rfl
    · exact h.key f hf
    · exact hkey
  first f hf := by
    rw [Report.push, Array.getElem?_push] at hf
    split at hf
    · next hempty =>
        cases hf
        exact h.empty_iff.mp (Array.size_eq_zero_iff.mp hempty.symm)
    · exact h.first f hf
  first_le_last f hf := by
    rcases Array.mem_push.mp hf with hf | rfl
    · exact h.first_le_last f hf
    · exact Nat.le_sub_one_of_lt (Nat.lt_add_of_pos_right hs)
  next k f g hf hg := by
    rw [Report.push, Array.getElem?_push] at hf hg
    split at hg
    · next hk =>
        -- `g` is the new field, and so `f` is the field that was the last one
        cases hg
        rw [if_neg (by omega)] at hf
        refine (h.last f ?_).symm
        rwa [Array.back?_eq_getElem?, ← hk, Nat.add_sub_cancel]
    · next hk =>
        split at hf
        · next hk' =>
            rw [Array.getElem?_eq_none (by omega)] at hg
            cases hg
        · exact h.next k f g hf hg
  last f hf := by
    rw [Report.push, Array.back?_push] at hf
    cases hf
    exact Nat.sub_add_cancel (Nat.le_add_left_of_le hs)
  last_lt f hf := by
    rcases Array.mem_push.mp hf with hf | rfl
    · exact Nat.lt_add_right _ (h.last_lt f hf)
    · exact Nat.sub_one_lt_of_lt (Nat.lt_add_left _ hs)
  empty_iff := by
    rw [Report.push]
    simp only [Array.push_ne_empty, false_iff]
    omega

theorem Tiled.append {slots : List Slot} (h : r.Tiled) (hkey : key = r.key)
    (hs : ∀ s ∈ slots, 0 < s.width) : (r.append key slots).Tiled := by
  induction slots generalizing r with
  | nil => exact h
  | cons s slots ih =>
      have hpush : (r.push key s).Tiled := h.push hkey (hs s List.mem_cons_self)
      exact ih hpush hkey fun t ht => hs t (List.mem_cons_of_mem _ ht)

def slots (r : Report) : List Slot := r.fields.toList.map (·.slot)

/-- What is appended stands behind the fields that were there, with its widths and contents. -/
theorem slots_append {slots : List Slot} (hs : ∀ s ∈ slots, 0 < s.width) :
    (r.append key slots).slots = r.slots ++ slots := by
  induction slots generalizing r with
  | nil => exact (List.append_nil _).symm
  | cons s slots ih =>
      have hwidth : 0 < s.width := hs s List.mem_cons_self
      have hone : (r.push key s).slots = r.slots ++ [s] := by
        have hback : r.size + s.width - 1 + 1 - r.size = s.width := by omega
        simp [Report.slots, Report.push, Field.slot, hback]
      calc (r.append key (s :: slots)).slots
          = (r.push key s).slots ++ slots := ih fun t ht => hs t (List.mem_cons_of_mem _ ht)
        _ = r.slots ++ s :: slots := by rw [hone, List.append_assoc, List.singleton_append]

/-! ## Reports and their records -/

def add (r : Report) (f : FieldRecord) : Except Fault Report := do
  return r.append f.key (← f.slots r.size)

/-- Lays out records of the report, up to the first that cannot be. -/
def addAll (r : Report) (fs : List FieldRecord) : Except Fault Report := fs.foldlM add r

/-- The report is what the records amount to. -/
structure Holds (r : Report) (fs : List FieldRecord) : Prop where
  tiled : r.Tiled
  known : ∀ f ∈ fs, f.globals.reportSize.isSome ∧ f.globals.reportCount.isSome
  size_eq : r.size = (fs.map (·.bits)).sum
  size_le : r.size ≤ 131072
  /-- Each record has its expansion among the fields, and there are no other fields. -/
  expands : ∃ parts, List.Forall₂ FieldRecord.Expands fs parts ∧ r.slots = parts.flatten

theorem holds_empty (key : ReportKey) : (empty key).Holds [] where
  tiled := tiled_empty key
  known := by simp
  size_eq := rfl
  size_le := Nat.zero_le _
  expands := ⟨[], .nil, rfl⟩

/-- A record that is laid out has its slots appended. -/
theorem add_eq_ok {f : FieldRecord} (h : r.add f = .ok r') :
    ∃ slots, f.slots r.size = .ok slots ∧ r' = r.append f.key slots := by
  obtain ⟨slots, hslots, hr⟩ := bind_eq_ok h
  cases hr
  exact ⟨slots, hslots, rfl⟩

theorem key_add {f : FieldRecord} (h : r.add f = .ok r') : r'.key = r.key := by
  obtain ⟨slots, -, rfl⟩ := add_eq_ok h
  exact key_append r f.key slots

/-- **One step**: a record of the report that is laid out adds its expansion. -/
theorem Holds.add {fs : List FieldRecord} {f : FieldRecord} (h : r.Holds fs)
    (hkey : f.key = r.key) (hadd : r.add f = .ok r') : r'.Holds (fs ++ [f]) := by
  obtain ⟨slots, hslots, rfl⟩ := add_eq_ok hadd
  obtain ⟨hexp, hfits⟩ := FieldRecord.expands_of_slots hslots
  have hsize : (r.append f.key slots).size = r.size + f.bits := by rw [size_append, hexp.sum_width]
  obtain ⟨parts, hparts, hflat⟩ := h.expands
  refine ⟨h.tiled.append hkey hexp.width_pos, fun g hg => ?_, ?_, ?_, parts ++ [slots], ?_, ?_⟩
  · rcases List.mem_append.mp hg with hg | hg
    · exact h.known g hg
    · rw [List.mem_singleton.mp hg]
      exact FieldRecord.known_of_no_offence (FieldRecord.offence?_of_slots hslots)
  · rw [hsize, h.size_eq]
    simp
  · have hle := h.size_le
    omega
  · exact List.rel_append hparts (.cons hexp .nil)
  · rw [slots_append hexp.width_pos, hflat]
    simp

/-- **A run** over records of the report adds all their expansions. -/
theorem Holds.addAll {fs gs : List FieldRecord} (h : r.Holds fs)
    (hkey : ∀ g ∈ gs, g.key = r.key) (hadd : r.addAll gs = .ok r') : r'.Holds (fs ++ gs) := by
  -- the report keeps its key, and so what comes next is a record of the report as well
  have hrun : r'.Holds (fs ++ gs) ∧ r'.key = r.key := by
    refine foldlM_keeps (I := fun fs q => q.Holds fs ∧ q.key = r.key) fs ⟨h, rfl⟩ ?_ hadd
    rintro g hg seen p q ⟨hp, hpkey⟩ hstep
    exact ⟨hp.add ((hkey g hg).trans hpkey.symm) hstep, (key_add hstep).trans hpkey⟩
  exact hrun.1

end Report
end HidDescriptor
