import Mathlib.Data.List.Basic
import Mathlib.Data.List.Induction

/-! # Generic `Except` and `eraseDups` lemmas

Facts about computations that may fail and about lists without their repetitions. Nothing here
mentions items, records or reports. -/

namespace HidDescriptor

/-! ## Computations that may fail -/

/-- What succeeds as a whole has succeeded in each of its two steps. -/
theorem bind_eq_ok {ε α β : Type} {x : Except ε α} {next : α → Except ε β} {b : β}
    (h : x >>= next = .ok b) : ∃ a, x = .ok a ∧ next a = .ok b := by
  cases x with
  | error e => cases h
  | ok a => exact ⟨a, rfl, h⟩

/-- **A run of steps that may fail.** What every step keeps, for the elements that have been taken so
far, holds after all of them. -/
theorem foldlM_keeps {ε α β : Type} {step : β → α → Except ε β} {I : List α → β → Prop}
    {l : List α} {b c : β} (seen : List α) (hb : I seen b)
    (hstep : ∀ a ∈ l, ∀ seen b c, I seen b → step b a = .ok c → I (seen ++ [a]) c)
    (h : l.foldlM step b = .ok c) : I (seen ++ l) c := by
  induction l generalizing seen b with
  | nil =>
      cases h
      rwa [List.append_nil]
  | cons a l ih =>
      rw [List.foldlM_cons] at h
      obtain ⟨d, hone, hrest⟩ := bind_eq_ok h
      have hd : I (seen ++ [a]) d := hstep a List.mem_cons_self seen b d hb hone
      simpa using ih (seen ++ [a]) hd (fun x hx => hstep x (List.mem_cons_of_mem a hx)) hrest

theorem mapError_bind {ε ε' α β : Type} (g : ε → ε') (x : Except ε α) (f : α → Except ε β) :
    (x >>= f).mapError g = x.mapError g >>= fun a => (f a).mapError g := by
  cases x <;> rfl

/-! ## Lists without repetitions -/

variable {α β : Type} [BEq α] [LawfulBEq α] [BEq β] [LawfulBEq β]

theorem eraseDups_concat (l : List α) (a : α) :
    (l ++ [a]).eraseDups = if a ∈ l then l.eraseDups else l.eraseDups ++ [a] := by
  rw [List.eraseDups_append]
  by_cases ha : a ∈ l <;> simp [List.removeAll, List.eraseDups_cons, ha]

theorem nodup_eraseDups (l : List α) : l.eraseDups.Nodup := by
  induction l using List.reverseRecOn with
  | nil => simp
  | append_singleton l a ih =>
      rw [eraseDups_concat]
      split
      · exact ih
      · next ha =>
          refine List.nodup_append.mpr ⟨ih, by simp, fun x hx y hy => ?_⟩
          rw [List.mem_singleton.mp hy]
          rintro rfl
          exact ha (List.mem_eraseDups.mp hx)

theorem eraseDups_of_forall_eq {a : α} {xs : List α}
    (hne : xs ≠ []) (h : ∀ x ∈ xs, x = a) : xs.eraseDups = [a] := by
  obtain ⟨x, rest, rfl⟩ := List.exists_cons_of_ne_nil hne
  have hrest : rest.filter (fun y => !(y == x)) = [] := by
    apply List.filter_eq_nil_iff.mpr
    intro y hy
    simp [h y (List.mem_cons_of_mem x hy), h x List.mem_cons_self]
  rw [List.eraseDups_cons, hrest, h x List.mem_cons_self]
  rfl

/-- Elements with a property that are told apart by `g` may be selected before or after the
repetitions are taken out. -/
theorem map_filter_eraseDups {p : α → Bool} {g : α → β}
    (hg : ∀ x y, p x = true → p y = true → g x = g y → x = y) (l : List α) :
    (l.eraseDups.filter p).map g = ((l.filter p).map g).eraseDups := by
  induction l using List.reverseRecOn with
  | nil => rfl
  | append_singleton l a ih =>
      rw [eraseDups_concat, List.filter_append]
      by_cases hp : p a = true
      · rw [List.filter_singleton, hp]
        have hmem : g a ∈ (l.filter p).map g ↔ a ∈ l := by
          simp only [List.mem_map, List.mem_filter]
          constructor
          · rintro ⟨x, ⟨hx, hpx⟩, hxa⟩
            rwa [← hg x a hpx hp hxa]
          · exact fun ha => ⟨a, ⟨ha, hp⟩, rfl⟩
        simp only [cond_true, List.map_append, List.map_singleton, eraseDups_concat, hmem]
        split
        · exact ih
        · rw [List.filter_append, List.filter_singleton, hp, List.map_append, ih]
          rfl
      · have hp' : p a = false := by simpa using hp
        rw [List.filter_singleton, hp', cond_false, List.append_nil, ← ih]
        split
        · rfl
        · rw [List.filter_append, List.filter_singleton, hp', cond_false, List.append_nil]

end HidDescriptor
