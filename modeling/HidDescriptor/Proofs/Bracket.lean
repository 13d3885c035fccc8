import HidDescriptor.Item.Basic
import Mathlib.Data.List.Basic

/-! # Brackets: items that close what other items opened

Two pairs of items come in brackets. Push and Pop (`Bracket.saving`) save and restore the global
registers; Collection and End Collection (`Bracket.nesting`) enclose a part of the descriptor. The
two pairs do not see each other, so one theory serves both.

Brackets are matched by counting alone. A list of items is `Balanced` if it closes as many brackets
as it opens and never, at any point, has closed more than it opened; an opening item and a later
closing item match (`Matches`) if the items between them are balanced. Nothing here keeps a stack.
What a decoder keeps on a stack is related to the count by `Stack`, at the end of the file.

Two readings of a list come out of the matching, and both distribute over `++` as long as the
second list closes nothing that the first one opened:

    live_append   : b.Covered t → b.live (h ++ t) = b.live h ++ b.live t
    opened_append : b.Covered t → b.opened (h ++ t) = b.opened h ++ b.opened t

A matched pair leaves no trace in either of them but its own two items (`live_pair`,
`opened_of_balanced`). -/

namespace HidDescriptor

/-- A kind of bracket: which items open one, and which close one. -/
structure Bracket where
  opens : Item → Bool
  closes : Item → Bool
  /-- No item does both. -/
  not_closes : ∀ {x : Item}, opens x = true → closes x = false

namespace Bracket

def saving : Bracket where
  opens | .push => true | _ => false
  closes | .pop => true | _ => false
  not_closes {x} h := by cases x <;> simp_all

def nesting : Bracket where
  opens | .collection _ => true | _ => false
  closes | .endCollection => true | _ => false
  not_closes {x} h := by cases x <;> simp_all

variable (b : Bracket)

/-- How many brackets the items open beyond those they close. -/
def depth (l : List Item) : Int := l.countP b.opens - l.countP b.closes

/-- At no point have the items closed more brackets than they opened. -/
def Covered (l : List Item) : Prop := ∀ n ≤ l.length, 0 ≤ b.depth (l.take n)

/-- The items close exactly the brackets that they open. -/
structure Balanced (l : List Item) : Prop where
  covered : b.Covered l
  level : b.depth l = 0

instance (l : List Item) : Decidable (b.Covered l) :=
  inferInstanceAs (Decidable (∀ n ≤ l.length, 0 ≤ b.depth (l.take n)))

instance (l : List Item) : Decidable (b.Balanced l) :=
  decidable_of_iff (b.Covered l ∧ b.depth l = 0)
    ⟨fun h => ⟨h.1, h.2⟩, fun h => ⟨h.covered, h.level⟩⟩

/-- The item at `p` opens the bracket that the item at `q` closes. -/
def Matches (l : List Item) (p q : Nat) : Prop :=
  p < q ∧ l[p]?.any b.opens ∧ l[q]?.any b.closes ∧ b.Balanced ((l.take q).drop (p + 1))

instance (l : List Item) (p q : Nat) : Decidable (b.Matches l p q) :=
  inferInstanceAs (Decidable (_ ∧ _))

/-- The position lies inside a bracket that has been closed again. -/
def Enclosed (l : List Item) (j : Nat) : Prop :=
  ∃ p < j, ∃ q < l.length, j < q ∧ b.Matches l p q

instance (l : List Item) : DecidablePred (b.Enclosed l) := fun _ =>
  inferInstanceAs (Decidable (∃ _, _))

/-- The position opens a bracket that has not been closed. -/
def Unclosed (l : List Item) (p : Nat) : Prop :=
  l[p]?.any b.opens ∧ ∀ q < l.length, ¬ b.Matches l p q

instance (l : List Item) : DecidablePred (b.Unclosed l) := fun _ =>
  inferInstanceAs (Decidable (_ ∧ _))

def select (l : List Item) (keep : Nat → Prop) [DecidablePred keep] : List Item :=
  (List.range l.length).filterMap fun j => if keep j then l[j]? else none

/-- The items outside of all brackets that have been closed. -/
def live (l : List Item) : List Item := select l fun j => ¬ b.Enclosed l j

/-- The items that opened a bracket which is still open. -/
def opened (l : List Item) : List Item := select l (b.Unclosed l)

/-! ## Counting -/

variable {b}

@[simp] theorem depth_nil : b.depth [] = 0 := rfl

@[simp] theorem depth_append (h t : List Item) : b.depth (h ++ t) = b.depth h + b.depth t := by
  simp only [depth, List.countP_append]
  omega

theorem depth_cons (x : Item) (l : List Item) : b.depth (x :: l) = b.depth [x] + b.depth l :=
  depth_append [x] l

theorem depth_open {o : Item} (ho : b.opens o = true) : b.depth [o] = 1 := by
  simp [depth, ho, b.not_closes ho]

theorem depth_close {c : Item} (hc : b.closes c = true) : b.depth [c] = -1 := by
  cases ho : b.opens c with
  | true =>
      rw [b.not_closes ho] at hc
      exact Bool.noConfusion hc
  | false => simp [depth, hc, ho]

theorem depth_other {x : Item} (ho : b.opens x = false) (hc : b.closes x = false) :
    b.depth [x] = 0 := by
  simp [depth, ho, hc]

/-- Only a closing item brings the count down, and by no more than one. -/
theorem closes_of_depth_neg {x : Item} (h : b.depth [x] < 0) :
    b.closes x = true ∧ b.depth [x] = -1 := by
  cases hc : b.closes x with
  | true => exact ⟨rfl, depth_close hc⟩
  | false =>
      cases ho : b.opens x with
      | true => rw [depth_open ho] at h; omega
      | false => rw [depth_other ho hc] at h; omega

/-- Past the end of the list nothing changes, so the bound on the prefix does not matter. -/
theorem Covered.take {l : List Item} (h : b.Covered l) (n : Nat) : 0 ≤ b.depth (l.take n) := by
  by_cases hn : n ≤ l.length
  · exact h n hn
  · have hall := h l.length (Nat.le_refl _)
    rwa [List.take_of_length_le (by omega), ← List.take_length (l := l)]

theorem Covered.depth_nonneg {l : List Item} (h : b.Covered l) : 0 ≤ b.depth l := by
  simpa using h.take l.length

/-- A list is covered if its first part is, and the second part never closes more brackets than
there are left open. -/
theorem Covered.append {h t : List Item} (hh : b.Covered h)
    (ht : ∀ n, 0 ≤ b.depth h + b.depth (t.take n)) : b.Covered (h ++ t) := by
  intro n _
  rw [List.take_append, depth_append]
  by_cases hn : n ≤ h.length
  · rw [Nat.sub_eq_zero_of_le hn]
    simpa using hh n hn
  · rw [List.take_of_length_le (by omega)]
    exact ht _

theorem covered_singleton {x : Item} (hc : b.closes x = false) : b.Covered [x] := by
  have hx : 0 ≤ b.depth [x] := by
    cases ho : b.opens x with
    | true => rw [depth_open ho]; omega
    | false => exact Int.le_of_eq (depth_other ho hc).symm
  intro n hn
  match n with
  | 0 => simp
  | 1 => simpa using hx
  | n + 2 => simp at hn

theorem Covered.of_append {h t : List Item} (hc : b.Covered (h ++ t)) : b.Covered h := by
  intro n hn
  have hpre := hc.take n
  rwa [List.take_append_of_le_length hn] at hpre

theorem balanced_nil : b.Balanced [] where
  covered := by intro n _; simp
  level := rfl

theorem balanced_singleton {x : Item} (ho : b.opens x = false) (hc : b.closes x = false) :
    b.Balanced [x] where
  covered := covered_singleton hc
  level := depth_other ho hc

theorem Balanced.append {h t : List Item} (hh : b.Balanced h) (ht : b.Balanced t) :
    b.Balanced (h ++ t) where
  covered := by
    refine hh.covered.append fun n => ?_
    rw [hh.level, Int.zero_add]
    exact ht.covered.take n
  level := by rw [depth_append, hh.level, ht.level, Int.zero_add]

/-- An opening item keeps up what follows it, as long as that is covered itself. -/
theorem Covered.cons_open {o : Item} {m : List Item} (ho : b.opens o = true) (hm : b.Covered m) :
    b.Covered (o :: m) := by
  refine (covered_singleton (b.not_closes ho)).append (t := m) fun n => ?_
  rw [depth_open ho]
  have := hm.take n
  omega

/-- A bracket around balanced items is balanced. -/
theorem Balanced.pair {o c : Item} {m : List Item} (ho : b.opens o = true)
    (hm : b.Balanced m) (hc : b.closes c = true) : b.Balanced (o :: m ++ [c]) where
  covered := by
    refine (hm.covered.cons_open ho).append fun n => ?_
    rw [depth_cons, depth_open ho, hm.level]
    match n with
    | 0 => simp
    | n + 1 => rw [List.take_succ_cons, List.take_nil, depth_close hc]; omega
  level := by
    rw [depth_append, depth_cons, depth_open ho, hm.level, depth_close hc]
    rfl

/-! ## Finding the match -/

/-- Where the depth falls below zero, some item closes a bracket from before the list, and the
first such item is reached over balanced items. -/
theorem exists_first_close (l : List Item) (hl : b.depth l < 0) :
    ∃ m c t, l = m ++ c :: t ∧ b.Balanced m ∧ b.closes c = true := by
  -- on the length, since a shorter prefix may be below zero already
  induction hn : l.length using Nat.strongRecOn generalizing l with
  | ind n ih =>
    rcases List.eq_nil_or_concat l with rfl | ⟨s, c, rfl⟩
    · simp at hl
    · simp only [List.concat_eq_append, List.length_append, List.length_singleton] at hn hl ⊢
      by_cases hs : b.Covered s
      · -- only the last item brings the depth below zero
        rw [depth_append] at hl
        have hs0 := hs.depth_nonneg
        obtain ⟨hc, hd⟩ := closes_of_depth_neg (b := b) (x := c) (by omega)
        exact ⟨s, c, [], rfl, ⟨hs, by omega⟩, hc⟩
      · -- a proper prefix is below zero already
        have ⟨k, hk, hneg⟩ : ∃ k ≤ s.length, b.depth (s.take k) < 0 := by
          simpa [Covered] using hs
        obtain ⟨m, c', t, hsplit, hm, hc'⟩ :=
          ih (s.take k).length (by simp; omega) (s.take k) hneg rfl
        refine ⟨m, c', t ++ s.drop k ++ [c], ?_, hm, hc'⟩
        calc s ++ [c] = s.take k ++ s.drop k ++ [c] := by rw [List.take_append_drop]
          _ = m ++ c' :: (t ++ s.drop k ++ [c]) := by simp [hsplit]

/-- Two items with balanced items between them match, whatever stands around them. -/
theorem matches_pair (a : List Item) {o c : Item} {m : List Item} (t : List Item)
    (ho : b.opens o = true) (hm : b.Balanced m) (hc : b.closes c = true) :
    b.Matches (a ++ o :: m ++ c :: t) a.length (a.length + 1 + m.length) := by
  have hlen : (a ++ o :: m).length = a.length + 1 + m.length := by
    simp only [List.length_append, List.length_cons]
    omega
  refine ⟨by omega, ?_, ?_, ?_⟩
  · simp [ho]
  · rw [← hlen, List.getElem?_append_right (Nat.le_refl _)]
    simp [hc]
  · rwa [← hlen, List.take_left, List.drop_length_add_append, List.drop_succ_cons, List.drop_zero]

/-- In a balanced list every opening item has its match. -/
theorem Balanced.exists_matches {l : List Item} (hl : b.Balanced l) {p : Nat}
    (hp : l[p]?.any b.opens = true) : ∃ q < l.length, b.Matches l p q := by
  obtain ⟨o, hget, ho⟩ : ∃ o, l[p]? = some o ∧ b.opens o = true := by
    simpa [Option.any_eq_true] using hp
  obtain ⟨hlt, rfl⟩ := List.getElem?_eq_some_iff.mp hget
  have hsplit : l = l.take p ++ l[p] :: l.drop (p + 1) := by
    rw [List.getElem_cons_drop, List.take_append_drop]
  -- what follows the opening item has to bring the depth down again
  have hneg : b.depth (l.drop (p + 1)) < 0 := by
    have hlevel := hl.level
    rw [hsplit, depth_append, depth_cons, depth_open ho] at hlevel
    have hpre := hl.covered.take p
    omega
  obtain ⟨m, c, t, hrest, hm, hc⟩ := exists_first_close _ hneg
  have hall : l = l.take p ++ l[p] :: m ++ c :: t := by
    rw [hrest] at hsplit
    simpa using hsplit
  have hlen : (l.take p).length = p := by simp; omega
  refine ⟨p + 1 + m.length, ?_, ?_⟩
  · rw [hall]
    simp only [List.length_append, List.length_cons, hlen]
    omega
  · have hmatch := matches_pair (l.take p) t ho hm hc
    rwa [← hall, hlen] at hmatch

/-! ## Matching across `++`

A closing item of a covered list finds its match inside that list. So the brackets of `h ++ t` are
those of `h` and those of `t`, if `t` is covered. -/

theorem matches_append_left (h t : List Item) {p q : Nat} (hq : q < h.length) :
    b.Matches (h ++ t) p q ↔ b.Matches h p q := by
  simp only [Matches, List.getElem?_append_left hq, List.take_append_of_le_length (Nat.le_of_lt hq)]
  constructor
  · rintro ⟨hpq, hp, hc, hm⟩
    rw [List.getElem?_append_left (Nat.lt_trans hpq hq)] at hp
    exact ⟨hpq, hp, hc, hm⟩
  · rintro ⟨hpq, hp, hc, hm⟩
    refine ⟨hpq, ?_, hc, hm⟩
    rwa [List.getElem?_append_left (Nat.lt_trans hpq hq)]

theorem matches_append_right (h t : List Item) {p q : Nat} :
    b.Matches (h ++ t) (h.length + p) (h.length + q) ↔ b.Matches t p q := by
  have hbetween : ((h ++ t).take (h.length + q)).drop (h.length + p + 1) =
      (t.take q).drop (p + 1) := by
    rw [List.take_length_add_append, Nat.add_assoc, List.drop_length_add_append]
  simp only [Matches, hbetween, Nat.add_lt_add_iff_left,
    List.getElem?_append_right (Nat.le_add_right _ _), Nat.add_sub_cancel_left]

/-- **No bracket of a covered list was opened before it.** -/
theorem Matches.start_of_covered {h t : List Item} {p q : Nat} (ht : b.Covered t)
    (hm : b.Matches (h ++ t) p q) (hq : h.length ≤ q) : h.length ≤ p := by
  obtain ⟨hpq, -, hclose, hbal⟩ := hm
  rcases Nat.lt_or_ge p h.length with hp | hp
  · obtain ⟨c, hget, hc⟩ : ∃ c, t[q - h.length]? = some c ∧ b.closes c = true := by
      rw [List.getElem?_append_right hq] at hclose
      simpa [Option.any_eq_true] using hclose
    have hbetween : ((h ++ t).take q).drop (p + 1) = h.drop (p + 1) ++ t.take (q - h.length) := by
      rw [List.take_append, List.take_of_length_le hq, List.drop_append_of_le_length hp]
    rw [hbetween] at hbal
    -- the part in `h` is not below zero, and neither is `t` up to the closing item, which counts
    -- one down: so the part in `t` is above zero, and the two do not add up to zero
    have hfront := hbal.covered.of_append.depth_nonneg
    have hback := ht.take (q - h.length + 1)
    rw [List.take_add_one, hget, Option.toList_some, depth_append, depth_close hc] at hback
    have hlevel := hbal.level
    rw [depth_append] at hlevel
    omega
  · exact hp

/-- Covered items behind a bracket that is open do not close it. -/
theorem enclosed_append_left {h t : List Item} (ht : b.Covered t) {j : Nat} (hj : j < h.length) :
    b.Enclosed (h ++ t) j ↔ b.Enclosed h j := by
  constructor
  · rintro ⟨p, hp, q, -, hjq, hm⟩
    -- a match that closes in `t` opens in `t`, behind `j`
    have hq : q < h.length := by
      by_cases hq : q < h.length
      · exact hq
      · have := hm.start_of_covered ht (by omega)
        omega
    exact ⟨p, hp, q, hq, hjq, (matches_append_left h t hq).mp hm⟩
  · rintro ⟨p, hp, q, hq, hjq, hm⟩
    refine ⟨p, hp, q, ?_, hjq, (matches_append_left h t hq).mpr hm⟩
    rw [List.length_append]
    omega

/-- A bracket around items of the second part is in the second part, if that part is covered. -/
theorem enclosed_append_right {h t : List Item} (ht : b.Covered t) {j : Nat} :
    b.Enclosed (h ++ t) (h.length + j) ↔ b.Enclosed t j := by
  constructor
  · rintro ⟨p, hp, q, hq, hjq, hm⟩
    rw [List.length_append] at hq
    have hstart := hm.start_of_covered ht (by omega)
    obtain ⟨p, rfl⟩ := Nat.exists_eq_add_of_le hstart
    obtain ⟨q, rfl⟩ := Nat.exists_eq_add_of_le (Nat.le_of_lt (Nat.lt_of_le_of_lt
      (Nat.le_add_right h.length j) hjq))
    exact ⟨p, by omega, q, by omega, by omega, (matches_append_right h t).mp hm⟩
  · rintro ⟨p, hp, q, hq, hjq, hm⟩
    refine ⟨h.length + p, by omega, h.length + q, ?_, by omega, (matches_append_right h t).mpr hm⟩
    rw [List.length_append]
    omega

/-- What the first part leaves open stays open behind it, if the second part is covered. -/
theorem unclosed_append_left {h t : List Item} (ht : b.Covered t) {p : Nat} (hp : p < h.length) :
    b.Unclosed (h ++ t) p ↔ b.Unclosed h p := by
  rw [Unclosed, Unclosed, List.getElem?_append_left hp, List.length_append]
  refine and_congr_right fun _ => ⟨fun hno q hq hm => ?_, fun hno q hq hm => ?_⟩
  · exact hno q (by omega) ((matches_append_left h t hq).mpr hm)
  · by_cases hlt : q < h.length
    · exact hno q hlt ((matches_append_left h t hlt).mp hm)
    · have := hm.start_of_covered ht (by omega)
      omega

/-- What stands in front of a bracket does not close it. -/
theorem unclosed_append_right {h t : List Item} {p : Nat} :
    b.Unclosed (h ++ t) (h.length + p) ↔ b.Unclosed t p := by
  rw [Unclosed, Unclosed, List.getElem?_append_right (Nat.le_add_right _ _),
    Nat.add_sub_cancel_left, List.length_append]
  refine and_congr_right fun _ => ⟨fun hno q hq hm => ?_, fun hno q hq hm => ?_⟩
  · exact hno (h.length + q) (by omega) ((matches_append_right h t).mpr hm)
  · have hpq := hm.1
    obtain ⟨q, rfl⟩ := Nat.exists_eq_add_of_le (show h.length ≤ q by omega)
    exact hno q (by omega) ((matches_append_right h t).mp hm)

/-! ## The two readings -/

theorem select_congr {l : List Item} {keep keep' : Nat → Prop} [DecidablePred keep]
    [DecidablePred keep'] (hk : ∀ j < l.length, (keep j ↔ keep' j)) :
    select l keep = select l keep' := by
  refine List.filterMap_congr fun j hj => ?_
  simp only [hk j (List.mem_range.mp hj)]

theorem mem_of_mem_select {l : List Item} {keep : Nat → Prop} [DecidablePred keep] {x : Item}
    (hx : x ∈ select l keep) : x ∈ l := by
  obtain ⟨j, -, hj⟩ := List.mem_filterMap.mp hx
  split at hj
  · exact List.mem_of_getElem? hj
  · cases hj

/-- Positions in the second list are counted from the end of the first one. -/
theorem select_append (h t : List Item) (keep : Nat → Prop) [DecidablePred keep] :
    select (h ++ t) keep = select h keep ++ select t fun j => keep (h.length + j) := by
  rw [select, List.length_append, List.range_add, List.filterMap_append, List.filterMap_map]
  congr 1
  · refine List.filterMap_congr fun j hj => ?_
    rw [List.getElem?_append_left (List.mem_range.mp hj)]
  · refine List.filterMap_congr fun j _ => ?_
    simp only [Function.comp_apply, List.getElem?_append_right (Nat.le_add_right _ _),
      Nat.add_sub_cancel_left]

theorem select_eq_nil {l : List Item} {keep : Nat → Prop} [DecidablePred keep]
    (hk : ∀ j < l.length, ¬ keep j) : select l keep = [] := by
  refine List.filterMap_eq_nil_iff.mpr fun j hj => ?_
  rw [if_neg (hk j (List.mem_range.mp hj))]

theorem select_singleton {x : Item} {keep : Nat → Prop} [DecidablePred keep] (hk : keep 0) :
    select [x] keep = [x] := by
  simp [select, List.range_succ, hk]

/-- What is left of two lists is what is left of each, unless the second one closes what the first
one opened. -/
theorem live_append {h t : List Item} (ht : b.Covered t) :
    b.live (h ++ t) = b.live h ++ b.live t := by
  rw [live, select_append]
  congr 1
  · exact select_congr fun j hj => not_congr (enclosed_append_left ht hj)
  · exact select_congr fun j _ => not_congr (enclosed_append_right ht)

theorem live_singleton (x : Item) : b.live [x] = [x] :=
  select_singleton fun ⟨_, hp, _⟩ => Nat.not_lt_zero _ hp

/-- Of a bracket that has been closed, only the two ends are left. -/
theorem live_pair {o c : Item} {m : List Item} (ho : b.opens o = true) (hm : b.Balanced m)
    (hc : b.closes c = true) : b.live (o :: m ++ [c]) = [o, c] := by
  have hmatch : b.Matches (o :: m ++ [c]) 0 (1 + m.length) := by
    simpa using matches_pair [] [] ho hm hc
  have hlen : (o :: m ++ [c]).length = m.length + 2 := by simp
  have hinside : ∀ j < m.length, ¬¬ b.Enclosed (o :: m ++ [c]) ([o].length + j) := fun j hj hno =>
    hno ⟨0, Nat.add_pos_left Nat.one_pos j, 1 + m.length, by omega,
      Nat.add_lt_add_left hj 1, hmatch⟩
  have hfirst : ¬ b.Enclosed (o :: m ++ [c]) 0 := fun ⟨_, hp, _⟩ => Nat.not_lt_zero _ hp
  have hlast : ¬ b.Enclosed (o :: m ++ [c]) (1 + m.length) := fun ⟨_, _, q, hq, hjq, _⟩ => by
    omega
  calc b.live (o :: m ++ [c])
      = select ([o] ++ m) (fun j => ¬ b.Enclosed (o :: m ++ [c]) j) ++ [c] := by
        rw [live, select_append]
        congr 1
        exact select_singleton (by simpa [Nat.add_comm] using hlast)
    _ = [o, c] := by
        rw [select_append, select_singleton hfirst, select_eq_nil hinside]
        rfl

example : saving.live [.push, .setGlobal .reportId 1, .pop] = [.push, .pop] := by decide

/-- Two lists leave open what each of them does, unless the second one closes what the first one
opened. -/
theorem opened_append {h t : List Item} (ht : b.Covered t) :
    b.opened (h ++ t) = b.opened h ++ b.opened t := by
  rw [opened, select_append]
  congr 1
  · exact select_congr fun p hp => unclosed_append_left ht hp
  · exact select_congr fun p _ => unclosed_append_right

theorem opened_of_balanced {l : List Item} (hl : b.Balanced l) : b.opened l = [] := by
  refine select_eq_nil fun p _ ⟨hp, hno⟩ => ?_
  obtain ⟨q, hq, hm⟩ := hl.exists_matches hp
  exact hno q hq hm

/-- A bracket that was opened before balanced items is the last one that is open. -/
theorem opened_append_open (h : List Item) {o : Item} {m : List Item} (ho : b.opens o = true)
    (hm : b.Balanced m) : b.opened (h ++ o :: m) = b.opened h ++ [o] := by
  have hone : b.opened [o] = [o] := by
    refine select_singleton ⟨by simpa using ho, fun q hq hmatch => ?_⟩
    have := hmatch.1
    simp at hq
    omega
  calc b.opened (h ++ o :: m)
      = b.opened h ++ b.opened ([o] ++ m) := opened_append (hm.covered.cons_open ho)
    _ = b.opened h ++ [o] := by
        rw [opened_append hm.covered, opened_of_balanced hm, hone, List.append_nil]

example : nesting.opened [.collection ⟨1⟩, .collection ⟨0⟩, .collection ⟨2⟩, .endCollection] =
    [.collection ⟨1⟩, .collection ⟨0⟩] := by decide

/-! ## Stacks

A decoder pushes a value at every opening item and takes it off again at the closing item. What it
holds after a list of items is described by `Stack`: one value for each bracket that is still open,
the innermost first, where `R h o a` says which value `a` belongs to the opening item `o` after the
items `h`. -/

variable (b)

/-- The values that stand for the open brackets of a list of items. -/
inductive Stack {α : Type} (R : List Item → Item → α → Prop) : List Item → List α → Prop
  | nil {m} : b.Balanced m → Stack R m []
  | cons {h o m a as} : Stack R h as → b.opens o = true → R h o a → b.Balanced m →
      Stack R (h ++ o :: m) (a :: as)

variable {b}

namespace Stack

variable {α : Type} {R : List Item → Item → α → Prop} {h t : List Item} {a : α} {as : List α}

/-- Balanced items leave the stack as it is. -/
theorem append (hs : b.Stack R h as) (ht : b.Balanced t) : b.Stack R (h ++ t) as := by
  cases hs with
  | nil hm => exact .nil (hm.append ht)
  | cons hs ho hR hm =>
      rw [List.append_assoc, List.cons_append]
      exact .cons hs ho hR (hm.append ht)

/-- An item that opens a bracket puts its value on top. -/
theorem push {o : Item} (hs : b.Stack R h as) (ho : b.opens o = true) (hR : R h o a) :
    b.Stack R (h ++ [o]) (a :: as) :=
  .cons hs ho hR balanced_nil

theorem depth_eq (hs : b.Stack R h as) : b.depth h = as.length := by
  induction hs with
  | nil hm => exact hm.level
  | cons _ ho _ hm ih =>
      rw [depth_append, depth_cons, depth_open ho, hm.level, ih, List.length_cons]
      omega

theorem covered (hs : b.Stack R h as) : b.Covered h := by
  induction hs with
  | nil hm => exact hm.covered
  | cons _ ho _ hm ih =>
      apply ih.append
      intro n
      have hfront := ih.depth_nonneg
      have hback := (hm.covered.cons_open ho).take n
      omega

/-- A closing item takes off the value of the last bracket that is open, and the items after that
bracket was opened are balanced. -/
theorem pop {c : Item} (hs : b.Stack R h (a :: as)) (hc : b.closes c = true) :
    b.Stack R (h ++ [c]) as ∧
      ∃ g o m, h ++ [c] = g ++ (o :: m ++ [c]) ∧ b.opens o = true ∧ b.Balanced m ∧ R g o a := by
  cases hs with
  | @cons g o m _ _ hs ho hR hm =>
      have hsplit : g ++ o :: m ++ [c] = g ++ (o :: m ++ [c]) := List.append_assoc _ _ _
      refine ⟨?_, g, o, m, hsplit, ho, hm, hR⟩
      rw [hsplit]
      exact hs.append (Balanced.pair ho hm hc)

/-- Where the value of an opening item can be read off the item, the stack holds the values of the
items that are open. -/
theorem filterMap_opened {value : Item → Option α} (hs : b.Stack R h as)
    (hvalue : ∀ {h o a}, R h o a → value o = some a) :
    (b.opened h).filterMap value = as.reverse := by
  induction hs with
  | nil hm => rw [opened_of_balanced hm]; rfl
  | @cons g o m a as _ ho hR hm ih =>
      rw [opened_append_open g ho hm, List.filterMap_append, ih, List.reverse_cons]
      simp [hvalue hR]

end Stack

end Bracket
end HidDescriptor
