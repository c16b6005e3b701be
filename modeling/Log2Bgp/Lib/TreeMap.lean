import Mathlib.Tactic.Common

/-!
# Ordered maps

Lookups, the number of values of a kind and the first of them, as a map changes.
-/

namespace Log2Bgp.Lib

open Std (ExtTreeMap TransCmp LawfulEqCmp)

section Map

variable {α β : Type} {cmp : α → α → Ordering} [TransCmp cmp] [LawfulEqCmp cmp]
variable {m : ExtTreeMap α β cmp} {k a : α} {v w : β}

/-! ## Lookups -/

theorem lookup_filter (m : ExtTreeMap α β cmp) (p : β → Bool) (a : α) :
    (m.filter fun _ v => p v)[a]? = m[a]?.filter p := by
  rw [ExtTreeMap.getElem?_filter']

theorem lookup_insert [DecidableEq α] (m : ExtTreeMap α β cmp) (k a : α) (v : β) :
    (m.insert k v)[a]? = if a = k then some v else m[a]? := by
  rw [ExtTreeMap.getElem?_insert]
  by_cases h : a = k
  · subst h
    rw [if_pos Std.ReflCmp.compare_self, if_pos rfl]
  · rw [if_neg fun hc => h (LawfulEqCmp.eq_of_compare hc).symm, if_neg h]

theorem lookup_erase [DecidableEq α] (m : ExtTreeMap α β cmp) (k a : α) :
    (m.erase k)[a]? = if a = k then none else m[a]? := by
  rw [ExtTreeMap.getElem?_erase]
  by_cases h : a = k
  · subst h
    rw [if_pos Std.ReflCmp.compare_self, if_pos rfl]
  · rw [if_neg fun hc => h (LawfulEqCmp.eq_of_compare hc).symm, if_neg h]

/-! ## The number of values -/

omit [LawfulEqCmp cmp] in
theorem size_erase_lt (h : m[k]? = some v) : (m.erase k).size < m.size := by
  have hmem : k ∈ m := ExtTreeMap.mem_iff_isSome_getElem?.mpr (by rw [h]; rfl)
  have hpos : m.size ≠ 0 := by
    intro hzero
    rw [ExtTreeMap.eq_empty_iff_size_eq_zero.mpr hzero] at hmem
    exact ExtTreeMap.not_mem_empty hmem
  rw [ExtTreeMap.size_erase, if_pos (ExtTreeMap.mem_iff_contains.mp hmem)]
  omega

/-! ## The number of values of a kind -/

/-- The number of values that meet a condition. -/
def count (p : β → Bool) (m : ExtTreeMap α β cmp) : Nat := (m.filter fun _ v => p v).size

variable {p : β → Bool}

omit [LawfulEqCmp cmp] in
theorem count_eq_length : count p m = (m.toList.filter fun e => p e.2).length := by
  rw [count, ← ExtTreeMap.length_toList, ExtTreeMap.toList_filter]

theorem count_eq_zero (h : ∀ (k : α) (v : β), m[k]? = some v → p v = false) : count p m = 0 := by
  have hnone : m.filter (fun _ v => p v) = ∅ := by
    apply ExtTreeMap.ext_getElem?
    intro a
    rw [lookup_filter, ExtTreeMap.getElem?_empty]
    cases ha : m[a]? with
    | none => rfl
    | some v => simp [Option.filter, h a v ha]
  rw [count, hnone, ExtTreeMap.size_empty]

theorem count_empty : count p (∅ : ExtTreeMap α β cmp) = 0 := by
  apply count_eq_zero
  intro k v hv
  rw [ExtTreeMap.getElem?_empty] at hv
  cases hv

theorem filter_insert [DecidableEq α] (m : ExtTreeMap α β cmp) (k : α) (v : β) :
    (m.insert k v).filter (fun _ v => p v) =
      if p v then (m.filter fun _ v => p v).insert k v else (m.filter fun _ v => p v).erase k := by
  apply ExtTreeMap.ext_getElem?
  intro a
  rw [lookup_filter, lookup_insert]
  by_cases ha : a = k
  · subst ha
    cases hp : p v <;> simp [hp, Option.filter]
  · cases hp : p v <;> simp [ha, lookup_insert, lookup_erase]

theorem filter_erase [DecidableEq α] (m : ExtTreeMap α β cmp) (k : α) :
    (m.erase k).filter (fun _ v => p v) = (m.filter fun _ v => p v).erase k := by
  apply ExtTreeMap.ext_getElem?
  intro a
  rw [lookup_filter, lookup_erase, lookup_erase, lookup_filter]
  split <;> rfl

theorem filter_eq_self (h : ∀ (k : α) (v : β), m[k]? = some v → p v = true) :
    m.filter (fun _ v => p v) = m := by
  apply ExtTreeMap.ext_getElem?
  intro a
  rw [lookup_filter]
  cases ha : m[a]? with
  | none => rfl
  | some v => simp [Option.filter, h a v ha]

theorem filter_erase_other [DecidableEq α] (h : m[k]? = some v) (hp : p v = false) :
    (m.erase k).filter (fun _ v => p v) = m.filter fun _ v => p v := by
  apply ExtTreeMap.ext_getElem?
  intro a
  rw [lookup_filter, lookup_erase, lookup_filter]
  split
  · rename_i ha
    simp [ha, h, hp, Option.filter]
  · rfl

theorem mem_filter_iff : k ∈ m.filter (fun _ v => p v) ↔ ∃ v, m[k]? = some v ∧ p v = true := by
  rw [ExtTreeMap.mem_iff_isSome_getElem?, lookup_filter]
  cases m[k]? with
  | none => simp
  | some v => cases hp : p v <;> simp [Option.filter, hp]

theorem count_insert_new [DecidableEq α] (h : m[k]? = none) :
    count p (m.insert k v) = count p m + if p v then 1 else 0 := by
  have hnot : k ∉ m.filter (fun _ v => p v) := by
    rw [mem_filter_iff, h]
    rintro ⟨v, hv, _⟩
    cases hv
  rw [count, filter_insert]
  cases hp : p v with
  | true => simp [count, ExtTreeMap.size_insert, hnot]
  | false => simp [count, ExtTreeMap.size_erase, hnot]

/-- Overwriting a value by one of the same kind. -/
theorem count_insert_old [DecidableEq α] (h : m[k]? = some w) (hw : p v = p w) :
    count p (m.insert k v) = count p m := by
  rw [count, filter_insert]
  cases hp : p v with
  | true =>
      have hmem : k ∈ m.filter (fun _ v => p v) := mem_filter_iff.mpr ⟨w, h, hw ▸ hp⟩
      simp [count, ExtTreeMap.size_insert, hmem]
  | false =>
      have hnot : k ∉ m.filter (fun _ v => p v) := by
        rw [mem_filter_iff, h]
        rintro ⟨v', hv', hp'⟩
        cases hv'
        rw [← hw, hp] at hp'
        cases hp'
      simp [count, ExtTreeMap.size_erase, hnot]

theorem count_erase [DecidableEq α] (h : m[k]? = some v) :
    count p m = count p (m.erase k) + if p v then 1 else 0 := by
  rw [count, count, filter_erase, ExtTreeMap.size_erase]
  cases hp : p v with
  | true =>
      have hmem : k ∈ m.filter (fun _ v => p v) := mem_filter_iff.mpr ⟨v, h, hp⟩
      have hpos : (m.filter fun _ v => p v).size ≠ 0 := by
        intro h0
        have hempty := ExtTreeMap.eq_empty_iff_size_eq_zero.mpr h0
        rw [hempty] at hmem
        exact ExtTreeMap.not_mem_empty hmem
      rw [if_pos (ExtTreeMap.contains_iff_mem.mpr hmem), if_pos rfl]
      omega
  | false =>
      have hnot : k ∉ m.filter (fun _ v => p v) := by
        rw [mem_filter_iff, h]
        rintro ⟨v', hv', hp'⟩
        cases hv'
        rw [hp] at hp'
        cases hp'
      simp [hnot]

/-! ## The first value of a kind -/

/-- The first entry, in the order of the keys, whose value meets a condition. -/
def findFirst (p : β → Bool) (m : ExtTreeMap α β cmp) : Option (α × β) :=
  m.toList.find? fun e => p e.2

theorem findFirst_eq_some {e : α × β} (h : findFirst p m = some e) :
    m[e.1]? = some e.2 ∧ p e.2 = true := by
  have hfind : m.toList.find? (fun e => p e.2) = some e := h
  have hp := List.find?_some (p := fun e : α × β => p e.2) hfind
  exact ⟨ExtTreeMap.mem_toList_iff_getElem?_eq_some.mp (List.mem_of_find?_eq_some hfind), hp⟩

theorem findFirst_eq_none :
    findFirst p m = none ↔ ∀ (k : α) (v : β), m[k]? = some v → p v = false := by
  rw [findFirst, List.find?_eq_none]
  constructor
  · intro h k v hv
    have hmem := h (k, v) (ExtTreeMap.mem_toList_iff_getElem?_eq_some.mpr hv)
    simpa using hmem
  · rintro h ⟨k, v⟩ hmem
    simp [h k v (ExtTreeMap.mem_toList_iff_getElem?_eq_some.mp hmem)]

end Map

end Log2Bgp.Lib
