import Mathlib.Data.List.DropRight
import Mathlib.Tactic.Common

/-!
# Folds, cuts and groups of lists
-/

namespace Log2Bgp.Lib

/-- A value that each element sets or leaves alone ends at what the only element that sets it says. -/
theorem foldl_findSome {α β : Type} {ext : α → Option β} {xs : List α}
    (hone : xs.Pairwise fun a b => ext a = none ∨ ext b = none) (x₀ : β) :
    xs.foldl (fun x a => (ext a).getD x) x₀ = (xs.findSome? ext).getD x₀ := by
  induction xs generalizing x₀ with
  | nil => rfl
  | cons a xs ih =>
      obtain ⟨hhead, htail⟩ := List.pairwise_cons.mp hone
      rw [List.foldl_cons, ih htail, List.findSome?_cons]
      cases ha : ext a with
      | none => rfl
      | some v =>
          have hrest : xs.findSome? ext = none := by
            rw [List.findSome?_eq_none_iff]
            intro b hb
            rcases hhead b hb with h | h
            · rw [ha] at h; cases h
            · exact h
          rw [hrest]
          rfl

/-! ## Keeping the last elements -/

/-- A list that is cut at its front when it is longer than `n`. -/
def keepLast {α : Type} (n : Nat) (xs : List α) : List α := if xs.length > n then xs.tail else xs

/-- Read from its end, a list that grows and is cut shows its last elements. -/
theorem reverse_keepLast {α : Type} {n : Nat} {xs : List α} (h : xs.length ≤ n) (x : α) :
    (keepLast n (xs ++ [x])).reverse = (x :: xs.reverse).take n := by
  have hrev : (xs ++ [x]).reverse = x :: xs.reverse := by
    rw [List.reverse_append, List.reverse_singleton, List.singleton_append]
  have hlen : (x :: xs.reverse).length = xs.length + 1 := by
    rw [List.length_cons, List.length_reverse]
  unfold keepLast
  split
  · rename_i hlong
    rw [List.length_append, List.length_singleton] at hlong
    have hn : xs.length + 1 - 1 = n := by omega
    rw [← List.dropLast_reverse, hrev, List.dropLast_eq_take, hlen, hn]
  · rename_i hshort
    rw [List.length_append, List.length_singleton] at hshort
    rw [hrev, List.take_of_length_le (by omega)]

theorem take_cons_take {α : Type} (n : Nat) (x : α) (xs : List α) :
    (x :: xs).take n = (x :: xs.take n).take n := by
  cases n with
  | zero => rfl
  | succ n => rw [List.take_succ_cons, List.take_succ_cons, List.take_take, Nat.min_eq_left (by omega)]

theorem keepLast_map {α β : Type} (f : α → β) (n : Nat) (xs : List α) :
    keepLast n (xs.map f) = (keepLast n xs).map f := by
  unfold keepLast
  rw [List.length_map]
  split
  · rw [List.map_tail]
  · rfl

/-- Cutting a list each time it grows leaves its last elements. -/
theorem keepLast_rtake {α : Type} (n : Nat) (xs : List α) (x : α) :
    keepLast n (xs.rtake n ++ [x]) = (xs ++ [x]).rtake n := by
  have hlen : (xs.rtake n).length ≤ n := by
    rw [List.rtake, List.length_drop]
    omega
  rw [← List.reverse_inj, reverse_keepLast hlen, List.rtake_eq_reverse_take_reverse,
    List.rtake_eq_reverse_take_reverse, List.reverse_reverse, List.reverse_reverse, ← take_cons_take,
    List.reverse_append, List.reverse_singleton, List.singleton_append]

/-! ## Elements grouped by their owners -/

section Groups

variable {α β : Type}

theorem flatMap_range_eq_nil {n : Nat} {f : Nat → List β} (h : ∀ i < n, f i = []) :
    (List.range n).flatMap f = [] := by
  rw [List.flatMap_eq_nil_iff]
  intro i hi
  exact h i (List.mem_range.mp hi)

theorem flatMap_range_eq {n i₀ : Nat} {f : Nat → List β} (hlt : i₀ < n)
    (hother : ∀ i, i ≠ i₀ → f i = []) : (List.range n).flatMap f = f i₀ := by
  induction n with
  | zero => cases hlt
  | succ n ih =>
      rw [List.range_succ, List.flatMap_append, List.flatMap_singleton]
      by_cases hi : i₀ = n
      · subst hi
        rw [flatMap_range_eq_nil fun i hi => hother i (Nat.ne_of_lt hi), List.nil_append]
      · rw [ih (by omega), hother n (Ne.symm hi), List.append_nil]

theorem flatMap_filter_eq {p : α → Bool} {f : α → List β} {xs : List α}
    (h : ∀ x ∈ xs, p x = false → f x = []) : (xs.filter p).flatMap f = xs.flatMap f := by
  induction xs with
  | nil => rfl
  | cons x xs ih =>
      have hrest := ih fun y hy => h y (List.mem_cons_of_mem x hy)
      cases hp : p x with
      | true => rw [List.filter_cons_of_pos hp, List.flatMap_cons, List.flatMap_cons, hrest]
      | false =>
          rw [List.filter_cons_of_neg (by rw [hp]; exact Bool.false_ne_true), List.flatMap_cons,
            h x List.mem_cons_self hp, hrest, List.nil_append]

/-- Grouping by owner keeps the order of what only one owner has. -/
theorem flatMap_grouped {owner : α → Nat} {f : α → List β} {xs : List α} {n : Nat}
    (hlt : ∀ x ∈ xs, owner x < n)
    (hone : ∀ x ∈ xs, ∀ y ∈ xs, f x ≠ [] → f y ≠ [] → owner x = owner y) :
    ((List.range n).flatMap fun i => (xs.filter (owner · = i)).flatMap f) = xs.flatMap f := by
  by_cases hnone : ∀ x ∈ xs, f x = []
  · have hgroup : ∀ i < n, (xs.filter (owner · = i)).flatMap f = [] := by
      intro i _
      rw [List.flatMap_eq_nil_iff]
      intro x hx
      exact hnone x (List.mem_filter.mp hx).1
    rw [flatMap_range_eq_nil hgroup, List.flatMap_eq_nil_iff.mpr hnone]
  · obtain ⟨x₀, hx₀, hf₀⟩ : ∃ x ∈ xs, f x ≠ [] := by
      by_contra hall
      exact hnone fun x hx => by_contra fun hf => hall ⟨x, hx, hf⟩
    have howner : ∀ x ∈ xs, owner x ≠ owner x₀ → f x = [] := by
      intro x hx hne
      by_contra hf
      exact hne (hone x hx x₀ hx₀ hf hf₀)
    rw [flatMap_range_eq (hlt x₀ hx₀)]
    · apply flatMap_filter_eq
      intro x hx hne
      exact howner x hx (of_decide_eq_false hne)
    · intro i hi
      rw [List.flatMap_eq_nil_iff]
      intro x hx
      obtain ⟨hmem, howned⟩ := List.mem_filter.mp hx
      apply howner x hmem
      rw [of_decide_eq_true howned]
      exact hi

end Groups

/-! ## The first element that fits -/

theorem findIdx?_eq_some_iff_append {α : Type} {p : α → Bool} {xs : List α} {i : Nat} :
    xs.findIdx? p = some i ↔ ∃ pre a post, xs = pre ++ a :: post ∧ pre.length = i ∧ p a = true ∧
      ∀ x ∈ pre, p x = false := by
  constructor
  · intro h
    obtain ⟨hi, hp, hbefore⟩ := List.findIdx?_eq_some_iff_getElem.mp h
    refine ⟨xs.take i, xs[i], xs.drop (i + 1), ?_, List.length_take_of_le (Nat.le_of_lt hi), hp, ?_⟩
    · rw [List.getElem_cons_drop, List.take_append_drop]
    · intro x hx
      obtain ⟨j, hj, rfl⟩ := List.mem_iff_getElem.mp hx
      rw [List.length_take] at hj
      rw [List.getElem_take]
      simpa using hbefore j (by omega)
  · rintro ⟨pre, a, post, rfl, rfl, ha, hpre⟩
    rw [List.findIdx?_append, List.findIdx?_eq_none_iff.mpr hpre]
    simp [List.findIdx?_cons, ha]

theorem find?_eq_of_filter {α : Type} {p : α → Bool} {xs : List α} {o : Option α} (h : xs.filter p = o.toList) :
    xs.find? p = o := by
  rw [← List.head?_filter, h, Option.head?_toList]

theorem eq_of_perm_option {α : Type} {xs : List α} {o : Option α} (h : xs.Perm o.toList) : xs = o.toList := by
  cases o with
  | none => exact List.perm_nil.mp h
  | some a => exact List.perm_singleton.mp h

/-! ## Filters -/

theorem filterMap_ite {α β : Type} (p : α → Bool) (f : α → β) (xs : List α) :
    xs.filterMap (fun x => if p x then some (f x) else none) = (xs.filter p).map f := by
  induction xs with
  | nil => rfl
  | cons x xs ih =>
      cases hp : p x with
      | true => simp [hp, ih]
      | false => simp [hp, ih]

/-- Two filters, of which one admits more, leave as much just where they admit the same. -/
theorem map_filter_eq_iff {α β : Type} {p q : α → Bool} {xs : List α} (f : α → β) (h : ∀ x ∈ xs, q x → p x) :
    (xs.filter p).map f = (xs.filter q).map f ↔ ∀ x ∈ xs, p x → q x := by
  constructor
  · intro heq x hx hp
    have hlen : (xs.filter q).length = (xs.filter p).length := by simpa using (congrArg List.length heq).symm
    have hsub : ((xs.filter p).filter q).Sublist (xs.filter p) := List.filter_sublist
    have hsame : (xs.filter p).filter q = xs.filter q := by
      rw [List.filter_filter]
      refine List.filter_congr fun y hy => ?_
      cases hq : q y with
      | true => simp [h y hy hq]
      | false => simp
    rw [hsame] at hsub
    have hall := hsub.eq_of_length hlen
    exact (List.mem_filter.mp (hall ▸ List.mem_filter.mpr ⟨hx, hp⟩)).2
  · intro hpq
    rw [List.filter_congr fun x hx => Bool.eq_iff_iff.mpr ⟨hpq x hx, h x hx⟩]

theorem filter_eq_eraseIdx {α : Type} {p : α → Bool} {xs : List α} {i : Nat} (hi : i < xs.length)
    (hat : p xs[i] = false) (hother : ∀ j x, j ≠ i → xs[j]? = some x → p x = true) : xs.filter p = xs.eraseIdx i := by
  have hbefore : (xs.take i).filter p = xs.take i := by
    refine List.filter_eq_self.mpr fun x hx => ?_
    obtain ⟨j, hj, rfl⟩ := List.mem_take_iff_getElem.mp hx
    exact hother j _ (by omega) (List.getElem?_eq_getElem (by omega))
  have hbehind : (xs.drop (i + 1)).filter p = xs.drop (i + 1) := by
    refine List.filter_eq_self.mpr fun x hx => ?_
    obtain ⟨j, hj⟩ := List.mem_iff_getElem?.mp hx
    rw [List.getElem?_drop] at hj
    exact hother (i + 1 + j) x (by omega) hj
  have hsplit : xs.filter p = (xs.take i ++ xs[i] :: xs.drop (i + 1)).filter p := by
    rw [List.getElem_cons_drop, List.take_append_drop]
  rw [hsplit, List.filter_append, List.filter_cons_of_neg (by rw [hat]; exact Bool.false_ne_true), hbefore, hbehind,
    List.eraseIdx_eq_take_drop_succ]

/-- An element of a list in which one is set is that one, or it was there before at another place. -/
theorem getElem?_set_or {α : Type} {xs : List α} {i j : Nat} {x y : α} (h : (xs.set i x)[j]? = some y) :
    (j = i ∧ y = x) ∨ (j ≠ i ∧ xs[j]? = some y) := by
  rw [List.getElem?_set] at h
  by_cases hij : i = j
  · rw [if_pos hij] at h
    split at h
    · cases h
      exact Or.inl ⟨hij.symm, rfl⟩
    · cases h
  · rw [if_neg hij] at h
    exact Or.inr ⟨Ne.symm hij, h⟩

theorem set_of_getElem? {α : Type} {xs : List α} {i : Nat} {x : α} (h : xs[i]? = some x) : xs.set i x = xs := by
  obtain ⟨hi, rfl⟩ := List.getElem?_eq_some_iff.mp h
  apply List.set_getElem_self

/-! ## Related lists -/

section Related

variable {α β : Type} {R : α → β → Prop} {xs : List α} {ys : List β}

theorem forall₂_append {xs' : List α} {ys' : List β} (h : List.Forall₂ R xs ys) (h' : List.Forall₂ R xs' ys') :
    List.Forall₂ R (xs ++ xs') (ys ++ ys') := by
  induction h with
  | nil => exact h'
  | cons hxy _ ih => exact .cons hxy ih

theorem forall₂_getElem? (h : List.Forall₂ R xs ys) {i : Nat} {y : β} (hy : ys[i]? = some y) :
    ∃ x, xs[i]? = some x ∧ R x y := by
  induction h generalizing i with
  | nil => simp at hy
  | cons hxy _ ih =>
      cases i with
      | zero =>
          cases hy
          exact ⟨_, rfl, hxy⟩
      | succ i => simpa using ih (by simpa using hy)

theorem forall₂_set (h : List.Forall₂ R xs ys) {i : Nat} {y : β} (hset : ∀ x, xs[i]? = some x → R x y) :
    List.Forall₂ R xs (ys.set i y) := by
  induction h generalizing i with
  | nil => exact .nil
  | cons hxy hrest ih =>
      cases i with
      | zero => exact .cons (hset _ rfl) hrest
      | succ i => exact .cons hxy (ih fun x hx => hset x (by simpa using hx))

end Related

end Log2Bgp.Lib
