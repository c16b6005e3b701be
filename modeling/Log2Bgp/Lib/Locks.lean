import Log2Bgp.Lib.Lists
import Log2Bgp.Lib.Run
import Mathlib.Algebra.Order.BigOperators.Group.List
import Mathlib.Algebra.Order.Group.Nat

/-!
# Locks

Threads that take locks and give them back. Where each of them takes its locks in the order of a rank and gives back
what it has taken, they cannot block each other for good.
-/

namespace Log2Bgp.Lib

inductive LockOp (μ : Type) where
  | lock (m : μ)
  | unlock (m : μ)
deriving DecidableEq, Repr

/-- A thread: the locks that it holds, and what it still does with locks. -/
structure LockThread (μ : Type) where
  held : List μ := []
  rest : List (LockOp μ)
deriving DecidableEq, Repr

section Locks

variable {μ : Type} [DecidableEq μ] {rank : μ → Nat}

/-- The next operation of thread `i`. A lock that some thread holds cannot be taken. -/
def lockStep (s : List (LockThread μ)) (i : Nat) : Option (List (LockThread μ)) :=
  match s[i]? with
  | none => none
  | some t =>
      match t.rest with
      | [] => none
      | .lock m :: rest => if ∃ u ∈ s, m ∈ u.held then none else some (s.set i ⟨m :: t.held, rest⟩)
      | .unlock m :: rest => some (s.set i ⟨t.held.erase m, rest⟩)

/-- Locks are taken in the order of their rank, what is given back is held, and nothing is held at the end. -/
def Ordered (rank : μ → Nat) : List μ → List (LockOp μ) → Prop
  | held, [] => held = []
  | held, .lock m :: ops => (∀ h ∈ held, rank h < rank m) ∧ Ordered rank (m :: held) ops
  | held, .unlock m :: ops => m ∈ held ∧ Ordered rank (held.erase m) ops

/-- Nothing is left to do. -/
def LockThread.Done (t : LockThread μ) : Prop := t.rest = []

/-- No two threads hold one lock. -/
def Exclusive (s : List (LockThread μ)) : Prop :=
  ∀ (i j : Nat) (t u : LockThread μ), s[i]? = some t → s[j]? = some u → ∀ m, m ∈ t.held → m ∈ u.held → i = j

/-- The operations that are left. -/
def work (s : List (LockThread μ)) : Nat := (s.flatMap LockThread.rest).length

/-! ## Programs -/

/-- Takes a lock, does something, and gives it back. -/
def holding (m : μ) (ops : List (LockOp μ)) : List (LockOp μ) := .lock m :: (ops ++ [.unlock m])

/-- What is in order by itself can be done while locks of a lower rank are held, and what is in order then
can follow. -/
theorem Ordered.append_under {ops ops' : List (LockOp μ)} {held under : List μ} (h : Ordered rank held ops)
    (hranks : ∀ m, .lock m ∈ ops → ∀ u ∈ under, rank u < rank m) (h' : Ordered rank under ops') :
    Ordered rank (held ++ under) (ops ++ ops') := by
  induction ops generalizing held with
  | nil =>
      cases h
      exact h'
  | cons op ops ih =>
      have hrest : ∀ m, .lock m ∈ ops → ∀ u ∈ under, rank u < rank m := fun m hm =>
        hranks m (List.mem_cons_of_mem op hm)
      cases op with
      | lock m =>
          obtain ⟨hlower, h⟩ := h
          refine ⟨?_, ih h hrest⟩
          intro u hu
          rcases List.mem_append.mp hu with hu | hu
          · exact hlower u hu
          · exact hranks m List.mem_cons_self u hu
      | unlock m =>
          obtain ⟨hheld, h⟩ := h
          have hnext := ih h hrest
          rw [← List.erase_append_left under hheld] at hnext
          exact ⟨List.mem_append_left under hheld, hnext⟩

theorem Ordered.append {ops ops' : List (LockOp μ)} (h : Ordered rank [] ops) (h' : Ordered rank [] ops') :
    Ordered rank [] (ops ++ ops') := h.append_under (by simp) h'

theorem Ordered.flatten {calls : List (List (LockOp μ))} (h : ∀ ops ∈ calls, Ordered rank [] ops) :
    Ordered rank [] calls.flatten := by
  induction calls with
  | nil => rfl
  | cons ops calls ih =>
      rw [List.forall_mem_cons] at h
      exact h.1.append (ih h.2)

theorem ordered_holding {m : μ} {ops : List (LockOp μ)} (h : Ordered rank [] ops)
    (hranks : ∀ m', .lock m' ∈ ops → rank m < rank m') : Ordered rank [] (holding m ops) := by
  refine ⟨by simp, ?_⟩
  apply h.append_under
  · simpa using hranks
  · simp [Ordered]

/-! ## Steps -/

variable {s s' : List (LockThread μ)} {i : Nat}

/-- A thread takes a lock that is free, or gives one back. -/
theorem lockStep_cases (h : lockStep s i = some s') :
    ∃ t rest, s[i]? = some t ∧
      ((∃ m, t.rest = .lock m :: rest ∧ (∀ u ∈ s, m ∉ u.held) ∧ s' = s.set i ⟨m :: t.held, rest⟩) ∨
        ∃ m, t.rest = .unlock m :: rest ∧ s' = s.set i ⟨t.held.erase m, rest⟩) := by
  unfold lockStep at h
  cases ht : s[i]? with
  | none => simp [ht] at h
  | some t =>
      obtain ⟨held, ops⟩ := t
      simp only [ht] at h
      cases ops with
      | nil => cases h
      | cons op rest =>
          cases op with
          | lock m =>
              simp only [Option.ite_none_left_eq_some, Option.some.injEq, not_exists, not_and] at h
              exact ⟨_, rest, rfl, Or.inl ⟨m, rfl, h.1, h.2.symm⟩⟩
          | unlock m =>
              cases h
              exact ⟨_, rest, rfl, Or.inr ⟨m, rfl, rfl⟩⟩

/-- Every thread is in order, and no two hold one lock. -/
structure Disciplined (rank : μ → Nat) (s : List (LockThread μ)) : Prop where
  ordered : ∀ t ∈ s, Ordered rank t.held t.rest
  exclusive : Exclusive s

omit [DecidableEq μ] in
theorem Exclusive.set (h : Exclusive s) {t t' : LockThread μ} (ht : s[i]? = some t)
    (hheld : ∀ m ∈ t'.held, m ∈ t.held ∨ ∀ u ∈ s, m ∉ u.held) : Exclusive (s.set i t') := by
  have hlt := (List.getElem?_eq_some_iff.mp ht).1
  have hother : ∀ (j : Nat) (u : LockThread μ), j ≠ i → s[j]? = some u → ∀ m ∈ t'.held, m ∉ u.held := by
    intro j u hne hu m hm hmu
    rcases hheld m hm with hold | hfree
    · exact hne (h j i u t hu ht m hmu hold)
    · exact hfree u (List.mem_of_getElem? hu) hmu
  intro j k u v hu hv m hmu hmv
  rcases getElem?_set_or hu with ⟨rfl, rfl⟩ | ⟨hj, hu'⟩
  · rcases getElem?_set_or hv with ⟨rfl, _⟩ | ⟨hk, hv⟩
    · rfl
    · exact absurd hmv (hother k v hk hv m hmu)
  · rcases getElem?_set_or hv with ⟨rfl, rfl⟩ | ⟨_, hv⟩
    · exact absurd hmu (hother j u hj hu' m hmv)
    · exact h j k u v hu' hv m hmu hmv

theorem Disciplined.step (h : Disciplined rank s) (hs : lockStep s i = some s') : Disciplined rank s' := by
  obtain ⟨t, rest, ht, ⟨m, hrest, hfree, rfl⟩ | ⟨m, hrest, rfl⟩⟩ := lockStep_cases hs
  · have hordered := h.ordered t (List.mem_of_getElem? ht)
    rw [hrest] at hordered
    refine ⟨?_, h.exclusive.set ht ?_⟩
    · intro u hu
      rcases List.mem_or_eq_of_mem_set hu with hu | rfl
      · exact h.ordered u hu
      · exact hordered.2
    · intro m' hm'
      rcases List.mem_cons.mp hm' with rfl | hm'
      · exact Or.inr hfree
      · exact Or.inl hm'
  · have hordered := h.ordered t (List.mem_of_getElem? ht)
    rw [hrest] at hordered
    refine ⟨?_, h.exclusive.set ht ?_⟩
    · intro u hu
      rcases List.mem_or_eq_of_mem_set hu with hu | rfl
      · exact h.ordered u hu
      · exact hordered.2
    · intro m' hm'
      exact Or.inl (List.mem_of_mem_erase hm')

omit [DecidableEq μ] in
theorem work_set {t t' : LockThread μ} (ht : s[i]? = some t) (hlength : t'.rest.length + 1 = t.rest.length) :
    work (s.set i t') + 1 = work s := by
  induction s generalizing i with
  | nil => simp at ht
  | cons u s ih =>
      cases i with
      | zero =>
          cases ht
          simp only [work, List.set_cons_zero, List.flatMap_cons, List.length_append]
          omega
      | succ i =>
          have hrest := ih ht
          simp only [work, List.set_cons_succ, List.flatMap_cons, List.length_append] at hrest ⊢
          omega

theorem work_step (hs : lockStep s i = some s') : work s' + 1 = work s := by
  obtain ⟨t, rest, ht, ⟨m, hrest, _, rfl⟩ | ⟨m, hrest, rfl⟩⟩ := lockStep_cases hs
  · exact work_set ht (by simp [hrest])
  · exact work_set ht (by simp [hrest])

/-! ## No deadlock -/

/-- A thread that waits for a lock. -/
def LockThread.Waits (t : LockThread μ) (m : μ) : Prop := ∃ rest, t.rest = .lock m :: rest

theorem exists_step_or_waits {t : LockThread μ} (ht : t ∈ s) (hne : t.rest ≠ []) :
    (∃ i s', lockStep s i = some s') ∨ ∃ m, t.Waits m ∧ ∃ u ∈ s, m ∈ u.held := by
  obtain ⟨i, hi⟩ := List.mem_iff_getElem?.mp ht
  cases hops : t.rest with
  | nil => exact absurd hops hne
  | cons op rest =>
      cases op with
      | lock m =>
          by_cases hheld : ∃ u ∈ s, m ∈ u.held
          · exact Or.inr ⟨m, ⟨rest, hops⟩, hheld⟩
          · exact Or.inl ⟨i, s.set i ⟨m :: t.held, rest⟩, by simp only [lockStep, hi, hops, if_neg hheld]⟩
      | unlock m => exact Or.inl ⟨i, s.set i ⟨t.held.erase m, rest⟩, by simp only [lockStep, hi, hops]⟩

/-- Where nothing can be done, a thread that waits waits for one that waits for a lock of a higher rank. -/
theorem Disciplined.higher (h : Disciplined rank s) (hstuck : ∀ i, lockStep s i = none) {m : μ}
    (hheld : ∃ u ∈ s, m ∈ u.held) : ∃ u ∈ s, ∃ m', u.Waits m' ∧ rank m < rank m' ∧ ∃ v ∈ s, m' ∈ v.held := by
  obtain ⟨u, hu, hm⟩ := hheld
  have hordered := h.ordered u hu
  have hne : u.rest ≠ [] := by
    intro hnil
    rw [hnil] at hordered
    rw [Ordered] at hordered
    simp [hordered] at hm
  rcases exists_step_or_waits hu hne with ⟨i, s', hstep⟩ | ⟨m', ⟨rest, hrest⟩, hheld'⟩
  · rw [hstuck i] at hstep
    cases hstep
  · rw [hrest] at hordered
    exact ⟨u, hu, m', ⟨rest, hrest⟩, hordered.1 m hm, hheld'⟩

/-- Where nothing can be done, nothing is left to do: a chain of threads that wait for one another would lead to locks
of any rank. -/
theorem Disciplined.progress (h : Disciplined rank s) (hstuck : ∀ i, lockStep s i = none) : ∀ t ∈ s, t.Done := by
  intro t ht
  by_contra hne
  have hchain : ∀ n, ∃ u ∈ s, ∃ m, u.Waits m ∧ n ≤ rank m ∧ ∃ v ∈ s, m ∈ v.held := by
    intro n
    induction n with
    | zero =>
        rcases exists_step_or_waits ht hne with ⟨i, s', hstep⟩ | ⟨m, hwaits, hheld⟩
        · rw [hstuck i] at hstep
          cases hstep
        · exact ⟨t, ht, m, hwaits, Nat.zero_le _, hheld⟩
    | succ n ih =>
        obtain ⟨u, hu, m, _, hle, hheld⟩ := ih
        obtain ⟨v, hv, m', hwaits, hlt, hheld'⟩ := h.higher hstuck hheld
        exact ⟨v, hv, m', hwaits, by omega, hheld'⟩
  let waited (t : LockThread μ) : Nat := match t.rest.head? with
    | some (.lock m) => rank m
    | _ => 0
  obtain ⟨u, hu, m, ⟨rest, hrest⟩, hle, _⟩ := hchain ((s.map waited).sum + 1)
  have hbound : waited u ≤ (s.map waited).sum := List.single_le_sum (by simp) _ (List.mem_map_of_mem hu)
  have hwaited : waited u = rank m := by simp [waited, hrest]
  omega

/-! ## Runs -/

/-- Threads that begin with programs. -/
def begin (programs : List (List (LockOp μ))) : List (LockThread μ) := programs.map fun ops => ⟨[], ops⟩

omit [DecidableEq μ] in
theorem exclusive_begin (programs : List (List (LockOp μ))) : Exclusive (begin programs) := by
  intro i j t u ht _ m hm
  obtain ⟨ops, _, rfl⟩ := List.mem_map.mp (List.mem_of_getElem? ht)
  simp at hm

theorem disciplined_begin {programs : List (List (LockOp μ))} (h : ∀ ops ∈ programs, Ordered rank [] ops) :
    Disciplined rank (begin programs) where
  ordered t ht := by
    obtain ⟨ops, hops, rfl⟩ := List.mem_map.mp ht
    exact h ops hops
  exclusive := exclusive_begin programs

theorem work_run {is : List Nat} (hrun : runAll lockStep is s = some s') : work s' + is.length = work s := by
  induction is generalizing s with
  | nil =>
      cases hrun
      simp
  | cons i is ih =>
      obtain ⟨s₁, hs₁, hrun⟩ := Option.bind_eq_some_iff.mp hrun
      have hone := work_step hs₁
      have hrest := ih hrun
      rw [List.length_cons]
      omega

/-- However threads that are in order have gone on, no two of them hold one lock, they have done no more than there
was to do, and as long as something is left to do one of them can go on. -/
theorem Disciplined.run (h : Disciplined rank s) {is : List Nat} (hrun : runAll lockStep is s = some s') :
    Exclusive s' ∧ work s' + is.length = work s ∧ ((∀ i, lockStep s' i = none) → ∀ t ∈ s', t.Done ∧ t.held = []) := by
  have hdisciplined : Disciplined rank s' := runAll_invariant (fun _ _ _ hs hstep => hs.step hstep) h hrun
  refine ⟨hdisciplined.exclusive, work_run hrun, ?_⟩
  intro hstuck t ht
  have hdone := hdisciplined.progress hstuck t ht
  have hordered := hdisciplined.ordered t ht
  rw [hdone] at hordered
  exact ⟨hdone, hordered⟩

end Locks

end Log2Bgp.Lib
