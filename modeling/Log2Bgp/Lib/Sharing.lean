import Log2Bgp.Lib.Lists
import Log2Bgp.Lib.Run
import Mathlib.Logic.Relation

/-!
# A variable that threads share

Threads that keep a part of their work in one variable, each as if it had the variable for itself.
-/

namespace Log2Bgp.Lib

/-- A thread: what it keeps for itself, and what it has last put into the variable. -/
structure Sharer (σ υ : Type) where
  state : σ
  own : υ
deriving Repr

structure Sharing (σ υ : Type) where
  threads : List (Sharer σ υ)
  value : υ
deriving Repr

section Sharing

variable {σ υ : Type}

/-- A step of a thread by itself, which finds in the variable what it has put there. -/
def aloneStep (next : σ → υ → Option (σ × Option υ)) (t : Sharer σ υ) : Option (Sharer σ υ) :=
  (next t.state t.own).map fun n => ⟨n.1, n.2.getD t.own⟩

/-- A step of thread `i`, which finds in the variable what is there, and may put something into it. -/
def shareStep (next : σ → υ → Option (σ × Option υ)) (s : Sharing σ υ) (i : Nat) : Option (Sharing σ υ) :=
  s.threads[i]?.bind fun t => (next t.state s.value).map fun n =>
    ⟨s.threads.set i ⟨n.1, n.2.getD t.own⟩, n.2.getD s.value⟩

/-- The threads that rely on the variable find in it what they have put there. -/
def Kept (relies : σ → Prop) (s : Sharing σ υ) : Prop := ∀ t ∈ s.threads, relies t.state → t.own = s.value

/-- Thread `i` puts nothing into the variable but what the others that rely on it have there. -/
def Undisturbed (next : σ → υ → Option (σ × Option υ)) (relies : σ → Prop) (s : Sharing σ υ) (i : Nat) : Prop :=
  ∀ t ∈ s.threads[i]?, ∀ n ∈ next t.state s.value, ∀ v ∈ n.2, ∀ u ∈ s.threads.eraseIdx i, relies u.state → u.own = v

/-- A thread of one kind, which it stays of, does not look at the variable where it does not rely on it; and a thread
begins to rely on it by putting something there. -/
structure Scratch (next : σ → υ → Option (σ × Option υ)) (kind relies : σ → Prop) : Prop where
  stays : ∀ l v n, next l v = some n → (kind n.1 ↔ kind l)
  blind : ∀ l v v', kind l → ¬ relies l → next l v = next l v'
  begins : ∀ l v n, next l v = some n → ¬ relies l → relies n.1 → n.2 ≠ none

variable {next : σ → υ → Option (σ × Option υ)} {kind relies : σ → Prop} {s s' : Sharing σ υ} {i : Nat}

theorem shareStep_cases (h : shareStep next s i = some s') :
    ∃ t n, s.threads[i]? = some t ∧ next t.state s.value = some n ∧
      s' = ⟨s.threads.set i ⟨n.1, n.2.getD t.own⟩, n.2.getD s.value⟩ := by
  obtain ⟨t, ht, h⟩ := Option.bind_eq_some_iff.mp h
  obtain ⟨n, hn, rfl⟩ := Option.map_eq_some_iff.mp h
  exact ⟨t, n, ht, hn, rfl⟩

theorem Kept.step_iff (hscratch : Scratch next kind relies) (h : Kept relies s) (hs : shareStep next s i = some s') :
    Kept relies s' ↔ Undisturbed next relies s i := by
  obtain ⟨t, ⟨l, w⟩, ht, hn, rfl⟩ := shareStep_cases hs
  have hlt := (List.getElem?_eq_some_iff.mp ht).1
  cases w with
  | none =>
      apply iff_of_true
      · intro u hu hrelies
        rcases List.mem_or_eq_of_mem_set hu with hu | rfl
        · exact h u hu hrelies
        · by_cases hbefore : relies t.state
          · exact h t (List.mem_of_getElem? ht) hbefore
          · exact absurd rfl (hscratch.begins _ _ _ hn hbefore hrelies)
      · simp [Undisturbed, ht, hn]
  | some v =>
      constructor
      · intro hkept
        simp only [Undisturbed, ht, hn, Option.mem_some_iff, forall_eq']
        intro u hu hrelies
        obtain ⟨j, hne, hj⟩ := List.mem_eraseIdx_iff_getElem?.mp hu
        apply hkept u _ hrelies
        rw [List.mem_iff_getElem?]
        exact ⟨j, by rwa [List.getElem?_set_ne hne.symm]⟩
      · intro hundisturbed u hu hrelies
        obtain ⟨j, hj⟩ := List.mem_iff_getElem?.mp hu
        rcases getElem?_set_or hj with ⟨_, rfl⟩ | ⟨hne, hj⟩
        · rfl
        · exact hundisturbed t ht _ hn v rfl u (List.mem_eraseIdx_iff_getElem?.mpr ⟨j, hne, hj⟩) hrelies

/-- The threads always find what they have put into the variable just where none of them is disturbed. -/
theorem kept_iff (hscratch : Scratch next kind relies) {is : List Nat} (h : Kept relies s)
    (hrun : runAll (shareStep next) is s = some s') :
    Always (shareStep next) (Kept relies) is s ↔ AllAdmissible (shareStep next) (Undisturbed next relies) is s := by
  apply always_iff (fun _ => True) _ _ trivial h hrun
  · intros
    trivial
  · intro s i s' _ hkept hs
    exact hkept.step_iff hscratch hs

/-- A thread of the kind that finds what it has put into the variable takes the step that it would take by itself. -/
theorem Kept.alone (hscratch : Scratch next kind relies) (h : Kept relies s) {t : Sharer σ υ} {n : σ × Option υ}
    (ht : s.threads[i]? = some t) (hkind : kind t.state) (hn : next t.state s.value = some n) :
    aloneStep next t = some ⟨n.1, n.2.getD t.own⟩ := by
  have hown : next t.state t.own = some n := by
    by_cases hrelies : relies t.state
    · rw [h t (List.mem_of_getElem? ht) hrelies, hn]
    · rw [hscratch.blind t.state t.own s.value hkind hrelies, hn]
  rw [aloneStep, hown, Option.map_some]

/-- The threads that rely on the variable find what they have put there, and a property holds of those of the kind. -/
def Holding (kind relies : σ → Prop) (inv : Sharer σ υ → Prop) (s : Sharing σ υ) : Prop :=
  Kept relies s ∧ ∀ t ∈ s.threads, kind t.state → inv t

/-- What a thread of the kind keeps by itself, it keeps where a step disturbs none that relies on the variable. -/
theorem Holding.step (hscratch : Scratch next kind relies) {inv : Sharer σ υ → Prop}
    (hinv : ∀ t t', inv t → aloneStep next t = some t' → inv t') (h : Holding kind relies inv s)
    (hundisturbed : Undisturbed next relies s i) (hs : shareStep next s i = some s') : Holding kind relies inv s' := by
  refine ⟨(h.1.step_iff hscratch hs).mpr hundisturbed, ?_⟩
  obtain ⟨t, n, ht, hn, rfl⟩ := shareStep_cases hs
  intro u hu hkind
  rcases List.mem_or_eq_of_mem_set hu with hu | rfl
  · exact h.2 u hu hkind
  · have hkind' : kind t.state := (hscratch.stays _ _ _ hn).mp hkind
    exact hinv t _ (h.2 t (List.mem_of_getElem? ht) hkind') (h.1.alone hscratch ht hkind' hn)

theorem Holding.always (hscratch : Scratch next kind relies) {inv : Sharer σ υ → Prop}
    (hinv : ∀ t t', inv t → aloneStep next t = some t' → inv t') {is : List Nat} (h : Holding kind relies inv s)
    (hadm : AllAdmissible (shareStep next) (Undisturbed next relies) is s) :
    Always (shareStep next) (Holding kind relies inv) is s :=
  always_of_step (fun _ _ _ h hadm hs => h.step hscratch hinv hadm hs) h hadm

/-! ## A thread that nobody interrupts -/

/-- A step of a thread with what is in the variable, and with what it leaves there. -/
def Goes (next : σ → υ → Option (σ × Option υ)) (a b : σ × υ) : Prop :=
  ∃ n, next a.1 a.2 = some n ∧ b = (n.1, n.2.getD a.2)

theorem goes_run {a b : σ × υ} (h : Relation.ReflTransGen (Goes next) a b) {t : Sharer σ υ}
    (ht : s.threads[i]? = some t) (ha : a = (t.state, s.value)) :
    ∃ k own, runAll (shareStep next) (List.replicate k i) s = some ⟨s.threads.set i ⟨b.1, own⟩, b.2⟩ := by
  induction h using Relation.ReflTransGen.head_induction_on generalizing s t with
  | refl =>
      subst ha
      refine ⟨0, t.own, ?_⟩
      rw [set_of_getElem? ht]
      rfl
  | head hstep _ ih =>
      obtain ⟨n, hn, rfl⟩ := hstep
      subst ha
      have hi := (List.getElem?_eq_some_iff.mp ht).1
      obtain ⟨k, own, hrun⟩ := ih (s := ⟨s.threads.set i ⟨n.1, n.2.getD t.own⟩, n.2.getD s.value⟩)
        (List.getElem?_set_self hi) rfl
      refine ⟨k + 1, own, ?_⟩
      have hone : shareStep next s i = some ⟨s.threads.set i ⟨n.1, n.2.getD t.own⟩, n.2.getD s.value⟩ := by
        simp [shareStep, ht, hn]
      rw [List.replicate_succ, runAll, hone, Option.bind_some, hrun, List.set_set]

end Sharing

end Log2Bgp.Lib
