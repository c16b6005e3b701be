import Mathlib.Order.RelClasses
import Mathlib.Tactic.Common

/-!
# Runs of a step function

The states that a step function reaches by admissible actions, and the rule that what holds at the
start and is kept by every step holds in all of them.
-/

namespace Log2Bgp.Lib

section Run

variable {σ α : Type} {step : σ → α → Option σ} {admissible : σ → α → Prop} {start : σ → Prop}

/-- The states of the runs whose actions are all admissible where they are taken. -/
inductive Reaches (step : σ → α → Option σ) (admissible : σ → α → Prop) (start : σ → Prop) :
    σ → Prop where
  | init {s : σ} : start s → Reaches step admissible start s
  | step {s s' : σ} {a : α} : Reaches step admissible start s → admissible s a → step s a = some s' →
      Reaches step admissible start s'

theorem Reaches.invariant {inv : σ → Prop} (hstart : ∀ s, start s → inv s)
    (hstep : ∀ s a s', inv s → admissible s a → step s a = some s' → inv s') {s : σ}
    (h : Reaches step admissible start s) : inv s := by
  induction h with
  | init hs => exact hstart _ hs
  | step _ hadm hs ih => exact hstep _ _ _ ih hadm hs

/-! ## Runs of given actions -/

variable (step admissible) in
/-- Takes actions one after another. -/
def runAll : List α → σ → Option σ
  | [], s => some s
  | a :: as, s => (step s a).bind (runAll as)

variable (step admissible) in
/-- Each action is admissible where it is taken. -/
def AllAdmissible : List α → σ → Prop
  | [], _ => True
  | a :: as, s => admissible s a ∧ ∀ s' ∈ step s a, AllAdmissible as s'

instance AllAdmissible.decidable [∀ s, DecidablePred (admissible s)] :
    (as : List α) → (s : σ) → Decidable (AllAdmissible step admissible as s)
  | [], _ => isTrue trivial
  | a :: as, s =>
      have _ : DecidablePred (AllAdmissible step admissible as) := AllAdmissible.decidable as
      inferInstanceAs (Decidable (admissible s a ∧ ∀ s' ∈ step s a, AllAdmissible step admissible as s'))

theorem AllAdmissible.mono {admissible' : σ → α → Prop} (himp : ∀ s a, admissible s a → admissible' s a) {as : List α}
    {s : σ} (h : AllAdmissible step admissible as s) : AllAdmissible step admissible' as s := by
  induction as generalizing s with
  | nil => trivial
  | cons a as ih => exact ⟨himp s a h.1, fun s' hs => ih (h.2 s' hs)⟩

theorem Reaches.runAll {as : List α} {s s' : σ} (h : Reaches step admissible start s)
    (hadm : AllAdmissible step admissible as s) (hrun : runAll step as s = some s') :
    Reaches step admissible start s' := by
  induction as generalizing s with
  | nil =>
      cases hrun
      exact h
  | cons a as ih =>
      obtain ⟨ha, hrest⟩ := hadm
      obtain ⟨s₁, hs₁, hrun⟩ := Option.bind_eq_some_iff.mp hrun
      exact ih (.step h ha hs₁) (hrest s₁ hs₁) hrun

theorem runAll_append (as as' : List α) (s : σ) :
    runAll step (as ++ as') s = (runAll step as s).bind (runAll step as') := by
  induction as generalizing s with
  | nil => rfl
  | cons a as ih => cases hs₁ : step s a <;> simp [runAll, hs₁, ih]

theorem runAll_invariant {inv : σ → Prop} (hstep : ∀ s a s', inv s → step s a = some s' → inv s') {as : List α}
    {s s' : σ} (hs : inv s) (hrun : runAll step as s = some s') : inv s' := by
  induction as generalizing s with
  | nil =>
      cases hrun
      exact hs
  | cons a as ih =>
      obtain ⟨s₁, hs₁, hrun⟩ := Option.bind_eq_some_iff.mp hrun
      exact ih (hstep s a s₁ hs hs₁) hrun

/-- Where the admissible actions are those that can be taken, a run goes through just where all are
admissible. -/
theorem runAll_iff (hstep : ∀ s a, (∃ s', step s a = some s') ↔ admissible s a) {as : List α} {s : σ} :
    (∃ s', runAll step as s = some s') ↔ AllAdmissible step admissible as s := by
  induction as generalizing s with
  | nil => exact iff_of_true ⟨s, rfl⟩ trivial
  | cons a as ih =>
      constructor
      · rintro ⟨s', hrun⟩
        obtain ⟨s₁, hs₁, hrun⟩ := Option.bind_eq_some_iff.mp hrun
        refine ⟨(hstep s a).mp ⟨s₁, hs₁⟩, ?_⟩
        intro s₂ hs₂
        cases hs₁.symm.trans hs₂
        exact ih.mp ⟨s', hrun⟩
      · rintro ⟨hadm, hrest⟩
        obtain ⟨s₁, hs₁⟩ := (hstep s a).mpr hadm
        obtain ⟨s', hrun⟩ := ih.mpr (hrest s₁ hs₁)
        exact ⟨s', Option.bind_eq_some_iff.mpr ⟨s₁, hs₁, hrun⟩⟩

/-! ## Runs of actions that are seen in part -/

variable (step) in
/-- Every run of actions that are seen as the given ones goes through, and a property holds behind it. -/
def Leads {β : Type} (seen : α → β) (P : σ → Prop) : List β → σ → Prop
  | [], s => P s
  | o :: os, s => ∀ a, seen a = o → ∃ s', step s a = some s' ∧ Leads seen P os s'

section Leads

variable {β : Type} {seen : α → β} {P Q : σ → Prop}

theorem Leads.append {os os' : List β} {s : σ} (h : Leads step seen P os s)
    (hnext : ∀ s', P s' → Leads step seen Q os' s') : Leads step seen Q (os ++ os') s := by
  induction os generalizing s with
  | nil => exact hnext s h
  | cons o os ih =>
      intro a ha
      obtain ⟨s', hs', hrest⟩ := h a ha
      exact ⟨s', hs', ih hrest⟩

theorem Leads.mono {os : List β} {s : σ} (h : Leads step seen P os s) (himp : ∀ s', P s' → Q s') :
    Leads step seen Q os s := by
  have hall : Leads step seen Q (os ++ []) s := h.append himp
  rwa [List.append_nil] at hall

theorem Leads.runAll {as : List α} {s : σ} (h : Leads step seen P (as.map seen) s) :
    ∃ s', runAll step as s = some s' ∧ P s' := by
  induction as generalizing s with
  | nil => exact ⟨s, rfl, h⟩
  | cons a as ih =>
      obtain ⟨s₁, hs₁, hrest⟩ := h a rfl
      obtain ⟨s', hrun, hP⟩ := ih hrest
      exact ⟨s', Option.bind_eq_some_iff.mpr ⟨s₁, hs₁, hrun⟩, hP⟩

end Leads

/-! ## What holds all along a run -/

variable (step) in
/-- A property holds in each state that a run visits. -/
def Always (inv : σ → Prop) : List α → σ → Prop
  | [], s => inv s
  | a :: as, s => inv s ∧ ∀ s' ∈ step s a, Always inv as s'

instance Always.decidable {inv : σ → Prop} [DecidablePred inv] :
    (as : List α) → (s : σ) → Decidable (Always step inv as s)
  | [], s => inferInstanceAs (Decidable (inv s))
  | a :: as, s =>
      have _ : DecidablePred (Always step inv as) := Always.decidable as
      inferInstanceAs (Decidable (inv s ∧ ∀ s' ∈ step s a, Always step inv as s'))

theorem Always.first {inv : σ → Prop} {as : List α} {s : σ} (h : Always step inv as s) : inv s := by
  cases as with
  | nil => exact h
  | cons _ _ => exact h.1

theorem Always.last {inv : σ → Prop} {as : List α} {s s' : σ} (h : Always step inv as s)
    (hrun : runAll step as s = some s') : inv s' := by
  induction as generalizing s with
  | nil =>
      cases hrun
      exact h
  | cons a as ih =>
      obtain ⟨s₁, hs₁, hrun⟩ := Option.bind_eq_some_iff.mp hrun
      exact ih (h.2 s₁ hs₁) hrun

theorem Always.mono {inv inv' : σ → Prop} (himp : ∀ s, inv s → inv' s) {as : List α} {s : σ}
    (h : Always step inv as s) : Always step inv' as s := by
  induction as generalizing s with
  | nil => exact himp s h
  | cons a as ih => exact ⟨himp s h.1, fun s' hs => ih (h.2 s' hs)⟩

theorem always_of_step {inv : σ → Prop} (hstep : ∀ s a s', inv s → admissible s a → step s a = some s' → inv s')
    {as : List α} {s : σ} (hs : inv s) (hadm : AllAdmissible step admissible as s) : Always step inv as s := by
  induction as generalizing s with
  | nil => exact hs
  | cons a as ih => exact ⟨hs, fun s' hs' => ih (hstep s a s' hs hadm.1 hs') (hadm.2 s' hs')⟩

/-- Where the admissible steps are just those that keep a property, the admissible runs are those that
keep it all along. -/
theorem always_iff (base : σ → Prop) {inv : σ → Prop}
    (hbase : ∀ s a s', base s → inv s → step s a = some s' → base s')
    (hstep : ∀ s a s', base s → inv s → step s a = some s' → (inv s' ↔ admissible s a)) {as : List α}
    {s s' : σ} (hs : base s) (hinv : inv s) (hrun : runAll step as s = some s') :
    Always step inv as s ↔ AllAdmissible step admissible as s := by
  induction as generalizing s with
  | nil => exact iff_of_true hinv trivial
  | cons a as ih =>
      obtain ⟨s₁, hs₁, hrun⟩ := Option.bind_eq_some_iff.mp hrun
      have hone := hstep s a s₁ hs hinv hs₁
      have hnext := hbase s a s₁ hs hinv hs₁
      constructor
      · rintro ⟨_, hrest⟩
        have hall := hrest s₁ hs₁
        have hinv₁ := hall.first
        refine ⟨hone.mp hinv₁, ?_⟩
        intro s₂ hs₂
        cases hs₁.symm.trans hs₂
        exact (ih hnext hinv₁ hrun).mp hall
      · rintro ⟨hadm, hrest⟩
        refine ⟨hinv, ?_⟩
        intro s₂ hs₂
        cases hs₁.symm.trans hs₂
        exact (ih hnext (hone.mpr hadm) hrun).mpr (hrest s₁ hs₁)

theorem Always.trivial (as : List α) (s : σ) : Always step (fun _ => True) as s := by
  induction as generalizing s with
  | nil => exact True.intro
  | cons a as ih => exact ⟨True.intro, fun s' _ => ih s'⟩

/-- The same for runs that may end early, where every action that cannot be taken is admissible, and on
runs all along which something else holds. -/
theorem always_iff_under (base : σ → Prop) {assumed inv : σ → Prop}
    (hbase : ∀ s a s', base s → inv s → step s a = some s' → base s')
    (hstep : ∀ s a s', base s → assumed s → assumed s' → inv s → step s a = some s' →
      (inv s' ↔ admissible s a))
    (hstuck : ∀ s a, base s → inv s → step s a = none → admissible s a) {s : σ} (hs : base s)
    (hinv : inv s) (as : List α) (hassumed : Always step assumed as s) :
    Always step inv as s ↔ AllAdmissible step admissible as s := by
  induction as generalizing s with
  | nil => exact iff_of_true hinv True.intro
  | cons a as ih =>
      obtain ⟨hassumed₀, hlater⟩ := hassumed
      constructor
      · rintro ⟨_, hrest⟩
        refine ⟨?_, ?_⟩
        · cases hs₁ : step s a with
          | none => exact hstuck s a hs hinv hs₁
          | some s₁ =>
              have hone := hstep s a s₁ hs hassumed₀ (hlater s₁ hs₁).first hinv hs₁
              exact hone.mp (hrest s₁ hs₁).first
        · intro s₁ hs₁
          have hall := hrest s₁ hs₁
          exact (ih (hbase s a s₁ hs hinv hs₁) hall.first (hlater s₁ hs₁)).mp hall
      · rintro ⟨hadm, hrest⟩
        refine ⟨hinv, ?_⟩
        intro s₁ hs₁
        have hone := hstep s a s₁ hs hassumed₀ (hlater s₁ hs₁).first hinv hs₁
        exact (ih (hbase s a s₁ hs hinv hs₁) (hone.mpr hadm) (hlater s₁ hs₁)).mpr (hrest s₁ hs₁)

theorem always_iff_of_stuck (base : σ → Prop) {inv : σ → Prop}
    (hbase : ∀ s a s', base s → inv s → step s a = some s' → base s')
    (hstep : ∀ s a s', base s → inv s → step s a = some s' → (inv s' ↔ admissible s a))
    (hstuck : ∀ s a, base s → inv s → step s a = none → admissible s a) {s : σ} (hs : base s)
    (hinv : inv s) (as : List α) : Always step inv as s ↔ AllAdmissible step admissible as s :=
  always_iff_under base hbase (fun s a s' hs _ _ => hstep s a s' hs) hstuck hs hinv as (.trivial as s)

/-- The same where the rest of what holds along a run is kept by the steps that are given, as long as the property
is. -/
theorem always_iff_given (base : σ → Prop) {given : σ → α → Prop} {inv : σ → Prop}
    (hbase : ∀ s a s', base s → inv s → given s a → step s a = some s' → inv s' → base s')
    (hstep : ∀ s a s', base s → inv s → given s a → step s a = some s' → (inv s' ↔ admissible s a))
    (hstuck : ∀ s a, base s → inv s → step s a = none → admissible s a) {s : σ} (hs : base s)
    (hinv : inv s) (as : List α) (hgiven : AllAdmissible step given as s) :
    Always step inv as s ↔ AllAdmissible step admissible as s := by
  induction as generalizing s with
  | nil => exact iff_of_true hinv True.intro
  | cons a as ih =>
      obtain ⟨ha, hlater⟩ := hgiven
      constructor
      · rintro ⟨_, hrest⟩
        refine ⟨?_, ?_⟩
        · cases hs₁ : step s a with
          | none => exact hstuck s a hs hinv hs₁
          | some s₁ => exact (hstep s a s₁ hs hinv ha hs₁).mp (hrest s₁ hs₁).first
        · intro s₁ hs₁
          have hall := hrest s₁ hs₁
          exact (ih (hbase s a s₁ hs hinv ha hs₁ hall.first) hall.first (hlater s₁ hs₁)).mp hall
      · rintro ⟨hadm, hrest⟩
        refine ⟨hinv, ?_⟩
        intro s₁ hs₁
        have hinv₁ := (hstep s a s₁ hs hinv ha hs₁).mpr hadm
        exact (ih (hbase s a s₁ hs hinv ha hs₁ hinv₁) hinv₁ (hlater s₁ hs₁)).mpr (hrest s₁ hs₁)

/-! ## Runs that end -/

/-- Where each admissible action leaves less of one thing, or as much of it and less of another, runs end. -/
theorem wellFounded_of_less {work queued : σ → Nat}
    (h : ∀ s a s', admissible s a → step s a = some s' →
      work s' < work s ∨ (work s' = work s ∧ queued s' < queued s)) :
    WellFounded fun s' s => ∃ a, admissible s a ∧ step s a = some s' := by
  refine Subrelation.wf ?_ (InvImage.wf (fun s => (work s, queued s)) (wellFounded_lt.prod_lex wellFounded_lt))
  rintro s' s ⟨a, hadm, hs⟩
  exact Prod.lex_def.mpr (h s a s' hadm hs)

end Run

end Log2Bgp.Lib
