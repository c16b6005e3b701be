import Log2Bgp.Lib.Run

/-!
# Journals

A step function whose steps report changes of a part of the state, while a switch is on. The reports since
the switch was last turned on are replayed on what the part was then.
-/

namespace Log2Bgp.Lib

section Journal

variable {σ α δ ν : Type}

/-- A state with the reports of its changes. -/
structure Journal (σ δ ν : Type) where
  state : σ
  on : Bool
  reports : List δ
  base : ν

inductive JournalAction (α : Type) where
  | act (a : α)
  | switch (on : Bool)
deriving DecidableEq, Repr

namespace Journal

/-- What the reports say that the part is now. -/
def replay (apply : ν → δ → ν) (s : Journal σ δ ν) : ν := s.reports.foldl apply s.base

/-- A step of the state, which may depend on the switch, or one of the switch. -/
def step (step : Bool → σ → α → Option σ) (reports : σ → α → List δ) (part : σ → ν) (s : Journal σ δ ν) :
    JournalAction α → Option (Journal σ δ ν)
  | .act a => (step s.on s.state a).map fun s' =>
      { s with state := s', reports := if s.on then s.reports ++ reports s.state a else s.reports }
  | .switch on =>
      if on && !s.on then some { s with on := true, reports := [], base := part s.state }
      else some { s with on := on }

/-- While the switch is on, the replay gives the part of the state. -/
def Replays (apply : ν → δ → ν) (part : σ → ν) (s : Journal σ δ ν) : Prop :=
  s.on = true → s.replay apply = part s.state

/-- A condition on the steps that are taken while the switch is on. -/
def WhileOn (keeps : σ → α → Prop) (s : Journal σ δ ν) : JournalAction α → Prop
  | .act a => s.on = true → keeps s.state a
  | .switch _ => True

instance {keeps : σ → α → Prop} [∀ s, DecidablePred (keeps s)] (s : Journal σ δ ν) :
    DecidablePred (WhileOn keeps s) := by
  intro a
  cases a with
  | act a => exact inferInstanceAs (Decidable (_ → _))
  | switch _ => exact isTrue trivial

variable {take : Bool → σ → α → Option σ} {reports : σ → α → List δ} {part : σ → ν} {apply : ν → δ → ν}
variable {keeps : σ → α → Prop} {inv : σ → Prop} {s s' : Journal σ δ ν}

/-- A step of the state, with the journal on, is replayed just when its reports account for it. -/
theorem Replays.act_iff {t : σ} {a : α} (hs : s.Replays apply part) (hon : s.on = true) :
    Replays apply part { s with state := t, reports := s.reports ++ reports s.state a } ↔
      (reports s.state a).foldl apply (part s.state) = part t := by
  have hnow := hs hon
  simp only [Replays, replay, hon, forall_const, List.foldl_append] at hnow ⊢
  rw [hnow]

theorem step_iff (hkeeps : ∀ s a s', inv s → take true s a = some s' →
      ((reports s a).foldl apply (part s) = part s' ↔ keeps s a))
    {a : JournalAction α} (hinv : inv s.state) (hs : s.Replays apply part)
    (hstep : s.step take reports part a = some s') : s'.Replays apply part ↔ s.WhileOn keeps a := by
  cases a with
  | act a =>
      simp only [step, Option.map_eq_some_iff] at hstep
      obtain ⟨t, ht, rfl⟩ := hstep
      cases hon : s.on with
      | true =>
          rw [hon] at ht
          have hiff : Replays apply part { s with state := t, reports := s.reports ++ reports s.state a } ↔ _ :=
            hs.act_iff hon
          rw [hon] at hiff
          simp only [↓reduceIte, WhileOn, hon, forall_const]
          rw [hiff, hkeeps _ _ _ hinv ht]
      | false => simp [Replays, WhileOn, hon]
  | switch on =>
      simp only [step] at hstep
      split at hstep
      · simp only [Option.some.injEq] at hstep
        subst hstep
        simp [Replays, replay, WhileOn]
      · rename_i hsame
        simp only [Option.some.injEq] at hstep
        subst hstep
        cases hon : s.on with
        | true =>
            have hnow := hs hon
            simp only [Replays, replay, WhileOn, iff_true]
            exact fun _ => hnow
        | false =>
            simp only [hon, Bool.not_false, Bool.and_true] at hsame
            simp [Replays, WhileOn, hsame]

theorem step_inv (htake : ∀ on s a s', inv s → take on s a = some s' → inv s') {a : JournalAction α}
    (hinv : inv s.state) (hstep : s.step take reports part a = some s') : inv s'.state := by
  cases a with
  | act a =>
      simp only [step, Option.map_eq_some_iff] at hstep
      obtain ⟨t, ht, rfl⟩ := hstep
      exact htake _ _ _ _ hinv ht
  | switch on =>
      simp only [step] at hstep
      split at hstep
      · cases hstep
        exact hinv
      · cases hstep
        exact hinv

theorem keeps_of_stuck (hstuck : ∀ s a, inv s → take true s a = none → keeps s a) {a : JournalAction α}
    (hinv : inv s.state) (hstep : s.step take reports part a = none) : s.WhileOn keeps a := by
  cases a with
  | act a =>
      intro hon
      simp only [step, Option.map_eq_none_iff, hon] at hstep
      exact hstuck _ _ hinv hstep
  | switch on => trivial

/-- The replay gives the part of the state all along a run, just where the reports of each step that is
taken with the switch on account for it. -/
theorem always_replays_iff (htake : ∀ on s a s', inv s → take on s a = some s' → inv s')
    (hkeeps : ∀ s a s', inv s → take true s a = some s' →
      ((reports s a).foldl apply (part s) = part s' ↔ keeps s a))
    (hstuck : ∀ s a, inv s → take true s a = none → keeps s a) (hinv : inv s.state)
    (hs : s.Replays apply part) (as : List (JournalAction α)) :
    Always (step take reports part) (Replays apply part) as s ↔
      AllAdmissible (step take reports part) (WhileOn keeps) as s :=
  always_iff_of_stuck (fun s => inv s.state) (fun _ _ _ hinv _ hstep => step_inv htake hinv hstep)
    (fun _ _ _ hinv hs hstep => step_iff hkeeps hinv hs hstep)
    (fun _ _ hinv _ hstep => keeps_of_stuck hstuck hinv hstep) hinv hs as

end Journal

end Journal

end Log2Bgp.Lib
