import Log2Bgp.Lib.Run
import Mathlib.Data.List.Basic

/-!
# First in, first out

The events of a run, and the queues that they put items into and take items out of.
-/

namespace Log2Bgp.Lib

section Trace

variable {σ α ε β : Type} {step : σ → α → Option σ} {events : σ → α → List ε}

variable (step events) in
/-- The events of a run, up to the first action that cannot be taken. -/
def trace : List α → σ → List ε
  | [], _ => []
  | a :: as, s => ((step s a).map fun s' => events s a ++ trace as s').getD []

@[simp] theorem trace_nil (s : σ) : trace step events [] s = [] := rfl

theorem trace_cons {s s' : σ} {a : α} (h : step s a = some s') (as : List α) :
    trace step events (a :: as) s = events s a ++ trace step events as s' := by
  simp [trace, h]

/-! ## Queues -/

variable (step events) in
/-- Every step takes from the front of a queue and puts to its end, as its events say. -/
def Fifo (queue : σ → List β) (puts takes : ε → List β) : Prop :=
  ∀ s a s', step s a = some s' → (events s a).flatMap takes ++ queue s' = queue s ++ (events s a).flatMap puts

/-- What has been taken out and what still waits is what there was and what has been put in. -/
theorem Fifo.conserved {queue : σ → List β} {puts takes : ε → List β} (h : Fifo step events queue puts takes)
    {as : List α} {s s' : σ} (hrun : runAll step as s = some s') :
    (trace step events as s).flatMap takes ++ queue s' = queue s ++ (trace step events as s).flatMap puts := by
  induction as generalizing s with
  | nil =>
      cases hrun
      simp
  | cons a as ih =>
      obtain ⟨s₁, hs₁, hrun⟩ := Option.bind_eq_some_iff.mp hrun
      have hone := h s a s₁ hs₁
      have hrest := ih hrun
      rw [trace_cons hs₁, List.flatMap_append, List.flatMap_append, List.append_assoc, hrest, ← List.append_assoc,
        hone, List.append_assoc]

/-! ## Items that are lost -/

theorem length_flatMap_append (takes drops : ε → List β) (es : List ε) :
    (es.flatMap fun e => takes e ++ drops e).length = (es.flatMap takes).length + (es.flatMap drops).length := by
  induction es with
  | nil => simp
  | cons e es ih =>
      simp only [List.flatMap_cons, List.length_append] at ih ⊢
      omega

/-- Where an item leaves a queue in one of two ways, the first accounts for all of them just where the
second takes none. -/
theorem Fifo.conserved_iff {queue : σ → List β} {puts takes drops : ε → List β}
    (h : Fifo step events queue puts fun e => takes e ++ drops e) {as : List α} {s s' : σ}
    (hrun : runAll step as s = some s') :
    (trace step events as s).flatMap takes ++ queue s' = queue s ++ (trace step events as s).flatMap puts ↔
      (trace step events as s).flatMap drops = [] := by
  have hall := h.conserved hrun
  have hlength := length_flatMap_append takes drops (trace step events as s)
  constructor
  · intro htakes
    have hsame := congrArg List.length (htakes.trans hall.symm)
    simp only [List.length_append] at hsame
    apply List.eq_nil_of_length_eq_zero
    omega
  · intro hdrops
    rw [← hall]
    rw [List.flatMap_eq_nil_iff] at hdrops
    congr 1
    apply List.flatMap_congr
    intro e he
    simp [hdrops e he]

/-- What holds of all events of a run, where it is known of the events of each step. -/
theorem forall_trace_iff {P : ε → Prop} {admissible : σ → α → Prop}
    (hstep : ∀ s a s', step s a = some s' → ((∀ e ∈ events s a, P e) ↔ admissible s a)) {as : List α} {s s' : σ}
    (hrun : runAll step as s = some s') :
    (∀ e ∈ trace step events as s, P e) ↔ AllAdmissible step admissible as s := by
  induction as generalizing s with
  | nil => exact iff_of_true (by simp) trivial
  | cons a as ih =>
      obtain ⟨s₁, hs₁, hrun⟩ := Option.bind_eq_some_iff.mp hrun
      rw [trace_cons hs₁, List.forall_mem_append, hstep s a s₁ hs₁, ih hrun, AllAdmissible]
      simp [hs₁]

end Trace

end Log2Bgp.Lib
