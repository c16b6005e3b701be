import Log2Bgp.MainLoop.Lemmas.Cycle
import Log2Bgp.Update.Theorems

/-!
# The main loop against the messages in order
-/

namespace Log2Bgp

open Lib

namespace Bgp

variable {b b' : Bgp}

theorem ops_of_sessions (h : b'.sessions = b.sessions) : Cycle.ops b' = Cycle.ops b := by
  funext c
  have hidOf : b'.idOf = b.idOf := funext (idOf_of_sessions h)
  have hops : Arrival.ops b' = Arrival.ops b := by
    funext now a
    rw [Arrival.ops, Arrival.ops, hidOf]
  rw [Cycle.ops, Cycle.ops, hops]

theorem DistinctEstablished.of_sessions (h : b.DistinctEstablished) (hs : b'.sessions = b.sessions) :
    b'.DistinctEstablished := by
  intro i j p q hp hq hpup hqup hid
  obtain ⟨p₀, hp₀, hpid, hpstate⟩ := sessions_get hs hp
  obtain ⟨q₀, hq₀, hqid, hqstate⟩ := sessions_get hs hq
  exact h i j p₀ q₀ hp₀ hq₀ (hpstate.symm.trans hpup) (hqstate.symm.trans hqup)
    (hpid.symm.trans (hid.trans hqid))

theorem cycles_eq (cs : List Cycle) (b : Bgp) (hidle : b.Idle) (hdistinct : b.DistinctEstablished)
    (hkinds : ∀ c ∈ cs, ∀ a ∈ c.arrivals, a.message.OneKind) (hup : StaysUp cs b) :
    ∃ b', cycles cs b = .ok b' ∧
      b'.adjRibIn = applyOps ((cs.map (Cycle.ops b)).flatMap putsFirst) b.adjRibIn := by
  induction cs generalizing b with
  | nil => exact ⟨b, rfl, rfl⟩
  | cons c rest ih =>
      obtain ⟨hfrom, htime, hrest⟩ := hup
      obtain ⟨b₁, hb₁, hidle₁, hsessions, hrib₁⟩ := cycle_eq
        ⟨hidle, hdistinct, hkinds c List.mem_cons_self, hfrom, htime⟩
      obtain ⟨b', hb', hrib⟩ := ih b₁ hidle₁ (hdistinct.of_sessions hsessions)
        (fun c' hc' => hkinds c' (List.mem_cons_of_mem c hc')) (hrest b₁ hb₁)
      rw [ops_of_sessions hsessions, hrib₁, ← applyOps_append] at hrib
      refine ⟨b', ?_, ?_⟩
      · simp only [cycles, hb₁, Checked.ok_bind]
        exact hb'
      · rw [List.map_cons, List.flatMap_cons]
        exact hrib

end Bgp

/-! ## Concrete runs -/

namespace Example

/-- Announces 10.0.0.0/8. -/
def announce10 : UpdateBody where
  withdrawn := []
  attribs := [⟨0x40, .origin 0, by decide⟩]
  nlri := [net10]
  distinct := by decide
  fits := by decide

/-- Withdraws it. -/
def withdraw10 : UpdateBody where
  withdrawn := [net10]
  attribs := []
  nlri := []
  distinct := List.nodup_nil
  fits := by decide

/-- An instance with one established peer, and one that is idle. -/
def running : Bgp := { cfg := { AS := 1 }, threadQ := [peer [], {}] }

theorem running_idle : running.Idle := by
  refine ⟨rfl, ?_⟩
  intro p hp
  rcases List.mem_cons.mp hp with rfl | hp
  · rfl
  · cases List.mem_singleton.mp hp
    rfl

theorem running_distinct : running.DistinctEstablished := by
  have hzero : ∀ (i : Nat) (p : BgpPeer), running.threadQ[i]? = some p → p.state = .established → i = 0 := by
    intro i p hp hup
    match i with
    | 0 => rfl
    | 1 => cases hp; cases hup
    | i + 2 => cases hp
  intro i j p q hp hq hpup hqup _
  rw [hzero i p hp hpup, hzero j q hq hqup]

/-- A route is announced, then withdrawn and announced again in one cycle. -/
def flap : List Cycle :=
  [⟨[⟨0, 0, 1, .update announce10⟩], 2⟩,
    ⟨[⟨0, 0, 3, .update withdraw10⟩, ⟨0, 0, 3, .keepalive⟩, ⟨0, 0, 4, .update announce10⟩], 5⟩]

/-- The same messages, each in a cycle of its own. -/
def slowFlap : List Cycle :=
  [⟨[⟨0, 0, 1, .update announce10⟩], 2⟩, ⟨[⟨0, 0, 3, .update withdraw10⟩], 4⟩,
    ⟨[⟨0, 0, 4, .update announce10⟩], 5⟩]

end Example

/-- A route that is withdrawn and announced again in one cycle is lost. -/
theorem reannouncement_lost : ¬ ∀ (b : Bgp) (cs : List Cycle), b.Idle → b.DistinctEstablished →
    (∀ c ∈ cs, ∀ a ∈ c.arrivals, a.message.OneKind) → Bgp.StaysUp cs b →
    ∀ b', Bgp.cycles cs b = .ok b' → b'.adjRibIn = Bgp.sequential cs b := by
  intro h
  have hkinds : ∀ c ∈ Example.flap, ∀ a ∈ c.arrivals, a.message.OneKind := by
    decide
  have hup : Bgp.StaysUp Example.flap Example.running := by
    decide
  obtain ⟨b', hb', hrib⟩ := Bgp.cycles_eq Example.flap Example.running Example.running_idle
    Example.running_distinct hkinds hup
  have hseq := h _ _ Example.running_idle Example.running_distinct hkinds hup b' hb'
  rw [hrib, Bgp.sequential, applyOps_batches_iff] at hseq
  apply hseq (0x0a, 0x0100000a)
  exact Or.inl (Or.inr ⟨rfl, by decide, _, rfl⟩)

/-- The main loop always ends, and it leaves the RIB that the messages ask for exactly when no key is
withdrawn and then announced again in the last cycle that changes it. -/
theorem cycles_sequential_iff (cs : List Cycle) (b : Bgp) (hidle : b.Idle)
    (hdistinct : b.DistinctEstablished) (hkinds : ∀ c ∈ cs, ∀ a ∈ c.arrivals, a.message.OneKind)
    (hup : Bgp.StaysUp cs b) :
    ∃ b', Bgp.cycles cs b = .ok b' ∧
      (b'.adjRibIn = Bgp.sequential cs b ↔ ∀ k, ¬ Bgp.ReannouncedLast cs b k) := by
  obtain ⟨b', hb', hrib⟩ := Bgp.cycles_eq cs b hidle hdistinct hkinds hup
  refine ⟨b', hb', ?_⟩
  rw [hrib, Bgp.sequential]
  exact applyOps_batches_iff (cs.map (Cycle.ops b)) b.adjRibIn

theorem cycles_sequential_iff_slow :
    ∃ b', Bgp.cycles Example.slowFlap Example.running = .ok b' ∧
      (b'.adjRibIn = Bgp.sequential Example.slowFlap Example.running ↔
        ∀ k, ¬ Bgp.ReannouncedLast Example.slowFlap Example.running k) :=
  cycles_sequential_iff Example.slowFlap Example.running Example.running_idle Example.running_distinct
    (by decide) (by decide)

end Log2Bgp
