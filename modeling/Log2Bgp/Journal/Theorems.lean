import Log2Bgp.Daemon.Theorems
import Log2Bgp.Journal.Run
import Log2Bgp.Reports.Lemmas.Readers

/-!
# Replaying the log of updates
-/

namespace Log2Bgp

open Lib

theorem DumpCall.returns_iff {c : DumpCall} : c.returns = true ↔ c.route.update.origin < 3 := by
  rw [← safe_originText, DumpCall.returns]
  constructor
  · intro h
    obtain ⟨text, htext⟩ := Option.isSome_iff_exists.mp h
    exact ⟨text, Checked.toOption_eq_some.mp htext⟩
  · rintro ⟨text, htext⟩
    rw [htext]
    rfl

namespace Daemon

variable {s s' : Daemon} {a : DaemonAction}

/-! ## Steps with the dumper -/

theorem dumpStep_eq_some {on : Bool} (h : s.dumpStep on a = some s') :
    s.step a = some s' ∧ (on = true → ∀ c ∈ s.dumpCalls a, c.returns = true) := by
  simp only [dumpStep, Option.ite_none_left_eq_some, not_and, Bool.not_eq_false, List.all_eq_true] at h
  exact h.symm

theorem dumpStep_eq_none (h : s.dumpStep true a = none) :
    s.step a = none ∨ ∃ c ∈ s.dumpCalls a, c.returns = false := by
  simp only [dumpStep, true_and] at h
  split at h
  · rename_i hall
    obtain ⟨c, hc, hnot⟩ := List.all_eq_false.mp hall
    simp only [Bool.not_eq_true] at hnot
    exact Or.inr ⟨c, hc, hnot⟩
  · exact Or.inl h

/-! ## What the calls of a step account for -/

/-- An update whose peer is unknown is logged, but not put into the RIB. -/
theorem insert_eq_peerEntry_iff (b : Bgp) (r : Route) :
    b.adjRibIn.insert r.entry r = (b.peerEntry r).adjRibIn ↔
      b.Knows r.bgpId ∨ b.adjRibIn[r.entry]? = some r := by
  by_cases hknown : b.Knows r.bgpId
  · have hput := Bgp.peerEntry_put hknown
    exact iff_of_true hput.symm (Or.inl hknown)
  · have hsame : b.peerEntry r = b := by
      rcases Bgp.peerEntry_cases b r with ⟨_, hb⟩ | ⟨i, hi, _⟩
      · exact hb
      · exact absurd (Bgp.knows_of_getPeer hi) hknown
    rw [hsame, or_iff_right hknown]
    constructor
    · intro heq
      rw [← heq, lookup_insert, if_pos rfl]
    · intro hold
      apply Std.ExtTreeMap.ext_getElem?
      intro k
      rw [lookup_insert]
      split
      · rename_i hk
        rw [hk, hold]
      · rfl

/-- A withdrawal logs the route that it takes out. -/
theorem withdrawDump_replays (hkeyed : s.Keyed) {r : Route} {b : Bgp} (h : s.bgp.withdraw r = .ok b) :
    (s.bgp.withdrawDump r).foldl DumpCall.apply s.bgp.adjRibIn = b.adjRibIn := by
  rcases Bgp.withdraw_cases h with ⟨hnone, rfl⟩ | ⟨old, i, hold, _, rfl⟩
  · simp [Bgp.withdrawDump, hnone]
  · simp only [Bgp.withdrawDump, hold, List.foldl_cons, List.foldl_nil, DumpCall.apply, DumpCall.op,
      MapOp.apply, hkeyed _ _ hold]

theorem erase_ne_self {rib : BgpAdjRib} {k : PrefixEntry} {r : Route} (h : rib[k]? = some r) :
    rib ≠ rib.erase k := by
  intro heq
  rw [heq, lookup_erase, if_pos rfl] at h
  cases h

/-- A step that is taken with the dumper on is accounted for by its calls just when it is logged. -/
theorem logged_iff (hkeyed : s.Keyed) (h : s.dumpStep true a = some s') :
    (s.dumpCalls a).foldl DumpCall.apply s.bgp.adjRibIn = s'.bgp.adjRibIn ↔ s.Logged a := by
  obtain ⟨hstep, hreturns⟩ := dumpStep_eq_some h
  cases step_cases hstep with
  | thread _ _ => simp [dumpCalls, Logged]
  | @flushed i p k old hp hold hid =>
      simp only [dumpCalls, List.foldl_nil, Logged]
      apply iff_of_false (erase_ne_self hold)
      intro hlogged
      exact hlogged (flushing_of_step hstep) p hp old (Bgp.mem_routes.mpr ⟨k, hold⟩) hid
  | @flushEnd i p hp hnone =>
      simp only [dumpCalls, List.foldl_nil, Logged, true_iff]
      intro _ q hq r hr
      cases hp.symm.trans hq
      obtain ⟨k, hk⟩ := Bgp.mem_routes.mp hr
      exact hnone k r hk
  | noPeer _ => simp [dumpCalls, Logged]
  | processed _ _ => simp [dumpCalls, Logged]
  | @entered r rest hqueue =>
      have horigin : r.update.origin < 3 := by
        apply DumpCall.returns_iff (c := ⟨.update, r⟩).mp
        apply hreturns rfl
        simp [dumpCalls, hqueue, Bgp.peerEntryDump]
      have hlogged : s.Logged .procAdjRibIn ↔ s.bgp.Knows r.bgpId ∨ s.bgp.adjRibIn[r.entry]? = some r := by
        simp [Logged, hqueue, horigin]
      rw [hlogged, ← insert_eq_peerEntry_iff]
      simp only [dumpCalls, hqueue, Bgp.peerEntryDump, List.foldl_cons, List.foldl_nil, DumpCall.apply,
        DumpCall.op, MapOp.apply]
      rfl
  | @withdrawn r rest b hqueue hb =>
      simp only [dumpCalls, hqueue, Logged, iff_true]
      exact withdrawDump_replays hkeyed hb

/-- A step that cannot be taken changes nothing. -/
theorem logged_of_stuck (h : s.dumpStep true a = none) : s.Logged a := by
  cases a with
  | flush i =>
      intro hphase p hp
      have hlt : i < s.bgp.threadQ.length := (List.getElem?_eq_some_iff.mp hp).1
      rcases dumpStep_eq_none h with hstuck | ⟨c, hc, _⟩
      · simp only [step, hphase, hlt, and_self, ↓reduceIte] at hstuck
        cases hflush : s.bgp.flushOne i with
        | some b => rw [hflush] at hstuck; cases hstuck
        | none => rw [hflush] at hstuck; cases hstuck
      · cases hc
  | procAdjRibIn =>
      intro r hr horigin
      obtain ⟨rest, hqueue⟩ : ∃ rest, s.bgp.queues.adjRibInQ = r :: rest := List.head?_eq_some_iff.mp hr
      rcases dumpStep_eq_none h with hstuck | ⟨c, hc, hnot⟩
      · simp [step, hqueue] at hstuck
      · simp only [dumpCalls, hqueue, Bgp.peerEntryDump, List.mem_singleton] at hc
        subst hc
        rw [DumpCall.returns_iff.mpr horigin] at hnot
        cases hnot
  | thread i a => trivial
  | procInQ i now => trivial
  | procAdjRibWdraw => trivial

end Daemon

/-! ## Results -/

/-- All along a run of the daemon, in which the dumper is switched at any time, the RIB is what the calls
of the dumper make of the one that it was switched on with, just where no step with the dumper on flushes
a route or drops an update of an unknown peer, unless that route is in the RIB as it is. -/
theorem journal_replays_iff {s : Daemon} (hs : s.Start) (as : List (JournalAction DaemonAction)) :
    Always DumpJournal.step DumpJournal.Replays as (.start s) ↔
      AllAdmissible DumpJournal.step (Journal.WhileOn Daemon.Logged) as (.start s) := by
  refine Journal.always_replays_iff (fun on s a s' (hkeyed : s.Keyed) h => ?_) ?_ ?_ hs.keyed ?_ as
  · exact hkeyed.step (Daemon.step_cases (Daemon.dumpStep_eq_some h).1)
  · intro s a s' hkeyed h
    exact Daemon.logged_iff hkeyed h
  · intro s a _ h
    exact Daemon.logged_of_stuck h
  · intro hon
    cases hon

namespace Example

/-- It withdraws 10.0.0.0/8. -/
def withdraws (i : Nat) : List DaemonAction :=
  [.thread i (.receive 1 .update withdraw10.encode []), .procInQ i 1]

/-- A session comes up, the dumper is switched on, and a route is announced and withdrawn. -/
def journalRun : List (JournalAction DaemonAction) :=
  (comesUp 0 1).map JournalAction.act ++
    JournalAction.switch true :: (announces 0 ++ DaemonAction.procAdjRibIn :: withdraws 0).map JournalAction.act ++
    [JournalAction.act DaemonAction.procAdjRibWdraw]

end Example

theorem journal_replays_iff_withdrawn :
    Always DumpJournal.step DumpJournal.Replays Example.journalRun (.start Example.daemon) :=
  (journal_replays_iff Example.daemon_start Example.journalRun).mpr (by decide +kernel)

end Log2Bgp
