import Log2Bgp.Pipeline.Theorems
import Log2Bgp.Session.Lemmas.Negotiation
import Mathlib.Algebra.Order.BigOperators.Group.Finset

/-!
# A daemon that hears nothing new

The steps that the daemon takes when no message comes in and no connection is made, in any order. They come to an end.
-/

namespace Log2Bgp

open Lib

/-- The steps that are left of a session in each place of its thread. -/
def PeerPhase.rank : PeerPhase → Nat
  | .down | .connecting => 0
  | .emptying => 1
  | .closing => 2
  | .flushing => 3
  | .reading => 4

/-- What a thread and its peer still have to do, without the flush. -/
def PeerThread.work (t : PeerThread) (p : BgpPeer) : Nat :=
  t.phase.rank + p.reads.toNat + (decide (p.state = .established)).toNat + p.inQueue.length

namespace Daemon

/-- A step by which something that the daemon has is dealt with. For a session that is not established, or has nothing
queued, `proc_in_q` does nothing. -/
def Busy (s : Daemon) : DaemonAction → Prop
  | .thread _ (.receive _ _ _ _) | .thread _ (.connect _ _) | .thread _ .restart => False
  | .procInQ i _ => ∃ p, s.bgp.threadQ[i]? = some p ∧ p.state = .established ∧ p.inQueue ≠ []
  | _ => True

/-- Nothing is left to be dealt with. -/
structure Settled (s : Daemon) : Prop where
  phase : ∀ i < s.bgp.threadQ.length, (s.threads i).phase = .down ∨ (s.threads i).phase = .connecting
  inQueue : ∀ p ∈ s.bgp.threadQ, p.inQueue = []
  adjRibInQ : s.bgp.queues.adjRibInQ = []
  adjRibInWdrawQ : s.bgp.queues.adjRibInWdrawQ = [] ∨
    ∃ r rest, s.bgp.queues.adjRibInWdrawQ = r :: rest ∧ ¬ Safe (s.bgp.withdraw r)

/-! ## The work that is left -/

def workOf (s : Daemon) (i : Nat) : Nat := (s.bgp.threadQ[i]?).elim 0 (s.threads i).work

def work (s : Daemon) : Nat := ∑ i ∈ Finset.range s.bgp.threadQ.length, s.workOf i

/-- A route that is announced is taken from the queue, and may have to be flushed. -/
def queued (s : Daemon) : Nat :=
  2 * s.bgp.queues.adjRibInQ.length + s.bgp.queues.adjRibInWdrawQ.length + s.bgp.adjRibIn.size

variable {s s' : Daemon} {a : DaemonAction} {i : Nat} {p p' : BgpPeer}

theorem workOf_eq (hp : s.bgp.threadQ[i]? = some p) : s.workOf i = (s.threads i).work p := by
  rw [workOf, hp]
  rfl

theorem workOf_same {b : Bgp} (hpeers : b.threadQ.map BgpPeer.uncounted = s.bgp.threadQ.map BgpPeer.uncounted) (i : Nat) :
    workOf { bgp := b, threads := s.threads } i = s.workOf i := by
  have hwork : ∀ ps : List BgpPeer, (ps[i]?).elim 0 (s.threads i).work =
      ((ps.map BgpPeer.uncounted)[i]?).elim 0 (s.threads i).work := by
    intro ps
    rw [List.getElem?_map]
    cases ps[i]? with
    | none => rfl
    | some p => rfl
  rw [workOf, workOf, hwork, hpeers, ← hwork]

theorem work_same {b : Bgp} (hpeers : b.threadQ.map BgpPeer.uncounted = s.bgp.threadQ.map BgpPeer.uncounted) :
    work { bgp := b, threads := s.threads } = s.work := by
  have hlength := congrArg List.length hpeers
  rw [List.length_map, List.length_map] at hlength
  rw [work, work, hlength]
  exact Finset.sum_congr rfl fun i _ => workOf_same hpeers i

/-- One thread has less work than before, and the others have the same. -/
theorem work_lt (hp : s.bgp.threadQ[i]? = some p) (hlength : s'.bgp.threadQ.length = s.bgp.threadQ.length)
    (hless : s'.workOf i < s.workOf i) (hothers : ∀ j ≠ i, s'.workOf j = s.workOf j) : s'.work < s.work := by
  have hi := (List.getElem?_eq_some_iff.mp hp).1
  rw [work, work, hlength]
  refine Finset.sum_lt_sum ?_ ⟨i, Finset.mem_range.mpr hi, hless⟩
  intro j _
  by_cases hij : j = i
  · rw [hij]
    exact Nat.le_of_lt hless
  · exact Nat.le_of_eq (hothers j hij)

/-- A step of a thread and its peer. -/
theorem work_set {t' : PeerThread} {q : RibQueues} (hp : s.bgp.threadQ[i]? = some p)
    (hless : t'.work p' < (s.threads i).work p) :
    work { bgp := { s.bgp with threadQ := s.bgp.threadQ.set i p', queues := q }, threads := s.setThread i t' } <
      s.work := by
  have hi := (List.getElem?_eq_some_iff.mp hp).1
  apply work_lt hp (List.length_set ..)
  · have hself : (s.setThread i t' i).work p' < (s.threads i).work p := by rwa [setThread_self]
    rw [workOf_eq hp, workOf_eq (List.getElem?_set_self hi)]
    exact hself
  · intro j hij
    simp only [workOf, setThread_ne s t' hij, List.getElem?_set_ne (Ne.symm hij)]

theorem setThread_same (s : Daemon) (i : Nat) : s.setThread i (s.threads i) = s.threads := by
  funext j
  by_cases hij : j = i
  · rw [hij, setThread_self]
  · rw [setThread_ne s _ hij]

end Daemon

/-! ## Sizes of the RIB -/

theorem size_peerEntry (b : Bgp) (r : Route) : (b.peerEntry r).adjRibIn.size ≤ b.adjRibIn.size + 1 := by
  rcases Bgp.peerEntry_cases b r with ⟨_, h⟩ | ⟨i, _, ⟨old, _, h⟩ | ⟨_, h⟩⟩
  · rw [h]
    exact Nat.le_succ _
  · rw [h]
    exact Std.ExtTreeMap.size_insert_le
  · rw [h]
    exact Std.ExtTreeMap.size_insert_le

theorem size_withdraw {b b' : Bgp} {r : Route} (h : b.withdraw r = .ok b') : b'.adjRibIn.size ≤ b.adjRibIn.size := by
  rw [Bgp.withdraw_del h]
  exact Std.ExtTreeMap.size_erase_le

/-! ## Steps -/

/-- Nothing has become more, and something less. -/
theorem PeerThread.work_lt {t t' : PeerThread} {p p' : BgpPeer} (hrank : t'.phase.rank ≤ t.phase.rank)
    (hreads : p'.reads = true → p.reads = true) (hup : p'.state = .established → p.state = .established)
    (hqueue : p'.inQueue.length ≤ p.inQueue.length)
    (hless : t'.phase.rank < t.phase.rank ∨ (p.reads = true ∧ p'.reads = false) ∨
      (p.state = .established ∧ p'.state ≠ .established) ∨ p'.inQueue.length < p.inQueue.length) :
    t'.work p' < t.work p := by
  have hreads' := Bool.toNat_le_toNat (Bool.le_iff_imp.mpr hreads)
  have hup' : (decide (p'.state = .established)).toNat ≤ (decide (p.state = .established)).toNat :=
    Bool.toNat_le_toNat (Bool.le_iff_imp.mpr (by simpa using hup))
  unfold work
  rcases hless with hless | ⟨hread, hnot⟩ | ⟨hwas, hnot⟩ | hless
  · omega
  · rw [hread, hnot, Bool.toNat_true, Bool.toNat_false]
    omega
  · rw [decide_eq_true hwas, decide_eq_false hnot, Bool.toNat_true, Bool.toNat_false]
    omega
  · omega

theorem not_reads_of_down {p : BgpPeer} (h : p.connected = false) : p.reads = false := by
  rw [BgpPeer.reads, h, Bool.false_and]

theorem PeerThread.work_thread {cfg : BgpConfig} {i : Nat} {t t' : PeerThread} {p p' : BgpPeer} {a : ThreadAction}
    (s : Daemon) (hbusy : s.Busy (.thread i a)) (h : threadStep cfg i t p a = some (p', t')) : t'.work p' < t.work p := by
  cases a with
  | restart => cases hbusy
  | connect => cases hbusy
  | receive => cases hbusy
  | eof now header =>
      simp only [threadStep, Option.ite_none_right_eq_some, Option.some.injEq, Prod.mk.injEq] at h
      obtain ⟨⟨_, hreads⟩, rfl, rfl⟩ := h
      have heof : ∀ q : BgpPeer, q.readEof.reads = false := fun q =>
        not_reads_of_down (by simp [BgpPeer.readEof, BgpPeer.connected, TcpClient.connected])
      cases header with
      | true => exact work_lt (Nat.le_refl _) (fun _ => hreads) id (Nat.le_refl _) (Or.inr (Or.inl ⟨hreads, heof _⟩))
      | false => exact work_lt (Nat.le_refl _) (fun _ => hreads) id (Nat.le_refl _) (Or.inr (Or.inl ⟨hreads, heof _⟩))
  | leave =>
      simp only [threadStep, Option.ite_none_right_eq_some, Option.some.injEq, Prod.mk.injEq] at h
      obtain ⟨⟨hphase, _⟩, rfl, rfl⟩ := h
      have hrank : PeerPhase.flushing.rank < t.phase.rank := by
        rw [hphase]
        decide
      exact work_lt (Nat.le_of_lt hrank) id id (Nat.le_refl _) (Or.inl hrank)
  | close =>
      simp only [threadStep, Option.ite_none_right_eq_some, Option.some.injEq, Prod.mk.injEq] at h
      obtain ⟨hphase, rfl, rfl⟩ := h
      have hrank : PeerPhase.emptying.rank < t.phase.rank := by
        rw [hphase]
        decide
      have hdown : BgpPeer.reads { p.disconnect with upSince := 0 } = false := not_reads_of_down rfl
      exact work_lt (Nat.le_of_lt hrank) (fun hreads => absurd hreads (by simp [hdown])) id (Nat.le_refl _) (Or.inl hrank)
  | empty =>
      simp only [threadStep, Option.ite_none_right_eq_some, Option.some.injEq, Prod.mk.injEq] at h
      obtain ⟨hphase, rfl, rfl⟩ := h
      have hrank : PeerPhase.down.rank < t.phase.rank := by
        rw [hphase]
        decide
      exact work_lt (Nat.le_of_lt hrank) id id (Nat.zero_le _) (Or.inl hrank)

theorem holdTimerExpired_up {p : BgpPeer} (now : TimeT) (hup : p.state = .established) :
    ((holdTimerExpired p now).1 = true ∧ (holdTimerExpired p now).2.state = .idle) ∨
      ((holdTimerExpired p now).1 = false ∧ (holdTimerExpired p now).2.state = p.state ∧
        (holdTimerExpired p now).2.connected = p.connected) := by
  unfold holdTimerExpired
  rw [if_neg (not_not.mpr hup)]
  split
  · exact Or.inl ⟨rfl, rfl⟩
  · split
    · exact Or.inr ⟨rfl, BgpPeer.sendPacket_state .., (BgpPeer.sendPacket_sameSession p now [] .keepalive).connected⟩
    · exact Or.inr ⟨rfl, rfl, rfl⟩

theorem procInQ_work {p p' : BgpPeer} {now : TimeT} {q q' : RibQueues} (hup : p.state = .established)
    (hqueue : p.inQueue ≠ []) (h : procInQ now p q = .ok (p', q')) (t : PeerThread) : t.work p' < t.work p := by
  have hlen := List.length_pos_iff.mpr hqueue
  obtain ⟨hsame, _, _⟩ := holdTimerExpired_cases p now
  unfold procInQ at h
  rcases holdTimerExpired_up now hup with ⟨hexpired, hidle⟩ | ⟨hexpired, hstate, hconnected⟩
  · simp only [hexpired, ↓reduceIte] at h
    cases h
    have hnot : (holdTimerExpired p now).2.state ≠ .established := by simp [hidle]
    have hreads : (holdTimerExpired p now).2.reads = false := by simp [BgpPeer.reads, hidle]
    refine PeerThread.work_lt (Nat.le_refl _) (fun h => absurd h (by simp [hreads])) (fun h => absurd h hnot) ?_
      (Or.inr (Or.inr (Or.inl ⟨hup, hnot⟩)))
    rw [hsame.inQueue]
  · simp only [hexpired, Bool.false_eq_true, ↓reduceIte, Checked.bind_eq_ok, Checked.pure_eq_ok] at h
    obtain ⟨_, _, h⟩ := h
    cases h
    have hreads : (holdTimerExpired p now).2.reads = p.reads := by
      rw [BgpPeer.reads, BgpPeer.reads, hstate, hconnected]
    exact PeerThread.work_lt (Nat.le_refl _) (fun h => hreads.symm.trans h) (fun _ => hup) (Nat.zero_le _)
      (Or.inr (Or.inr (Or.inr hlen)))

namespace Daemon

variable {s s' : Daemon} {a : DaemonAction} {i : Nat} {p p' : BgpPeer}

/-- Each busy step leaves less to do for the threads, or as much for them and less in the queues and the RIB. -/
theorem busy_less (hbusy : s.Busy a) (h : s.step a = some s') :
    s'.work < s.work ∨ (s'.work = s.work ∧ s'.queued < s.queued) := by
  cases step_cases h with
  | thread hp hstep => exact Or.inl (work_set (q := s.bgp.queues) hp (PeerThread.work_thread s hbusy hstep))
  | @flushed i p k old hp hold hid =>
      refine Or.inr ⟨work_same (Bgp.map_modify (f := BgpPeer.countFlushed) (fun _ => rfl) _), ?_⟩
      have hless := size_erase_lt hold
      simp only [queued, Bgp.modifyPeer]
      omega
  | @flushEnd i p hp hnone =>
      have hphase := flushing_of_step h
      have hless : PeerThread.work { s.threads i with phase := .closing } p < (s.threads i).work p := by
        simp [PeerThread.work, hphase, PeerPhase.rank]
      have hset := work_set (q := s.bgp.queues) hp hless
      rw [set_of_getElem? hp] at hset
      exact Or.inl hset
  | noPeer hnone =>
      obtain ⟨p, hp, _⟩ := hbusy
      cases hnone.symm.trans hp
  | @processed i now p p' q' hp hproc =>
      obtain ⟨q, hq, hup, hqueue⟩ := hbusy
      cases hp.symm.trans hq
      have hset := work_set (q := q') hp (procInQ_work hup hqueue hproc (s.threads i))
      rw [setThread_same] at hset
      exact Or.inl hset
  | @entered r rest hqueue =>
      have hsame := Bgp.peerEntry_same s.bgp r
      refine Or.inr ⟨work_same (b := s.bgp.procAdjRibInItem r rest) hsame.peers, ?_⟩
      have hsize := size_peerEntry s.bgp r
      have hwdraw := congrArg RibQueues.adjRibInWdrawQ hsame.queues
      simp only [queued, Bgp.procAdjRibInItem, hqueue, hwdraw, List.length_cons]
      omega
  | @withdrawn r rest b hqueue hb =>
      have hsame := Bgp.withdraw_same hb
      refine Or.inr ⟨work_same hsame.peers, ?_⟩
      have hsize := size_withdraw hb
      have hin := congrArg RibQueues.adjRibInQ hsame.queues
      simp only [queued, hqueue, hin, List.length_cons]
      omega

/-! ## Where nothing can be done -/

theorem step_thread (hp : s.bgp.threadQ[i]? = some p) {a : ThreadAction} {t' : PeerThread}
    (h : threadStep s.bgp.cfg i (s.threads i) p a = some (p', t')) : s.step (.thread i a) ≠ none := by
  simp [step, hp, h]

theorem phase_of_stuck (hstuck : ∀ a, s.Busy a → s.step a = none) (hp : s.bgp.threadQ[i]? = some p) :
    (s.threads i).phase = .down ∨ (s.threads i).phase = .connecting := by
  have hi := (List.getElem?_eq_some_iff.mp hp).1
  cases hphase : (s.threads i).phase with
  | down => exact Or.inl rfl
  | connecting => exact Or.inr rfl
  | reading =>
      by_cases hreads : p.reads = true
      · exact absurd (hstuck (.thread i (.eof 0 true)) trivial) (step_thread hp (if_pos ⟨hphase, hreads⟩))
      · exact absurd (hstuck (.thread i .leave) trivial) (step_thread hp (if_pos ⟨hphase, hreads⟩))
  | flushing =>
      have hflush := hstuck (.flush i) trivial
      simp only [step, if_pos (And.intro hphase hi)] at hflush
      split at hflush
      · cases hflush
      · cases hflush
  | closing => exact absurd (hstuck (.thread i .close) trivial) (step_thread hp (if_pos hphase))
  | emptying => exact absurd (hstuck (.thread i .empty) trivial) (step_thread hp (if_pos hphase))

theorem threadStep_of_settled {t : PeerThread} {a : ThreadAction} (hbusy : s.Busy (.thread i a))
    (h : t.phase = .down ∨ t.phase = .connecting) : threadStep s.bgp.cfg i t p a = none := by
  cases a with
  | restart => cases hbusy
  | connect => cases hbusy
  | receive => cases hbusy
  | eof | leave | close | empty =>
      rcases h with h | h
      · simp [threadStep, h]
      · simp [threadStep, h]

theorem Settled.stuck (h : s.Settled) (hbusy : s.Busy a) : s.step a = none := by
  cases a with
  | thread i a =>
      simp only [step]
      cases hp : s.bgp.threadQ[i]? with
      | none => rfl
      | some p =>
          have hphase := h.phase i (List.getElem?_eq_some_iff.mp hp).1
          simp only [threadStep_of_settled hbusy hphase, Option.map_none]
  | flush i =>
      simp only [step]
      apply if_neg
      rintro ⟨hphase, hi⟩
      rcases h.phase i hi with hdown | hconnecting
      · cases hphase.symm.trans hdown
      · cases hphase.symm.trans hconnecting
  | procInQ i now =>
      obtain ⟨p, hp, _, hqueue⟩ := hbusy
      exact absurd (h.inQueue p (List.mem_of_getElem? hp)) hqueue
  | procAdjRibIn => simp only [step, h.adjRibInQ]
  | procAdjRibWdraw =>
      rcases h.adjRibInWdrawQ with hnone | ⟨r, rest, hqueue, hfault⟩
      · simp only [step, hnone]
      · simp only [step, hqueue, Bgp.procAdjRibWdrawItem]
        cases hb : s.bgp.withdraw r with
        | error e => rfl
        | ok b => exact absurd ⟨b, hb⟩ hfault

/-- A state in which nothing can be done is settled: a queue of messages does not outlive its session. -/
theorem stuck_iff (hfresh : s.Fresh) : (∀ a, s.Busy a → s.step a = none) ↔ s.Settled := by
  constructor
  · intro hstuck
    refine ⟨?_, ?_, ?_, ?_⟩
    · intro i hi
      exact phase_of_stuck hstuck (List.getElem?_eq_getElem hi)
    · intro p hp
      obtain ⟨i, hi⟩ := List.mem_iff_getElem?.mp hp
      exact (hfresh i p hi).2 (phase_of_stuck hstuck hi)
    · have hnone := hstuck .procAdjRibIn trivial
      simp only [step] at hnone
      split at hnone
      · assumption
      · cases hnone
    · have hnone := hstuck .procAdjRibWdraw trivial
      simp only [step] at hnone
      split at hnone
      · exact Or.inl (by assumption)
      · rename_i r rest hqueue
        refine Or.inr ⟨r, rest, hqueue, ?_⟩
        rintro ⟨b, hb⟩
        simp only [Bgp.procAdjRibWdrawItem, hb] at hnone
        cases hnone
  · intro h a hbusy
    exact h.stuck hbusy

end Daemon

/-! ## Results -/

/-- When no message comes in and no connection is made, the daemon comes to rest, in whatever order it takes its atomic
steps. It rests where no thread has a session, no message or announced route is queued, and no withdrawn one but for a
fault. -/
theorem quiet_settles {s : Daemon} (h : Daemon.Reachable (fun _ _ => True) s) :
    Acc (fun s' s : Daemon => ∃ a, s.Busy a ∧ s.step a = some s') s ∧
      ((∀ a, s.Busy a → s.step a = none) ↔ s.Settled) := by
  have hends : WellFounded fun s' s : Daemon => ∃ a, s.Busy a ∧ s.step a = some s' :=
    wellFounded_of_less fun _ _ _ => Daemon.busy_less
  have hfresh : s.Fresh :=
    Reaches.invariant (fun _ hs => hs.fresh) (fun _ _ _ hs _ hstep => hs.step (Daemon.step_cases hstep)) h
  exact ⟨hends.apply s, Daemon.stuck_iff hfresh⟩

/-- With an UPDATE in a queue the daemon is not at rest, and will be. -/
theorem quiet_settles_queued : ∃ s : Daemon, s.inQueueOf 0 ≠ [] ∧ (∃ a, s.Busy a ∧ s.step a ≠ none) ∧
    Acc (fun s' s : Daemon => ∃ a, s.Busy a ∧ s.step a = some s') s := by
  have hview : (runAll Daemon.step (Example.comesUp 0 1 ++ [.thread 0 (.receive 1 .update Example.announce10.encode [])])
      Example.daemon).map (fun s => (s.inQueueOf 0).length) = some 1 := by
    decide +kernel
  obtain ⟨s, hs, hlength⟩ := Option.map_eq_some_iff.mp hview
  have hreach : Daemon.Reachable (fun _ _ => True) s :=
    Reaches.runAll (.init Example.daemon_start) (by decide +kernel) hs
  have hqueued : s.inQueueOf 0 ≠ [] := by
    intro hnil
    simp [hnil] at hlength
  obtain ⟨hends, hiff⟩ := quiet_settles hreach
  refine ⟨s, hqueued, ?_, hends⟩
  by_contra hnone
  have hsettled : s.Settled := hiff.mp fun a hbusy => by_contra fun hstep => hnone ⟨a, hbusy, hstep⟩
  unfold Daemon.inQueueOf at hqueued
  split at hqueued
  · exact hqueued rfl
  · rename_i p hp
    exact hqueued (hsettled.inQueue p (List.mem_of_getElem? hp))

end Log2Bgp
