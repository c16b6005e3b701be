import Log2Bgp.Daemon.Lemmas.Steps

/-!
# What is left of a session after its cleanup
-/

namespace Log2Bgp

open Lib

namespace Daemon

/-- The flush of the last session is over, and no UPDATE has come since. -/
def Flushed (s : Daemon) (i : Nat) : Prop :=
  (s.threads i).phase = .closing ∨ (s.threads i).phase = .emptying ∨ (s.threads i).clean = true

/-- A cleanup that leaves nothing behind: when the flush ends, no route of the peer is in the RIB
under another identifier, and none is still to be put there; and until the queue of the peer is emptied,
`proc_in_q` finds no announcement in it. -/
def Tidy (s : Daemon) : DaemonAction → Prop
  | .flush i => ∀ p ∈ s.bgp.threadQ[i]?, (∀ r ∈ s.bgp.routes, r.bgpId ≠ p.bgpId) →
      (∀ r ∈ s.bgp.routes, r.receipt.peer ≠ i) ∧ ∀ r ∈ s.bgp.queues.adjRibInQ, r.receipt.peer ≠ i
  | .procInQ i now => (s.threads i).phase = .closing ∨ (s.threads i).phase = .emptying →
      ∀ p ∈ s.bgp.threadQ[i]?, p.InTime now → ∀ d ∈ p.inQueue, ¬ d.Announces
  | _ => True

instance (s : Daemon) : DecidablePred s.Tidy := by
  intro a
  cases a with
  | flush i => exact inferInstanceAs (Decidable (∀ p ∈ s.bgp.threadQ[i]?, _))
  | procInQ i now => exact inferInstanceAs (Decidable (_ ∨ _ → _))
  | _ => exact isTrue trivial

/-- What tidy cleanups keep: nothing of a flushed session is left. -/
structure Cleaned (s : Daemon) : Prop where
  receipts : s.Receipts
  emptied : ∀ (i : Nat) (p : BgpPeer), s.bgp.threadQ[i]? = some p → (s.threads i).clean = true → p.inQueue = []
  queue : ∀ i, s.Flushed i → ∀ r ∈ s.bgp.queues.adjRibInQ, r.receipt.peer ≠ i
  rib : ∀ i, s.Flushed i → ∀ (k : PrefixEntry) (r : Route), s.bgp.adjRibIn[k]? = some r → r.receipt.peer ≠ i

variable {s s' : Daemon} {a : DaemonAction}

theorem Start.cleaned (h : s.Start) : s.Cleaned := by
  have hreceipts := h.receipts
  obtain ⟨hrib, hqueues, _, hpeers⟩ := h
  refine ⟨hreceipts, ?_, ?_, ?_⟩
  · intro i p hp _
    exact (hpeers p (List.mem_of_getElem? hp)).2.2
  · intro i _ r hr
    rw [hqueues] at hr
    cases hr
  · intro i _ k r hr
    rw [hrib, Std.ExtTreeMap.getElem?_empty] at hr
    cases hr

theorem Cleaned.moves (h : s.Cleaned) {b : Bgp} (hmoves : s.Moves b) : Cleaned { s with bgp := b } := by
  refine ⟨h.receipts.same hmoves.peers s.threads, ?_, ?_, ?_⟩
  · intro i p hp hclean
    obtain ⟨q, hq, huncounted⟩ := hmoves.peers i p hp
    have hinQueue : p.uncounted.inQueue = q.uncounted.inQueue := by
      rw [huncounted]
    exact hinQueue.trans (h.emptied i q hq hclean)
  · intro i hi r hr
    exact h.queue i hi r (hmoves.adjRibInQ r hr)
  · intro i hi k r hr
    rcases hmoves.rib k r hr with hold | ⟨_, hqueued⟩
    · exact h.rib i hi k r hold
    · exact h.queue i hi r hqueued

theorem flushed_setThread {i j : Nat} {t : PeerThread} {b : Bgp}
    (h : Flushed { bgp := b, threads := s.setThread i t } j) :
    (j = i ∧ (t.phase = .closing ∨ t.phase = .emptying ∨ t.clean = true)) ∨ (j ≠ i ∧ s.Flushed j) := by
  unfold Flushed setThread at h
  by_cases hj : j = i
  · simp only [if_pos hj] at h
    exact Or.inl ⟨hj, h⟩
  · simp only [if_neg hj] at h
    exact Or.inr ⟨hj, h⟩

theorem flushed_of_thread {i j : Nat} {p p' : BgpPeer} {t' : PeerThread} {b : Bgp}
    (hqueue : QueueStep i p p' (s.threads i) t')
    (h : Flushed { bgp := b, threads := s.setThread i t' } j) : s.Flushed j := by
  rcases flushed_setThread h with ⟨rfl, hflushed⟩ | ⟨_, hflushed⟩
  · cases hqueue with
    | kept _ hclean hemptying hclosing =>
        rcases hflushed with hphase | hphase | hc
        · exact absurd hphase hclosing
        · exact Or.inl (hemptying hphase)
        · exact Or.inr (Or.inr (hclean.symm.trans hc))
    | received d _ _ hclean hphase =>
        rw [hclean, hphase] at hflushed
        rcases hflushed with h | h | h
        · cases h
        · cases h
        · cases h
    | emptied hphase _ _ => exact Or.inr (Or.inl hphase)
  · exact hflushed

theorem Cleaned.thread (h : s.Cleaned) {i : Nat} {p p' : BgpPeer} {t' : PeerThread}
    (hp : s.bgp.threadQ[i]? = some p) (hqueue : QueueStep i p p' (s.threads i) t')
    (hreceipts : Receipts
      { bgp := { s.bgp with threadQ := s.bgp.threadQ.set i p' }, threads := s.setThread i t' }) :
    Cleaned { bgp := { s.bgp with threadQ := s.bgp.threadQ.set i p' }, threads := s.setThread i t' } := by
  refine ⟨hreceipts, ?_, fun j hj => h.queue j (flushed_of_thread hqueue hj),
    fun j hj => h.rib j (flushed_of_thread hqueue hj)⟩
  intro j q hq hclean
  rcases getElem?_set_cases hq with ⟨rfl, rfl⟩ | ⟨hj, hold⟩
  · have hclean' : (s.setThread j t' j).clean = true := hclean
    rw [setThread_self] at hclean'
    cases hqueue with
    | kept hkept hsame _ _ => exact hkept.trans (h.emptied j p hp (hsame.symm.trans hclean'))
    | received d _ _ hnot _ =>
        rw [hnot] at hclean'
        cases hclean'
    | emptied _ hempty _ => exact hempty
  · have hclean' : (s.setThread i t' j).clean = true := hclean
    rw [setThread_ne s t' hj] at hclean'
    exact h.emptied j q hold hclean'

theorem Cleaned.flushEnd (h : s.Cleaned) {i : Nat} {p : BgpPeer} (htidy : s.Tidy (.flush i))
    (hp : s.bgp.threadQ[i]? = some p)
    (hnone : ∀ (k : PrefixEntry) (old : Route), s.bgp.adjRibIn[k]? = some old → old.bgpId ≠ p.bgpId) :
    Cleaned { s with threads := s.setThread i { s.threads i with phase := .closing } } := by
  obtain ⟨hrib, hqueue⟩ := htidy p hp (by
    intro r hr
    obtain ⟨k, hk⟩ := Bgp.mem_routes.mp hr
    exact hnone k r hk)
  refine ⟨h.receipts, ?_, ?_, ?_⟩
  · intro j q hq hclean
    have hclean' : (s.setThread i { s.threads i with phase := .closing } j).clean = true := hclean
    by_cases hj : j = i
    · subst hj
      rw [setThread_self] at hclean'
      exact h.emptied j q hq hclean'
    · rw [setThread_ne s _ hj] at hclean'
      exact h.emptied j q hq hclean'
  · intro j hj r hr
    rcases flushed_setThread hj with ⟨rfl, _⟩ | ⟨_, hflushed⟩
    · exact hqueue r hr
    · exact h.queue j hflushed r hr
  · intro j hj k r hr
    rcases flushed_setThread hj with ⟨rfl, _⟩ | ⟨_, hflushed⟩
    · exact hrib r (Bgp.mem_routes.mpr ⟨k, hr⟩)
    · exact h.rib j hflushed k r hr

theorem Cleaned.processed (h : s.Cleaned) {i : Nat} {now : TimeT} {p p' : BgpPeer} {q' : RibQueues}
    (htidy : s.Tidy (.procInQ i now)) (hp : s.bgp.threadQ[i]? = some p)
    (hproc : Log2Bgp.procInQ now p s.bgp.queues = .ok (p', q'))
    (hreceipts : Receipts
      { s with bgp := { s.bgp with threadQ := s.bgp.threadQ.set i p', queues := q' } }) :
    Cleaned { s with bgp := { s.bgp with threadQ := s.bgp.threadQ.set i p', queues := q' } } := by
  obtain ⟨_, hcases⟩ := procInQ_cases hproc
  refine ⟨hreceipts, ?_, ?_, h.rib⟩
  · intro j q hq hclean
    rcases getElem?_set_cases hq with ⟨rfl, rfl⟩ | ⟨_, hold⟩
    · rcases hcases with ⟨_, hkept⟩ | ⟨_, hempty, _⟩
      · exact hkept.trans (h.emptied j p hp hclean)
      · exact hempty
    · exact h.emptied j q hold hclean
  · intro j hj r hr
    rcases hcases with ⟨rfl, _⟩ | ⟨hin, _, ins, dels, happended⟩
    · exact h.queue j hj r hr
    · rw [happended.adjRibInQ] at hr
      rcases List.mem_append.mp hr with hold | hnew
      · exact h.queue j hj r hold
      · obtain ⟨_, d, hd, hreceipt⟩ := happended.tags r (List.mem_append_left dels hnew)
        have hpeer : r.receipt.peer = i := by
          rw [hreceipt]
          exact h.receipts i p hp d hd
        rw [hpeer]
        rintro rfl
        -- the peer itself is past its flush: its queue is empty, or holds no announcement
        rcases hj with hphase | hphase | hclean
        · rw [happended.silent (htidy (Or.inl hphase) p hp hin)] at hnew
          cases hnew
        · rw [happended.silent (htidy (Or.inr hphase) p hp hin)] at hnew
          cases hnew
        · rw [h.emptied i p hp hclean] at hd
          cases hd

theorem Cleaned.step (h : s.Cleaned) (htidy : s.Tidy a) (hs : s.Step a s') : s'.Cleaned := by
  have hreceipts := h.receipts.step hs
  cases hs with
  | thread hp hstep => exact h.thread hp (threadStep_cases hstep).2.2 hreceipts
  | @flushed i _ k _ _ _ _ => exact h.moves (moves_flushed s i k)
  | flushEnd hp hnone => exact h.flushEnd htidy hp hnone
  | noPeer _ => exact h
  | processed hp hproc => exact h.processed htidy hp hproc hreceipts
  | entered hqueue => exact h.moves (moves_entered hqueue)
  | withdrawn hqueue hb => exact h.moves (moves_withdrawn hqueue hb)

end Daemon

end Log2Bgp
