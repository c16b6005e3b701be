import Log2Bgp.Daemon.Lemmas.Steps

/-!
# Messages and the state they were received in

Messages are queued in every state, and only `proc_in_q` looks at the state.
-/

namespace Log2Bgp

open Lib

/-- A route waits in one of the two queues. -/
def RibQueues.Has (q : RibQueues) (r : Route) : Prop := r ∈ q.adjRibInQ ∨ r ∈ q.adjRibInWdrawQ

theorem NlriContext.has_pushAll {c : NlriContext} {rs : List Route} {q : RibQueues} {r : Route} :
    (c.pushAll rs q).Has r ↔ q.Has r ∨ r ∈ rs := by
  obtain ⟨flag, now, bgpId, receipt⟩ := c
  unfold RibQueues.Has
  cases flag with
  | update =>
      simp only [pushAll, List.mem_append]
      tauto
  | withdraw =>
      simp only [pushAll, List.mem_append]
      tauto

/-- What the processing of messages adds to the queues: a route for each message that speaks, and none
that does not come from such a message. -/
structure Sourced (ds : List QueueData) (q q' : RibQueues) : Prop where
  kept : ∀ r, q.Has r → q'.Has r
  put : ∀ d ∈ ds, d.Speaks → ∃ r, q'.Has r ∧ r.receipt = d.receipt
  new : ∀ r, q'.Has r → q.Has r ∨ ∃ d ∈ ds, d.Speaks ∧ r.receipt = d.receipt

theorem procMessages_sources {now : TimeT} {bgpId : UInt32} (ds : List QueueData) {q q' : RibQueues}
    (h : procMessages now bgpId ds q = .ok q') : Sourced ds q q' := by
  induction ds generalizing q with
  | nil =>
      cases h
      refine ⟨fun _ hr => hr, ?_, fun _ hr => Or.inl hr⟩
      intro d hd
      cases hd
  | cons d ds ih =>
      simp only [procMessages, Checked.bind_eq_ok] at h
      obtain ⟨q₁, h₁, h₂⟩ := h
      obtain ⟨flag, rs, rfl, htags, hspeaks, _⟩ := procMessage_cases h₁
      have hrest := ih h₂
      refine ⟨fun r hr => hrest.kept r (NlriContext.has_pushAll.mpr (Or.inl hr)), ?_, ?_⟩
      · intro d' hd' hspeaks'
        rcases List.mem_cons.mp hd' with rfl | hd'
        · obtain ⟨r, hr⟩ := List.exists_mem_of_ne_nil rs (hspeaks.mpr hspeaks')
          exact ⟨r, hrest.kept r (NlriContext.has_pushAll.mpr (Or.inr hr)), (htags r hr).2⟩
        · exact hrest.put d' hd' hspeaks'
      · intro r hr
        rcases hrest.new r hr with hold | ⟨d', hd', hspeaks', hreceipt⟩
        · rcases NlriContext.has_pushAll.mp hold with hold | hrs
          · exact Or.inl hold
          · exact Or.inr ⟨d, List.mem_cons_self, hspeaks.mp (List.ne_nil_of_mem hrs), (htags r hrs).2⟩
        · exact Or.inr ⟨d', List.mem_cons_of_mem d hd', hspeaks', hreceipt⟩

/-- `proc_in_q` leaves the queues alone, or processes the whole queue of a peer that is up. -/
theorem procInQ_sources {now : TimeT} {p p' : BgpPeer} {q q' : RibQueues}
    (h : procInQ now p q = .ok (p', q')) :
    (¬ p.InTime now ∧ q' = q) ∨ (p.InTime now ∧ Sourced p.inQueue q q') := by
  obtain ⟨hsame, _, hup⟩ := holdTimerExpired_cases p now
  unfold procInQ at h
  cases hexpired : (holdTimerExpired p now).1 with
  | true =>
      simp only [hexpired, ↓reduceIte] at h
      cases h
      refine Or.inl ⟨?_, rfl⟩
      intro hin
      rw [hin.same.1] at hexpired
      cases hexpired
  | false =>
      simp only [hexpired, Bool.false_eq_true, ↓reduceIte, Checked.bind_eq_ok, Checked.pure_eq_ok] at h
      obtain ⟨q₁, hq₁, h⟩ := h
      cases h
      rw [hsame.inQueue] at hq₁
      exact Or.inr ⟨hup hexpired, procMessages_sources p.inQueue hq₁⟩

namespace Daemon

/-- Where `proc_in_q` processes a queue, each message in it that was received in another state than
Established neither announces nor withdraws anything. -/
def Gated (s : Daemon) : DaemonAction → Prop
  | .procInQ i now => ∀ p ∈ s.bgp.threadQ[i]?, p.InTime now →
      ∀ d ∈ p.inQueue, d.receipt.state ≠ .established → ¬ d.Speaks
  | _ => True

instance (s : Daemon) : DecidablePred s.Gated := by
  intro a
  refine DaemonAction.casesOn a (fun _ _ => isTrue trivial) (fun _ => isTrue trivial) ?_ (isTrue trivial)
    (isTrue trivial)
  intro i now
  exact inferInstanceAs (Decidable (∀ p ∈ s.bgp.threadQ[i]?, _ → _))

/-- All routes, in the RIB and in the queues, come from messages received while Established. -/
def OnlyEstablished (s : Daemon) : Prop := ∀ r, s.Holds r → r.receipt.state = .established

variable {s s' : Daemon} {a : DaemonAction}

theorem OnlyEstablished.moves (h : s.OnlyEstablished) {b : Bgp} (hmoves : s.Moves b)
    (threads : Nat → PeerThread) : OnlyEstablished { bgp := b, threads := threads } :=
  fun r hr => h r (hmoves.holds hr)

theorem OnlyEstablished.step_iff (h : s.OnlyEstablished) (hs : s.Step a s') :
    s'.OnlyEstablished ↔ s.Gated a := by
  cases hs with
  | thread _ _ => exact iff_of_true (fun r hr => h r (holds_of_eq hr rfl rfl)) trivial
  | @flushed i _ k _ _ _ _ => exact iff_of_true (h.moves (moves_flushed s i k) s.threads) trivial
  | flushEnd _ _ => exact iff_of_true (h.moves (Moves.refl s) _) trivial
  | @noPeer i now hnone =>
      refine iff_of_true h ?_
      intro p hp
      rw [hnone] at hp
      cases hp
  | @processed i now p p' q' hp hproc =>
      rcases procInQ_sources hproc with ⟨hlate, rfl⟩ | ⟨hin, hsourced⟩
      · refine iff_of_true (fun r hr => h r (holds_of_eq hr rfl rfl)) ?_
        intro q hq hin
        rw [hp] at hq
        cases hq
        exact absurd hin hlate
      · constructor
        · intro hall q hq _ d hd hstate hspeaks
          rw [hp] at hq
          cases hq
          obtain ⟨r, hr, hreceipt⟩ := hsourced.put d hd hspeaks
          exact hstate (hreceipt ▸ hall r (holds_iff.mpr (Or.inr hr)))
        · intro hgated r hr
          rcases holds_iff.mp hr with ⟨k, hk⟩ | hqueued
          · exact h r (.rib k hk)
          · rcases hsourced.new r hqueued with hold | ⟨d, hd, hspeaks, hreceipt⟩
            · exact h r (holds_iff.mpr (Or.inr hold))
            · by_contra hstate
              exact hgated p hp hin d hd (hreceipt ▸ hstate) hspeaks
  | entered hqueue => exact iff_of_true (h.moves (moves_entered hqueue) s.threads) trivial
  | withdrawn hqueue hb => exact iff_of_true (h.moves (moves_withdrawn hqueue hb) s.threads) trivial

end Daemon

end Log2Bgp
