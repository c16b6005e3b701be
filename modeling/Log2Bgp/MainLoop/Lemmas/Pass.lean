import Log2Bgp.MainLoop.Lemmas.Arrivals
import Log2Bgp.Rib.Lemmas.Changes

/-!
# A pass of the main loop
-/

namespace Log2Bgp

open Lib

/-- What a pass finds at a peer: a queue of messages of the right kind, and, if the peer is
established, a hold timer that has not run out. -/
structure Expected (now : TimeT) (p : BgpPeer) (ms : List Received) : Prop where
  queue : p.inQueue = ms.map fun m => m.1.queued m.2
  handled : ∀ m ∈ ms, m.1.Handled
  inTime : p.state = .established → p.InTime now
  silent : p.state ≠ .established → ms = []

namespace Bgp

variable {b b' : Bgp} {now : TimeT} {i : Nat} {p : BgpPeer} {ms : List Received}

/-! ## The queues of the peers -/

theorem procInQ_eq (hp : b.threadQ[i]? = some p) (h : Expected now p ms) :
    ∃ p', b.procInQ now i = .ok { b with
        threadQ := b.threadQ.set i p'
        queues := { adjRibInQ := b.queues.adjRibInQ ++ announcedAll now p.bgpId ms
                    adjRibInWdrawQ := b.queues.adjRibInWdrawQ ++ withdrawalsAll now p.bgpId ms } } ∧
      p'.bgpId = p.bgpId ∧ p'.state = p.state ∧ p'.inQueue = [] := by
  by_cases hstate : p.state = .established
  · have hin := h.inTime hstate
    obtain ⟨_, hsame, hup⟩ := hin.same
    refine ⟨p.drained now, ?_, hsame.bgpId, hup.trans hstate.symm, rfl⟩
    simp only [procInQ, hp, procInQ_handled hin ms h.queue h.handled, Checked.ok_bind,
      Checked.pure_eq_ok]
  · have hnone := h.silent hstate
    subst hnone
    have hexpired : holdTimerExpired p now = (true, p) := if_pos hstate
    refine ⟨p, ?_, rfl, rfl, h.queue⟩
    simp [procInQ, hp, Log2Bgp.procInQ, hexpired, announcedAll, withdrawalsAll]

/-- The queues of some of the peers have been processed. -/
structure Collected (now : TimeT) (ms : Nat → List Received) (is : List Nat) (b b' : Bgp) : Prop where
  rib : b'.adjRibIn = b.adjRibIn
  sessions : b'.sessions = b.sessions
  announced : b'.queues.adjRibInQ =
    b.queues.adjRibInQ ++ is.flatMap fun i => announcedAll now (b.idOf i) (ms i)
  withdrawn : b'.queues.adjRibInWdrawQ =
    b.queues.adjRibInWdrawQ ++ is.flatMap fun i => withdrawalsAll now (b.idOf i) (ms i)
  empty : ∀ i ∈ is, ∀ p, b'.threadQ[i]? = some p → p.inQueue = []
  others : ∀ i, i ∉ is → b'.threadQ[i]? = b.threadQ[i]?

theorem procInQs_eq (now : TimeT) (ms : Nat → List Received) (is : List Nat) (b : Bgp) (hnodup : is.Nodup)
    (h : ∀ i ∈ is, ∃ p, b.threadQ[i]? = some p ∧ Expected now p (ms i)) :
    ∃ b', procInQs now is b = .ok b' ∧ Collected now ms is b b' := by
  induction is generalizing b with
  | nil =>
      refine ⟨b, rfl, rfl, rfl, ?_, ?_, ?_, fun _ _ => rfl⟩
      · exact (List.append_nil _).symm
      · exact (List.append_nil _).symm
      · intro i hi
        cases hi
  | cons i is ih =>
      obtain ⟨hi, hrest⟩ := List.nodup_cons.mp hnodup
      obtain ⟨p, hp, hexpected⟩ := h i List.mem_cons_self
      obtain ⟨p', hb₁, hid, hstate, hempty⟩ := procInQ_eq hp hexpected
      generalize hq : ({ adjRibInQ := _, adjRibInWdrawQ := _ } : RibQueues) = q at hb₁
      let b₁ : Bgp := { b with threadQ := b.threadQ.set i p', queues := q }
      have hsessions : b₁.sessions = b.sessions := sessions_set hp hid hstate q
      have hidOf : b₁.idOf = b.idOf := funext (idOf_of_sessions hsessions)
      have hother : ∀ j, j ≠ i → (b.threadQ.set i p')[j]? = b.threadQ[j]? := fun j hj =>
        List.getElem?_set_ne (Ne.symm hj)
      have hexpected' : ∀ j ∈ is, ∃ q, (b.threadQ.set i p')[j]? = some q ∧ Expected now q (ms j) := by
        intro j hj
        have hji : j ≠ i := fun h => hi (h ▸ hj)
        rw [hother j hji]
        exact h j (List.mem_cons_of_mem i hj)
      obtain ⟨b', hb', hcollected⟩ := ih b₁ hrest hexpected'
      have hannounced := hcollected.announced
      have hwithdrawn := hcollected.withdrawn
      rw [hidOf] at hannounced hwithdrawn
      simp only [b₁, ← hq, ← idOf_eq hp, List.append_assoc] at hannounced hwithdrawn
      refine ⟨b', ?_, hcollected.rib, hcollected.sessions.trans hsessions, ?_, ?_, ?_, ?_⟩
      · simp only [procInQs, hb₁, Checked.ok_bind]
        exact hb'
      · rw [List.flatMap_cons]
        exact hannounced
      · rw [List.flatMap_cons]
        exact hwithdrawn
      · intro j hj r hr
        rcases List.mem_cons.mp hj with rfl | hmem
        · rw [hcollected.others j hi, List.getElem?_set] at hr
          simp only [↓reduceIte] at hr
          split at hr
          · cases hr
            exact hempty
          · cases hr
        · exact hcollected.empty j hmem r hr
      · intro j hj
        obtain ⟨hji, hjs⟩ := List.ne_and_not_mem_of_not_mem_cons hj
        rw [hcollected.others j hjs]
        exact hother j hji

/-! ## The queues of the instance -/

/-- Counters apart, peers stay as they are while the queues are drained. -/
structure Drained (ops : List (MapOp PrefixEntry Route)) (b b' : Bgp) : Prop where
  rib : b'.adjRibIn = applyOps ops b.adjRibIn
  peers : b'.threadQ.map BgpPeer.uncounted = b.threadQ.map BgpPeer.uncounted

theorem Drained.ids {ops : List (MapOp PrefixEntry Route)} (h : Drained ops b b') : b'.ids = b.ids := by
  have hids := congrArg (List.map BgpPeer.bgpId) h.peers
  rwa [List.map_map, List.map_map] at hids

theorem procAdjRibIn_go (rs : List Route) (b : Bgp) (hknown : ∀ r ∈ rs, b.Knows r.bgpId) :
    Drained (rs.map fun r => .put r.entry r) b (procAdjRibInQueue.go rs b) ∧
      (procAdjRibInQueue.go rs b).queues.adjRibInWdrawQ = b.queues.adjRibInWdrawQ ∧
      (b.queues.adjRibInQ = rs → (procAdjRibInQueue.go rs b).queues.adjRibInQ = []) := by
  induction rs generalizing b with
  | nil => exact ⟨⟨rfl, rfl⟩, rfl, id⟩
  | cons r rest ih =>
      have hsame := peerEntry_same b r
      have hput := peerEntry_put (hknown r List.mem_cons_self)
      have hids : (b.procAdjRibInItem r rest).ids = b.ids := hsame.ids
      have hrest : ∀ r' ∈ rest, (b.procAdjRibInItem r rest).Knows r'.bgpId := by
        intro r' hr'
        rw [Knows, hids]
        exact hknown r' (List.mem_cons_of_mem r hr')
      obtain ⟨hdrained, hwdraw, hqueue⟩ := ih (b.procAdjRibInItem r rest) hrest
      refine ⟨⟨?_, hdrained.peers.trans hsame.peers⟩, ?_, fun _ => hqueue rfl⟩
      · rw [List.map_cons]
        exact hdrained.rib.trans (congrArg (applyOps _) hput)
      · have hkept : (b.peerEntry r).queues.adjRibInWdrawQ = b.queues.adjRibInWdrawQ := by
          rw [hsame.queues]
        exact hwdraw.trans hkept

theorem procAdjRibWdraw_go (rs : List Route) (b : Bgp) (hknown : ∀ r ∈ rs, b.Knows r.bgpId) :
    ∃ b', procAdjRibWdrawQueue.go rs b = .ok b' ∧
      Drained (rs.map fun r => .del r.entry) b b' ∧
      b'.queues.adjRibInQ = b.queues.adjRibInQ ∧
      (b.queues.adjRibInWdrawQ = rs → b'.queues.adjRibInWdrawQ = []) := by
  induction rs generalizing b with
  | nil => exact ⟨b, rfl, ⟨rfl, rfl⟩, rfl, id⟩
  | cons r rest ih =>
      have hsafe : ∃ b₁, b.withdraw r = .ok b₁ := withdraw_safe (hknown r List.mem_cons_self)
      obtain ⟨b₁, hb₁⟩ := hsafe
      have hsame := withdraw_same hb₁
      have hdel := withdraw_del hb₁
      let b₂ : Bgp := { b₁ with
        queues := { b₁.queues with adjRibInWdrawQ := rest }, tableVersion := b₁.tableVersion + 1 }
      have hitem : b.procAdjRibWdrawItem r rest = .ok b₂ := by
        rw [procAdjRibWdrawItem, hb₁]
        rfl
      have hids : b₂.ids = b.ids := hsame.ids
      have hrest : ∀ r' ∈ rest, b₂.Knows r'.bgpId := by
        intro r' hr'
        rw [Knows, hids]
        exact hknown r' (List.mem_cons_of_mem r hr')
      obtain ⟨b', hb', hdrained, hin, hqueue⟩ := ih b₂ hrest
      refine ⟨b', ?_, ⟨?_, hdrained.peers.trans hsame.peers⟩, ?_, fun _ => hqueue rfl⟩
      · simp only [procAdjRibWdrawQueue.go, hitem, Checked.ok_bind]
        exact hb'
      · rw [List.map_cons]
        exact hdrained.rib.trans (congrArg (applyOps _) hdel)
      · have hkept : b₁.queues.adjRibInQ = b.queues.adjRibInQ := by
          rw [hsame.queues]
        exact hin.trans hkept

theorem procAdjRibInQueue_eq (b : Bgp) (hknown : ∀ r ∈ b.queues.adjRibInQ, b.Knows r.bgpId) :
    Drained (b.queues.adjRibInQ.map fun r => .put r.entry r) b b.procAdjRibInQueue ∧
      b.procAdjRibInQueue.queues = { b.queues with adjRibInQ := [] } := by
  obtain ⟨hdrained, hkept, hempty⟩ := procAdjRibIn_go b.queues.adjRibInQ b hknown
  exact ⟨hdrained, RibQueues.ext (hempty rfl) hkept⟩

theorem procAdjRibWdrawQueue_eq (b : Bgp) (hknown : ∀ r ∈ b.queues.adjRibInWdrawQ, b.Knows r.bgpId) :
    ∃ b', b.procAdjRibWdrawQueue = .ok b' ∧
      Drained (b.queues.adjRibInWdrawQ.map fun r => .del r.entry) b b' ∧
      b'.queues = { b.queues with adjRibInWdrawQ := [] } := by
  obtain ⟨b', hb', hdrained, hkept, hempty⟩ := procAdjRibWdraw_go b.queues.adjRibInWdrawQ b hknown
  exact ⟨b', hb', hdrained, RibQueues.ext hkept (hempty rfl)⟩

end Bgp

end Log2Bgp
