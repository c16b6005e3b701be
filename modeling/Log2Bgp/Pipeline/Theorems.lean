import Log2Bgp.Daemon.Theorems
import Log2Bgp.Pipeline.Run

/-!
# No UPDATE is lost or handled twice
-/

namespace Log2Bgp

open Lib

/-! ## Parsing only appends -/

/-- The routes of the second behind those of the first. -/
def RibQueues.append (q r : RibQueues) : RibQueues :=
  ⟨q.adjRibInQ ++ r.adjRibInQ, q.adjRibInWdrawQ ++ r.adjRibInWdrawQ⟩

namespace RibQueues

@[simp] theorem append_empty (q : RibQueues) : q.append {} = q := by simp [append]

theorem map_append_append (q r : RibQueues) (x : Checked RibQueues) :
    (q.append r).append <$> x = q.append <$> r.append <$> x := by
  cases x with
  | error e => rfl
  | ok t => simp [append]

end RibQueues

theorem NlriContext.push_append (c : NlriContext) (update : BgpUpdate) (q : RibQueues) :
    c.push update q = q.append (c.push update {}) := by
  obtain ⟨flag, _, _, _⟩ := c
  cases flag <;> simp [push, RibQueues.append, RibQueues.pushAdjRibInQ, RibQueues.pushAdjRibInWdrawQ]

theorem parseNlri_append_empty (c : NlriContext) (packet : List UInt8) (fuel : Nat) (update : BgpUpdate) (offset : Nat)
    (q : RibQueues) :
    parseNlri c update packet fuel offset q = q.append <$> parseNlri c update packet fuel offset {} := by
  induction fuel generalizing update offset q with
  | zero => rfl
  | succ fuel ih =>
      simp only [parseNlri]
      cases readByte packet offset with
      | error e => rfl
      | ok length =>
          simp only [Checked.ok_bind]
          split
          · simp
          · cases copyBytes packet (offset + 1) (byteLength length) 4 with
            | error e => rfl
            | ok bytes =>
                simp only [Checked.ok_bind]
                cases getIpv4HighRange (overlay 0 bytes) length with
                | error e => rfl
                | ok highest =>
                    simp only [Checked.ok_bind]
                    rw [ih _ _ (c.push _ q), ih _ _ (c.push _ {}), c.push_append _ q, RibQueues.map_append_append]

theorem procMessage_append_empty (now : TimeT) (bgpId : UInt32) (data : QueueData) (q : RibQueues) :
    procMessage now bgpId data q = q.append <$> procMessage now bgpId data {} := by
  unfold procMessage
  simp only
  cases readByte (data.packet ++ List.replicate 5 0) 0 with
  | error e => rfl
  | ok unfeasableHigh =>
      cases readByte (data.packet ++ List.replicate 5 0) 1 with
      | error e => rfl
      | ok unfeasableLow =>
          simp only [Checked.ok_bind]
          split
          · exact parseNlri_append_empty ..
          · cases readByte (data.packet ++ List.replicate 5 0) 2 with
            | error e => rfl
            | ok lenHigh =>
                cases readByte (data.packet ++ List.replicate 5 0) 3 with
                | error e => rfl
                | ok lenLow =>
                    simp only [Checked.ok_bind]
                    cases attribLoop (data.packet ++ List.replicate 5 0) (be16 lenHigh lenLow)
                        ((data.packet ++ List.replicate 5 0).length + 1) { update := {}, i := 3, readLen := 0 } with
                    | error e => rfl
                    | ok w =>
                        simp only [Checked.ok_bind]
                        exact parseNlri_append_empty ..

theorem procMessage_routesOf {now : TimeT} {bgpId : UInt32} {data : QueueData} {q q' : RibQueues}
    (h : procMessage now bgpId data q = .ok q') : q' = q.append (routesOf now bgpId data) := by
  rw [procMessage_append_empty] at h
  cases hroutes : procMessage now bgpId data {} with
  | error e =>
      rw [hroutes] at h
      cases h
  | ok r =>
      rw [hroutes] at h
      cases h
      simp [routesOf, hroutes, Except.toOption]

theorem procMessages_routesOf {now : TimeT} {bgpId : UInt32} {ds : List QueueData} {q q' : RibQueues}
    (h : procMessages now bgpId ds q = .ok q') :
    q'.adjRibInQ = q.adjRibInQ ++ ds.flatMap (fun d => (routesOf now bgpId d).adjRibInQ) ∧
      q'.adjRibInWdrawQ = q.adjRibInWdrawQ ++ ds.flatMap fun d => (routesOf now bgpId d).adjRibInWdrawQ := by
  induction ds generalizing q with
  | nil =>
      cases h
      simp
  | cons d ds ih =>
      simp only [procMessages, Checked.bind_eq_ok] at h
      obtain ⟨q₁, h₁, h₂⟩ := h
      obtain ⟨hin, hout⟩ := ih h₂
      rw [procMessage_routesOf h₁] at hin hout
      simp [hin, hout, RibQueues.append]

/-- Nothing is handled when the hold timer has run out, and the whole queue otherwise. -/
theorem procInQ_handles {now : TimeT} {p p' : BgpPeer} {q q' : RibQueues} (h : procInQ now p q = .ok (p', q')) :
    ((holdTimerExpired p now).1 = true ∧ p'.inQueue = p.inQueue ∧ q' = q) ∨
      ((holdTimerExpired p now).1 = false ∧ p'.inQueue = [] ∧ procMessages now p.bgpId p.inQueue q = .ok q') := by
  obtain ⟨hsame, _, _⟩ := holdTimerExpired_cases p now
  unfold procInQ at h
  cases hexpired : (holdTimerExpired p now).1 with
  | true =>
      simp only [hexpired, ↓reduceIte] at h
      cases h
      exact Or.inl ⟨rfl, hsame.inQueue, rfl⟩
  | false =>
      simp only [hexpired, Bool.false_eq_true, ↓reduceIte, Checked.bind_eq_ok, Checked.pure_eq_ok] at h
      obtain ⟨q₁, hq₁, h⟩ := h
      cases h
      rw [hsame.bgpId, hsame.inQueue] at hq₁
      exact Or.inr ⟨rfl, rfl, hq₁⟩

namespace Daemon

variable {s s' : Daemon} {i j : Nat} {p p' : BgpPeer}

/-! ## The queue of a peer -/

theorem inQueueOf_eq (h : s.bgp.threadQ[i]? = some p) : s.inQueueOf i = p.inQueue := by simp [inQueueOf, h]

theorem inQueueOf_set (h : s.bgp.threadQ[j]? = some p) (q : RibQueues) (threads : Nat → PeerThread) :
    inQueueOf i { bgp := { s.bgp with threadQ := s.bgp.threadQ.set j p', queues := q }, threads := threads } =
      if j = i then p'.inQueue else s.inQueueOf i := by
  have hlt := (List.getElem?_eq_some_iff.mp h).1
  by_cases hij : j = i
  · subst hij
    simp [inQueueOf, hlt]
  · simp [inQueueOf, hij]

theorem inQueueOf_same {b : Bgp} (hpeers : b.threadQ.map BgpPeer.uncounted = s.bgp.threadQ.map BgpPeer.uncounted)
    (threads : Nat → PeerThread) : inQueueOf i { bgp := b, threads := threads } = s.inQueueOf i := by
  have hmap := congrArg (List.map BgpPeer.inQueue) hpeers
  have hget := congrArg (·[i]?) hmap
  simp only [List.map_map, List.getElem?_map] at hget
  unfold inQueueOf
  cases hp : b.threadQ[i]? <;> cases hq : s.bgp.threadQ[i]? <;> simp_all [BgpPeer.uncounted]

theorem flatMap_drop (ds : List QueueData) :
    (ds.map (PipeEvent.drop j)).flatMap (fun e => e.handled i ++ e.dropped i) = if j = i then ds else [] := by
  by_cases hij : j = i <;> simp [List.flatMap_map, PipeEvent.handled, PipeEvent.dropped, hij]

theorem flatMap_handle (now : TimeT) (bgpId : UInt32) (ds : List QueueData) :
    (ds.map (PipeEvent.handle j now bgpId)).flatMap (fun e => e.handled i ++ e.dropped i) = if j = i then ds else [] := by
  by_cases hij : j = i <;> simp [List.flatMap_map, PipeEvent.handled, PipeEvent.dropped, hij]

/-- A thread leaves the queue of its peer alone, puts one message into it, or throws away all of them. -/
inductive ThreadPipe (s : Daemon) (j : Nat) (p p' : BgpPeer) (a : ThreadAction) : Prop where
  | kept : s.pipeEvents (.thread j a) = [] → p'.inQueue = p.inQueue → ThreadPipe s j p p' a
  | received (d : QueueData) : d.receipt.peer = j → d.receipt.conn = (s.threads j).conn →
      (s.threads j).phase = .reading → s.pipeEvents (.thread j a) = [.receive j d] →
      p'.inQueue = p.inQueue ++ [d] → ThreadPipe s j p p' a
  | emptied : s.pipeEvents (.thread j a) = p.inQueue.map (.drop j) → p'.inQueue = [] → ThreadPipe s j p p' a

theorem threadStep_pipe {a : ThreadAction} {t' : PeerThread} (hp : s.bgp.threadQ[j]? = some p)
    (h : threadStep s.bgp.cfg j (s.threads j) p a = some (p', t')) : s.ThreadPipe j p p' a := by
  cases threadStep_eq_some h with
  | restart _ => exact .kept rfl rfl
  | connect _ hconnect => exact .kept rfl (initPeerStates_cases hconnect).1.inQueue
  | @receive now type payload uninit _ hphase _ _ hdispatch =>
      cases type with
      | update =>
          simp only [dispatch, List.take_left'] at hdispatch
          split at hdispatch
          · rename_i hfits
            cases hdispatch
            refine .received ⟨payload, hfits, ⟨j, (s.threads j).conn, p.state⟩⟩ rfl rfl hphase ?_ rfl
            simp [pipeEvents, hp, hfits]
          · cases hdispatch
      | _ =>
          rcases (dispatch_cases hdispatch).2.2 with ⟨_, hkept⟩ | ⟨hupdate, _⟩
          · exact .kept rfl hkept
          · cases hupdate
  | @eof _ header _ => cases header <;> exact .kept rfl rfl
  | leave | close _ => exact .kept rfl rfl
  | empty _ => exact .emptied (by simp [pipeEvents, hp]) rfl

/-- A message leaves the queue of its peer once, in the order of receipt. -/
theorem inQueue_fifo (i : Nat) : Fifo step pipeEvents (inQueueOf i) (PipeEvent.received i)
    (fun e => e.handled i ++ e.dropped i) := by
  intro s a s' h
  cases step_cases h with
  | @thread j a p p' t' hp hstep =>
      rw [inQueueOf_set hp s.bgp.queues (s.setThread j t')]
      cases threadStep_pipe hp hstep with
      | kept hevents hqueue =>
          by_cases hij : j = i
          · subst hij
            simp [hevents, hqueue, inQueueOf_eq hp]
          · simp [hevents, hij]
      | received d _ _ _ hevents hqueue =>
          by_cases hij : j = i
          · subst hij
            simp [hevents, hqueue, inQueueOf_eq hp, PipeEvent.handled, PipeEvent.dropped, PipeEvent.received]
          · simp [hevents, hij, PipeEvent.handled, PipeEvent.dropped, PipeEvent.received]
      | emptied hevents hqueue =>
          rw [hevents, flatMap_drop]
          by_cases hij : j = i
          · subst hij
            simp [hqueue, inQueueOf_eq hp, PipeEvent.received]
          · simp [hij, PipeEvent.received]
  | @flushed j _ k _ _ _ _ =>
      rw [inQueueOf_same (Bgp.map_modify (f := BgpPeer.countFlushed) (fun _ => rfl) _) s.threads]
      simp [pipeEvents]
  | @flushEnd j p hp _ => simp [pipeEvents, inQueueOf]
  | noPeer hp => simp [pipeEvents, hp]
  | @processed j now p p' q' hp hproc =>
      rw [inQueueOf_set hp q' s.threads]
      rcases procInQ_handles hproc with ⟨hexpired, hqueue, _⟩ | ⟨hexpired, hqueue, _⟩
      · by_cases hij : j = i
        · subst hij
          simp [pipeEvents, hp, hexpired, hqueue, inQueueOf_eq hp]
        · simp [pipeEvents, hp, hexpired, hij]
      · simp only [pipeEvents, hp, hexpired, Bool.false_eq_true, ↓reduceIte]
        rw [flatMap_handle]
        by_cases hij : j = i
        · subst hij
          simp [hqueue, inQueueOf_eq hp, PipeEvent.received]
        · simp [hij, PipeEvent.received]
  | @entered r rest hqueue =>
      rw [inQueueOf_same (b := s.bgp.procAdjRibInItem r rest) (Bgp.peerEntry_same s.bgp r).peers s.threads]
      simp [pipeEvents, hqueue, PipeEvent.handled, PipeEvent.dropped, PipeEvent.received]
  | @withdrawn r rest b hqueue hb =>
      have hkept : ∀ q v, inQueueOf i { s with bgp := { b with queues := q, tableVersion := v } } = s.inQueueOf i :=
        fun _ _ => inQueueOf_same (Bgp.withdraw_same hb).peers s.threads
      rw [hkept]
      simp [pipeEvents, hqueue, PipeEvent.handled, PipeEvent.dropped, PipeEvent.received]

/-! ## The queues of the instance -/

theorem flatMap_threadPipe {β : Type} {f : PipeEvent → List β} {a : ThreadAction} (hreceive : ∀ j d, f (.receive j d) = [])
    (hdrop : ∀ j d, f (.drop j d) = []) (h : s.ThreadPipe j p p' a) : (s.pipeEvents (.thread j a)).flatMap f = [] := by
  cases h with
  | kept hevents _ => simp [hevents]
  | received d _ _ _ hevents _ => simp [hevents, hreceive]
  | emptied hevents _ => simp [hevents, hdrop]

theorem adjRibIn_fifo : Fifo step pipeEvents (fun s => s.bgp.queues.adjRibInQ) PipeEvent.announced PipeEvent.entered := by
  intro s a s' h
  cases step_cases h with
  | thread hp hstep =>
      have hpipe := threadStep_pipe hp hstep
      rw [flatMap_threadPipe (fun _ _ => rfl) (fun _ _ => rfl) hpipe, flatMap_threadPipe (fun _ _ => rfl) (fun _ _ => rfl) hpipe]
      simp
  | flushed _ _ _ => simp [pipeEvents, Bgp.modifyPeer]
  | flushEnd _ _ => simp [pipeEvents]
  | noPeer hp => simp [pipeEvents, hp]
  | @processed j now p p' q' hp hproc =>
      rcases procInQ_handles hproc with ⟨hexpired, _, rfl⟩ | ⟨hexpired, _, hmessages⟩
      · simp [pipeEvents, hp, hexpired]
      · have hroutes := (procMessages_routesOf hmessages).1
        simp [pipeEvents, hp, hexpired, hroutes, List.flatMap_map, PipeEvent.entered, PipeEvent.announced]
  | @entered r rest hqueue =>
      simp [pipeEvents, hqueue, Bgp.procAdjRibInItem, PipeEvent.entered, PipeEvent.announced]
  | @withdrawn r rest b hqueue hb =>
      have hkept := congrArg RibQueues.adjRibInQ (Bgp.withdraw_same hb).queues
      simp [pipeEvents, hqueue, hkept, PipeEvent.entered, PipeEvent.announced]

theorem adjRibWdraw_fifo :
    Fifo step pipeEvents (fun s => s.bgp.queues.adjRibInWdrawQ) PipeEvent.retracted PipeEvent.withdrawn := by
  intro s a s' h
  cases step_cases h with
  | thread hp hstep =>
      have hpipe := threadStep_pipe hp hstep
      rw [flatMap_threadPipe (fun _ _ => rfl) (fun _ _ => rfl) hpipe, flatMap_threadPipe (fun _ _ => rfl) (fun _ _ => rfl) hpipe]
      simp
  | flushed _ _ _ => simp [pipeEvents, Bgp.modifyPeer]
  | flushEnd _ _ => simp [pipeEvents]
  | noPeer hp => simp [pipeEvents, hp]
  | @processed j now p p' q' hp hproc =>
      rcases procInQ_handles hproc with ⟨hexpired, _, rfl⟩ | ⟨hexpired, _, hmessages⟩
      · simp [pipeEvents, hp, hexpired]
      · have hroutes := (procMessages_routesOf hmessages).2
        simp [pipeEvents, hp, hexpired, hroutes, List.flatMap_map, PipeEvent.withdrawn, PipeEvent.retracted]
  | @entered r rest hqueue =>
      have hkept := congrArg RibQueues.adjRibInWdrawQ (Bgp.peerEntry_same s.bgp r).queues
      simp [pipeEvents, hqueue, hkept, Bgp.procAdjRibInItem, PipeEvent.withdrawn, PipeEvent.retracted]
  | @withdrawn r rest b hqueue hb =>
      simp [pipeEvents, hqueue, PipeEvent.withdrawn, PipeEvent.retracted]

/-! ## What a cleanup throws away -/

theorem dropped_iff {a : DaemonAction} (h : s.step a = some s') :
    (∀ e ∈ s.pipeEvents a, ∀ i, e.dropped i = []) ↔ s.EmptiesNothing a := by
  cases step_cases h with
  | @thread j a p p' t' hp hstep =>
      cases threadStep_eq_some hstep with
      | empty hphase =>
          simp only [pipeEvents, hp]
          constructor
          · intro hnone i q ha _ hq
            cases ha
            cases hp.symm.trans hq
            rw [List.eq_nil_iff_forall_not_mem]
            intro d hd
            simpa [PipeEvent.dropped] using hnone _ (List.mem_map_of_mem hd) j
          · intro hempty
            simp [hempty j p rfl hphase hp]
      | @receive now type payload uninit _ _ _ _ _ =>
          apply iff_of_true
          · cases type <;> simp only [pipeEvents, List.not_mem_nil, false_implies, implies_true, hp]
            split
            · simp [PipeEvent.dropped]
            · simp
          · intro i q ha
            cases ha
      | _ => exact iff_of_true (by simp [pipeEvents]) (by intro i q ha; cases ha)
  | flushed _ _ _ => exact iff_of_true (by simp [pipeEvents]) (by intro i q ha; cases ha)
  | flushEnd _ _ => exact iff_of_true (by simp [pipeEvents]) (by intro i q ha; cases ha)
  | noPeer hp => exact iff_of_true (by simp [pipeEvents, hp]) (by intro i q ha; cases ha)
  | processed hp _ =>
      apply iff_of_true
      · simp only [pipeEvents, hp]
        split
        · simp
        · simp [PipeEvent.dropped]
      · intro i q ha
        cases ha
  | entered hqueue => exact iff_of_true (by simp [pipeEvents, hqueue, PipeEvent.dropped]) (by intro i q ha; cases ha)
  | withdrawn hqueue _ => exact iff_of_true (by simp [pipeEvents, hqueue, PipeEvent.dropped]) (by intro i q ha; cases ha)

/-! ## Messages of a connection -/

/-- The messages that wait are those of the connection, and between two connections there are none. -/
def Waits (t : PeerThread) (p : BgpPeer) : Prop :=
  (∀ d ∈ p.inQueue, d.receipt.conn = t.conn) ∧ (t.phase = .down ∨ t.phase = .connecting → p.inQueue = [])

theorem Waits.step {a : ThreadAction} {t' : PeerThread} (hw : Waits (s.threads j) p) (hp : s.bgp.threadQ[j]? = some p)
    (h : threadStep s.bgp.cfg j (s.threads j) p a = some (p', t')) : Waits t' p' := by
  obtain ⟨hconn, hnone⟩ := hw
  cases threadStep_eq_some h with
  | restart hphase =>
      have hempty : p.inQueue = [] := hnone (Or.inl hphase)
      simp [Waits, hempty]
  | connect hphase hconnect =>
      have hempty : p'.inQueue = [] := by
        rw [(initPeerStates_cases hconnect).1.inQueue]
        exact hnone (Or.inr hphase)
      simp [Waits, hempty]
  | @receive _ type _ _ _ hphase _ _ _ =>
      have hreading : (s.threads j).phase ≠ .down ∧ (s.threads j).phase ≠ .connecting := by simp [hphase]
      cases threadStep_pipe hp h with
      | kept _ hqueue =>
          rw [Waits, hqueue]
          exact ⟨hconn, hnone⟩
      | received d _ hd _ _ hqueue =>
          simp only [Waits, hqueue, List.mem_append, List.mem_singleton]
          refine ⟨?_, ?_⟩
          · rintro d' (hd' | rfl)
            · exact hconn d' hd'
            · exact hd
          · rintro (hdown | hconnecting)
            · exact absurd hdown hreading.1
            · exact absurd hconnecting hreading.2
      | emptied _ hqueue => simp [Waits, hqueue]
  | @eof _ header _ => cases header <;> exact ⟨hconn, hnone⟩
  | leave => exact ⟨hconn, by simp⟩
  | close _ => exact ⟨hconn, by simp⟩
  | empty _ => simp [Waits]

def Fresh (s : Daemon) : Prop :=
  ∀ (i : Nat) (p : BgpPeer), s.bgp.threadQ[i]? = some p → Waits (s.threads i) p

theorem Start.fresh (h : s.Start) : s.Fresh := by
  obtain ⟨_, _, _, hpeers⟩ := h
  intro i p hp
  have hempty := (hpeers p (List.mem_of_getElem? hp)).2.2
  simp [Waits, hempty]

theorem Fresh.same (h : s.Fresh) {b : Bgp} (hsame : s.SamePeers b) : Fresh { bgp := b, threads := s.threads } := by
  intro i p hp
  obtain ⟨q, hq, huncounted⟩ := hsame i p hp
  have hqueue : p.uncounted.inQueue = q.uncounted.inQueue := by rw [huncounted]
  have hwaits := h i q hq
  simp only [BgpPeer.uncounted] at hqueue
  rwa [Waits, ← hqueue] at hwaits

theorem Fresh.step {a : DaemonAction} (h : s.Fresh) (hs : s.Step a s') : s'.Fresh := by
  cases hs with
  | @thread j a p p' t' hp hstep =>
      intro i q hq
      rcases getElem?_set_cases hq with ⟨rfl, rfl⟩ | ⟨hne, hq⟩
      · simp only [setThread_self]
        exact (h i p hp).step hp hstep
      · simp only [setThread_ne s t' hne]
        exact h i q hq
  | @flushed i _ k _ _ _ _ => exact h.same (moves_flushed s i k).peers
  | @flushEnd j p hp _ =>
      intro i q hq
      by_cases hij : i = j
      · subst hij
        simp only [setThread_self]
        exact ⟨(h i q hq).1, by simp⟩
      · simpa only [setThread_ne s _ hij] using h i q hq
  | noPeer _ => exact h
  | @processed j now p p' q' hp hproc =>
      intro i q hq
      rcases getElem?_set_cases hq with ⟨rfl, rfl⟩ | ⟨_, hq⟩
      · rcases procInQ_handles hproc with ⟨_, hqueue, _⟩ | ⟨_, hqueue, _⟩
        · have hwaits := h i p hp
          rwa [Waits, ← hqueue] at hwaits
        · simp [Waits, hqueue]
      · exact h i q hq
  | entered hqueue => exact h.same (moves_entered hqueue).peers
  | withdrawn hqueue hb => exact h.same (moves_withdrawn hqueue hb).peers

end Daemon

/-! ## Runs -/

theorem inQueueOf_start {s : Daemon} (hs : s.Start) (i : Nat) : s.inQueueOf i = [] := by
  obtain ⟨_, _, _, hpeers⟩ := hs
  unfold Daemon.inQueueOf
  split
  · rfl
  · rename_i p hp
    exact (hpeers p (List.mem_of_getElem? hp)).2.2

/-- In every run of atomic steps, each UPDATE that is received leaves the queue of its peer once, in the order of
receipt, and is then handled or thrown away, or it is still in the queue. Each route of a message that is handled is
entered or withdrawn once, in the order of the messages, or it is still in its queue. -/
theorem updates_conserved {as : List DaemonAction} {s s' : Daemon} (hs : s.Start)
    (hrun : runAll Daemon.step as s = some s') :
    (∀ i, (s.pipeLog as).flatMap (fun e => e.handled i ++ e.dropped i) ++ s'.inQueueOf i =
      (s.pipeLog as).flatMap (PipeEvent.received i)) ∧
    (s.pipeLog as).flatMap PipeEvent.entered ++ s'.bgp.queues.adjRibInQ =
      (s.pipeLog as).flatMap PipeEvent.announced ∧
    (s.pipeLog as).flatMap PipeEvent.withdrawn ++ s'.bgp.queues.adjRibInWdrawQ =
      (s.pipeLog as).flatMap PipeEvent.retracted := by
  have hempty := inQueueOf_start hs
  obtain ⟨_, hqueues, _, _⟩ := hs
  refine ⟨?_, ?_, ?_⟩
  · intro i
    have hall := (Daemon.inQueue_fifo i).conserved hrun
    rwa [hempty, List.nil_append] at hall
  · have hall := Daemon.adjRibIn_fifo.conserved hrun
    rwa [hqueues, List.nil_append] at hall
  · have hall := Daemon.adjRibWdraw_fifo.conserved hrun
    rwa [hqueues, List.nil_append] at hall

namespace Example

/-- One announcement is handled and its route entered, and a withdrawal is lost with the connection. -/
def pipeRun : List DaemonAction :=
  upRun ++ DaemonAction.thread 0 (.receive 1 .update withdraw10.encode []) :: goesDown 0 ++
    DaemonAction.flush 0 :: cleansUp 0

end Example

theorem updates_conserved_lost : ∃ s', runAll Daemon.step Example.pipeRun Example.daemon = some s' ∧
    ((Example.daemon.pipeLog Example.pipeRun).flatMap fun e => e.handled 0 ++ e.dropped 0) ++ s'.inQueueOf 0 =
      (Example.daemon.pipeLog Example.pipeRun).flatMap (PipeEvent.received 0) := by
  have hsome : (runAll Daemon.step Example.pipeRun Example.daemon).isSome = true := by
    decide +kernel
  obtain ⟨s', hs'⟩ := Option.isSome_iff_exists.mp hsome
  exact ⟨s', hs', (updates_conserved Example.daemon_start hs').1 0⟩

/-- The messages that are handled are all of them just where each cleanup finds the queue of its peer empty, in runs
of atomic steps. -/
theorem updates_handled_iff {as : List DaemonAction} {s s' : Daemon} (hs : s.Start)
    (hrun : runAll Daemon.step as s = some s') :
    (∀ i, (s.pipeLog as).flatMap (PipeEvent.handled i) ++ s'.inQueueOf i =
      (s.pipeLog as).flatMap (PipeEvent.received i)) ↔ AllAdmissible Daemon.step Daemon.EmptiesNothing as s := by
  have hstep : ∀ i, ((s.pipeLog as).flatMap (PipeEvent.handled i) ++ s'.inQueueOf i =
      (s.pipeLog as).flatMap (PipeEvent.received i)) ↔ ∀ e ∈ s.pipeLog as, e.dropped i = [] := by
    intro i
    have hiff := (Daemon.inQueue_fifo i).conserved_iff hrun
    rw [inQueueOf_start hs, List.nil_append, List.flatMap_eq_nil_iff] at hiff
    exact hiff
  rw [forall_congr' hstep, ← forall_trace_iff (fun _ _ _ => Daemon.dropped_iff) hrun]
  constructor
  · intro h e he i
    exact h i e he
  · intro h i e he
    exact h e he i

theorem updates_handled_iff_lost : ∃ s', runAll Daemon.step Example.pipeRun Example.daemon = some s' ∧
    ((∀ i, (Example.daemon.pipeLog Example.pipeRun).flatMap (PipeEvent.handled i) ++ s'.inQueueOf i =
      (Example.daemon.pipeLog Example.pipeRun).flatMap (PipeEvent.received i)) ↔
        AllAdmissible Daemon.step Daemon.EmptiesNothing Example.pipeRun Example.daemon) := by
  have hsome : (runAll Daemon.step Example.pipeRun Example.daemon).isSome = true := by
    decide +kernel
  obtain ⟨s', hs'⟩ := Option.isSome_iff_exists.mp hsome
  exact ⟨s', hs', updates_handled_iff Example.daemon_start hs'⟩

/-- A message that waits in the queue of a peer came on the connection that the thread of the peer has, or had
last: none is left from an earlier one when the next connection is there. The steps are atomic. -/
theorem messages_fresh {s : Daemon} (h : Daemon.Reachable (fun _ _ => True) s) {i : Nat} {p : BgpPeer}
    (hp : s.bgp.threadQ[i]? = some p) :
    (∀ d ∈ p.inQueue, d.receipt = ⟨i, (s.threads i).conn, d.receipt.state⟩) ∧
      ((s.threads i).phase = .down ∨ (s.threads i).phase = .connecting → p.inQueue = []) := by
  have hfresh : s.Fresh :=
    Reaches.invariant (fun _ hs => hs.fresh) (fun _ _ _ hs _ hstep => hs.step (Daemon.step_cases hstep)) h
  have hreceipts : s.Receipts :=
    Reaches.invariant (fun _ hs => hs.receipts) (fun _ _ _ hs _ hstep => hs.step (Daemon.step_cases hstep)) h
  obtain ⟨hconn, hnone⟩ := hfresh i p hp
  refine ⟨?_, hnone⟩
  intro d hd
  rw [← hconn d hd, ← hreceipts i p hp d hd]

theorem messages_fresh_queued : ∃ (s : Daemon) (p : BgpPeer), s.bgp.threadQ[0]? = some p ∧ p.inQueue ≠ [] ∧
    ∀ d ∈ p.inQueue, d.receipt = ⟨0, (s.threads 0).conn, d.receipt.state⟩ := by
  have hview : (runAll Daemon.step (Example.comesUp 0 1 ++ [.thread 0 (.receive 1 .update Example.announce10.encode [])])
      Example.daemon).map (fun s => (s.inQueueOf 0).length) = some 1 := by
    decide +kernel
  obtain ⟨s, hs, hlength⟩ := Option.map_eq_some_iff.mp hview
  have hreach : Daemon.Reachable (fun _ _ => True) s :=
    Reaches.runAll (.init Example.daemon_start) (by decide +kernel) hs
  unfold Daemon.inQueueOf at hlength
  split at hlength
  · cases hlength
  · rename_i p hp
    have hqueued : p.inQueue ≠ [] := by
      intro hnil
      simp [hnil] at hlength
    exact ⟨s, p, hp, hqueued, (messages_fresh hreach hp).1⟩

end Log2Bgp
