import Log2Bgp.Daemon.Lemmas.Steps

/-!
# The counter of queued messages
-/

namespace Log2Bgp

open Lib

variable {cfg : BgpConfig} {now : TimeT} {p p' : BgpPeer}

/-! ## What leaves the counter alone -/

@[simp] theorem sendPacket_inQ (p : BgpPeer) (now : TimeT) (payload : List UInt8) (t : BgpMsgType) :
    (p.sendPacket now payload t).inQ = p.inQ := by
  unfold BgpPeer.sendPacket
  split
  · rfl
  · split
    · rfl
    · cases t <;> rfl

theorem acceptOpen_inQ (p : BgpPeer) (now : TimeT) (hdr : BgpOpen) :
    (acceptOpen cfg p now hdr).inQ = p.inQ := by
  unfold acceptOpen
  split
  · exact sendPacket_inQ p now _ .notification
  · simp only
    split
    · exact sendPacket_inQ { p with version := _ } now _ .notification
    · exact sendPacket_inQ ..

theorem holdTimerExpired_inQ (p : BgpPeer) (now : TimeT) : (holdTimerExpired p now).2.inQ = p.inQ := by
  unfold holdTimerExpired
  split
  · rfl
  · split
    · exact sendPacket_inQ p now _ .notification
    · split
      · exact sendPacket_inQ p now [] .keepalive
      · rfl

theorem resizeStream_inQ {ok : Bool} (h : resizeStream ok p = .ok p') : p'.inQ = p.inQ := by
  simp only [resizeStream, ite_eq_iff, reduceCtorEq, and_false, or_false] at h
  obtain ⟨_, h⟩ := h
  cases h
  split
  · rfl
  · rfl

theorem resizeSocket_inQ (ok : Bool) (p : BgpPeer) : (resizeSocket ok p).inQ = p.inQ := by
  unfold resizeSocket
  split
  · rfl
  · rfl

theorem initPeerStates_inQ {attempt : ConnectAttempt} (h : initPeerStates cfg now attempt p = .ok p') :
    p'.inQ = p.inQ := by
  unfold initPeerStates at h
  split at h
  · simp only [Checked.bind_eq_ok, Checked.pure_eq_ok, Except.ok.injEq] at h
    obtain ⟨p₁, h₁, p₂, h₂, rfl⟩ := h
    have hsocket : (resizeSocket attempt.tcpTx (resizeSocket attempt.tcpRx p₂)).inQ = p.inQ := by
      rw [resizeSocket_inQ, resizeSocket_inQ, resizeStream_inQ h₂, resizeStream_inQ h₁]
    split
    · exact hsocket
    · exact (sendPacket_inQ ..).trans hsocket
  · cases h
    rfl

/-! ## Counted messages -/

/-- `in_q` is the number of messages in `in_queue`. -/
def BgpPeer.Depth (p : BgpPeer) : Prop := p.inQ.toNat = p.inQueue.length

/-- Fewer messages are queued than the counter can count. -/
def BgpPeer.Short (p : BgpPeer) : Prop := p.inQueue.length < 65536

theorem BgpPeer.Depth.kept (h : p.Depth) (hcount : p'.inQ = p.inQ) (hqueue : p'.inQueue = p.inQueue) :
    p'.Depth := by
  rw [BgpPeer.Depth, hcount, hqueue]
  exact h

theorem BgpPeer.Depth.received (h : p.Depth) {d : QueueData} (hshort : p'.Short)
    (hcount : p'.inQ = p.inQ + 1) (hqueue : p'.inQueue = p.inQueue ++ [d]) : p'.Depth := by
  have hlength : p'.inQueue.length = p.inQueue.length + 1 := by rw [hqueue, List.length_append, List.length_singleton]
  have h1 : (1 : UInt16).toNat = 1 := rfl
  unfold BgpPeer.Depth BgpPeer.Short at *
  rw [hcount, UInt16.toNat_add, h, h1, hlength, Nat.mod_eq_of_lt (by omega)]

theorem dispatch_depth {receipt : Receipt} {type : BgpMsgType} {buffer : List UInt8} {length : Nat}
    (hp : p.Depth) (hshort : p'.Short) (h : dispatch cfg now receipt type buffer length p = .ok p') : p'.Depth := by
  obtain ⟨-, -, hqueue⟩ := dispatch_cases h
  cases type with
  | update =>
      simp only [dispatch] at h
      split at h
      · cases h
        exact hp.received hshort rfl rfl
      · cases h
  | openMsg =>
      obtain ⟨-, hqueue⟩ | ⟨hupdate, -⟩ := hqueue
      · simp only [dispatch, decodeOpen, Checked.bind_eq_ok, Checked.pure_eq_ok, Except.ok.injEq] at h
        obtain ⟨hdr, -, rfl⟩ := h
        exact hp.kept (acceptOpen_inQ ..) hqueue
      · cases hupdate
  | keepalive =>
      obtain ⟨-, hqueue⟩ | ⟨hupdate, -⟩ := hqueue
      · refine hp.kept ?_ hqueue
        simp only [dispatch, Except.ok.injEq] at h
        subst h
        rw [sendPacket_inQ]
        split
        · rfl
        · rfl
      · cases hupdate
  | notification =>
      simp only [dispatch, Checked.bind_eq_ok, Checked.pure_eq_ok, Except.ok.injEq] at h
      obtain ⟨_, _, rfl⟩ := h
      exact hp.kept rfl rfl
  | routerefresh | other code =>
      cases h
      exact hp.kept rfl rfl

/-- Once its whole queue is processed, a peer that was counted right counts none. -/
theorem procInQ_depth {q q' : RibQueues} (hp : p.Depth) (h : procInQ now p q = .ok (p', q')) : p'.Depth := by
  have hsame := (holdTimerExpired_cases p now).1
  have hkept : (holdTimerExpired p now).2.Depth := hp.kept (holdTimerExpired_inQ p now) hsame.inQueue
  unfold procInQ at h
  cases hexpired : (holdTimerExpired p now).1 with
  | true =>
      simp only [hexpired, ↓reduceIte] at h
      cases h
      exact hkept
  | false =>
      simp only [hexpired, Bool.false_eq_true, ↓reduceIte, Checked.bind_eq_ok, Checked.pure_eq_ok] at h
      obtain ⟨q₁, _, h⟩ := h
      cases h
      have hcount : UInt16.ofNat (holdTimerExpired p now).2.inQueue.length = (holdTimerExpired p now).2.inQ := by
        rw [← hkept, UInt16.ofNat_toNat]
      show ((holdTimerExpired p now).2.inQ - UInt16.ofNat (holdTimerExpired p now).2.inQueue.length).toNat = 0
      rw [hcount, UInt16.sub_self]
      rfl

/-! ## Steps -/

/-- Of the steps of a thread, only the one that empties the queue can leave the count wrong. -/
theorem threadStep_depth {i : Nat} {t t' : PeerThread} {a : ThreadAction} (hp : p.Depth) (hshort : p'.Short)
    (h : threadStep cfg i t p a = some (p', t')) : p'.Depth ↔ (a = .empty → p.inQueue = []) := by
  cases threadStep_eq_some h with
  | empty _ =>
      have hiff : BgpPeer.Depth { p with inQueue := [] } ↔ p.inQueue.length = 0 := by
        show p.inQ.toNat = 0 ↔ p.inQueue.length = 0
        rw [hp]
      rw [hiff, List.length_eq_zero_iff]
      exact ⟨fun h _ => h, fun h => h rfl⟩
  | restart _ | leave | close _ => exact iff_of_true (hp.kept rfl rfl) (by simp)
  | connect _ hconnect =>
      have hqueue := (initPeerStates_cases hconnect).1.inQueue
      exact iff_of_true (hp.kept (initPeerStates_inQ hconnect) hqueue) (by simp)
  | @receive now _ _ _ _ _ _ _ hdispatch =>
      have hread : (p.readAt now).Depth := hp.kept rfl rfl
      exact iff_of_true (dispatch_depth hread hshort hdispatch) (by simp)
  | @eof _ header _ =>
      cases header with
      | true => exact iff_of_true (hp.kept rfl rfl) (by simp)
      | false => exact iff_of_true (hp.kept rfl rfl) (by simp)

namespace Daemon

variable {s s' : Daemon} {a : DaemonAction}

/-- The displayed depths are right. -/
def Depth (s : Daemon) : Prop := ∀ p ∈ s.bgp.threadQ, p.Depth

def Short (s : Daemon) : Prop := ∀ p ∈ s.bgp.threadQ, p.Short

instance : DecidablePred Short := fun s =>
  inferInstanceAs (Decidable (∀ p ∈ s.bgp.threadQ, p.inQueue.length < 65536))

/-- Where a thread empties the queue of its peer at the end of a session, there is nothing in it. -/
def EmptiesNothing (s : Daemon) (a : DaemonAction) : Prop :=
  ∀ (i : Nat) (p : BgpPeer), a = .thread i .empty → (s.threads i).phase = .emptying →
    s.bgp.threadQ[i]? = some p → p.inQueue = []

theorem Depth.same (h : s.Depth) {b : Bgp} (hsame : s.SamePeers b) (threads : Nat → PeerThread) :
    Depth { bgp := b, threads := threads } := by
  intro p hp
  obtain ⟨i, hi⟩ := List.mem_iff_getElem?.mp hp
  obtain ⟨q, hq, huncounted⟩ := hsame i p hi
  have hcount : p.uncounted.inQ = q.uncounted.inQ := by rw [huncounted]
  have hqueue : p.uncounted.inQueue = q.uncounted.inQueue := by rw [huncounted]
  exact (h q (List.mem_of_getElem? hq)).kept hcount hqueue

theorem depth_set {ps : List BgpPeer} {i : Nat} (hps : ∀ q ∈ ps, q.Depth) (hi : ps[i]? = some p) :
    (∀ q ∈ ps.set i p', q.Depth) ↔ p'.Depth := by
  have hlt := (List.getElem?_eq_some_iff.mp hi).1
  constructor
  · intro h
    exact h p' (List.mem_set hlt p')
  · intro h q hq
    rcases List.mem_or_eq_of_mem_set hq with hq | rfl
    · exact hps q hq
    · exact h

theorem depth_step (hdepth : s.Depth) (hshort : s'.Short) (hs : s.Step a s') : s'.Depth ↔ s.EmptiesNothing a := by
  cases hs with
  | @thread i a p p' t' hp hstep =>
      have hlt := (List.getElem?_eq_some_iff.mp hp).1
      have hone := threadStep_depth (hdepth p (List.mem_of_getElem? hp)) (hshort p' (List.mem_set hlt p')) hstep
      refine (depth_set hdepth hp).trans (hone.trans ?_)
      constructor
      · intro h j q ha _ hq
        cases ha
        cases hp.symm.trans hq
        exact h rfl
      · rintro h rfl
        cases threadStep_eq_some hstep with
        | empty hphase => exact h i p rfl hphase hp
  | @flushed i _ k _ _ _ _ =>
      exact iff_of_true (hdepth.same (moves_flushed s i k).peers s.threads) (by intro _ _ ha; cases ha)
  | flushEnd _ _ => exact iff_of_true hdepth (by intro _ _ ha; cases ha)
  | noPeer _ => exact iff_of_true hdepth (by intro _ _ ha; cases ha)
  | processed hp hproc =>
      have hp' := procInQ_depth (hdepth _ (List.mem_of_getElem? hp)) hproc
      exact iff_of_true ((depth_set hdepth hp).mpr hp') (by intro _ _ ha; cases ha)
  | entered hqueue =>
      exact iff_of_true (hdepth.same (moves_entered hqueue).peers s.threads) (by intro _ _ ha; cases ha)
  | withdrawn hqueue hb =>
      exact iff_of_true (hdepth.same (moves_withdrawn hqueue hb).peers s.threads) (by intro _ _ ha; cases ha)

theorem emptiesNothing_of_stuck (h : s.step a = none) : s.EmptiesNothing a := by
  rintro i p rfl hphase hp
  simp only [step, hp, threadStep, hphase, ↓reduceIte, Option.map_some, reduceCtorEq] at h

end Daemon

end Log2Bgp
