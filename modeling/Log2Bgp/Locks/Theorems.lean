import Log2Bgp.Locks.Run

/-!
# No deadlock

However the threads of the daemon are scheduled, no two hold one mutex, and one of them can go on as long as a call is
left.
-/

namespace Log2Bgp

open Lib

/-! ## Order -/

/-- What a function does with mutexes, where it takes them in order, gives all of them back, and takes none of
a lower rank than the given one. -/
def InOrder (least : Nat) (ops : Locking) : Prop :=
  Ordered Mutex.rank [] ops ∧ ∀ m, .lock m ∈ ops → least ≤ m.rank

section Order

variable {least : Nat} {ops ops' : Locking} {m : Mutex}

theorem InOrder.nil (least : Nat) : InOrder least [] := ⟨rfl, by simp⟩

theorem InOrder.append (h : InOrder least ops) (h' : InOrder least ops') : InOrder least (ops ++ ops') := by
  refine ⟨h.1.append h'.1, ?_⟩
  intro m hm
  rcases List.mem_append.mp hm with hm | hm
  · exact h.2 m hm
  · exact h'.2 m hm

theorem InOrder.flatten {calls : List Locking} (h : ∀ ops ∈ calls, InOrder least ops) :
    InOrder least calls.flatten := by
  induction calls with
  | nil => exact InOrder.nil _
  | cons ops calls ih =>
      rw [List.forall_mem_cons] at h
      exact h.1.append (ih h.2)

theorem InOrder.flatMap {α : Type} {xs : List α} {f : α → Locking} (h : ∀ x ∈ xs, InOrder least (f x)) :
    InOrder least (xs.flatMap f) := by
  rw [List.flatMap_def]
  apply InOrder.flatten
  intro ops hops
  obtain ⟨x, hx, rfl⟩ := List.mem_map.mp hops
  exact h x hx

theorem InOrder.mono {least' : Nat} (h : InOrder least ops) (hle : least' ≤ least) : InOrder least' ops :=
  ⟨h.1, fun m hm => hle.trans (h.2 m hm)⟩

/-- A mutex can be held while others of a higher rank are taken. -/
theorem InOrder.holding (h : InOrder least ops) (hlt : m.rank < least) : InOrder m.rank (holding m ops) := by
  refine ⟨ordered_holding h.1 fun m' hm' => hlt.trans_le (h.2 m' hm'), ?_⟩
  intro m' hm'
  simp only [Lib.holding, List.mem_cons, LockOp.lock.injEq, List.mem_append, List.not_mem_nil, or_false,
    reduceCtorEq] at hm'
  rcases hm' with rfl | hm'
  · exact le_rfl
  · exact hlt.le.trans (h.2 m' hm')

theorem inOrder_guarded (m : Mutex) : InOrder m.rank (guarded m) :=
  InOrder.holding (InOrder.nil (m.rank + 1)) (Nat.lt_succ_self _)

theorem InOrder.guarded (hle : least ≤ m.rank) : InOrder least (guarded m) := (inOrder_guarded m).mono hle

end Order

/-! ## Sessions -/

section Sessions

variable (cfg : BgpConfig) (i : Nat)

theorem sendPacketLocks_inOrder (p : BgpPeer) (msgType : BgpMsgType) : InOrder 1 (sendPacketLocks i p msgType) := by
  have hwrite : InOrder 1 (guarded (.write i)) := InOrder.guarded (by simp [Mutex.rank])
  unfold sendPacketLocks
  split
  · exact InOrder.nil _
  · apply InOrder.append _ hwrite
    split
    · apply InOrder.flatten
      intro ops hops
      rw [List.eq_of_mem_replicate hops]
      exact hwrite
    · exact InOrder.nil _

theorem acceptOpenLocks_inOrder (p : BgpPeer) (hdr : BgpOpen) : InOrder 1 (acceptOpenLocks cfg i p hdr) := by
  have hpeer : InOrder 1 (guarded (.peer i)) := InOrder.guarded (by simp [Mutex.rank])
  unfold acceptOpenLocks
  split
  · exact sendPacketLocks_inOrder i p .notification
  · apply hpeer.append
    split
    · exact sendPacketLocks_inOrder i p .notification
    · apply hpeer.append
      apply hpeer.append
      apply hpeer.append
      apply sendPacketLocks_inOrder

theorem dispatchLocks_inOrder (type : BgpMsgType) (buffer : List UInt8) (p : BgpPeer) :
    InOrder 1 (dispatchLocks cfg i type buffer p) := by
  cases type with
  | openMsg =>
      rw [dispatchLocks]
      split
      · apply acceptOpenLocks_inOrder
      · exact InOrder.nil _
  | keepalive => exact sendPacketLocks_inOrder i p .keepalive
  | update => exact InOrder.guarded (by simp [Mutex.rank])
  | _ => exact InOrder.nil _

theorem holdTimerExpiredLocks_inOrder (p : BgpPeer) (now : TimeT) : InOrder 1 (holdTimerExpiredLocks i p now) := by
  unfold holdTimerExpiredLocks
  split
  · exact InOrder.nil _
  · split
    · exact sendPacketLocks_inOrder i p .notification
    · split
      · exact sendPacketLocks_inOrder i p .keepalive
      · exact InOrder.nil _

theorem procMessageLocks_inOrder (now : TimeT) (bgpId : UInt32) (data : QueueData) :
    InOrder 1 (procMessageLocks i now bgpId data) := by
  apply InOrder.append (InOrder.guarded (by simp [Mutex.rank]))
  apply InOrder.append
  · apply InOrder.flatMap
    intro r _
    exact InOrder.guarded (by simp [Mutex.rank])
  · apply InOrder.flatMap
    intro r _
    exact InOrder.guarded (by simp [Mutex.rank])

theorem procInQLocks_inOrder (now : TimeT) (p : BgpPeer) : InOrder 1 (procInQLocks i now p) := by
  apply (holdTimerExpiredLocks_inOrder i p now).append
  split
  · exact InOrder.nil _
  · exact InOrder.flatMap fun data _ => procMessageLocks_inOrder i now p.bgpId data

end Sessions

/-! ## The RIB -/

namespace Bgp

theorem peerEntryLocks_inOrder (b : Bgp) (r : Route) : InOrder 0 (b.peerEntryLocks r) := by
  unfold peerEntryLocks
  cases b.getPeerByUint32tBgpId r.bgpId with
  | none => exact InOrder.holding (InOrder.nil 1) (by simp [Mutex.rank])
  | some i =>
      have hdb : InOrder 2 (if (b.adjRibIn[r.entry]?).isSome ∧ b.db.isOpen then guarded .db else []) := by
        split
        · exact InOrder.guarded (by simp [Mutex.rank])
        · exact InOrder.nil _
      have hpeer := hdb.holding (m := .peer i) (by simp [Mutex.rank])
      exact hpeer.holding (by simp [Mutex.rank])

theorem withdrawLocks_inOrder (b : Bgp) (r : Route) : InOrder 0 (b.withdrawLocks r) := by
  have hpeer : ∀ i, InOrder 1 (guarded (.peer i)) := fun i => InOrder.guarded (by simp [Mutex.rank])
  unfold withdrawLocks
  split
  · exact (hpeer _).holding (by simp [Mutex.rank])
  · exact InOrder.holding (InOrder.nil 1) (by simp [Mutex.rank])

theorem procAdjRibInLocks_inOrder (rs : List Route) (b : Bgp) : InOrder 0 (b.procAdjRibInLocks rs) := by
  induction rs generalizing b with
  | nil => exact InOrder.nil _
  | cons r rest ih =>
      apply (b.peerEntryLocks_inOrder r).append
      exact (InOrder.guarded (Nat.zero_le _)).append (ih _)

theorem procAdjRibWdrawLocks_inOrder (rs : List Route) (b : Bgp) : InOrder 0 (b.procAdjRibWdrawLocks rs) := by
  induction rs generalizing b with
  | nil => exact InOrder.nil _
  | cons r rest ih =>
      unfold procAdjRibWdrawLocks
      split
      · apply (b.withdrawLocks_inOrder r).append
        exact (InOrder.guarded (Nat.zero_le _)).append (ih _)
      · exact InOrder.nil _

end Bgp

/-! ## Calls -/

/-- Each call takes mutexes in the order of their rank, and holds none when it returns. -/
theorem Locks.inOrder {ops : Locking} (h : Locks ops) : InOrder 0 ops := by
  cases h with
  | sendOpen i p => exact (sendPacketLocks_inOrder i p .openMsg).mono (Nat.zero_le _)
  | dispatch cfg i type buffer p => exact (dispatchLocks_inOrder cfg i type buffer p).mono (Nat.zero_le _)
  | procInQ i now p => exact (procInQLocks_inOrder i now p).mono (Nat.zero_le _)
  | procAdjRibInQueue b => exact b.procAdjRibInLocks_inOrder b.queues.adjRibInQ
  | procAdjRibWdrawQueue b => exact b.procAdjRibWdrawLocks_inOrder b.queues.adjRibInWdrawQ
  | writeConfigs b => exact InOrder.flatMap fun i _ => InOrder.guarded (Nat.zero_le _)
  | prefixQuery b addr dumpHistory =>
      apply InOrder.append (InOrder.guarded (Nat.zero_le _))
      split
      · exact InOrder.flatMap fun _ _ => InOrder.guarded (Nat.zero_le _)
      · exact InOrder.nil _
  | flushPeer | emptyInQueue | setId | setTranslation | showBgpAdjRibIn | originQuery =>
      exact InOrder.guarded (Nat.zero_le _)

/-- However threads that make these calls are scheduled, where each call returns, no two of them hold one mutex, they
take no more steps than their calls have, and where none can take another, every one has made all of its calls and holds
nothing. -/
theorem no_deadlock {threads : List (List Locking)} (hcalls : ∀ calls ∈ threads, ∀ ops ∈ calls, Locks ops)
    {is : List Nat} {s : List (LockThread Mutex)}
    (hrun : runAll lockStep is (begin (threads.map List.flatten)) = some s) :
    Exclusive s ∧ work s + is.length = work (begin (threads.map List.flatten)) ∧
      ((∀ i, lockStep s i = none) → ∀ t ∈ s, t.Done ∧ t.held = []) := by
  have hbegin : Disciplined Mutex.rank (begin (threads.map List.flatten)) := by
    apply disciplined_begin
    intro ops hops
    obtain ⟨calls, hthread, rfl⟩ := List.mem_map.mp hops
    exact Ordered.flatten fun ops hops => (hcalls calls hthread ops hops).inOrder.1
  exact hbegin.run hrun

namespace Example

/-- A route of the peer waits in its queue. -/
def queued : Bgp where
  cfg := { AS := 1 }
  threadQ := [{ AS := 2, bgpId := 1 }]
  queues := { adjRibInQ := [⟨{ nlri := { pfx := 10, bgpId := 1 } }, ⟨0, 0, .established⟩⟩] }

/-- One thread takes routes into the RIB and then sets a translation, another lists the RIB. -/
def callers : List (List Locking) :=
  [[queued.procAdjRibInLocks queued.queues.adjRibInQ, guarded (.peer 0)], [guarded .adjRibIn]]

theorem callers_locks : ∀ calls ∈ callers, ∀ ops ∈ calls, Locks ops := by
  simp only [callers, List.forall_mem_cons]
  exact ⟨⟨.procAdjRibInQueue queued, .setTranslation 0, by simp⟩, ⟨.showBgpAdjRibIn, by simp⟩, by simp⟩

end Example

/-- The first thread holds the mutexes of the RIB and of the peer, and the second waits. -/
theorem no_deadlock_waiting : ∃ s, runAll lockStep [0, 0] (begin (Example.callers.map List.flatten)) = some s ∧
    lockStep s 1 = none ∧ Exclusive s ∧ work s + 2 = 10 := by
  obtain ⟨s, hs, hwaits⟩ : ∃ s, runAll lockStep [0, 0] (begin (Example.callers.map List.flatten)) = some s ∧
      lockStep s 1 = none := ⟨_, rfl, rfl⟩
  obtain ⟨hexclusive, hwork, _⟩ := no_deadlock Example.callers_locks hs
  exact ⟨s, hs, hwaits, hexclusive, hwork⟩

end Log2Bgp
