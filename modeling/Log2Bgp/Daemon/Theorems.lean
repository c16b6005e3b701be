import Log2Bgp.Daemon.Lemmas.Cleanup
import Log2Bgp.Daemon.Lemmas.Depth
import Log2Bgp.Daemon.Lemmas.Gate
import Log2Bgp.Daemon.Lemmas.Isolation
import Log2Bgp.Daemon.Lemmas.Recorded
import Log2Bgp.MainLoop.Theorems

/-!
# Sessions of the daemon, in any order of steps
-/

namespace Log2Bgp

open Lib

namespace Daemon

/-- The states of the runs whose steps all meet a condition. -/
abbrev Reachable (condition : Daemon → DaemonAction → Prop) : Daemon → Prop :=
  Reaches step condition Start

theorem Reachable.cleaned {s : Daemon} (h : Reachable Tidy s) : s.Cleaned :=
  Reaches.invariant (fun _ hs => hs.cleaned) (fun _ _ _ hs hadm hstep => hs.step hadm (step_cases hstep)) h

theorem Reachable.separated {s : Daemon} (h : Reachable Unclaimed s) : s.Separated :=
  Reaches.invariant (fun _ hs => hs.separated) (fun _ _ _ hs hadm hstep => hs.step hadm (step_cases hstep)) h

end Daemon

/-! ## Concrete runs -/

namespace Example

/-- A daemon with two peers of AS 2. -/
def daemon : Daemon := { bgp := { cfg := { AS := 1 }, threadQ := [{ AS := 2 }, { AS := 2 }] } }

theorem daemon_start : daemon.Start := by
  refine ⟨rfl, rfl, fun _ => rfl, ?_⟩
  intro p hp
  rcases List.mem_cons.mp hp with rfl | hp
  · exact ⟨rfl, rfl, rfl⟩
  · cases List.mem_singleton.mp hp
    exact ⟨rfl, rfl, rfl⟩

/-- An OPEN of a peer, with an identifier that ends in the given byte. -/
def sendsOpen (i : Nat) (id : UInt8) : List DaemonAction :=
  [.thread i (.receive 1 .openMsg [4, 0, 2, 0, 180, 10, 0, 0, id, 0] [])]

/-- A peer connects, and its session comes up with an OPEN that ends in the given identifier. -/
def comesUp (i : Nat) (id : UInt8) : List DaemonAction :=
  [.thread i .restart, .thread i (.connect 1 ⟨true, true, true, true, true⟩),
    .thread i (.receive 1 .openMsg [4, 0, 2, 0, 180, 10, 0, 0, id, 0] []),
    .thread i (.receive 1 .keepalive [] [])]

/-- It announces 10.0.0.0/8. -/
def announces (i : Nat) : List DaemonAction :=
  [.thread i (.receive 1 .update announce10.encode []), .procInQ i 1]

/-- It closes the connection. -/
def goesDown (i : Nat) : List DaemonAction := [.thread i (.eof 2 false), .thread i .leave]

/-- The cleanup, if nothing is found to flush. -/
def cleansUp (i : Nat) : List DaemonAction := [.flush i, .thread i .close, .thread i .empty]

theorem flush_owner (s : Daemon) : s.owner (.flush 1) ≠ some 0 := by
  intro h
  cases Option.some.inj h

end Example

/-! ## After a cleanup -/

/-- The announcement waits in its queue during the cleanup, and is processed after it. -/
def Example.staleRun : List DaemonAction :=
  comesUp 0 1 ++ announces 0 ++ goesDown 0 ++ cleansUp 0 ++ [.procAdjRibIn]

/-- An update that waits in its queue during the cleanup is put into the RIB afterwards. -/
theorem stale_route : ¬ ∀ s, Daemon.Reachable (fun _ _ => True) s →
    ∀ i, (s.threads i).clean = true →
      ∀ (k : PrefixEntry) (r : Route), s.bgp.adjRibIn[k]? = some r → r.receipt.peer ≠ i := by
  intro h
  have hview : (runAll Daemon.step Example.staleRun Example.daemon).map (fun s =>
      ((s.threads 0).clean, s.bgp.adjRibIn[((0x0a, 0x0100000a) : PrefixEntry)]?.map (·.receipt.peer))) =
        some (true, some 0) := by
    decide +kernel
  obtain ⟨s, hs, hview⟩ := Option.map_eq_some_iff.mp hview
  obtain ⟨hclean, hroute⟩ := Prod.mk.inj hview
  obtain ⟨r, hr, hpeer⟩ := Option.map_eq_some_iff.mp hroute
  have hreach : Daemon.Reachable (fun _ _ => True) s :=
    Reaches.runAll (.init Example.daemon_start) (by decide +kernel) hs
  exact h s hreach 0 hclean _ r hr hpeer

/-- Where cleanups are tidy, no route of a peer is left once its cleanup has finished, until the peer
sends another UPDATE. -/
theorem tidy_cleanup {s : Daemon} (h : Daemon.Reachable Daemon.Tidy s) {i : Nat}
    (hclean : (s.threads i).clean = true) (k : PrefixEntry) (r : Route)
    (hr : s.bgp.adjRibIn[k]? = some r) : r.receipt.peer ≠ i :=
  h.cleaned.rib i (Or.inr (Or.inr hclean)) k r hr

/-- The announcement is processed before the session goes down, and its route flushed. -/
def Example.tidyRun : List DaemonAction :=
  comesUp 0 1 ++ announces 0 ++ [.procAdjRibIn] ++ goesDown 0 ++ [.flush 0] ++ cleansUp 0

theorem tidy_cleanup_announced : ∃ s, runAll Daemon.step Example.tidyRun Example.daemon = some s ∧
    (s.threads 0).clean = true ∧
    ∀ (k : PrefixEntry) (r : Route), s.bgp.adjRibIn[k]? = some r → r.receipt.peer ≠ 0 := by
  have hview : (runAll Daemon.step Example.tidyRun Example.daemon).map (fun s => (s.threads 0).clean) =
      some true := by
    decide +kernel
  obtain ⟨s, hs, hclean⟩ := Option.map_eq_some_iff.mp hview
  have hreach : Daemon.Reachable Daemon.Tidy s :=
    Reaches.runAll (.init Example.daemon_start) (by decide +kernel) hs
  exact ⟨s, hs, hclean, tidy_cleanup hreach hclean⟩

/-! ## Other peers -/

/-- The second peer only claims the identifier of the first, and goes down. -/
def Example.claim : List DaemonAction :=
  comesUp 0 1 ++ announces 0 ++ [.procAdjRibIn] ++ comesUp 1 1 ++ goesDown 1

/-- A peer that claims the identifier of another flushes the other's routes. -/
theorem claimed_identifier : ¬ ∀ s, Daemon.Reachable (fun _ _ => True) s →
    ∀ (a : DaemonAction) (s' : Daemon), s.step a = some s' → ∀ j, s.owner a ≠ some j →
      Daemon.Untouched j s s' := by
  intro h
  have hview : (runAll Daemon.step Example.claim Example.daemon).map (fun s =>
      (s.bgp.adjRibIn[((0x0a, 0x0100000a) : PrefixEntry)]?.map (·.receipt.peer),
        (s.step (.flush 1)).map fun s' => s'.bgp.adjRibIn[((0x0a, 0x0100000a) : PrefixEntry)]?)) =
        some (some 0, some none) := by
    decide +kernel
  obtain ⟨s, hs, hview⟩ := Option.map_eq_some_iff.mp hview
  obtain ⟨hroute, hflush⟩ := Prod.mk.inj hview
  obtain ⟨r, hr, hpeer⟩ := Option.map_eq_some_iff.mp hroute
  obtain ⟨s', hs', hgone⟩ := Option.map_eq_some_iff.mp hflush
  have hreach : Daemon.Reachable (fun _ _ => True) s :=
    Reaches.runAll (.init Example.daemon_start) (by decide +kernel) hs
  have huntouched := h s hreach (.flush 1) s' hs' 0 (Example.flush_owner s)
  have hkept := (huntouched.routes _ r hpeer).mpr hr
  rw [hgone] at hkept
  cases hkept

/-- Where no peer claims an identifier that belongs to another, no step of a peer changes the routes
that were learned from another one, or that one's counters. -/
theorem step_untouched {s s' : Daemon} (h : Daemon.Reachable Daemon.Unclaimed s) {a : DaemonAction}
    (hs : s.step a = some s') {j : Nat} (hj : s.owner a ≠ some j) : Daemon.Untouched j s s' :=
  h.separated.untouched (Daemon.step_cases hs) hj

/-- Both peers announce a route, and the second one's session goes down. -/
def Example.twoPeers (id : UInt8) : List DaemonAction :=
  comesUp 0 1 ++ announces 0 ++ [.procAdjRibIn] ++ comesUp 1 id ++ announces 1 ++ [.procAdjRibIn] ++ goesDown 1

theorem step_untouched_flush : ∃ s s', runAll Daemon.step (Example.twoPeers 2) Example.daemon = some s ∧
    s.step (.flush 1) = some s' ∧ Daemon.Untouched 0 s s' := by
  have hview : (runAll Daemon.step (Example.twoPeers 2) Example.daemon).map
      (fun s => (s.step (.flush 1)).isSome) = some true := by
    decide +kernel
  obtain ⟨s, hs, hflush⟩ := Option.map_eq_some_iff.mp hview
  obtain ⟨s', hs'⟩ := Option.isSome_iff_exists.mp hflush
  have hreach : Daemon.Reachable Daemon.Unclaimed s :=
    Reaches.runAll (.init Example.daemon_start) (by decide +kernel) hs
  exact ⟨s, s', hs, hs', step_untouched hreach hs' (Example.flush_owner s)⟩

/-! ## Messages before the session is up -/

/-- The announcement comes after the OPEN, and is processed after the KEEPALIVE. -/
def Example.earlyRun : List DaemonAction :=
  [.thread 0 .restart, .thread 0 (.connect 1 ⟨true, true, true, true, true⟩)] ++ sendsOpen 0 1 ++
    [.thread 0 (.receive 1 .update announce10.encode []), .thread 0 (.receive 1 .keepalive [] []), .procInQ 0 1]

/-- An update that is received before the KEEPALIVE is put on the queue after it. -/
theorem early_update : ¬ ∀ (as : List DaemonAction) (s s' : Daemon), s.Start →
    runAll Daemon.step as s = some s' → Always Daemon.step Daemon.OnlyEstablished as s := by
  intro h
  have hview : (runAll Daemon.step Example.earlyRun Example.daemon).map
      (fun s => s.bgp.queues.adjRibInQ.head?.map (·.receipt.state)) = some (some .openconfirm) := by
    decide +kernel
  obtain ⟨s', hs', hhead⟩ := Option.map_eq_some_iff.mp hview
  obtain ⟨r, hr, hstate⟩ := Option.map_eq_some_iff.mp hhead
  have honly := (h Example.earlyRun Example.daemon s' Example.daemon_start hs').last hs'
  have hup := honly r (.adjRibInQ (List.mem_of_head? hr))
  rw [hstate] at hup
  cases hup

theorem Daemon.Start.onlyEstablished {s : Daemon} (h : s.Start) : s.OnlyEstablished :=
  fun r hr => absurd hr (h.not_holds r)

/-- All routes of a run come from messages that were received while Established, just where no message
that was received in another state speaks when its queue is processed. -/
theorem only_established_iff {as : List DaemonAction} {s s' : Daemon} (hs : s.Start)
    (hrun : runAll Daemon.step as s = some s') :
    Always Daemon.step Daemon.OnlyEstablished as s ↔ AllAdmissible Daemon.step Daemon.Gated as s :=
  always_iff (fun _ => True) (fun _ _ _ _ _ _ => trivial)
    (fun _ _ _ _ honly hstep => honly.step_iff (Daemon.step_cases hstep)) trivial hs.onlyEstablished hrun

/-- The announcement comes once the session is up. -/
def Example.upRun : List DaemonAction := comesUp 0 1 ++ announces 0 ++ [.procAdjRibIn]

theorem only_established_iff_up : ∃ s', runAll Daemon.step Example.upRun Example.daemon = some s' ∧
    Always Daemon.step Daemon.OnlyEstablished Example.upRun Example.daemon := by
  have hsome : (runAll Daemon.step Example.upRun Example.daemon).isSome = true := by
    decide +kernel
  obtain ⟨s', hs'⟩ := Option.isSome_iff_exists.mp hsome
  exact ⟨s', hs', (only_established_iff Example.daemon_start hs').mpr (by decide +kernel)⟩

/-! ## Identifiers -/

/-- A second OPEN brings another identifier. -/
def Example.secondOpen : List DaemonAction := upRun ++ sendsOpen 0 2

/-- A second OPEN leaves the routes under an identifier that no peer has. -/
theorem second_open : ¬ ∀ (as : List DaemonAction) (s s' : Daemon), s.Start →
    runAll Daemon.step as s = some s' → Always Daemon.step Daemon.Tracked as s := by
  intro h
  have hview : (runAll Daemon.step Example.secondOpen Example.daemon).map (fun s =>
      (s.bgp.adjRibIn[((0x0a, 0x0100000a) : PrefixEntry)]?.map (·.bgpId), s.bgp.ids)) =
        some (some 0x0100000a, [0x0200000a, 0]) := by
    decide +kernel
  obtain ⟨s', hs', hview⟩ := Option.map_eq_some_iff.mp hview
  obtain ⟨hroute, hids⟩ := Prod.mk.inj hview
  obtain ⟨r, hr, hid⟩ := Option.map_eq_some_iff.mp hroute
  have htracked := (h Example.secondOpen Example.daemon s' Example.daemon_start hs').last hs'
  have hknows : r.bgpId ∈ s'.bgp.ids := htracked.recorded _ r hr
  rw [hid, hids] at hknows
  exact absurd hknows (by decide)

/-- The routes of a run carry identifiers of its peers, just where no OPEN takes an identifier away from
routes in the RIB. -/
theorem tracked_runs_iff {as : List DaemonAction} {s s' : Daemon} (hs : s.Start)
    (hrun : runAll Daemon.step as s = some s') :
    Always Daemon.step Daemon.Tracked as s ↔ AllAdmissible Daemon.step Daemon.KeepsIds as s := by
  refine always_iff Daemon.Keyed (fun _ _ _ hkeyed _ hstep => hkeyed.step (Daemon.step_cases hstep))
    ?_ hs.keyed ((Daemon.tracked_iff hs.keyed).mpr hs.recorded) hrun
  intro s a s' hkeyed htracked hstep
  rw [Daemon.tracked_iff (hkeyed.step (Daemon.step_cases hstep))]
  exact htracked.recorded.step_iff (Daemon.step_cases hstep)

/-- A second OPEN brings the same identifier. -/
def Example.sameOpen : List DaemonAction := upRun ++ sendsOpen 0 1

theorem tracked_runs_iff_same : ∃ s', runAll Daemon.step Example.sameOpen Example.daemon = some s' ∧
    Always Daemon.step Daemon.Tracked Example.sameOpen Example.daemon := by
  have hsome : (runAll Daemon.step Example.sameOpen Example.daemon).isSome = true := by
    decide +kernel
  obtain ⟨s', hs'⟩ := Option.isSome_iff_exists.mp hsome
  exact ⟨s', hs', (tracked_runs_iff Example.daemon_start hs').mpr (by decide +kernel)⟩

/-! ## The depth of the queues -/

/-- The connection is lost with the announcement still in its queue. -/
def Example.lostRun : List DaemonAction :=
  comesUp 0 1 ++ [.thread 0 (.receive 1 .update announce10.encode [])] ++ goesDown 0 ++ cleansUp 0

/-- The message that the cleanup drops from its queue stays counted. -/
theorem lost_update : ¬ ∀ (as : List DaemonAction) (s : Daemon), s.Start → (∀ p ∈ s.bgp.threadQ, p.inQ = 0) →
    Always Daemon.step Daemon.Short as s → Always Daemon.step Daemon.Depth as s := by
  intro h
  have hshort : Always Daemon.step Daemon.Short Example.lostRun Example.daemon := by
    decide +kernel
  have hdepth := h Example.lostRun Example.daemon Example.daemon_start (by decide) hshort
  have hview : (runAll Daemon.step Example.lostRun Example.daemon).map (fun s =>
      s.bgp.threadQ.map fun p => (p.inQ, p.inQueue)) = some [(1, []), (0, [])] := by
    decide +kernel
  obtain ⟨s', hs', hpeers⟩ := Option.map_eq_some_iff.mp hview
  obtain ⟨p, hp, heq⟩ := List.mem_map.mp (hpeers.symm ▸ List.mem_cons_self)
  obtain ⟨hcount, hqueue⟩ := Prod.mk.inj heq
  have hlast : p.Depth := hdepth.last hs' p hp
  rw [BgpPeer.Depth, hcount, hqueue] at hlast
  cases hlast

/-- As long as fewer than 65536 messages are queued at a time, the depth that is displayed is that of the
queue all along a run, just where no queue is emptied with a message in it. -/
theorem inQ_depth_iff (as : List DaemonAction) {s : Daemon} (hs : s.Start) (hfresh : ∀ p ∈ s.bgp.threadQ, p.inQ = 0)
    (hshort : Always Daemon.step Daemon.Short as s) :
    Always Daemon.step Daemon.Depth as s ↔ AllAdmissible Daemon.step Daemon.EmptiesNothing as s := by
  have hdepth : s.Depth := by
    intro p hp
    rw [BgpPeer.Depth, hfresh p hp, (hs.2.2.2 p hp).2.2]
    rfl
  refine always_iff_under (fun _ => True) (fun _ _ _ _ _ _ => trivial) ?_ ?_ trivial hdepth as hshort
  · intro s a s' _ _ hshort' hdepth hstep
    exact Daemon.depth_step hdepth hshort' (Daemon.step_cases hstep)
  · intro s a _ _ hstuck
    exact Daemon.emptiesNothing_of_stuck hstuck

theorem inQ_depth_iff_tidy : Always Daemon.step Daemon.Depth Example.tidyRun Example.daemon ↔
    AllAdmissible Daemon.step Daemon.EmptiesNothing Example.tidyRun Example.daemon :=
  inQ_depth_iff Example.tidyRun Example.daemon_start (by decide) (by decide +kernel)

end Log2Bgp
