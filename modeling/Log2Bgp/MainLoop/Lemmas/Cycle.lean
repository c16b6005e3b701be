import Mathlib.Data.List.Basic
import Log2Bgp.Lib.Lists
import Log2Bgp.MainLoop.Lemmas.Pass

/-!
# What a cycle does to the RIB
-/

namespace Log2Bgp

open Lib

/-! ## The order of the changes -/

variable {now : TimeT} {bgpId : UInt32} {ms : List Received} {r : Route}

theorem bgpId_of_announcedAll (h : r ∈ announcedAll now bgpId ms) : r.bgpId = bgpId := by
  obtain ⟨m, _, hr⟩ := List.mem_flatMap.mp h
  obtain ⟨p, _, rfl⟩ := List.mem_map.mp hr
  rfl

theorem bgpId_of_withdrawalsAll (h : r ∈ withdrawalsAll now bgpId ms) : r.bgpId = bgpId := by
  obtain ⟨m, _, hr⟩ := List.mem_flatMap.mp h
  obtain ⟨p, _, rfl⟩ := List.mem_map.mp hr
  rfl

theorem isPut_of_putsOf {op : MapOp PrefixEntry Route} (h : op ∈ putsOf now bgpId ms) :
    op.isPut = true ∧ op.key.2 = bgpId := by
  obtain ⟨r, hr, rfl⟩ := List.mem_map.mp h
  exact ⟨rfl, bgpId_of_announcedAll hr⟩

theorem isPut_of_delsOf {op : MapOp PrefixEntry Route} (h : op ∈ delsOf now bgpId ms) :
    op.isPut = false ∧ op.key.2 = bgpId := by
  obtain ⟨r, hr, rfl⟩ := List.mem_map.mp h
  exact ⟨rfl, bgpId_of_withdrawalsAll hr⟩

theorem putsOf_flatMap (arrivals : List Arrival) :
    putsOf now bgpId (arrivals.flatMap Arrival.received) =
      arrivals.flatMap fun a => putsOf now bgpId a.received := by
  simp only [putsOf, announcedAll, List.flatMap_assoc, List.map_flatMap]

theorem delsOf_flatMap (arrivals : List Arrival) :
    delsOf now bgpId (arrivals.flatMap Arrival.received) =
      arrivals.flatMap fun a => delsOf now bgpId a.received := by
  simp only [delsOf, withdrawalsAll, List.flatMap_assoc, List.map_flatMap]

namespace Bgp

variable {b b' : Bgp} {c : Cycle}

/-- The changes that the main loop makes: peer by peer, and all puts before all deletions. -/
def passOps (b : Bgp) (c : Cycle) : List (MapOp PrefixEntry Route) :=
  (List.range b.threadQ.length).flatMap (fun i => putsOf c.now (b.idOf i) (receivedFrom i c.arrivals)) ++
    (List.range b.threadQ.length).flatMap fun i => delsOf c.now (b.idOf i) (receivedFrom i c.arrivals)

theorem putsFirst_ops (b : Bgp) (c : Cycle) : putsFirst (c.ops b) =
    c.arrivals.flatMap (fun a => putsOf c.now (b.idOf a.peer) a.received) ++
      c.arrivals.flatMap fun a => delsOf c.now (b.idOf a.peer) a.received := by
  have hputs : ∀ a : Arrival, (a.ops b c.now).filter MapOp.isPut = putsOf c.now (b.idOf a.peer) a.received := by
    intro a
    have hall : (putsOf c.now (b.idOf a.peer) a.received).filter MapOp.isPut =
        putsOf c.now (b.idOf a.peer) a.received :=
      List.filter_eq_self.mpr fun op hop => (isPut_of_putsOf hop).1
    have hnone : (delsOf c.now (b.idOf a.peer) a.received).filter MapOp.isPut = [] :=
      List.filter_eq_nil_iff.mpr fun op hop => by simp [(isPut_of_delsOf hop).1]
    rw [Arrival.ops, List.filter_append, hall, hnone, List.append_nil]
  have hdels : ∀ a : Arrival, (a.ops b c.now).filter (!·.isPut) = delsOf c.now (b.idOf a.peer) a.received := by
    intro a
    have hall : (delsOf c.now (b.idOf a.peer) a.received).filter (!·.isPut) =
        delsOf c.now (b.idOf a.peer) a.received :=
      List.filter_eq_self.mpr fun op hop => by simp [(isPut_of_delsOf hop).1]
    have hnone : (putsOf c.now (b.idOf a.peer) a.received).filter (!·.isPut) = [] :=
      List.filter_eq_nil_iff.mpr fun op hop => by simp [(isPut_of_putsOf hop).1]
    rw [Arrival.ops, List.filter_append, hall, hnone, List.nil_append]
  simp only [putsFirst, Cycle.ops, List.filter_flatMap, hputs, hdels]

/-- The messages of a cycle come from established peers. -/
def FromEstablished (b : Bgp) (c : Cycle) : Prop :=
  ∀ a ∈ c.arrivals, ∃ p, b.threadQ[a.peer]? = some p ∧ p.state = .established

theorem FromEstablished.lt (h : b.FromEstablished c) {a : Arrival} (ha : a ∈ c.arrivals) :
    a.peer < b.threadQ.length := by
  obtain ⟨p, hp, _⟩ := h a ha
  exact (List.getElem?_eq_some_iff.mp hp).1

/-- Going peer by peer keeps the order of the changes of each key, as only one peer changes it. -/
theorem opsOn_grouped (hdistinct : b.DistinctEstablished) (hfrom : b.FromEstablished c)
    {f : Arrival → List (MapOp PrefixEntry Route)}
    (hkey : ∀ a, ∀ op ∈ f a, op.key.2 = b.idOf a.peer) (k : PrefixEntry) :
    opsOn k ((List.range b.threadQ.length).flatMap fun i =>
        (c.arrivals.filter (·.peer = i)).flatMap f) = opsOn k (c.arrivals.flatMap f) := by
  have hid : ∀ a, opsOn k (f a) ≠ [] → k.2 = b.idOf a.peer := by
    intro a hne
    obtain ⟨op, hop⟩ := List.exists_mem_of_ne_nil _ hne
    obtain ⟨hmem, rfl⟩ := mem_opsOn.mp hop
    exact hkey a op hmem
  have hgrouped := flatMap_grouped (f := fun a => opsOn k (f a)) (fun a ha => hfrom.lt ha) (by
    intro x hx y hy hfx hfy
    obtain ⟨p, hp, hpup⟩ := hfrom x hx
    obtain ⟨q, hq, hqup⟩ := hfrom y hy
    refine hdistinct _ _ p q hp hq hpup hqup ?_
    rw [← idOf_eq hp, ← idOf_eq hq, ← hid x hfx, ← hid y hfy])
  simpa only [opsOn, List.filter_flatMap] using hgrouped

theorem opsOn_passOps (hdistinct : b.DistinctEstablished) (hfrom : b.FromEstablished c)
    (k : PrefixEntry) : opsOn k (b.passOps c) = opsOn k (putsFirst (c.ops b)) := by
  have hpeer : ∀ (i : Nat) (f : UInt32 → Arrival → List (MapOp PrefixEntry Route)),
      (c.arrivals.filter (·.peer = i)).flatMap (f (b.idOf i)) =
        (c.arrivals.filter (·.peer = i)).flatMap fun a => f (b.idOf a.peer) a := by
    intro i f
    apply List.flatMap_congr
    intro a ha
    rw [of_decide_eq_true (List.mem_filter.mp ha).2]
  have hputs := opsOn_grouped (k := k) hdistinct hfrom
    (f := fun a => putsOf c.now (b.idOf a.peer) a.received) fun a op hop => (isPut_of_putsOf hop).2
  have hdels := opsOn_grouped (k := k) hdistinct hfrom
    (f := fun a => delsOf c.now (b.idOf a.peer) a.received) fun a op hop => (isPut_of_delsOf hop).2
  rw [putsFirst_ops, passOps, opsOn_append, opsOn_append, ← hputs, ← hdels]
  simp only [receivedFrom, putsOf_flatMap, delsOf_flatMap,
    hpeer _ fun bgpId a => putsOf c.now bgpId a.received,
    hpeer _ fun bgpId a => delsOf c.now bgpId a.received]

theorem applyOps_passOps (hdistinct : b.DistinctEstablished) (hfrom : b.FromEstablished c) (m : BgpAdjRib) :
    applyOps (b.passOps c) m = applyOps (putsFirst (c.ops b)) m := by
  apply applyOps_congr
  intro k
  rw [lastOn, lastOn, opsOn_passOps hdistinct hfrom]

/-! ## A whole cycle -/

/-- The conditions of a run of one cycle. -/
structure CycleUp (b : Bgp) (c : Cycle) : Prop where
  idle : b.Idle
  distinct : b.DistinctEstablished
  kinds : ∀ a ∈ c.arrivals, a.message.OneKind
  established : b.FromEstablished c
  inTime : ∀ b', arriveAll c.arrivals b = .ok b' → ∀ p ∈ b'.threadQ, p.state = .established → p.InTime c.now

theorem handled_of_oneKind {i : Nat} (h : ∀ a ∈ c.arrivals, a.message.OneKind) :
    ∀ m ∈ receivedFrom i c.arrivals, m.1.Handled := by
  intro m hm
  obtain ⟨a, ha, hm⟩ := List.mem_flatMap.mp hm
  have hkind := h a (List.mem_filter.mp ha).1
  obtain ⟨j, conn, time, message⟩ := a
  cases message with
  | keepalive => cases hm
  | update body =>
      cases List.mem_singleton.mp hm
      intro hw
      rcases hkind with hnone | ⟨hattribs, hnlri⟩
      · exact absurd hnone hw
      · refine ⟨hnlri, ?_⟩
        rw [UpdateBody.attribBytes, hattribs]
        decide

theorem expected_of_arrived (hup : b.CycleUp c) (hb : arriveAll c.arrivals b = .ok b')
    (harrived : Arrived c.arrivals b b') :
    ∀ i ∈ List.range b'.threadQ.length, ∃ p, b'.threadQ[i]? = some p ∧
      Expected c.now p (receivedFrom i c.arrivals) := by
  intro i hi
  have hp := List.getElem?_eq_getElem (List.mem_range.mp hi)
  obtain ⟨q, hq, hqueue⟩ := harrived.peer i _ hp
  obtain ⟨q', hq', _, hstate⟩ := sessions_get harrived.sessions hp
  rw [hq] at hq'
  cases hq'
  refine ⟨_, hp, ?_, handled_of_oneKind hup.kinds, ?_, ?_⟩
  · rw [hqueue, hup.idle.inQueues q (List.mem_of_getElem? hq), List.nil_append]
  · intro hest
    exact hup.inTime b' hb _ (List.mem_of_getElem? hp) hest
  · intro hnot
    rw [receivedFrom, List.flatMap_eq_nil_iff]
    intro a ha
    obtain ⟨hmem, howned⟩ := List.mem_filter.mp ha
    obtain ⟨p, hpa, hpup⟩ := hup.established a hmem
    rw [of_decide_eq_true howned, hq] at hpa
    cases hpa
    exact absurd (hstate.trans hpup) hnot

/-- A cycle makes the changes that its messages ask for, the puts first. -/
theorem cycle_eq (hup : b.CycleUp c) :
    ∃ b', b.cycle c = .ok b' ∧ b'.Idle ∧ b'.sessions = b.sessions ∧
      b'.adjRibIn = applyOps (putsFirst (c.ops b)) b.adjRibIn := by
  obtain ⟨b₁, hb₁, harrived⟩ := arriveAll_eq c.arrivals b hup.established
  obtain ⟨b₂, hb₂, hcollected⟩ := procInQs_eq c.now (fun i => receivedFrom i c.arrivals)
    (List.range b₁.threadQ.length) b₁ List.nodup_range (expected_of_arrived hup hb₁ harrived)
  have hqueues : b₁.queues = {} := harrived.queues.trans hup.idle.queues
  have hidOf : b₁.idOf = b.idOf := funext (idOf_of_sessions harrived.sessions)
  have hlength := length_of_sessions harrived.sessions
  have hqueues₂ : b₂.queues =
      { adjRibInQ := (List.range b.threadQ.length).flatMap fun i =>
          announcedAll c.now (b.idOf i) (receivedFrom i c.arrivals)
        adjRibInWdrawQ := (List.range b.threadQ.length).flatMap fun i =>
          withdrawalsAll c.now (b.idOf i) (receivedFrom i c.arrivals) } := by
    have hin := hcollected.announced
    have hwdraw := hcollected.withdrawn
    rw [hqueues, hidOf, hlength, List.nil_append] at hin hwdraw
    exact RibQueues.ext hin hwdraw
  have hids₂ : b₂.ids = b.ids := (ids_of_sessions hcollected.sessions).trans (ids_of_sessions harrived.sessions)
  have hknown : ∀ i < b.threadQ.length, b.idOf i ∈ b.ids := by
    intro i hi
    rw [idOf_eq (List.getElem?_eq_getElem hi)]
    exact List.mem_map_of_mem (List.getElem_mem hi)
  -- the updates of all peers are put into the RIB
  obtain ⟨hputs, hqueues₃⟩ := procAdjRibInQueue_eq b₂ (by
    intro r hr
    rw [hqueues₂] at hr
    obtain ⟨i, hi, hr⟩ := List.mem_flatMap.mp hr
    rw [Knows, hids₂, bgpId_of_announcedAll hr]
    exact hknown i (List.mem_range.mp hi))
  -- and then what they withdraw is taken out of it
  obtain ⟨b', hb', hdels, hqueues'⟩ := procAdjRibWdrawQueue_eq b₂.procAdjRibInQueue (by
    intro r hr
    rw [hqueues₃, hqueues₂] at hr
    obtain ⟨i, hi, hr⟩ := List.mem_flatMap.mp hr
    rw [Knows, hputs.ids, hids₂, bgpId_of_withdrawalsAll hr]
    exact hknown i (List.mem_range.mp hi))
  have hpeers := hdels.peers.trans hputs.peers
  refine ⟨b', ?_, ⟨?_, ?_⟩, ?_, ?_⟩
  · simp only [cycle, hb₁, mainLoop, hb₂, Checked.ok_bind]
    exact hb'
  · rw [hqueues', hqueues₃]
  · intro p hp
    obtain ⟨i, hi⟩ := List.getElem?_of_mem hp
    have hget := congrArg (·[i]?) hpeers
    simp only [List.getElem?_map, hi, Option.map_some] at hget
    cases hq : b₂.threadQ[i]? with
    | none => rw [hq] at hget; cases hget
    | some q =>
        rw [hq, Option.map_some, Option.some.injEq] at hget
        have hlt : i < b₂.threadQ.length := (List.getElem?_eq_some_iff.mp hq).1
        rw [length_of_sessions hcollected.sessions] at hlt
        have hnone := hcollected.empty i (List.mem_range.mpr hlt) q hq
        exact (congrArg BgpPeer.inQueue hget).trans hnone
  · have hsame := congrArg (List.map fun p : BgpPeer => (p.bgpId, p.state)) hpeers
    rw [List.map_map, List.map_map] at hsame
    exact hsame.trans (hcollected.sessions.trans harrived.sessions)
  · rw [hdels.rib, hputs.rib, hcollected.rib, harrived.rib, ← applyOps_append, hqueues₃, hqueues₂,
      ← applyOps_passOps hup.distinct hup.established, passOps]
    simp only [List.map_flatMap]
    rfl

end Bgp

end Log2Bgp
