import Log2Bgp.Daemon.Lemmas.Steps

/-!
# Routes and the identifiers of the peers
-/

namespace Log2Bgp

open Lib

namespace Daemon

/-- An OPEN that is accepted with a new identifier finds no route in the RIB under the old one, unless
another peer has that one. -/
def KeepsIds (s : Daemon) : DaemonAction → Prop
  | .thread i a => ∀ p ∈ s.bgp.threadQ[i]?, ∀ bgpId ∈ a.acceptedId s.bgp.cfg p, bgpId ≠ p.bgpId →
      ∀ r ∈ s.bgp.routes, r.bgpId = p.bgpId →
        ∃ j < s.bgp.threadQ.length, j ≠ i ∧ ∃ q ∈ s.bgp.threadQ[j]?, q.bgpId = p.bgpId
  | _ => True

instance (s : Daemon) : DecidablePred s.KeepsIds := by
  intro a
  refine DaemonAction.casesOn a ?_ (fun _ => isTrue trivial) (fun _ _ => isTrue trivial)
    (isTrue trivial) (isTrue trivial)
  intro i a
  -- the identifier is that of an option: no search over all 32-bit words
  exact @Option.decidableForallMem _ _ (fun p => @Option.decidableForallMem _ _
    (fun _ => inferInstanceAs (Decidable (_ → _))) (a.acceptedId s.bgp.cfg p)) s.bgp.threadQ[i]?

/-- Each route in the RIB is stored under its own key. -/
def Keyed (s : Daemon) : Prop := ∀ (k : PrefixEntry) (r : Route), s.bgp.adjRibIn[k]? = some r → r.entry = k

/-- Each route in the RIB carries the identifier of some peer. -/
def Recorded (s : Daemon) : Prop :=
  ∀ (k : PrefixEntry) (r : Route), s.bgp.adjRibIn[k]? = some r → s.bgp.Knows r.bgpId

variable {s s' : Daemon} {a : DaemonAction}

theorem Start.keyed (h : s.Start) : s.Keyed := by
  intro k r hr
  rw [h.1, Std.ExtTreeMap.getElem?_empty] at hr
  cases hr

theorem Start.recorded (h : s.Start) : s.Recorded := by
  intro k r hr
  rw [h.1, Std.ExtTreeMap.getElem?_empty] at hr
  cases hr

theorem Keyed.moves (h : s.Keyed) {b : Bgp} (hmoves : s.Moves b) {threads : Nat → PeerThread} :
    Keyed { bgp := b, threads := threads } := by
  intro k r hr
  rcases hmoves.rib k r hr with hold | ⟨hk, _⟩
  · exact h k r hold
  · exact hk.symm

theorem Keyed.step (h : s.Keyed) (hs : s.Step a s') : s'.Keyed := by
  cases hs with
  | thread _ _ => exact h
  | @flushed i _ k _ _ _ _ => exact h.moves (moves_flushed s i k)
  | flushEnd _ _ => exact h
  | noPeer _ => exact h
  | processed _ _ => exact h
  | entered hqueue => exact h.moves (moves_entered hqueue)
  | withdrawn hqueue hb => exact h.moves (moves_withdrawn hqueue hb)

/-! ## Identifiers in the RIB -/

theorem Recorded.shrink (h : s.Recorded) {b : Bgp} (hids : b.ids = s.bgp.ids)
    (hrib : ∀ (k : PrefixEntry) (r : Route), b.adjRibIn[k]? = some r → s.bgp.adjRibIn[k]? = some r)
    (threads : Nat → PeerThread) : Recorded { bgp := b, threads := threads } := by
  intro k r hr
  have hknows : s.bgp.Knows r.bgpId := h k r (hrib k r hr)
  rw [Bgp.Knows, ← hids] at hknows
  exact hknows

/-- `peer_entry` looks for the peer of a route before it is put into the RIB. -/
theorem Recorded.entered (h : s.Recorded) (r : Route) (rest : List Route) :
    Recorded { s with bgp := s.bgp.procAdjRibInItem r rest } := by
  have hids : (s.bgp.peerEntry r).ids = s.bgp.ids := (Bgp.peerEntry_same s.bgp r).ids
  intro k r' hr'
  show r'.bgpId ∈ (s.bgp.peerEntry r).ids
  rw [hids]
  rcases Bgp.peerEntry_cases s.bgp r with ⟨_, hb⟩ | ⟨i, hi, _⟩
  · have hold : (s.bgp.peerEntry r).adjRibIn[k]? = some r' := hr'
    rw [hb] at hold
    exact h k r' hold
  · rcases Bgp.peerEntry_lookup s.bgp r k with hsame | ⟨_, hput⟩
    · exact h k r' (hsame.symm.trans hr')
    · cases hput.symm.trans hr'
      exact Bgp.knows_of_getPeer hi

theorem ids_set (b : Bgp) (i : Nat) (p' : BgpPeer) :
    Bgp.ids { b with threadQ := b.threadQ.set i p' } = b.ids.set i p'.bgpId := by
  simp only [Bgp.ids, List.map_set]

theorem ids_set_self {b : Bgp} {i : Nat} {p p' : BgpPeer} (hp : b.threadQ[i]? = some p)
    (hid : p'.bgpId = p.bgpId) : Bgp.ids { b with threadQ := b.threadQ.set i p' } = b.ids := by
  obtain ⟨hlt, rfl⟩ := List.getElem?_eq_some_iff.mp hp
  have hlt' : i < b.ids.length := by
    rw [Bgp.ids, List.length_map]
    exact hlt
  have hget : b.ids[i] = b.threadQ[i].bgpId := by
    simp only [Bgp.ids, List.getElem_map]
  rw [ids_set, hid, ← hget, List.set_getElem_self]

theorem knows_set {b : Bgp} {i : Nat} {p p' : BgpPeer} (hp : b.threadQ[i]? = some p) {bgpId : UInt32} :
    Bgp.Knows { b with threadQ := b.threadQ.set i p' } bgpId ↔
      p'.bgpId = bgpId ∨ ∃ j < b.threadQ.length, j ≠ i ∧ ∃ q ∈ b.threadQ[j]?, q.bgpId = bgpId := by
  have hlt := (List.getElem?_eq_some_iff.mp hp).1
  rw [Bgp.knows_iff]
  constructor
  · rintro ⟨q, hq, hid⟩
    obtain ⟨j, hj⟩ := List.mem_iff_getElem?.mp hq
    rcases getElem?_set_cases hj with ⟨_, rfl⟩ | ⟨hne, hold⟩
    · exact Or.inl hid
    · exact Or.inr ⟨j, (List.getElem?_eq_some_iff.mp hold).1, hne, q, hold, hid⟩
  · rintro (hid | ⟨j, _, hne, q, hq, hid⟩)
    · exact ⟨p', List.mem_set hlt p', hid⟩
    · exact ⟨q, List.mem_of_getElem? ((List.getElem?_set_ne (Ne.symm hne)).trans hq), hid⟩

theorem Recorded.accepted_iff (h : s.Recorded) {i : Nat} {p p' : BgpPeer}
    (hp : s.bgp.threadQ[i]? = some p) {threads : Nat → PeerThread} :
    Recorded { bgp := { s.bgp with threadQ := s.bgp.threadQ.set i p' }, threads := threads } ↔
      (p'.bgpId ≠ p.bgpId → ∀ r ∈ s.bgp.routes, r.bgpId = p.bgpId →
        ∃ j < s.bgp.threadQ.length, j ≠ i ∧ ∃ q ∈ s.bgp.threadQ[j]?, q.bgpId = p.bgpId) := by
  constructor
  · intro hall hne r hr hid
    obtain ⟨k, hk⟩ := Bgp.mem_routes.mp hr
    rcases (knows_set hp).mp (hall k r hk) with hnew | hother
    · exact absurd (hnew.trans hid) hne
    · rwa [hid] at hother
  · intro hkeeps k r hr
    refine (knows_set hp).mpr ?_
    by_cases hid : r.bgpId = p.bgpId
    · by_cases hne : p'.bgpId = p.bgpId
      · exact Or.inl (hne.trans hid.symm)
      · rw [hid]
        exact Or.inr (hkeeps hne r (Bgp.mem_routes.mpr ⟨k, hr⟩) hid)
    · obtain ⟨q, hq, hqid⟩ := Bgp.knows_iff.mp (h k r hr)
      obtain ⟨j, hj⟩ := List.mem_iff_getElem?.mp hq
      refine Or.inr ⟨j, (List.getElem?_eq_some_iff.mp hj).1, ?_, q, hj, hqid⟩
      rintro rfl
      rw [hp] at hj
      cases hj
      exact hid hqid.symm

/-- A step keeps the identifiers in the RIB recorded just where it keeps them itself. -/
theorem Recorded.step_iff (h : s.Recorded) (hs : s.Step a s') : s'.Recorded ↔ s.KeepsIds a := by
  cases hs with
  | @thread i act p p' t' hp hstep =>
      rw [h.accepted_iff hp]
      constructor
      · intro hkeeps q hq bgpId hid hne
        rw [hp] at hq
        cases hq
        rw [← threadStep_accepted hid hstep] at hne
        exact hkeeps hne
      · intro hkeeps hne
        obtain ⟨_, ⟨hsame, _⟩ | haccepted, _⟩ := threadStep_cases hstep
        · exact absurd hsame hne
        · exact hkeeps p hp p'.bgpId haccepted hne
  | @flushed i p k old hp hold hid =>
      refine iff_of_true (h.shrink ?_ (fun _ _ hr => (lookup_of_erase hr).2) s.threads) trivial
      exact Bgp.SameSessions.ids ⟨rfl, rfl, Bgp.map_modify (f := BgpPeer.countFlushed) (fun _ => rfl) _⟩
  | flushEnd _ _ => exact iff_of_true h trivial
  | noPeer _ => exact iff_of_true h trivial
  | processed hp hproc =>
      exact iff_of_true (h.shrink (ids_set_self hp (procInQ_cases hproc).1.bgpId) (fun _ _ hr => hr) s.threads)
        trivial
  | @entered r rest hqueue => exact iff_of_true (h.entered r rest) trivial
  | withdrawn hqueue hb =>
      refine iff_of_true (h.shrink (Bgp.withdraw_same hb).ids ?_ s.threads) trivial
      intro k r hr
      rw [Bgp.withdraw_del hb] at hr
      exact (lookup_of_erase hr).2

/-! ## The flush of a session -/

/-- Every pass of the flush loop takes a route out of the RIB, so the loop ends. -/
theorem flush_ends {i : Nat} {p : BgpPeer} (hp : s.bgp.threadQ[i]? = some p)
    (hphase : (s.threads i).phase = .flushing) :
    ∃ n s', runAll step (List.replicate n (.flush i)) s = some s' ∧ (s'.threads i).phase = .closing ∧
      ∀ (k : PrefixEntry) (r : Route), s'.bgp.adjRibIn[k]? = some r → r.bgpId ≠ p.bgpId := by
  generalize hsize : s.bgp.adjRibIn.size = m
  induction m using Nat.strongRecOn generalizing s p with
  | ind m ih =>
      have hlt := (List.getElem?_eq_some_iff.mp hp).1
      cases hflush : s.bgp.flushOne i with
      | none =>
          have hstep : s.step (.flush i) =
              some { s with threads := s.setThread i { s.threads i with phase := .closing } } := by
            simp only [step, if_pos (And.intro hphase hlt), hflush]
          refine ⟨1, { s with threads := s.setThread i { s.threads i with phase := .closing } }, ?_, ?_,
            (Bgp.flushOne_eq_none hp).mp hflush⟩
          · rw [List.replicate_one, runAll, hstep]
            rfl
          · show (s.setThread i { s.threads i with phase := .closing } i).phase = .closing
            rw [setThread_self]
      | some b =>
          have hstep : s.step (.flush i) = some { s with bgp := b } := by
            simp only [step, if_pos (And.intro hphase hlt), hflush]
          obtain ⟨q, k, old, hq, hold, hid, rfl⟩ := Bgp.flushOne_cases hflush
          rw [hp] at hq
          cases hq
          have hless : (s.bgp.adjRibIn.erase k).size < m := hsize ▸ size_erase_lt hold
          have hpeer : (s.bgp.modifyPeer i BgpPeer.countFlushed).threadQ[i]? = some p.countFlushed := by
            rw [Bgp.getElem?_modifyPeer, if_pos rfl, hp]
            rfl
          obtain ⟨n, s', hrun, hclosing, hnone⟩ := ih _ hless (s := { s with
            bgp := { s.bgp.modifyPeer i BgpPeer.countFlushed with adjRibIn := s.bgp.adjRibIn.erase k } })
            hpeer hphase rfl
          refine ⟨n + 1, s', ?_, hclosing, hnone⟩
          rw [List.replicate_succ, runAll, hstep]
          exact hrun

/-! ## What recorded identifiers are for -/

/-- Each route's identifier leads to a peer: a withdrawal that finds a route finds its peer, and the flush
of a session takes out all routes with the identifier of its peer. -/
structure Tracked (s : Daemon) : Prop where
  recorded : s.Recorded
  withdrawn : ∀ (r old : Route), s.bgp.adjRibIn[r.entry]? = some old →
    s.bgp.getPeerByUint32tBgpId r.bgpId ≠ none
  flushed : ∀ (i : Nat) (p : BgpPeer), s.bgp.threadQ[i]? = some p → (s.threads i).phase = .flushing →
    ∃ n s', runAll step (List.replicate n (.flush i)) s = some s' ∧ (s'.threads i).phase = .closing ∧
      ∀ (k : PrefixEntry) (r : Route), s'.bgp.adjRibIn[k]? = some r → r.bgpId ≠ p.bgpId

theorem tracked_iff (hkeyed : s.Keyed) : s.Tracked ↔ s.Recorded := by
  constructor
  · exact Tracked.recorded
  · intro h
    refine ⟨h, ?_, fun i p hp hphase => flush_ends hp hphase⟩
    intro r old hold hnone
    have hid : old.bgpId = r.bgpId := congrArg Prod.snd (hkeyed r.entry old hold)
    obtain ⟨i, hi⟩ := (hid ▸ h r.entry old hold).getPeer
    rw [hnone] at hi
    cases hi

end Daemon

end Log2Bgp
