import Log2Bgp.Daemon.Lemmas.Steps

/-!
# Routes and the identifiers they are tagged with
-/

namespace Log2Bgp

open Lib

namespace Daemon

/-- An OPEN is accepted only with an identifier that no other peer has, and that no route of another
peer carries. -/
def Unclaimed (s : Daemon) : DaemonAction → Prop
  | .thread i a => ∀ p ∈ s.bgp.threadQ[i]?, ∀ bgpId ∈ a.acceptedId s.bgp.cfg p,
      (∀ j < s.bgp.threadQ.length, j ≠ i → ∀ q ∈ s.bgp.threadQ[j]?, q.bgpId ≠ bgpId) ∧
        ∀ r ∈ s.bgp.routes ++ s.bgp.queues.adjRibInQ ++ s.bgp.queues.adjRibInWdrawQ,
          r.receipt.peer ≠ i → r.bgpId ≠ bgpId
  | _ => True

instance (s : Daemon) : DecidablePred s.Unclaimed := by
  intro a
  refine DaemonAction.casesOn a ?_ (fun _ => isTrue trivial) (fun _ _ => isTrue trivial)
    (isTrue trivial) (isTrue trivial)
  intro i a
  -- the identifier is that of an option: no search over all 32-bit words
  exact @Option.decidableForallMem _ _ (fun p => @Option.decidableForallMem _ _
    (fun _ => instDecidableAnd) (a.acceptedId s.bgp.cfg p)) s.bgp.threadQ[i]?

variable {s s' : Daemon} {a : DaemonAction}

theorem holds_iff_mem {r : Route} :
    s.Holds r ↔ r ∈ s.bgp.routes ++ s.bgp.queues.adjRibInQ ++ s.bgp.queues.adjRibInWdrawQ := by
  simp only [holds_iff, List.mem_append, Bgp.mem_routes, or_assoc]

/-- What such OPENs keep: a route's identifier is that of no peer but its source, and routes with one
identifier come from one peer. -/
structure Separated (s : Daemon) : Prop where
  receipts : s.Receipts
  keyed : ∀ (k : PrefixEntry) (r : Route), s.bgp.adjRibIn[k]? = some r → r.entry = k
  owned : ∀ r, s.Holds r → ∀ (j : Nat) (q : BgpPeer), s.bgp.threadQ[j]? = some q →
    q.bgpId = r.bgpId → r.receipt.peer = j
  sources : ∀ r r', s.Holds r → s.Holds r' → r.bgpId = r'.bgpId → r.receipt.peer = r'.receipt.peer
  confirmed : ∀ (i j : Nat) (p q : BgpPeer), s.bgp.threadQ[i]? = some p → s.bgp.threadQ[j]? = some q →
    p.Confirmed → p.bgpId = q.bgpId → i = j

theorem Start.not_holds (h : s.Start) (r : Route) : ¬ s.Holds r := by
  obtain ⟨hrib, hqueues, _, _⟩ := h
  intro hr
  cases hr with
  | rib k hk =>
      rw [hrib, Std.ExtTreeMap.getElem?_empty] at hk
      cases hk
  | adjRibInQ hr =>
      rw [hqueues] at hr
      cases hr
  | adjRibInWdrawQ hr =>
      rw [hqueues] at hr
      cases hr

theorem Start.separated (h : s.Start) : s.Separated := by
  refine ⟨h.receipts, ?_, ?_, ?_, ?_⟩
  · intro k r hr
    exact absurd (.rib k hr) (h.not_holds r)
  · intro r hr
    exact absurd hr (h.not_holds r)
  · intro r r' hr
    exact absurd hr (h.not_holds r)
  · intro i j p q hp _ hconfirmed
    exact absurd hconfirmed (BgpPeer.not_confirmed_of_idle (h.2.2.2 p (List.mem_of_getElem? hp)).2.1)

/-! ## Steps that move routes, or drop them -/

theorem Separated.moves (h : s.Separated) {b : Bgp} (hmoves : s.Moves b) (threads : Nat → PeerThread) :
    Separated { bgp := b, threads := threads } := by
  refine ⟨h.receipts.same hmoves.peers threads, ?_, ?_, ?_, ?_⟩
  · intro k r hr
    rcases hmoves.rib k r hr with hold | ⟨hk, _⟩
    · exact h.keyed k r hold
    · exact hk.symm
  · intro r hr j q hq hid
    obtain ⟨q₀, hq₀, huncounted⟩ := hmoves.peers j q hq
    exact h.owned r (hmoves.holds hr) j q₀ hq₀ ((BgpPeer.bgpId_of_uncounted huncounted).symm.trans hid)
  · intro r r' hr hr'
    exact h.sources r r' (hmoves.holds hr) (hmoves.holds hr')
  · intro i j p q hp hq hconfirmed hid
    obtain ⟨p₀, hp₀, hpu⟩ := hmoves.peers i p hp
    obtain ⟨q₀, hq₀, hqu⟩ := hmoves.peers j q hq
    have hstate : p.uncounted.state = p₀.uncounted.state := by
      rw [hpu]
    rw [BgpPeer.bgpId_of_uncounted hpu, BgpPeer.bgpId_of_uncounted hqu] at hid
    have hconfirmed₀ : p₀.Confirmed := by
      rcases hconfirmed with hc | hc
      · exact Or.inl (hstate.symm.trans hc)
      · exact Or.inr (hstate.symm.trans hc)
    exact h.confirmed i j p₀ q₀ hp₀ hq₀ hconfirmed₀ hid

/-! ## Steps that change one peer -/

theorem Separated.set (h : s.Separated) {i : Nat} {p p' : BgpPeer} {q' : RibQueues}
    {threads : Nat → PeerThread} (hp : s.bgp.threadQ[i]? = some p) (hid : p'.bgpId = p.bgpId)
    (hconfirmed : p'.Confirmed → p.Confirmed)
    (hreceipts : Receipts
      { bgp := { s.bgp with threadQ := s.bgp.threadQ.set i p', queues := q' }, threads := threads })
    (hholds : ∀ r, Holds
        { bgp := { s.bgp with threadQ := s.bgp.threadQ.set i p', queues := q' }, threads := threads } r →
      s.Holds r ∨ (p.Confirmed ∧ r.bgpId = p.bgpId ∧ r.receipt.peer = i)) :
    Separated
      { bgp := { s.bgp with threadQ := s.bgp.threadQ.set i p', queues := q' }, threads := threads } := by
  have hpeers : ∀ (j : Nat) (q : BgpPeer), (s.bgp.threadQ.set i p')[j]? = some q →
      ∃ q₀, s.bgp.threadQ[j]? = some q₀ ∧ q.bgpId = q₀.bgpId ∧ (q.Confirmed → q₀.Confirmed) := by
    intro j q hq
    rcases getElem?_set_cases hq with ⟨rfl, rfl⟩ | ⟨_, hold⟩
    · exact ⟨p, hp, hid, hconfirmed⟩
    · exact ⟨q, hold, rfl, id⟩
  refine ⟨hreceipts, h.keyed, ?_, ?_, ?_⟩
  · intro r hr j q hq hqid
    obtain ⟨q₀, hq₀, hqid₀, _⟩ := hpeers j q hq
    rcases hholds r hr with hold | ⟨hconf, hrid, hpeer⟩
    · exact h.owned r hold j q₀ hq₀ (hqid₀.symm.trans hqid)
    · rw [hpeer]
      exact h.confirmed i j p q₀ hp hq₀ hconf (hrid.symm.trans (hqid.symm.trans hqid₀))
  · intro r r' hr hr' hrid
    rcases hholds r hr with hold | ⟨hconf, hid₁, hpeer⟩
    · rcases hholds r' hr' with hold' | ⟨_, hid₂, hpeer'⟩
      · exact h.sources r r' hold hold' hrid
      · rw [hpeer']
        exact h.owned r hold i p hp (hid₂.symm.trans hrid.symm)
    · rcases hholds r' hr' with hold' | ⟨_, _, hpeer'⟩
      · rw [hpeer]
        exact (h.owned r' hold' i p hp (hid₁.symm.trans hrid)).symm
      · rw [hpeer, hpeer']
  · intro j k q r hq hr hconf hqr
    obtain ⟨q₀, hq₀, hqid, hqconf⟩ := hpeers j q hq
    obtain ⟨r₀, hr₀, hrid, _⟩ := hpeers k r hr
    exact h.confirmed j k q₀ r₀ hq₀ hr₀ (hqconf hconf) (hqid.symm.trans (hqr.trans hrid))

theorem Separated.accepted (h : s.Separated) {i : Nat} {p' : BgpPeer} {threads : Nat → PeerThread}
    (hothers : ∀ j < s.bgp.threadQ.length, j ≠ i → ∀ q ∈ s.bgp.threadQ[j]?, q.bgpId ≠ p'.bgpId)
    (hroutes : ∀ r, s.Holds r → r.receipt.peer ≠ i → r.bgpId ≠ p'.bgpId)
    (hreceipts : Receipts
      { bgp := { s.bgp with threadQ := s.bgp.threadQ.set i p' }, threads := threads }) :
    Separated { bgp := { s.bgp with threadQ := s.bgp.threadQ.set i p' }, threads := threads } := by
  have hother : ∀ (j : Nat) (q : BgpPeer), j ≠ i → s.bgp.threadQ[j]? = some q → q.bgpId ≠ p'.bgpId :=
    fun j q hj hq => hothers j (List.getElem?_eq_some_iff.mp hq).1 hj q hq
  have hholds : ∀ r, Holds
      { bgp := { s.bgp with threadQ := s.bgp.threadQ.set i p' }, threads := threads } r → s.Holds r :=
    fun r hr => holds_of_eq hr rfl rfl
  refine ⟨hreceipts, h.keyed, ?_, ?_, ?_⟩
  · intro r hr j q hq hid
    rcases getElem?_set_cases hq with ⟨rfl, rfl⟩ | ⟨_, hold⟩
    · by_contra hpeer
      exact hroutes r (hholds r hr) hpeer hid.symm
    · exact h.owned r (hholds r hr) j q hold hid
  · intro r r' hr hr'
    exact h.sources r r' (hholds r hr) (hholds r' hr')
  · intro j k q r hq hr hconf hid
    rcases getElem?_set_cases hq with ⟨rfl, rfl⟩ | ⟨hj, holdq⟩
    · rcases getElem?_set_cases hr with ⟨rfl, rfl⟩ | ⟨hk, holdr⟩
      · rfl
      · exact absurd hid.symm (hother k r hk holdr)
    · rcases getElem?_set_cases hr with ⟨rfl, rfl⟩ | ⟨hk, holdr⟩
      · exact absurd hid (hother j q hj holdq)
      · exact h.confirmed j k q r holdq holdr hconf hid

/-- Processing its queue, a peer adds routes under the identifier that its OPEN was accepted with. -/
theorem Separated.processed (h : s.Separated) {i : Nat} {now : TimeT} {p p' : BgpPeer} {q' : RibQueues}
    (hp : s.bgp.threadQ[i]? = some p) (hproc : Log2Bgp.procInQ now p s.bgp.queues = .ok (p', q'))
    (hreceipts : Receipts
      { s with bgp := { s.bgp with threadQ := s.bgp.threadQ.set i p', queues := q' } }) :
    Separated { s with bgp := { s.bgp with threadQ := s.bgp.threadQ.set i p', queues := q' } } := by
  obtain ⟨hkept, hcases⟩ := procInQ_cases hproc
  have hconfirmed : p'.Confirmed → p.Confirmed := by
    intro hconf
    rcases hkept.state with hsame | hidle
    · rcases hconf with hc | hc
      · exact Or.inl (hsame.symm.trans hc)
      · exact Or.inr (hsame.symm.trans hc)
    · exact absurd hconf (BgpPeer.not_confirmed_of_idle hidle)
  refine h.set hp hkept.bgpId hconfirmed hreceipts ?_
  intro r hr
  rcases hcases with ⟨hqueues, _⟩ | ⟨hin, _, ins, dels, happended⟩
  · exact Or.inl (holds_of_eq hr rfl hqueues)
  · have hnew : r ∈ ins ++ dels → p.Confirmed ∧ r.bgpId = p.bgpId ∧ r.receipt.peer = i := by
      intro hmem
      obtain ⟨hid, d, hd, hreceipt⟩ := happended.tags r hmem
      refine ⟨Or.inr hin.state, hid, ?_⟩
      rw [hreceipt]
      exact h.receipts i p hp d hd
    cases hr with
    | rib k hk => exact Or.inl (.rib k hk)
    | adjRibInQ hr =>
        have hmem : r ∈ q'.adjRibInQ := hr
        rw [happended.adjRibInQ] at hmem
        rcases List.mem_append.mp hmem with hold | hins
        · exact Or.inl (.adjRibInQ hold)
        · exact Or.inr (hnew (List.mem_append_left dels hins))
    | adjRibInWdrawQ hr =>
        have hmem : r ∈ q'.adjRibInWdrawQ := hr
        rw [happended.adjRibInWdrawQ] at hmem
        rcases List.mem_append.mp hmem with hold | hdels
        · exact Or.inl (.adjRibInWdrawQ hold)
        · exact Or.inr (hnew (List.mem_append_right ins hdels))

theorem Separated.step (h : s.Separated) (hunclaimed : s.Unclaimed a) (hs : s.Step a s') : s'.Separated := by
  have hreceipts := h.receipts.step hs
  cases hs with
  | @thread i act p p' t' hp hstep =>
      obtain ⟨_, ⟨hid, hconfirmed⟩ | haccepted, _⟩ := threadStep_cases hstep
      · exact h.set hp hid hconfirmed hreceipts
          fun r hr => Or.inl (holds_of_eq hr rfl rfl)
      · obtain ⟨hothers, hroutes⟩ := hunclaimed p hp p'.bgpId haccepted
        exact h.accepted hothers (fun r hr => hroutes r (holds_iff_mem.mp hr)) hreceipts
  | @flushed i _ k _ _ _ _ => exact h.moves (moves_flushed s i k) s.threads
  | flushEnd _ _ => exact h.moves (Moves.refl s) _
  | noPeer _ => exact h
  | processed hp hproc => exact h.processed hp hproc hreceipts
  | entered hqueue => exact h.moves (moves_entered hqueue) s.threads
  | withdrawn hqueue hb => exact h.moves (moves_withdrawn hqueue hb) s.threads

/-! ## What a step leaves alone -/

/-- The peer that a step belongs to. An item of a queue belongs to the peer that it was learned from. -/
def owner (s : Daemon) : DaemonAction → Option Nat
  | .thread i _ => some i
  | .flush i => some i
  | .procInQ i _ => some i
  | .procAdjRibIn => s.bgp.queues.adjRibInQ.head?.map (·.receipt.peer)
  | .procAdjRibWdraw => s.bgp.queues.adjRibInWdrawQ.head?.map (·.receipt.peer)

/-- The routes that were learned from a peer, and its counters, are as before. -/
structure Untouched (j : Nat) (s s' : Daemon) : Prop where
  routes : ∀ (k : PrefixEntry) (r : Route), r.receipt.peer = j →
    (s'.bgp.adjRibIn[k]? = some r ↔ s.bgp.adjRibIn[k]? = some r)
  counters : s'.bgp.threadQ[j]?.map BgpPeer.counters = s.bgp.threadQ[j]?.map BgpPeer.counters

variable {j : Nat}

/-- The peer that an identifier of a route leads to is the one it was learned from. -/
theorem Separated.getPeer (h : s.Separated) {r : Route} (hr : s.Holds r) {i : Nat}
    (hi : s.bgp.getPeerByUint32tBgpId r.bgpId = some i) : r.receipt.peer = i := by
  obtain ⟨p, hp, hid⟩ := Bgp.getPeer_eq_some hi
  exact h.owned r hr i p hp hid

theorem Separated.source (h : s.Separated) {r old : Route} (hr : s.Holds r)
    (hold : s.bgp.adjRibIn[r.entry]? = some old) : old.receipt.peer = r.receipt.peer :=
  h.sources old r (.rib r.entry hold) hr (congrArg Prod.snd (h.keyed r.entry old hold))

theorem counters_modifyPeer {b : Bgp} {i : Nat} {f : BgpPeer → BgpPeer} (hne : i ≠ j) :
    (b.modifyPeer i f).threadQ[j]?.map BgpPeer.counters = b.threadQ[j]?.map BgpPeer.counters := by
  rw [Bgp.getElem?_modifyPeer, if_neg hne]

/-- A key that changes held no route of the peer, and does not hold one afterwards. -/
theorem routes_iff {rib rib' : BgpAdjRib} {k₀ : PrefixEntry} (hother : ∀ k, k ≠ k₀ → rib'[k]? = rib[k]?)
    (hold : ∀ r : Route, rib[k₀]? = some r → r.receipt.peer ≠ j)
    (hnew : ∀ r : Route, rib'[k₀]? = some r → r.receipt.peer ≠ j) (k : PrefixEntry) (r : Route)
    (hr : r.receipt.peer = j) : rib'[k]? = some r ↔ rib[k]? = some r := by
  by_cases hk : k = k₀
  · subst hk
    constructor
    · intro h
      exact absurd hr (hnew r h)
    · intro h
      exact absurd hr (hold r h)
  · rw [hother k hk]

theorem erase_other (rib : BgpAdjRib) {k₀ k : PrefixEntry} (h : k ≠ k₀) : (rib.erase k₀)[k]? = rib[k]? := by
  rw [lookup_erase, if_neg h]

theorem erase_self (rib : BgpAdjRib) (k₀ : PrefixEntry) : (rib.erase k₀)[k₀]? = none := by
  rw [lookup_erase, if_pos rfl]

theorem Separated.untouched (h : s.Separated) (hs : s.Step a s') (hj : s.owner a ≠ some j) :
    Untouched j s s' := by
  cases hs with
  | @thread i act p p' t' hp hstep =>
      have hne : i ≠ j := fun he => hj (congrArg some he)
      exact ⟨fun _ _ _ => Iff.rfl, congrArg _ (List.getElem?_set_ne hne)⟩
  | @flushed i p k old hp hold hid =>
      have hne : i ≠ j := fun he => hj (congrArg some he)
      have hsource : old.receipt.peer = i := h.owned old (.rib k hold) i p hp hid.symm
      refine ⟨routes_iff (fun k' hk' => erase_other _ hk') ?_ ?_, counters_modifyPeer hne⟩
      · intro r hr
        rw [hold] at hr
        cases hr
        rw [hsource]
        exact hne
      · intro r hr
        rw [erase_self] at hr
        cases hr
  | flushEnd _ _ => exact ⟨fun _ _ _ => Iff.rfl, rfl⟩
  | noPeer _ => exact ⟨fun _ _ _ => Iff.rfl, rfl⟩
  | @processed i now p p' q' hp hproc =>
      have hne : i ≠ j := fun he => hj (congrArg some he)
      exact ⟨fun _ _ _ => Iff.rfl, congrArg _ (List.getElem?_set_ne hne)⟩
  | @entered r rest hqueue =>
      have hholds : s.Holds r := .adjRibInQ (by rw [hqueue]; exact List.mem_cons_self)
      have hne : r.receipt.peer ≠ j := by
        intro he
        apply hj
        rw [owner, hqueue]
        exact congrArg some he
      have hold : ∀ old : Route, s.bgp.adjRibIn[r.entry]? = some old → old.receipt.peer ≠ j := by
        intro old ho
        rw [h.source hholds ho]
        exact hne
      refine ⟨routes_iff ?_ hold ?_, ?_⟩
      · intro k hk
        rcases Bgp.peerEntry_lookup s.bgp r k with hsame | ⟨heq, _⟩
        · exact hsame
        · exact absurd heq hk
      · intro new hnew
        rcases Bgp.peerEntry_lookup s.bgp r r.entry with hsame | ⟨_, hput⟩
        · exact hold new (hsame.symm.trans hnew)
        · have heq : some r = some new := hput.symm.trans hnew
          cases heq
          exact hne
      · show (s.bgp.peerEntry r).threadQ[j]?.map BgpPeer.counters = _
        rcases Bgp.peerEntry_cases s.bgp r with ⟨_, hb⟩ | ⟨i, hi, ⟨old, _, hb⟩ | ⟨_, hb⟩⟩
        · rw [hb]
        · rw [hb]
          rw [h.getPeer hholds hi] at hne
          exact counters_modifyPeer hne
        · rw [hb]
          rw [h.getPeer hholds hi] at hne
          exact counters_modifyPeer hne
  | @withdrawn r rest b hqueue hb =>
      have hholds : s.Holds r := .adjRibInWdrawQ (by rw [hqueue]; exact List.mem_cons_self)
      have hne : r.receipt.peer ≠ j := by
        intro he
        apply hj
        rw [owner, hqueue]
        exact congrArg some he
      rcases Bgp.withdraw_cases hb with ⟨_, rfl⟩ | ⟨old, i, hold, hi, rfl⟩
      · exact ⟨fun _ _ _ => Iff.rfl, rfl⟩
      · refine ⟨routes_iff (fun k' hk' => erase_other _ hk') ?_ ?_, ?_⟩
        · intro old' ho
          rw [h.source hholds ho]
          exact hne
        · intro new hnew
          rw [erase_self] at hnew
          cases hnew
        · rw [h.getPeer hholds hi] at hne
          exact counters_modifyPeer hne

end Daemon

end Log2Bgp
