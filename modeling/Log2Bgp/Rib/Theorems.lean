import Log2Bgp.Rib.Lemmas.Counters
import Log2Bgp.Update.Wire

/-!
# The RIB over runs
-/

namespace Log2Bgp

open Lib

/-! ## Announcements and withdrawals, processed in order -/

/-- A request that reaches the RIB. -/
inductive RibRequest where
  | announce (route : Route)
  | withdraw (route : Route)
deriving DecidableEq, Repr

namespace RibRequest

def route : RibRequest → Route
  | announce r => r
  | withdraw r => r

/-- The change of the RIB that a request asks for. -/
def op : RibRequest → MapOp PrefixEntry Route
  | announce r => .put r.entry r
  | withdraw r => .del r.entry

@[simp] theorem key_op (q : RibRequest) : q.op.key = q.route.entry := by
  cases q <;> rfl

end RibRequest

namespace Bgp

/-- Processes requests one by one. -/
def process : List RibRequest → Bgp → Checked Bgp
  | [], b => .ok b
  | .announce r :: rest, b => process rest (b.peerEntry r)
  | .withdraw r :: rest, b => do
      let b ← b.withdraw r
      process rest b

theorem process_eq (requests : List RibRequest) (b : Bgp)
    (hknown : ∀ q ∈ requests, b.Knows q.route.bgpId) :
    ∃ b', process requests b = .ok b' ∧
      b'.adjRibIn = applyOps (requests.map RibRequest.op) b.adjRibIn := by
  induction requests generalizing b with
  | nil => exact ⟨b, rfl, rfl⟩
  | cons q rest ih =>
      have hq := hknown q List.mem_cons_self
      have hrest : ∀ b₁, SameSessions b b₁ → ∀ q' ∈ rest, b₁.Knows q'.route.bgpId := by
        intro b₁ hsame q' hmem
        rw [Knows, hsame.ids]
        exact hknown q' (List.mem_cons_of_mem q hmem)
      cases q with
      | announce r =>
          obtain ⟨b', hb', hrib⟩ := ih (b.peerEntry r) (hrest _ (peerEntry_same b r))
          have hput : (b.peerEntry r).adjRibIn = (MapOp.put r.entry r).apply b.adjRibIn :=
            peerEntry_put hq
          rw [hput] at hrib
          exact ⟨b', hb', hrib⟩
      | withdraw r =>
          have hsafe : ∃ b₁, b.withdraw r = .ok b₁ := withdraw_safe hq
          obtain ⟨b₁, hb₁⟩ := hsafe
          obtain ⟨b', hb', hrib⟩ := ih b₁ (hrest _ (withdraw_same hb₁))
          rw [withdraw_del hb₁] at hrib
          refine ⟨b', ?_, hrib⟩
          simp only [process, hb₁, Checked.ok_bind]
          exact hb'

end Bgp

namespace Example

/-- A peer that is known as 10.0.0.1. -/
def instance₁ : Bgp := { cfg := { AS := 1 }, threadQ := [{ bgpId := 0x0100000a }] }

/-- The route of a prefix of that peer. -/
def routeOf (p : WirePrefix) : Route :=
  ⟨{ nlri := UpdateBody.nlriOf ⟨.update, 5, 0x0100000a, ⟨0, 0, .established⟩⟩ p }, ⟨0, 0, .established⟩⟩

/-- 10.0.0.0/8. -/
def wide : WirePrefix := net10

/-- 10.0.0.0/16. -/
def nested : WirePrefix := ⟨16, [10, 0], by decide, by decide, by decide⟩

/-- 11.0.0.0/8. -/
def other : WirePrefix := ⟨8, [11], net10.length_pos, net10.length_le, by decide⟩

end Example

/-- A nested route with the same network address replaces the route it is nested in. -/
theorem nested_route_replaces : ¬ ∀ (b : Bgp) (p p' : WirePrefix), p.Canonical → p'.Canonical → p ≠ p' →
    (b.peerEntry (Example.routeOf p')).adjRibIn[(Example.routeOf p).entry]? =
      b.adjRibIn[(Example.routeOf p).entry]? := by
  intro h
  have hrun := h (Example.instance₁.peerEntry (Example.routeOf Example.wide)) Example.wide Example.nested
    (by decide) (by decide) (by decide)
  exact absurd hrun (by decide)

/-- Routes of a peer with different network addresses do not touch each other's entries; so a route
that is announced stays, with its attributes, until the peer announces or withdraws a route with its
network address. -/
theorem routes_apart (b : Bgp) :
    (∀ r r' : Route, r.bgpId = r'.bgpId → r.update.nlri.pfx ≠ r'.update.nlri.pfx →
      (b.peerEntry r).adjRibIn[r'.entry]? = b.adjRibIn[r'.entry]? ∧
        ∀ b', b.withdraw r = .ok b' → b'.adjRibIn[r'.entry]? = b.adjRibIn[r'.entry]?) ∧
    (∀ (earlier later : List RibRequest) (r : Route),
      (∀ q ∈ earlier ++ .announce r :: later, b.Knows q.route.bgpId) →
      (∀ q ∈ later, q.route.bgpId = r.bgpId → q.route.update.nlri.pfx ≠ r.update.nlri.pfx) →
      ∃ b', Bgp.process (earlier ++ .announce r :: later) b = .ok b' ∧
        b'.adjRibIn[r.entry]? = some r) := by
  constructor
  · intro r r' _ hpfx
    have hne : r'.entry ≠ r.entry := fun h => hpfx (congrArg Prod.fst h).symm
    constructor
    · rcases Bgp.peerEntry_lookup b r r'.entry with h | ⟨hk, _⟩
      · exact h
      · exact absurd hk hne
    · intro b' hb'
      rw [Bgp.withdraw_del hb', lookup_apply]
      exact if_neg hne
  · intro earlier later r hknown hlater
    obtain ⟨b', hb', hrib⟩ := Bgp.process_eq _ b hknown
    refine ⟨b', hb', ?_⟩
    have hnone : opsOn r.entry (later.map RibRequest.op) = [] := by
      rw [opsOn, List.filter_eq_nil_iff]
      intro op hop
      obtain ⟨q, hq, rfl⟩ := List.mem_map.mp hop
      rw [RibRequest.key_op, decide_eq_true_eq]
      intro hkey
      exact hlater q hq (congrArg Prod.snd hkey) (congrArg Prod.fst hkey)
    have hself : lastOn r.entry [MapOp.put r.entry r] = some (MapOp.put r.entry r) := by
      simp [lastOn, opsOn, MapOp.key]
    have hlast : lastOn r.entry ((earlier ++ .announce r :: later).map RibRequest.op) =
        some (.put r.entry r) := by
      rw [← List.singleton_append, List.map_append, List.map_append, lastOn_append, lastOn_append,
        lastOn_eq_none.mpr hnone, Option.none_or]
      show (lastOn r.entry [MapOp.put r.entry r]).or _ = _
      rw [hself]
      rfl
    rw [hrib, lookup_applyOps, hlast]
    rfl

theorem routes_apart_wide :
    (Example.instance₁.peerEntry (Example.routeOf Example.wide)).adjRibIn[
        (Example.routeOf Example.other).entry]? =
      Example.instance₁.adjRibIn[(Example.routeOf Example.other).entry]? ∧
    ∃ b', Bgp.process ([.announce (Example.routeOf Example.nested)] ++
        .announce (Example.routeOf Example.wide) :: [.withdraw (Example.routeOf Example.other)])
        Example.instance₁ = .ok b' ∧
      b'.adjRibIn[(Example.routeOf Example.wide).entry]? = some (Example.routeOf Example.wide) :=
  ⟨((routes_apart Example.instance₁).1 (Example.routeOf Example.wide) (Example.routeOf Example.other)
      rfl (by decide)).1,
    (routes_apart Example.instance₁).2 [.announce (Example.routeOf Example.nested)]
      [.withdraw (Example.routeOf Example.other)] (Example.routeOf Example.wide)
      (by simp [Bgp.Knows, Bgp.ids, Example.instance₁, RibRequest.route, Route.bgpId, Example.routeOf,
        UpdateBody.nlriOf]) (by
      intro q hq _
      rw [List.mem_singleton] at hq
      subst hq
      decide)⟩

/-! ## The prefix counters over runs -/

/-- A step that the RIB and its counters see: an update or a withdrawal from the queues, one pass of
the flush loop of a peer, and an OPEN that gives a peer its identifier. -/
inductive RibAction where
  | peerEntry (route : Route)
  | withdraw (route : Route)
  | flush (peer : Nat)
  | openAccepted (peer : Nat) (bgpId : UInt32)
deriving DecidableEq, Repr

/-- The instance, and how many routes of each peer flushes have removed. -/
structure RibRun where
  bgp : Bgp
  flushed : Nat → Nat := fun _ => 0

namespace RibRun

def step (s : RibRun) : RibAction → Option RibRun
  | .peerEntry r => some { s with bgp := s.bgp.peerEntry r }
  | .withdraw r => (s.bgp.withdraw r).toOption.map fun b => { s with bgp := b }
  | .flush i => (s.bgp.flushOne i).map fun b =>
      { bgp := b, flushed := fun j => if j = i then s.flushed j + 1 else s.flushed j }
  | .openAccepted i bgpId =>
      some { s with bgp := s.bgp.modifyPeer i fun p => { p with bgpId := bgpId } }

/-- Peers are configured without an identifier, and nothing has been counted. -/
def Start (s : RibRun) : Prop :=
  s.bgp.adjRibIn = ∅ ∧ (∀ i, s.flushed i = 0) ∧
    ∀ p ∈ s.bgp.threadQ, p.bgpId = 0 ∧ p.prefixes = {} ∧ p.implicitWithdraw = {} ∧
      p.explicitWithdraw = {}

/-- Identifiers are distinct and not zero, and stay as they are once an OPEN is accepted. -/
def Admissible (s : RibRun) : RibAction → Prop
  | .peerEntry r => r.bgpId ≠ 0
  | .withdraw r => r.bgpId ≠ 0
  | .flush _ => True
  | .openAccepted i bgpId => bgpId ≠ 0 ∧
      ∀ j p, s.bgp.threadQ[j]? = some p →
        if j = i then p.bgpId = 0 ∨ p.bgpId = bgpId else p.bgpId ≠ bgpId

/-- The states of all runs. -/
abbrev Reachable : RibRun → Prop := Reaches step Admissible Start

/-- What every run keeps. -/
structure Conserved (s : RibRun) : Prop where
  distinct : s.bgp.DistinctIds
  keyed : ∀ (k : PrefixEntry) (r : Route), s.bgp.adjRibIn[k]? = some r → r.entry = k
  tagged : ∀ (k : PrefixEntry) (r : Route), s.bgp.adjRibIn[k]? = some r →
    r.bgpId ≠ 0 ∧ s.bgp.Knows r.bgpId
  balanced : ∀ i p, s.bgp.threadQ[i]? = some p → Balanced s.bgp.adjRibIn (s.flushed i) p

theorem Start.conserved {s : RibRun} (h : s.Start) : s.Conserved := by
  obtain ⟨hrib, hflushed, hpeers⟩ := h
  have hempty : ∀ k : PrefixEntry, s.bgp.adjRibIn[k]? = none := by
    intro k
    rw [hrib]
    exact Std.ExtTreeMap.getElem?_empty
  refine ⟨?_, ?_, ?_, ?_⟩
  · intro i j p q hp _ _ hne
    exact absurd (hpeers p (List.mem_of_getElem? hp)).1 hne
  · intro k r hr
    rw [hempty k] at hr
    cases hr
  · intro k r hr
    rw [hempty k] at hr
    cases hr
  · intro i p hp
    obtain ⟨_, hprefixes, himplicit, hexplicit⟩ := hpeers p (List.mem_of_getElem? hp)
    constructor
    · rw [hrib, entriesOf, count_empty, hprefixes]
      rfl
    · rw [hprefixes, himplicit, hexplicit, hflushed i]
      rfl

/-- An update counts for the peer that its identifier belongs to, and for no other. -/
theorem Conserved.peerEntry {s : RibRun} (h : s.Conserved) {r : Route} (hr : r.bgpId ≠ 0) :
    Conserved { s with bgp := s.bgp.peerEntry r } := by
  have hsame := Bgp.peerEntry_same s.bgp r
  refine ⟨h.distinct.of_same hsame, ?_, ?_, ?_⟩
  · intro k old hold
    rcases Bgp.peerEntry_lookup s.bgp r k with hk | ⟨rfl, hk⟩
    · rw [hk] at hold
      exact h.keyed k old hold
    · rw [hk] at hold
      cases hold
      rfl
  · intro k old hold
    rw [Bgp.Knows, hsame.ids]
    rcases Bgp.peerEntry_cases s.bgp r with ⟨_, hb⟩ | ⟨i, hi, _⟩
    · rw [hb] at hold
      exact h.tagged k old hold
    · rcases Bgp.peerEntry_lookup s.bgp r k with hk | ⟨rfl, hk⟩
      · rw [hk] at hold
        exact h.tagged k old hold
      · rw [hk] at hold
        cases hold
        exact ⟨hr, Bgp.knows_of_getPeer hi⟩
  · intro j q hq
    rcases Bgp.peerEntry_cases s.bgp r with ⟨_, hb⟩ | ⟨i, hi, ⟨old, hold, hb⟩ | ⟨hnone, hb⟩⟩
    · rw [hb] at hq ⊢
      exact h.balanced j q hq
    · rw [hb] at hq ⊢
      obtain ⟨q₀, hq₀, hq'⟩ := Bgp.peer_of_modifyPeer hq
      have hq₀b := h.balanced j q₀ hq₀
      have hid : r.bgpId = old.bgpId := (congrArg Prod.snd (h.keyed _ _ hold)).symm
      split at hq'
      · rw [hq']
        exact hq₀b.countOverwritten hold hid
      · rw [hq']
        exact hq₀b.of_entries (entriesOf_overwritten _ hold hid)
    · rw [hb] at hq ⊢
      obtain ⟨q₀, hq₀, hq'⟩ := Bgp.peer_of_modifyPeer hq
      have hq₀b := h.balanced j q₀ hq₀
      have howner := h.distinct.owner hr hi hq₀
      split at hq'
      · rename_i hij
        rw [hq']
        exact hq₀b.countNew hnone (howner.mpr hij).symm
      · rename_i hij
        rw [hq']
        have hentries := entriesOf_new q₀.bgpId hnone (r := r)
        rw [if_neg fun hid => hij (howner.mp hid.symm)] at hentries
        exact hq₀b.of_entries hentries

theorem Conserved.erase {s : RibRun} (h : s.Conserved) {k : PrefixEntry} {old : Route} {i : Nat}
    {f : BgpPeer → BgpPeer} {flushed : Nat → Nat} (hold : s.bgp.adjRibIn[k]? = some old)
    (hf : ∀ p, (f p).uncounted = p.uncounted)
    (howner : ∀ j q, s.bgp.threadQ[j]? = some q → (q.bgpId = old.bgpId ↔ i = j))
    (hcount : ∀ p, s.bgp.threadQ[i]? = some p → Balanced s.bgp.adjRibIn (s.flushed i) p →
      Balanced (s.bgp.adjRibIn.erase k) (flushed i) (f p))
    (hothers : ∀ j, j ≠ i → flushed j = s.flushed j) :
    Conserved { bgp := { s.bgp.modifyPeer i f with adjRibIn := s.bgp.adjRibIn.erase k }
                flushed := flushed } := by
  have hsame : Bgp.SameSessions s.bgp
      { s.bgp.modifyPeer i f with adjRibIn := s.bgp.adjRibIn.erase k } :=
    ⟨rfl, rfl, Bgp.map_modify hf _⟩
  have hstays : ∀ (k' : PrefixEntry) (r : Route), (s.bgp.adjRibIn.erase k)[k']? = some r →
      s.bgp.adjRibIn[k']? = some r := by
    intro k' r hr
    rw [lookup_erase] at hr
    split at hr
    · cases hr
    · exact hr
  refine ⟨h.distinct.of_same hsame, ?_, ?_, ?_⟩
  · intro k' r hr
    exact h.keyed k' r (hstays k' r hr)
  · intro k' r hr
    rw [Bgp.Knows, hsame.ids]
    exact h.tagged k' r (hstays k' r hr)
  · intro j q hq
    obtain ⟨q₀, hq₀, hq'⟩ := Bgp.peer_of_modifyPeer hq
    have hq₀b := h.balanced j q₀ hq₀
    split at hq'
    · rename_i hij
      subst hij
      rw [hq']
      exact hcount q₀ hq₀ hq₀b
    · rename_i hij
      rw [hq']
      have hentries := entriesOf_erase q₀.bgpId hold
      rw [if_neg fun hid => hij ((howner j q₀ hq₀).mp hid.symm)] at hentries
      have hflushed : flushed j = s.flushed j := hothers j (Ne.symm hij)
      show Balanced (s.bgp.adjRibIn.erase k) (flushed j) q₀
      rw [hflushed]
      exact hq₀b.of_entries hentries.symm

theorem Conserved.withdraw {s : RibRun} (h : s.Conserved) {r : Route} (hr : r.bgpId ≠ 0) {b' : Bgp}
    (hb : s.bgp.withdraw r = .ok b') : Conserved { s with bgp := b' } := by
  rcases Bgp.withdraw_cases hb with ⟨_, rfl⟩ | ⟨old, i, hold, hi, rfl⟩
  · exact h
  · have hid : old.bgpId = r.bgpId := congrArg Prod.snd (h.keyed _ _ hold)
    have howner : ∀ j q, s.bgp.threadQ[j]? = some q → (q.bgpId = old.bgpId ↔ i = j) := by
      intro j q hq
      rw [hid]
      exact h.distinct.owner hr hi hq
    refine h.erase hold (fun _ => rfl) howner ?_ (fun _ _ => rfl)
    intro p hp hbalanced
    exact hbalanced.countWithdrawn hold ((howner i p hp).mpr rfl).symm

theorem Conserved.flush {s : RibRun} (h : s.Conserved) {i : Nat} {b' : Bgp}
    (hb : s.bgp.flushOne i = some b') :
    Conserved { bgp := b', flushed := fun j => if j = i then s.flushed j + 1 else s.flushed j } := by
  obtain ⟨p, k, old, hp, hold, hid, rfl⟩ := Bgp.flushOne_cases hb
  have howner : ∀ j q, s.bgp.threadQ[j]? = some q → (q.bgpId = old.bgpId ↔ i = j) := by
    intro j q hq
    constructor
    · intro hqid
      exact h.distinct i j p q hp hq (hid.symm.trans hqid.symm) (hid ▸ (h.tagged k old hold).1)
    · rintro rfl
      rw [hp] at hq
      cases hq
      exact hid.symm
  refine h.erase hold (fun _ => rfl) howner ?_ fun j hj => if_neg hj
  intro q hq hbalanced
  rw [if_pos rfl]
  exact hbalanced.countFlushed hold ((howner i q hq).mpr rfl).symm

theorem Conserved.openAccepted {s : RibRun} (h : s.Conserved) {i : Nat} {bgpId : UInt32}
    (hadm : s.Admissible (.openAccepted i bgpId)) :
    Conserved { s with bgp := s.bgp.modifyPeer i fun p => { p with bgpId := bgpId } } := by
  obtain ⟨hne, hids⟩ := hadm
  have hold : ∀ j q, (s.bgp.modifyPeer i fun p => { p with bgpId := bgpId }).threadQ[j]? = some q →
      ∃ q₀, s.bgp.threadQ[j]? = some q₀ ∧
        ((i = j ∧ q = { q₀ with bgpId := bgpId } ∧ (q₀.bgpId = 0 ∨ q₀.bgpId = bgpId)) ∨
          (i ≠ j ∧ q = q₀ ∧ q₀.bgpId ≠ bgpId)) := by
    intro j q hq
    obtain ⟨q₀, hq₀, hq'⟩ := Bgp.peer_of_modifyPeer hq
    have hj := hids j q₀ hq₀
    refine ⟨q₀, hq₀, ?_⟩
    split at hq'
    · rename_i hij
      rw [if_pos hij.symm] at hj
      exact Or.inl ⟨hij, hq', hj⟩
    · rename_i hij
      rw [if_neg (Ne.symm hij)] at hj
      exact Or.inr ⟨hij, hq', hj⟩
  refine ⟨?_, h.keyed, ?_, ?_⟩
  · intro j j' p q hp hq hid hpne
    obtain ⟨p₀, hp₀, ⟨hij, rfl, _⟩ | ⟨hij, rfl, hpid⟩⟩ := hold j p hp
    · obtain ⟨q₀, hq₀, ⟨hij', rfl, _⟩ | ⟨_, rfl, hqid⟩⟩ := hold j' q hq
      · exact hij.symm.trans hij'
      · exact absurd hid.symm hqid
    · obtain ⟨q₀, hq₀, ⟨_, rfl, _⟩ | ⟨_, rfl, _⟩⟩ := hold j' q hq
      · exact absurd hid hpid
      · exact h.distinct j j' _ _ hp₀ hq₀ hid hpne
  · intro k r hr
    obtain ⟨hrne, hknows⟩ := h.tagged k r hr
    refine ⟨hrne, ?_⟩
    obtain ⟨p, hp, hid⟩ := Bgp.knows_iff.mp hknows
    obtain ⟨j, hj⟩ := List.getElem?_of_mem hp
    have hget := Bgp.getElem?_modifyPeer (i := i) (j := j) s.bgp
      fun p : BgpPeer => { p with bgpId := bgpId }
    rw [hj] at hget
    by_cases hij : i = j
    · rw [if_pos hij] at hget
      have hjp := hids j p hj
      rw [if_pos hij.symm] at hjp
      rcases hjp with h0 | hsame
      · exact absurd (hid.symm.trans h0) hrne
      · exact Bgp.knows_iff.mpr ⟨_, List.mem_of_getElem? hget, hsame.symm.trans hid⟩
    · rw [if_neg hij] at hget
      exact Bgp.knows_iff.mpr ⟨_, List.mem_of_getElem? hget, hid⟩
  · intro j q hq
    obtain ⟨q₀, hq₀, ⟨hij, rfl, hid⟩ | ⟨_, rfl, _⟩⟩ := hold j q hq
    · have hbalanced := h.balanced j q₀ hq₀
      rcases hid with h0 | hsame
      · have hnone : entriesOf s.bgp.adjRibIn q₀.bgpId = 0 := by
          apply entriesOf_eq_zero
          intro k r hr
          rw [h0]
          exact (h.tagged k r hr).1
        have hnone' : entriesOf s.bgp.adjRibIn bgpId = 0 := by
          apply entriesOf_eq_zero
          intro k r hr hid
          obtain ⟨p, hp, hpid⟩ := Bgp.knows_iff.mp (h.tagged k r hr).2
          obtain ⟨j', hj'⟩ := List.getElem?_of_mem hp
          have hids' := hids j' p hj'
          split at hids'
          · rename_i hj'i
            rw [hj'i, hij, hq₀] at hj'
            cases hj'
            exact hne (hid.symm.trans (hpid.symm.trans h0))
          · exact hids' (hpid.trans hid)
        refine ⟨?_, hbalanced.total⟩
        show q₀.prefixes.current.rx = UInt32.ofNat (entriesOf s.bgp.adjRibIn bgpId)
        rw [hbalanced.current, hnone, hnone']
      · subst hsame
        exact hbalanced
    · exact h.balanced j _ hq₀

theorem Conserved.step {s s' : RibRun} {a : RibAction} (h : s.Conserved) (hadm : s.Admissible a)
    (hs : s.step a = some s') : s'.Conserved := by
  cases a with
  | peerEntry r =>
      cases hs
      exact h.peerEntry hadm
  | withdraw r =>
      cases hb : s.bgp.withdraw r with
      | error e => simp [RibRun.step, hb, Except.toOption] at hs
      | ok b' =>
          simp only [RibRun.step, hb, Except.toOption, Option.map_some, Option.some.injEq] at hs
          subst hs
          exact h.withdraw hadm hb
  | flush i =>
      simp only [RibRun.step, Option.map_eq_some_iff] at hs
      obtain ⟨b', hb, rfl⟩ := hs
      exact h.flush hb
  | openAccepted i bgpId =>
      cases hs
      exact h.openAccepted hadm

theorem Reachable.conserved {s : RibRun} (h : Reachable s) : s.Conserved :=
  Reaches.invariant (fun _ hs => hs.conserved) (fun _ _ _ hs hadm hstep => hs.step hadm hstep) h

end RibRun

/-- In every state of every run, a peer's counters agree with the RIB and with what flushes have
removed, and whatever decrements the number of its routes finds one of them in the RIB. -/
theorem counters_conserved {s : RibRun} (h : RibRun.Reachable s) {i : Nat} {p : BgpPeer}
    (hp : s.bgp.threadQ[i]? = some p) :
    p.prefixes.current.rx = UInt32.ofNat (entriesOf s.bgp.adjRibIn p.bgpId) ∧
      p.prefixes.rx = p.implicitWithdraw.rx + p.explicitWithdraw.rx + p.prefixes.current.rx +
        UInt32.ofNat (s.flushed i) ∧
      (∀ (r : Route) (b' : Bgp), r.bgpId ≠ 0 → s.bgp.withdraw r = .ok b' →
        b'.threadQ[i]? ≠ s.bgp.threadQ[i]? → 0 < entriesOf s.bgp.adjRibIn p.bgpId) ∧
      ∀ b', s.bgp.flushOne i = some b' → 0 < entriesOf s.bgp.adjRibIn p.bgpId := by
  have hconserved := h.conserved
  have hbalanced := hconserved.balanced i p hp
  refine ⟨hbalanced.current, hbalanced.total, ?_, ?_⟩
  · intro r b' hr hb hchanged
    rcases Bgp.withdraw_cases hb with ⟨_, rfl⟩ | ⟨old, j, hold, hj, rfl⟩
    · exact absurd rfl hchanged
    · have hji : j = i := by
        by_contra hji
        apply hchanged
        show (s.bgp.modifyPeer j BgpPeer.countWithdrawn).threadQ[i]? = _
        rw [Bgp.getElem?_modifyPeer, if_neg hji]
      have hid : p.bgpId = r.bgpId := (hconserved.distinct.owner hr hj hp).mpr hji
      have hold_id : old.bgpId = r.bgpId := congrArg Prod.snd (hconserved.keyed _ _ hold)
      rw [hid, ← hold_id]
      exact entriesOf_pos hold
  · intro b' hb
    obtain ⟨q, k, old, hq, hold, hid, _⟩ := Bgp.flushOne_cases hb
    rw [hp] at hq
    cases hq
    rw [← hid]
    exact entriesOf_pos hold

namespace Example

/-- A peer that is configured, and nothing else. -/
def configured : RibRun := { bgp := { cfg := { AS := 1 }, threadQ := [{}] } }

/-- The peer has sent its OPEN. -/
def opened : RibRun :=
  { configured with bgp := configured.bgp.modifyPeer 0 fun p => { p with bgpId := 0x0100000a } }

/-- 12.0.0.0/8. -/
def third : WirePrefix := ⟨8, [12], net10.length_pos, net10.length_le, by decide⟩

/-- It announces three prefixes and one of them again with another length, and withdraws another one; and its session
goes down, where one route is removed so far. -/
def counting : List RibAction :=
  [.peerEntry (routeOf wide), .peerEntry (routeOf other), .peerEntry (routeOf third), .peerEntry (routeOf nested),
    .withdraw (routeOf other), .flush 0]

end Example

theorem counters_conserved_counting : ∃ s p, runAll RibRun.step Example.counting Example.opened = some s ∧
    s.bgp.threadQ[0]? = some p ∧
    (p.prefixes.rx, p.implicitWithdraw.rx, p.explicitWithdraw.rx, p.prefixes.current.rx, s.flushed 0) =
      (4, 1, 1, 1, 1) ∧
    p.prefixes.current.rx = UInt32.ofNat (entriesOf s.bgp.adjRibIn p.bgpId) ∧
    p.prefixes.rx = p.implicitWithdraw.rx + p.explicitWithdraw.rx + p.prefixes.current.rx + UInt32.ofNat (s.flushed 0) ∧
    (∃ b', s.bgp.withdraw (Example.routeOf Example.third) = .ok b' ∧ b'.threadQ[0]? ≠ s.bgp.threadQ[0]? ∧
      0 < entriesOf s.bgp.adjRibIn p.bgpId) ∧
    ∃ b', s.bgp.flushOne 0 = some b' ∧ 0 < entriesOf s.bgp.adjRibIn p.bgpId := by
  have hstart : RibRun.Reachable Example.configured := by
    refine .init ⟨rfl, fun _ => rfl, ?_⟩
    intro p hp
    cases List.mem_singleton.mp hp
    exact ⟨rfl, rfl, rfl, rfl⟩
  have hopened : RibRun.Reachable Example.opened := by
    refine .step (a := .openAccepted 0 0x0100000a) hstart ⟨by decide, ?_⟩ rfl
    intro j p hp
    cases j with
    | zero =>
        cases hp
        exact Or.inl rfl
    | succ j => cases hp
  have hid : ∀ p, (Example.routeOf p).bgpId ≠ 0 := fun _ => show (0x0100000a : UInt32) ≠ 0 by decide
  have hadm : AllAdmissible RibRun.step RibRun.Admissible Example.counting Example.opened :=
    ⟨hid _, fun _ _ => ⟨hid _, fun _ _ => ⟨hid _, fun _ _ => ⟨hid _, fun _ _ => ⟨hid _, fun _ _ =>
      ⟨trivial, fun _ _ => trivial⟩⟩⟩⟩⟩⟩
  have hview : ((runAll RibRun.step Example.counting Example.opened).bind fun s => s.bgp.threadQ[0]?.map fun p =>
      ((p.prefixes.rx, p.implicitWithdraw.rx, p.explicitWithdraw.rx, p.prefixes.current.rx, s.flushed 0),
        (s.bgp.withdraw (Example.routeOf Example.third)).toOption.map fun b' =>
          decide (b'.threadQ[0]? ≠ s.bgp.threadQ[0]?),
        (s.bgp.flushOne 0).isSome)) = some ((4, 1, 1, 1, 1), some true, true) := by decide +kernel
  obtain ⟨s, hrun, hview⟩ := Option.bind_eq_some_iff.mp hview
  obtain ⟨p, hp, hview⟩ := Option.map_eq_some_iff.mp hview
  obtain ⟨hcounters, hview⟩ := Prod.mk.inj hview
  obtain ⟨hwithdraw, hflush⟩ := Prod.mk.inj hview
  obtain ⟨hcurrent, htotal, hwithdrawn, hflushed⟩ := counters_conserved (hopened.runAll hadm hrun) hp
  refine ⟨s, p, hrun, hp, hcounters, hcurrent, htotal, ?_, ?_⟩
  · cases hb : s.bgp.withdraw (Example.routeOf Example.third) with
    | error e =>
        rw [hb] at hwithdraw
        cases hwithdraw
    | ok b' =>
        rw [hb] at hwithdraw
        have hchanged : b'.threadQ[0]? ≠ s.bgp.threadQ[0]? := of_decide_eq_true (Option.some.inj hwithdraw)
        exact ⟨b', rfl, hchanged, hwithdrawn _ b' (hid _) hb hchanged⟩
  · obtain ⟨b', hb⟩ := Option.isSome_iff_exists.mp hflush
    exact ⟨b', hb, hflushed b' hb⟩

end Log2Bgp
