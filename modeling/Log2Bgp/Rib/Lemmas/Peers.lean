import Log2Bgp.Model.Bgp

/-!
# Peers of the instance
-/

namespace Log2Bgp

open Lib

/-! ## Counters apart, operations on the RIB leave peers alone -/

/-- A peer without its prefix counters. -/
def BgpPeer.uncounted (p : BgpPeer) : BgpPeer :=
  { p with prefixes := {}, implicitWithdraw := {}, explicitWithdraw := {} }

theorem BgpPeer.bgpId_of_uncounted {p q : BgpPeer} (h : p.uncounted = q.uncounted) :
    p.bgpId = q.bgpId := by
  have hid : p.uncounted.bgpId = q.uncounted.bgpId := by rw [h]
  exact hid

/-- The identifiers of the peers, in order. -/
def Bgp.ids (b : Bgp) : List UInt32 := b.threadQ.map (·.bgpId)

/-- Everything but the RIB, the history and the counters is the same. -/
structure Bgp.SameSessions (b b' : Bgp) : Prop where
  cfg : b'.cfg = b.cfg
  queues : b'.queues = b.queues
  peers : b'.threadQ.map BgpPeer.uncounted = b.threadQ.map BgpPeer.uncounted

namespace Bgp

variable {b b' : Bgp} {i j : Nat} {p : BgpPeer}

theorem map_modify {f : BgpPeer → BgpPeer} {α : Type} {g : BgpPeer → α} (h : ∀ p, g (f p) = g p)
    (ps : List BgpPeer) : (ps.modify i f).map g = ps.map g := by
  apply List.ext_getElem?
  intro j
  rw [List.getElem?_map, List.getElem?_map, List.getElem?_modify]
  cases ps[j]? with
  | none => rfl
  | some p =>
      simp only [Option.map_eq_map, Option.map_some, Option.some.injEq]
      split
      · exact h p
      · rfl

theorem SameSessions.refl (b : Bgp) : SameSessions b b := ⟨rfl, rfl, rfl⟩

/-- A place that holds a peer holds one with the same session on the other side. -/
theorem SameSessions.peer (h : SameSessions b b') (hp : b'.threadQ[i]? = some p) :
    ∃ q, b.threadQ[i]? = some q ∧ p.uncounted = q.uncounted := by
  have hget := congrArg (·[i]?) h.peers
  simp only [List.getElem?_map, hp, Option.map_some] at hget
  cases hq : b.threadQ[i]? with
  | none => rw [hq] at hget; cases hget
  | some q =>
      rw [hq, Option.map_some, Option.some.injEq] at hget
      exact ⟨q, rfl, hget⟩

theorem SameSessions.ids (h : SameSessions b b') : b'.ids = b.ids := by
  have hids := congrArg (List.map BgpPeer.bgpId) h.peers
  rwa [List.map_map, List.map_map] at hids

/-! ## Peers by identifier -/

theorem getPeer_eq_some {bgpId : UInt32} (h : b.getPeerByUint32tBgpId bgpId = some i) :
    ∃ p, b.threadQ[i]? = some p ∧ p.bgpId = bgpId := by
  obtain ⟨hlt, hid, _⟩ := List.findIdx?_eq_some_iff_getElem.mp h
  exact ⟨b.threadQ[i], List.getElem?_eq_getElem hlt, of_decide_eq_true hid⟩

theorem getPeer_eq_none {bgpId : UInt32} :
    b.getPeerByUint32tBgpId bgpId = none ↔ ∀ p ∈ b.threadQ, p.bgpId ≠ bgpId := by
  rw [getPeerByUint32tBgpId, List.findIdx?_eq_none_iff]
  constructor
  · intro h p hp
    exact of_decide_eq_false (h p hp)
  · intro h p hp
    exact decide_eq_false (h p hp)

/-- Some peer has an identifier. -/
def Knows (b : Bgp) (bgpId : UInt32) : Prop := bgpId ∈ b.ids

theorem knows_iff {bgpId : UInt32} : b.Knows bgpId ↔ ∃ p ∈ b.threadQ, p.bgpId = bgpId :=
  List.mem_map

theorem Knows.getPeer {bgpId : UInt32} (h : b.Knows bgpId) :
    ∃ i, b.getPeerByUint32tBgpId bgpId = some i := by
  obtain ⟨p, hp, hid⟩ := knows_iff.mp h
  cases hget : b.getPeerByUint32tBgpId bgpId with
  | some i => exact ⟨i, rfl⟩
  | none => exact absurd hid (getPeer_eq_none.mp hget p hp)

theorem knows_of_getPeer {bgpId : UInt32} (h : b.getPeerByUint32tBgpId bgpId = some i) :
    b.Knows bgpId := by
  obtain ⟨p, hp, hid⟩ := getPeer_eq_some h
  exact knows_iff.mpr ⟨p, List.mem_of_getElem? hp, hid⟩

/-- No two peers have the same identifier, apart from those that have none yet. -/
def DistinctIds (b : Bgp) : Prop :=
  ∀ (i j : Nat) (p q : BgpPeer), b.threadQ[i]? = some p → b.threadQ[j]? = some q →
    p.bgpId = q.bgpId → p.bgpId ≠ 0 → i = j

theorem DistinctIds.of_same (h : b.DistinctIds) (hsame : SameSessions b b') : b'.DistinctIds := by
  intro i j p q hp hq hid hne
  obtain ⟨p₀, hp₀, hpu⟩ := hsame.peer hp
  obtain ⟨q₀, hq₀, hqu⟩ := hsame.peer hq
  rw [BgpPeer.bgpId_of_uncounted hpu] at hid hne
  rw [BgpPeer.bgpId_of_uncounted hqu] at hid
  exact h i j p₀ q₀ hp₀ hq₀ hid hne

/-- The peer that an identifier leads to is the only one that has it. -/
theorem DistinctIds.owner (h : b.DistinctIds) {bgpId : UInt32} {q : BgpPeer} (hne : bgpId ≠ 0)
    (hi : b.getPeerByUint32tBgpId bgpId = some i) (hq : b.threadQ[j]? = some q) :
    q.bgpId = bgpId ↔ i = j := by
  obtain ⟨p, hp, hid⟩ := getPeer_eq_some hi
  constructor
  · intro hqid
    exact h i j p q hp hq (hid.trans hqid.symm) (hid ▸ hne)
  · rintro rfl
    rw [hp] at hq
    cases hq
    exact hid

/-! ## One peer changed -/

theorem getElem?_modifyPeer (b : Bgp) (f : BgpPeer → BgpPeer) :
    (b.modifyPeer i f).threadQ[j]? = if i = j then b.threadQ[j]?.map f else b.threadQ[j]? := by
  rw [modifyPeer, List.getElem?_modify]
  cases b.threadQ[j]? with
  | none => simp
  | some p => split <;> simp_all

/-- What happens to the peers: one of them, at most, is changed by a function. -/
theorem peer_of_modifyPeer {f : BgpPeer → BgpPeer} (h : (b.modifyPeer i f).threadQ[j]? = some p) :
    ∃ q, b.threadQ[j]? = some q ∧ p = if i = j then f q else q := by
  rw [getElem?_modifyPeer] at h
  cases hq : b.threadQ[j]? with
  | none => rw [hq] at h; split at h <;> cases h
  | some q =>
      rw [hq] at h
      refine ⟨q, rfl, ?_⟩
      split at h
      · rename_i hij
        rw [if_pos hij]
        exact (Option.some.inj h).symm
      · rename_i hij
        rw [if_neg hij]
        exact (Option.some.inj h).symm

end Bgp

end Log2Bgp
