import Log2Bgp.Lib.MapOps
import Log2Bgp.Rib.Lemmas.Peers

/-!
# What each operation does to the RIB
-/

namespace Log2Bgp

open Lib

namespace Bgp

variable {b b' : Bgp} {r : Route} {i : Nat}

/-! ## `peer_entry` -/

theorem peerEntry_cases (b : Bgp) (r : Route) :
    (b.getPeerByUint32tBgpId r.bgpId = none ∧ b.peerEntry r = b) ∨
      ∃ i, b.getPeerByUint32tBgpId r.bgpId = some i ∧
        ((∃ old, b.adjRibIn[r.entry]? = some old ∧ b.peerEntry r =
            { b.modifyPeer i BgpPeer.countOverwritten with
              db := b.db.dbInsert old.update
              adjRibIn := b.adjRibIn.insert r.entry r }) ∨
          (b.adjRibIn[r.entry]? = none ∧ b.peerEntry r =
            { b.modifyPeer i BgpPeer.countNew with adjRibIn := b.adjRibIn.insert r.entry r })) := by
  unfold peerEntry
  cases b.getPeerByUint32tBgpId r.bgpId with
  | none => exact Or.inl ⟨rfl, rfl⟩
  | some i =>
      refine Or.inr ⟨i, rfl, ?_⟩
      cases b.adjRibIn[r.entry]? with
      | some old => exact Or.inl ⟨old, rfl, rfl⟩
      | none => exact Or.inr ⟨rfl, rfl⟩

theorem peerEntry_same (b : Bgp) (r : Route) : SameSessions b (b.peerEntry r) := by
  rcases peerEntry_cases b r with ⟨_, h⟩ | ⟨i, _, ⟨old, _, h⟩ | ⟨_, h⟩⟩
  · rw [h]
    exact SameSessions.refl b
  · rw [h]
    exact ⟨rfl, rfl, map_modify (f := BgpPeer.countOverwritten) (fun _ => rfl) _⟩
  · rw [h]
    exact ⟨rfl, rfl, map_modify (f := BgpPeer.countNew) (fun _ => rfl) _⟩

theorem peerEntry_put (h : b.Knows r.bgpId) :
    (b.peerEntry r).adjRibIn = (MapOp.put r.entry r).apply b.adjRibIn := by
  obtain ⟨i, hi⟩ := h.getPeer
  rcases peerEntry_cases b r with ⟨hnone, _⟩ | ⟨_, _, ⟨old, _, hb⟩ | ⟨_, hb⟩⟩
  · rw [hi] at hnone
    cases hnone
  · rw [hb]
    rfl
  · rw [hb]
    rfl

/-- In any case, only the entry at its key can change. -/
theorem peerEntry_lookup (b : Bgp) (r : Route) (k : PrefixEntry) :
    (b.peerEntry r).adjRibIn[k]? = b.adjRibIn[k]? ∨
      (k = r.entry ∧ (b.peerEntry r).adjRibIn[k]? = some r) := by
  rcases peerEntry_cases b r with ⟨_, hb⟩ | ⟨i, hi, _⟩
  · rw [hb]
    exact Or.inl rfl
  · rw [peerEntry_put (knows_of_getPeer hi), lookup_apply]
    split
    · rename_i hk
      exact Or.inr ⟨hk, rfl⟩
    · exact Or.inl rfl

/-! ## `withdraw` -/

theorem withdraw_cases (h : b.withdraw r = .ok b') :
    (b.adjRibIn[r.entry]? = none ∧ b' = b) ∨
      ∃ old i, b.adjRibIn[r.entry]? = some old ∧ b.getPeerByUint32tBgpId r.bgpId = some i ∧
        b' = { b.modifyPeer i BgpPeer.countWithdrawn with adjRibIn := b.adjRibIn.erase r.entry } := by
  unfold withdraw at h
  cases hold : b.adjRibIn[r.entry]? with
  | none =>
      rw [hold] at h
      cases h
      exact Or.inl ⟨rfl, rfl⟩
  | some old =>
      rw [hold] at h
      cases hi : b.getPeerByUint32tBgpId r.bgpId with
      | none => rw [hi] at h; cases h
      | some i =>
          rw [hi] at h
          cases h
          exact Or.inr ⟨old, i, rfl, rfl, rfl⟩

theorem withdraw_same (h : b.withdraw r = .ok b') : SameSessions b b' := by
  rcases withdraw_cases h with ⟨_, rfl⟩ | ⟨old, i, _, _, rfl⟩
  · exact SameSessions.refl _
  · exact ⟨rfl, rfl, map_modify (f := BgpPeer.countWithdrawn) (fun _ => rfl) _⟩

theorem withdraw_del (h : b.withdraw r = .ok b') :
    b'.adjRibIn = (MapOp.del r.entry : MapOp PrefixEntry Route).apply b.adjRibIn := by
  rcases withdraw_cases h with ⟨hnone, rfl⟩ | ⟨old, i, _, _, rfl⟩
  · apply Std.ExtTreeMap.ext_getElem?
    intro k
    rw [lookup_apply]
    split
    · rename_i hk
      rw [hk]
      exact hnone
    · rfl
  · rfl

theorem withdraw_safe (h : b.Knows r.bgpId) : ∃ b', b.withdraw r = .ok b' := by
  obtain ⟨i, hi⟩ := h.getPeer
  unfold withdraw
  rw [hi]
  cases b.adjRibIn[r.entry]? with
  | none => exact ⟨_, rfl⟩
  | some old => exact ⟨_, rfl⟩

/-! ## `flush_peer` -/

theorem flushOne_cases (h : b.flushOne i = some b') :
    ∃ p k old, b.threadQ[i]? = some p ∧ b.adjRibIn[k]? = some old ∧ old.bgpId = p.bgpId ∧
      b' = { b.modifyPeer i BgpPeer.countFlushed with adjRibIn := b.adjRibIn.erase k } := by
  unfold flushOne at h
  cases hp : b.threadQ[i]? with
  | none => rw [hp] at h; cases h
  | some p =>
      rw [hp] at h
      simp only [flushPeer, Option.map_map, Option.map_eq_some_iff] at h
      obtain ⟨e, he, hb⟩ := h
      obtain ⟨hlookup, hid⟩ := findFirst_eq_some he
      exact ⟨p, e.1, e.2, rfl, hlookup, of_decide_eq_true hid, hb.symm⟩

theorem flushOne_eq_none {p : BgpPeer} (hp : b.threadQ[i]? = some p) :
    b.flushOne i = none ↔ ∀ (k : PrefixEntry) (old : Route), b.adjRibIn[k]? = some old → old.bgpId ≠ p.bgpId := by
  simp only [flushOne, hp, flushPeer, Option.map_eq_none_iff, findFirst_eq_none,
    decide_eq_false_iff_not]

end Bgp

end Log2Bgp
