import Log2Bgp.Rib.Lemmas.Counters

/-!
# The flush of a peer
-/

namespace Log2Bgp

open Lib

/-! ## The loop -/

namespace Bgp

variable {b b' : Bgp} {bgpId : UInt32}

theorem flushPeer_cases (h : b.flushPeer bgpId = some b') :
    ∃ k old, b.adjRibIn[k]? = some old ∧ old.bgpId = bgpId ∧ b' = { b with adjRibIn := b.adjRibIn.erase k } := by
  obtain ⟨e, he, hb⟩ := Option.map_eq_some_iff.mp h
  obtain ⟨hlookup, hid⟩ := findFirst_eq_some he
  exact ⟨e.1, e.2, hlookup, of_decide_eq_true hid, hb.symm⟩

theorem flushPeer_eq_none :
    b.flushPeer bgpId = none ↔ ∀ (k : PrefixEntry) (r : Route), b.adjRibIn[k]? = some r → r.bgpId ≠ bgpId := by
  simp only [flushPeer, Option.map_eq_none_iff, findFirst_eq_none, decide_eq_false_iff_not]

theorem entriesOf_flushPeer (h : b.flushPeer bgpId = some b') :
    entriesOf b.adjRibIn bgpId = entriesOf b'.adjRibIn bgpId + 1 := by
  obtain ⟨k, old, hold, hid, rfl⟩ := flushPeer_cases h
  rw [entriesOf_erase bgpId hold, if_pos hid]

/-- `while (flush_peer(peer->bgp_id)) --peer->prefixes.current.rx`, with the number of times that its body
runs. -/
def flushLoop (b : Bgp) (bgpId : UInt32) : Bgp × Nat :=
  match h : b.flushPeer bgpId with
  | none => (b, 0)
  | some b' => ((b'.flushLoop bgpId).1, (b'.flushLoop bgpId).2 + 1)
termination_by entriesOf b.adjRibIn bgpId
decreasing_by all_goals
  rw [entriesOf_flushPeer h]
  exact Nat.lt_succ_self _

theorem flushLoop_eq (b : Bgp) (bgpId : UInt32) :
    b.flushLoop bgpId =
      ({ b with adjRibIn := b.adjRibIn.filter fun _ r => r.bgpId ≠ bgpId }, entriesOf b.adjRibIn bgpId) := by
  induction b using flushLoop.induct bgpId with
  | case1 b h =>
      have hfree := flushPeer_eq_none.mp h
      have hkept : b.adjRibIn.filter (fun _ r => r.bgpId ≠ bgpId) = b.adjRibIn :=
        filter_eq_self fun k r hr => decide_eq_true (hfree k r hr)
      rw [flushLoop, h, hkept, entriesOf_eq_zero hfree]
  | case2 b b' h ih =>
      have hcount := entriesOf_flushPeer h
      obtain ⟨k, old, hold, hid, rfl⟩ := flushPeer_cases h
      rw [flushLoop, h]
      have hsame : (b.adjRibIn.erase k).filter (fun _ r => r.bgpId ≠ bgpId) =
          b.adjRibIn.filter fun _ r => r.bgpId ≠ bgpId :=
        filter_erase_other hold (decide_eq_false (not_not.mpr hid))
      simp only [ih, hcount, hsame]

end Bgp

/-! ## Reached tables -/

/-- The tables that updates and withdrawals lead to, with flushes between them, whatever else changes. -/
inductive RibReached : BgpAdjRib → Prop where
  | empty : RibReached ∅
  | peerEntry {b : Bgp} (r : Route) : RibReached b.adjRibIn → RibReached (b.peerEntry r).adjRibIn
  | withdraw {b b' : Bgp} {r : Route} : RibReached b.adjRibIn → b.withdraw r = .ok b' → RibReached b'.adjRibIn
  | flushed {b b' : Bgp} {bgpId : UInt32} : RibReached b.adjRibIn → b.flushPeer bgpId = some b' →
      RibReached b'.adjRibIn

variable {rib : BgpAdjRib}

theorem RibReached.keyed (h : RibReached rib) : ∀ (k : PrefixEntry) (r : Route), rib[k]? = some r → r.entry = k := by
  induction h with
  | empty =>
      intro k r hr
      rw [Std.ExtTreeMap.getElem?_empty] at hr
      cases hr
  | @peerEntry b r _ ih =>
      intro k old hold
      rcases b.peerEntry_lookup r k with hk | ⟨rfl, hk⟩
      · exact ih k old (hk ▸ hold)
      · cases hk.symm.trans hold
        rfl
  | withdraw _ hb ih =>
      intro k old hold
      rw [Bgp.withdraw_del hb, lookup_apply] at hold
      split at hold
      · cases hold
      · exact ih k old hold
  | flushed _ hb ih =>
      obtain ⟨k', old', -, -, rfl⟩ := Bgp.flushPeer_cases hb
      intro k old hold
      rw [lookup_erase] at hold
      split at hold
      · cases hold
      · exact ih k old hold

/-- In a reached table, an entry is selected by its value just when it would be by its key. -/
theorem RibReached.bgpId_eq (h : RibReached rib) {e : PrefixEntry × Route} (he : e ∈ rib.toList) :
    e.2.bgpId = e.1.2 :=
  congrArg Prod.snd (h.keyed e.1 e.2 (Std.ExtTreeMap.mem_toList_iff_getElem?_eq_some.mp he))

/-- The flush of a peer ends: it leaves the entries under the keys of the other identifiers as they are,
and its body runs once for each of the others. -/
theorem flushLoop_filter {b : Bgp} (h : RibReached b.adjRibIn) (bgpId : UInt32) :
    (b.flushLoop bgpId).1.adjRibIn.toList = b.adjRibIn.toList.filter (·.1.2 ≠ bgpId) ∧
      (b.flushLoop bgpId).2 = (b.adjRibIn.toList.filter (·.1.2 = bgpId)).length := by
  rw [Bgp.flushLoop_eq]
  constructor
  · rw [Std.ExtTreeMap.toList_filter]
    apply List.filter_congr
    intro e he
    rw [h.bgpId_eq he]
  · have hkeys : b.adjRibIn.toList.filter (fun e => decide (e.2.bgpId = bgpId)) =
        b.adjRibIn.toList.filter (·.1.2 = bgpId) := by
      apply List.filter_congr
      intro e he
      rw [h.bgpId_eq he]
    rw [← hkeys]
    exact count_eq_length

namespace Example

def routeOfPeer (bgpId : UInt32) (octet : UInt8) : Route :=
  ⟨{ nlri := { bgpId, pfx := memWord [octet, 0, 0, 0], prefixLength := 8 } }, ⟨0, 0, .established⟩⟩

/-- An instance with two routes from the peer 7, and one from the peer 9 for a prefix of theirs. -/
def tagged : Bgp :=
  let b : Bgp := { cfg := { AS := 1 }, threadQ := [{ bgpId := 7 }, { bgpId := 9 }] }
  ((b.peerEntry (routeOfPeer 7 10)).peerEntry (routeOfPeer 9 10)).peerEntry (routeOfPeer 7 11)

end Example

theorem flushLoop_filter_tagged :
    (Example.tagged.flushLoop 7).1.adjRibIn.toList.map (·.1) = [(Example.routeOfPeer 9 10).entry] ∧
      (Example.tagged.flushLoop 7).2 = 2 := by
  have hreached : RibReached Example.tagged.adjRibIn :=
    .peerEntry (Example.routeOfPeer 7 11) (.peerEntry (Example.routeOfPeer 9 10)
      (.peerEntry (b := { cfg := { AS := 1 }, threadQ := [{ bgpId := 7 }, { bgpId := 9 }] }) (Example.routeOfPeer 7 10)
        .empty))
  obtain ⟨hkept, hcount⟩ := flushLoop_filter hreached 7
  rw [hkept, hcount]
  decide +kernel

end Log2Bgp
