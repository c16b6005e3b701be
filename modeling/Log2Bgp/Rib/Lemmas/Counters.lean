import Log2Bgp.Lib.Run
import Log2Bgp.Rib.Lemmas.Changes

/-!
# The prefix counters
-/

namespace Log2Bgp

open Lib

/-- The number of entries that carry an identifier. -/
def entriesOf (rib : BgpAdjRib) (bgpId : UInt32) : Nat :=
  count (fun r : Route => decide (r.bgpId = bgpId)) rib

/-- The counters of a peer agree with the RIB, and with what flushes have removed. -/
structure Balanced (rib : BgpAdjRib) (flushed : Nat) (p : BgpPeer) : Prop where
  current : p.prefixes.current.rx = UInt32.ofNat (entriesOf rib p.bgpId)
  total : p.prefixes.rx = p.implicitWithdraw.rx + p.explicitWithdraw.rx + p.prefixes.current.rx +
    UInt32.ofNat flushed

section Balanced

variable {rib : BgpAdjRib} {flushed : Nat} {p : BgpPeer} {k : PrefixEntry} {r old : Route}

theorem ofNat_succ (n : Nat) : UInt32.ofNat (n + 1) = UInt32.ofNat n + 1 := UInt32.ofNat_add n 1

/-! ## The number of entries -/

theorem entriesOf_new (bgpId : UInt32) (hk : rib[k]? = none) :
    entriesOf (rib.insert k r) bgpId = entriesOf rib bgpId + if r.bgpId = bgpId then 1 else 0 := by
  rw [entriesOf, count_insert_new hk]
  simp only [decide_eq_true_eq]
  rfl

theorem entriesOf_overwritten (bgpId : UInt32) (hk : rib[k]? = some old) (hid : r.bgpId = old.bgpId) :
    entriesOf (rib.insert k r) bgpId = entriesOf rib bgpId :=
  count_insert_old hk (by rw [hid])

theorem entriesOf_erase (bgpId : UInt32) (hk : rib[k]? = some old) :
    entriesOf rib bgpId = entriesOf (rib.erase k) bgpId + if old.bgpId = bgpId then 1 else 0 := by
  rw [entriesOf, count_erase hk]
  simp only [decide_eq_true_eq]
  rfl

theorem entriesOf_pos (hk : rib[k]? = some old) : 0 < entriesOf rib old.bgpId := by
  rw [entriesOf_erase old.bgpId hk, if_pos rfl]
  omega

theorem entriesOf_eq_zero {bgpId : UInt32}
    (h : ∀ (k : PrefixEntry) (r : Route), rib[k]? = some r → r.bgpId ≠ bgpId) :
    entriesOf rib bgpId = 0 :=
  count_eq_zero fun k r hr => decide_eq_false (h k r hr)

/-! ## The peer an operation counts for -/

theorem Balanced.countNew (h : Balanced rib flushed p) (hk : rib[k]? = none) (hid : r.bgpId = p.bgpId) :
    Balanced (rib.insert k r) flushed p.countNew := by
  have hentries := entriesOf_new p.bgpId hk (r := r)
  rw [if_pos hid] at hentries
  obtain ⟨hcurrent, htotal⟩ := h
  constructor
  · show p.prefixes.current.rx + 1 = UInt32.ofNat (entriesOf (rib.insert k r) p.bgpId)
    rw [hentries, ofNat_succ, hcurrent]
  · show p.prefixes.rx + 1 = p.implicitWithdraw.rx + p.explicitWithdraw.rx +
      (p.prefixes.current.rx + 1) + UInt32.ofNat flushed
    rw [htotal]
    ac_rfl

theorem Balanced.countOverwritten (h : Balanced rib flushed p) (hk : rib[k]? = some old)
    (hid : r.bgpId = old.bgpId) : Balanced (rib.insert k r) flushed p.countOverwritten := by
  have hentries := entriesOf_overwritten p.bgpId hk hid
  obtain ⟨hcurrent, htotal⟩ := h
  constructor
  · show p.prefixes.current.rx = UInt32.ofNat (entriesOf (rib.insert k r) p.bgpId)
    rw [hentries, hcurrent]
  · show p.prefixes.rx + 1 = p.implicitWithdraw.rx + 1 + p.explicitWithdraw.rx +
      p.prefixes.current.rx + UInt32.ofNat flushed
    rw [htotal]
    ac_rfl

theorem Balanced.countFlushed (h : Balanced rib flushed p) (hk : rib[k]? = some old)
    (hid : old.bgpId = p.bgpId) : Balanced (rib.erase k) (flushed + 1) p.countFlushed := by
  have hentries := entriesOf_erase p.bgpId hk
  rw [if_pos hid] at hentries
  obtain ⟨hcurrent, htotal⟩ := h
  rw [hentries, ofNat_succ] at hcurrent
  have hleft : p.prefixes.current.rx - 1 = UInt32.ofNat (entriesOf (rib.erase k) p.bgpId) := by
    rw [hcurrent, UInt32.add_sub_cancel]
  constructor
  · exact hleft
  · show p.prefixes.rx = p.implicitWithdraw.rx + p.explicitWithdraw.rx +
      (p.prefixes.current.rx - 1) + UInt32.ofNat (flushed + 1)
    rw [hleft, htotal, hcurrent, ofNat_succ]
    ac_rfl

theorem Balanced.countWithdrawn (h : Balanced rib flushed p) (hk : rib[k]? = some old)
    (hid : old.bgpId = p.bgpId) : Balanced (rib.erase k) flushed p.countWithdrawn := by
  have hentries := entriesOf_erase p.bgpId hk
  rw [if_pos hid] at hentries
  obtain ⟨hcurrent, htotal⟩ := h
  rw [hentries, ofNat_succ] at hcurrent
  have hleft : p.prefixes.current.rx - 1 = UInt32.ofNat (entriesOf (rib.erase k) p.bgpId) := by
    rw [hcurrent, UInt32.add_sub_cancel]
  constructor
  · exact hleft
  · show p.prefixes.rx = p.implicitWithdraw.rx + (p.explicitWithdraw.rx + 1) +
      (p.prefixes.current.rx - 1) + UInt32.ofNat flushed
    rw [hleft, htotal, hcurrent]
    ac_rfl

theorem Balanced.of_entries {rib' : BgpAdjRib} (h : Balanced rib flushed p)
    (hentries : entriesOf rib' p.bgpId = entriesOf rib p.bgpId) : Balanced rib' flushed p :=
  ⟨h.current.trans (by rw [hentries]), h.total⟩

end Balanced

end Log2Bgp
