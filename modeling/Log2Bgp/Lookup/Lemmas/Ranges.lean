import Log2Bgp.Lib.Prefixes
import Log2Bgp.Model.Cli
import Log2Bgp.Update.Lemmas.Nlri

/-!
# The ranges of routes
-/

namespace Log2Bgp

open Lib

/-! ## Routes that `parse_nlri` pushes -/

/-- `parse_nlri` pushes the route as it reads a list of prefixes, wherever they lie in a packet. -/
def Route.ParsedFrom (r : Route) (c : NlriContext) (ps : List WirePrefix) : Prop :=
  ∃ update packet rest fuel offset q,
    packet.drop offset = ps.flatMap WirePrefix.encode ++ 0 :: rest ∧
      parseNlri c update packet (ps.length + fuel) offset {} = .ok q ∧
      (r ∈ q.adjRibInQ ∨ r ∈ q.adjRibInWdrawQ)

/-- A prefix is stored as it stands in the packet, and its highest address is computed from it. -/
theorem Route.ParsedFrom.nlri {r : Route} {c : NlriContext} {ps : List WirePrefix}
    (h : r.ParsedFrom c ps) : ∃ p ∈ ps, r.update.nlri = UpdateBody.nlriOf c p := by
  obtain ⟨update, packet, rest, fuel, offset, q, hpacket, hparse, hr⟩ := h
  rw [parseNlri_append c update ps fuel offset {} hpacket] at hparse
  have hmem : r ∈ ps.map (c.route update) := by
    cases fuel with
    | zero => cases hparse
    | succ fuel =>
        rw [parseNlri_zero c update fuel _ _ (drop_add_of_drop hpacket)] at hparse
        cases hparse
        obtain ⟨flag, now, bgpId, receipt⟩ := c
        cases flag <;> simpa [NlriContext.pushAll] using hr
  obtain ⟨p, hp, rfl⟩ := List.mem_map.mp hmem
  exact ⟨p, hp, rfl⟩

theorem NlriContext.parsedFrom (c : NlriContext) (p : WirePrefix) : (c.route {} p).ParsedFrom c [p] := by
  have hpacket : (p.encode ++ [0]).drop 0 = [p].flatMap WirePrefix.encode ++ 0 :: [] := by simp
  refine ⟨{}, p.encode ++ [0], [], 1, 0, c.pushAll [c.route {} p] {}, hpacket, ?_, ?_⟩
  · rw [parseNlri_append c {} [p] 1 0 {} hpacket, parseNlri_zero c {} 0 _ _ (drop_add_of_drop hpacket)]
    rfl
  · obtain ⟨flag, now, bgpId, receipt⟩ := c
    cases flag <;> simp [NlriContext.pushAll]

/-! ## The addresses of a prefix -/

namespace WirePrefix

variable (p : WirePrefix)

theorem toNat_highest : (ntohl p.highest).toNat =
    (ntohl p.network).toNat ||| (2 ^ (32 - p.length.toNat) - 1) := by
  have hpow : 2 ^ (32 - p.length.toNat) - 1 < 2 ^ 32 := by
    have hle : 2 ^ (32 - p.length.toNat) ≤ 2 ^ 32 := Nat.pow_le_pow_right (by decide) (Nat.sub_le _ _)
    have hpow := Nat.two_pow_pos (32 - p.length.toNat)
    omega
  rw [highest, ntohl_htonl, UInt32.toNat_or, UInt32.toNat_ofNat', Nat.mod_eq_of_lt hpow]

/-- The range of a prefix without bits past its length is what begins with its bits. -/
theorem inRange_iff (h : p.Canonical) (addr : UInt32) :
    (memcmp p.network addr ≠ .gt ∧ memcmp p.highest addr ≠ .lt) ↔
      firstBits p.length.toNat p.network = firstBits p.length.toNat addr := by
  rw [memcmp_eq, memcmp_eq, Nat.compare_ne_gt, Nat.compare_ne_lt, toNat_highest]
  exact between_iff h _

theorem network_eq {p p' : WirePrefix} (h : p.Canonical) (h' : p'.Canonical) (hlen : p'.length = p.length)
    (hbits : firstBits p.length.toNat p.network = firstBits p.length.toNat p'.network) :
    p'.network = p.network := by
  apply ntohl_inj
  unfold Canonical at h h'
  unfold firstBits at hbits
  rw [hlen] at h'
  rw [← Nat.div_mul_cancel (Nat.dvd_of_mod_eq_zero h), hbits,
    Nat.div_mul_cancel (Nat.dvd_of_mod_eq_zero h')]

/-- The address behind the first bits of which every bit is zero is below any prefix with other bits. -/
theorem canonical_of_inRange (h : ∀ addr, firstBits p.length.toNat addr = firstBits p.length.toNat p.network →
    memcmp p.network addr ≠ .gt) : p.Canonical := by
  have hword := (ntohl p.network).toNat_lt
  have hdiv := Nat.div_add_mod' (ntohl p.network).toNat (2 ^ (32 - p.length.toNat))
  have hfirst := h (htonl (UInt32.ofNat ((ntohl p.network).toNat / 2 ^ (32 - p.length.toNat) *
    2 ^ (32 - p.length.toNat))))
  rw [firstBits, memcmp_eq, Nat.compare_ne_gt, ntohl_htonl, UInt32.toNat_ofNat',
    Nat.mod_eq_of_lt (by omega), Nat.mul_div_cancel _ (Nat.two_pow_pos _)] at hfirst
  have hle := hfirst rfl
  unfold Canonical
  omega

end WirePrefix

/-! ## The table -/

/-- The table holds, each under its key, routes that `parse_nlri` has pushed for prefixes without bits
past their lengths. -/
def BgpAdjRib.Canonical (rib : BgpAdjRib) : Prop :=
  ∀ (k : PrefixEntry) (r : Route), rib[k]? = some r →
    k = r.entry ∧ ∃ c ps, r.ParsedFrom c ps ∧ ∀ p ∈ ps, p.Canonical

theorem BgpAdjRib.Canonical.insert {rib : BgpAdjRib} (h : rib.Canonical) {r : Route} {c : NlriContext}
    {ps : List WirePrefix} (hr : r.ParsedFrom c ps) (hps : ∀ p ∈ ps, p.Canonical) :
    BgpAdjRib.Canonical (rib.insert r.entry r) := by
  intro k r' hk
  rw [lookup_insert] at hk
  split at hk
  · cases hk
    exact ⟨by assumption, c, ps, hr, hps⟩
  · exact h k r' hk

theorem BgpAdjRib.canonical_empty : BgpAdjRib.Canonical ∅ := by
  intro k r hk
  rw [Std.ExtTreeMap.getElem?_empty] at hk
  cases hk

/-- An entry lies before another, by its address and then by its peer, as numbers in network order. -/
def BgpUpdate.Before (e e' : BgpUpdate) : Prop :=
  (ntohl e.nlri.pfx).toNat < (ntohl e'.nlri.pfx).toNat ∨
    (ntohl e.nlri.pfx).toNat = (ntohl e'.nlri.pfx).toNat ∧
      (ntohl e.nlri.bgpId).toNat < (ntohl e'.nlri.bgpId).toNat

theorem ribSort_eq_lt {e e' : BgpUpdate} : ribSort e.nlri.entry e'.nlri.entry = .lt ↔ e.Before e' := by
  have hcompare : ribSort e.nlri.entry e'.nlri.entry =
      (memcmp e.nlri.pfx e'.nlri.pfx).then (memcmp e.nlri.bgpId e'.nlri.bgpId) := rfl
  rw [hcompare, memcmp_eq, memcmp_eq, Ordering.then_eq_lt, Nat.compare_eq_lt, Nat.compare_eq_eq,
    Nat.compare_eq_lt]
  rfl

variable {b : BgpCli}

theorem mem_entries {e : BgpUpdate} : e ∈ b.entries ↔
    ∃ (k : PrefixEntry) (r : Route), b.adjRibIn[k]? = some r ∧ r.update = e := by
  simp only [BgpCli.entries, List.mem_map, Prod.exists, Std.ExtTreeMap.mem_toList_iff_getElem?_eq_some]

theorem entries_before (h : ∀ (k : PrefixEntry) (r : Route), b.adjRibIn[k]? = some r → k = r.entry) :
    b.entries.Pairwise BgpUpdate.Before := by
  rw [BgpCli.entries, List.pairwise_map]
  refine (Std.ExtTreeMap.ordered_keys_toList (t := b.adjRibIn)).imp_of_mem ?_
  rintro ⟨k, r⟩ ⟨k', r'⟩ hmem hmem' hlt
  rw [h k r (Std.ExtTreeMap.mem_toList_iff_getElem?_eq_some.mp hmem),
    h k' r' (Std.ExtTreeMap.mem_toList_iff_getElem?_eq_some.mp hmem')] at hlt
  exact ribSort_eq_lt.mp hlt

theorem mem_prefixMatches {addr : UInt32} {e : BgpUpdate} : e ∈ b.prefixMatches addr ↔
    e ∈ b.entries ∧ memcmp e.nlri.pfx addr ≠ .gt ∧ memcmp e.nlri.prefixHighest addr ≠ .lt := by
  simp only [BgpCli.prefixMatches, List.mem_filter, Bool.and_eq_true, bne_iff_ne]

end Log2Bgp
