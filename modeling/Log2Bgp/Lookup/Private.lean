import Log2Bgp.Lookup.Lemmas.Ranges
import Log2Bgp.Reports.Lemmas.Readers

/-!
# Private and public prefixes
-/

namespace Log2Bgp

open Lib

/-! ## Ranges and blocks -/

/-- The blocks of RFC 1918: their lowest addresses, as numbers, and the bits that are fixed. -/
def rfc1918Blocks : List (Nat × Nat) := [(0x0a000000, 8), (0xac100000, 12), (0xc0a80000, 16)]

/-- An address, as a number, lies in a block. -/
def InBlock (block : Nat × Nat) (n : Nat) : Prop := block.1 ≤ n ∧ n < block.1 + 2 ^ (32 - block.2)

instance (block : Nat × Nat) (n : Nat) : Decidable (InBlock block n) := inferInstanceAs (Decidable (_ ∧ _))

namespace BgpNlri

/-- A prefix without bits past its length, and the highest address that it stands for. -/
structure Canonical (n : BgpNlri) : Prop where
  length_le : n.prefixLength.toNat ≤ 32
  lowest : (ntohl n.pfx).toNat % 2 ^ (32 - n.prefixLength.toNat) = 0
  highest : (ntohl n.prefixHighest).toNat = (ntohl n.pfx).toNat ||| (2 ^ (32 - n.prefixLength.toNat) - 1)

/-- The network address lies in one of the blocks. -/
def StartsPrivate (n : BgpNlri) : Prop := ∃ block ∈ rfc1918Blocks, InBlock block (ntohl n.pfx).toNat

/-- The whole range does. -/
def IsPrivate (n : BgpNlri) : Prop :=
  ∃ block ∈ rfc1918Blocks, InBlock block (ntohl n.pfx).toNat ∧ InBlock block (ntohl n.prefixHighest).toNat

instance : DecidablePred StartsPrivate := fun n =>
  inferInstanceAs (Decidable (∃ block ∈ rfc1918Blocks, InBlock block (ntohl n.pfx).toNat))

instance : DecidablePred IsPrivate := fun n =>
  inferInstanceAs (Decidable (∃ block ∈ rfc1918Blocks,
    InBlock block (ntohl n.pfx).toNat ∧ InBlock block (ntohl n.prefixHighest).toNat))

variable {n : BgpNlri}

theorem IsPrivate.starts (h : n.IsPrivate) : n.StartsPrivate := by
  obtain ⟨block, hblock, hstart, -⟩ := h
  exact ⟨block, hblock, hstart⟩

theorem Canonical.toNat_highest (h : n.Canonical) :
    (ntohl n.prefixHighest).toNat + 1 = (ntohl n.pfx).toNat + 2 ^ (32 - n.prefixLength.toNat) := by
  have hpos := Nat.two_pow_pos (32 - n.prefixLength.toNat)
  rw [h.highest, or_low, Nat.div_mul_cancel (Nat.dvd_of_mod_eq_zero h.lowest)]
  omega

/-- The prefixes that begin in a block and go beyond it: 10.0.0.0/7, and 192.168.0.0 with 13 to 15 bits. -/
def straddling : List (UInt32 × UInt8) :=
  [(memWord [10, 0, 0, 0], 7), (memWord [192, 168, 0, 0], 13), (memWord [192, 168, 0, 0], 14),
    (memWord [192, 168, 0, 0], 15)]

theorem straddling_of_start : ∀ block ∈ rfc1918Blocks, ∀ length < block.2, block.1 % 2 ^ (32 - length) = 0 →
    (block.1, length) ∈ straddling.map fun m => ((ntohl m.1).toNat, m.2.toNat) := by
  decide

theorem straddling_beyond : ∀ m ∈ straddling, (∃ block ∈ rfc1918Blocks, InBlock block (ntohl m.1).toNat) ∧
    ∀ block ∈ rfc1918Blocks, ¬ (InBlock block (ntohl m.1).toNat ∧
      InBlock block ((ntohl m.1).toNat + 2 ^ (32 - m.2.toNat) - 1)) := by
  have hall : (straddling.all fun m => decide ((∃ block ∈ rfc1918Blocks, InBlock block (ntohl m.1).toNat) ∧
      ∀ block ∈ rfc1918Blocks, ¬ (InBlock block (ntohl m.1).toNat ∧
        InBlock block ((ntohl m.1).toNat + 2 ^ (32 - m.2.toNat) - 1)))) = true := by
    decide
  exact fun m hm => of_decide_eq_true (List.all_eq_true.mp hall m hm)

theorem block_aligned : ∀ block ∈ rfc1918Blocks, 2 ^ (32 - block.2) ∣ block.1 := by
  decide

/-- A canonical prefix that begins in a block goes beyond it just where it is one of the four. -/
theorem Canonical.straddles_iff (h : n.Canonical) :
    (n.StartsPrivate → n.IsPrivate) ↔ (n.pfx, n.prefixLength) ∉ straddling := by
  have hhighest := h.toNat_highest
  have hlowest := Nat.dvd_of_mod_eq_zero h.lowest
  constructor
  · intro hprivate hmem
    obtain ⟨hstart, hbeyond⟩ := straddling_beyond _ hmem
    obtain ⟨block, hblock, hwithin⟩ := hprivate hstart
    have hend : (ntohl n.prefixHighest).toNat =
        (ntohl n.pfx).toNat + 2 ^ (32 - n.prefixLength.toNat) - 1 := by omega
    rw [hend] at hwithin
    exact hbeyond block hblock hwithin
  · rintro hnot ⟨block, hblock, hstart⟩
    have hdvd := block_aligned block hblock
    refine ⟨block, hblock, hstart, ?_⟩
    rcases Nat.lt_or_ge n.prefixLength.toNat block.2 with hshort | hlong
    · refine absurd ?_ hnot
      have hfirst : (ntohl n.pfx).toNat = block.1 :=
        aligned_start (by omega) hlowest hdvd hstart.1 hstart.2
      have hmem := straddling_of_start block hblock _ hshort (hfirst ▸ h.lowest)
      obtain ⟨m, hm, heq⟩ := List.mem_map.mp hmem
      obtain ⟨hpfx, hlength⟩ := Prod.mk.inj heq
      have hsame : m = (n.pfx, n.prefixLength) :=
        Prod.ext (ntohl_inj (hpfx.trans hfirst.symm)) (UInt8.toNat_inj.mp hlength)
      exact hsame ▸ hm
    · have hwithin := aligned_within (show 32 - n.prefixLength.toNat ≤ 32 - block.2 by omega) hlowest hdvd hstart.2
      have hle := hstart.1
      have hpos := Nat.two_pow_pos (32 - n.prefixLength.toNat)
      unfold InBlock
      omega

end BgpNlri

/-! ## `is_rfc1918` -/

theorem memcmp_ne_gt {v w : UInt32} : (memcmp v w != .gt) = decide ((ntohl v).toNat ≤ (ntohl w).toNat) := by
  rw [memcmp_eq, Bool.eq_iff_iff, bne_iff_ne, Nat.compare_ne_gt, decide_eq_true_iff]

theorem memcmp_ne_lt {v w : UInt32} : (memcmp v w != .lt) = decide ((ntohl w).toNat ≤ (ntohl v).toNat) := by
  rw [memcmp_eq, Bool.eq_iff_iff, bne_iff_ne, Nat.compare_ne_lt, decide_eq_true_iff]

theorem toNat_ntohl_memWord (a b c d : UInt8) : (ntohl (memWord [a, b, c, d])).toNat =
    d.toNat + 256 * (c.toNat + 256 * (b.toNat + 256 * a.toNat)) := by
  rw [toNat_ntohl, memBytes_memWord rfl]
  simp [leNat]

theorem isRfc1918_eq (n : BgpNlri) : isRfc1918 n.pfx = .ok (decide n.StartsPrivate) := by
  have htexts : "10.0.0.0".toList = ntoa (memWord [10, 0, 0, 0]) ∧ "172.16.0.0".toList = ntoa (memWord [172, 16, 0, 0]) ∧
      "192.168.0.0".toList = ntoa (memWord [192, 168, 0, 0]) := by
    decide
  have hranges : getIpv4HighRange (memWord [10, 0, 0, 0]) 8 = .ok (memWord [10, 255, 255, 255]) ∧
      getIpv4HighRange (memWord [172, 16, 0, 0]) 12 = .ok (memWord [172, 31, 255, 255]) ∧
      getIpv4HighRange (memWord [192, 168, 0, 0]) 16 = .ok (memWord [192, 168, 255, 255]) := by
    decide
  simp only [isRfc1918, rfcIps, List.mapM_cons, List.mapM_nil, htexts, aton_ntoa, Option.getD_some, hranges,
    Checked.ok_bind, Checked.pure_eq_ok]
  rw [Except.ok.injEq, Bool.eq_iff_iff, decide_eq_true_iff]
  simp only [List.any_cons, List.any_nil, Bool.or_false, memcmp_ne_gt, memcmp_ne_lt, toNat_ntohl_memWord,
    BgpNlri.StartsPrivate, rfc1918Blocks, InBlock, List.exists_mem_cons_iff, Bool.or_eq_true, Bool.and_eq_true,
    decide_eq_true_iff]
  simp
  omega

/-! ## The queries -/

/-- What a query shows of an entry. -/
def BgpUpdate.shown (e : BgpUpdate) : UInt32 × UInt8 := (e.nlri.pfx, e.nlri.prefixLength)

/-- The last ASN of the path of an entry is the one asked for, and the prefix is short enough. -/
def BgpUpdate.originatesIn (asn length : UInt32) (e : BgpUpdate) : Bool :=
  (e.asPath.any fun s => s.asns.getLast? = some asn) && e.nlri.prefixLength.toNat ≤ length.toNat

/-- The entries that match, in the order of the table. -/
def BgpCli.originating (b : BgpCli) (asn length : UInt32) : List BgpUpdate :=
  b.entries.filter (·.originatesIn asn length)

/-- An entry that was announced with a path, for a prefix without bits past its length. -/
structure BgpUpdate.Announced (e : BgpUpdate) : Prop where
  canonical : e.nlri.Canonical
  path : ∃ s, e.asPath = some s ∧ s.segValue.length ≠ 0

/-- The queries show all matching entries, those that are private and the others. -/
structure Partitioned (b : BgpCli) (asn length : UInt32) : Prop where
  all : originMatches .all b asn length = .ok ((b.originating asn length).map BgpUpdate.shown)
  privateOnly : originMatches .privateOnly b asn length =
    .ok (((b.originating asn length).filter fun e => e.nlri.IsPrivate).map BgpUpdate.shown)
  publicOnly : originMatches .publicOnly b asn length =
    .ok (((b.originating asn length).filter fun e => ¬ e.nlri.IsPrivate).map BgpUpdate.shown)

/-- What a query admits by the network address. -/
def OriginQuery.selects (query : OriginQuery) (e : BgpUpdate) : Bool :=
  match query with
  | .all => true
  | .publicOnly => ¬ e.nlri.StartsPrivate
  | .privateOnly => e.nlri.StartsPrivate

theorem admits_eq (query : OriginQuery) (e : BgpUpdate) : query.admits e.nlri.pfx = .ok (query.selects e) := by
  cases query with
  | all => rfl
  | publicOnly => simp [OriginQuery.admits, isRfc1918_eq, OriginQuery.selects]
  | privateOnly => exact isRfc1918_eq e.nlri

theorem valueAt_last {s : AsPathSegment} (h : s.segValue.length ≠ 0) :
    ∃ v, s.valueAt (s.segValue.length - 1) = .ok v ∧ s.asns.getLast? = some v := by
  have hsized : s.asns.length = s.segValue.length.toNat := s.segValue.sized
  have hle : (1 : UInt8) ≤ s.segValue.length := UInt8.le_iff_toNat_le.mpr (toNat_pos h)
  have hindex : (s.segValue.length - 1).toNat = s.asns.length - 1 := by
    rw [UInt8.toNat_sub_of_le _ _ hle, hsized]
    rfl
  obtain ⟨v, hv⟩ := safe_valueAt.mpr h
  refine ⟨v, hv, ?_⟩
  simp only [AsPathSegment.valueAt, hindex, ← List.getLast?_eq_getElem?] at hv
  split at hv
  · rename_i last hlast
    cases hv
    exact hlast
  · cases hv

variable {b : BgpCli} {asn length : UInt32} {query : OriginQuery} {e : BgpUpdate}

theorem originMatch_eq (h : e.Announced) : originMatch query asn length e =
    .ok (if query.selects e && e.originatesIn asn length then some e.shown else none) := by
  obtain ⟨s, hs, hpath⟩ := h.path
  obtain ⟨v, hv, hlast⟩ := valueAt_last hpath
  have hshort : e.nlri.prefixLength.toUInt32 ≤ length ↔ e.nlri.prefixLength.toNat ≤ length.toNat := by
    rw [UInt32.le_iff_toNat_le, UInt8.toNat_toUInt32]
  have horigin : e.originatesIn asn length =
      (decide (v = asn) && decide (e.nlri.prefixLength.toNat ≤ length.toNat)) := by
    simp [BgpUpdate.originatesIn, hs, hlast]
  simp only [originMatch, hs, admits_eq, Checked.ok_bind, hshort, hv, Checked.pure_eq_ok, horigin]
  by_cases hselects : query.selects e = true ∧ e.nlri.prefixLength.toNat ≤ length.toNat
  · obtain ⟨hselected, hlength⟩ := hselects
    simp [hselected, hlength, BgpUpdate.shown]
  · rw [if_neg hselects, if_neg]
    simp only [Bool.and_eq_true, decide_eq_true_iff]
    exact fun hall => hselects ⟨hall.1, hall.2.2⟩

theorem originMatches_eq (h : ∀ e ∈ b.entries, e.Announced) : originMatches query b asn length =
    .ok (((b.originating asn length).filter query.selects).map BgpUpdate.shown) := by
  rw [originMatches, mapM_eq_map fun e he => originMatch_eq (h e he), Checked.ok_bind, Checked.pure_eq_ok,
    List.filterMap_map, BgpCli.originating, List.filter_filter, ← filterMap_ite]
  rfl

/-- The private ones are right, just where no matching entry begins in a block and goes beyond it. -/
theorem privateOnly_iff (h : ∀ e ∈ b.entries, e.Announced) :
    originMatches .privateOnly b asn length =
        .ok (((b.originating asn length).filter fun e => e.nlri.IsPrivate).map BgpUpdate.shown) ↔
      ∀ e ∈ b.originating asn length, e.shown ∉ BgpNlri.straddling := by
  rw [originMatches_eq h, Except.ok.injEq, map_filter_eq_iff]
  · refine forall₂_congr fun e he => ?_
    have hcanonical := (h e (List.mem_filter.mp he).1).canonical
    rw [BgpUpdate.shown, ← hcanonical.straddles_iff]
    simp [OriginQuery.selects]
  · intro e _ hpriv
    have hstart := (of_decide_eq_true hpriv).starts
    simpa [OriginQuery.selects] using hstart

namespace Example

/-- 10.0.0.0/7, from the AS 64512. -/
def beyondRoute : Route :=
  { update := {
      asPath := some ⟨2, ⟨1, [64512], rfl⟩⟩
      nlri := { bgpId := 7, pfx := memWord [10, 0, 0, 0], prefixHighest := memWord [11, 255, 255, 255], prefixLength := 7 } }
    receipt := ⟨0, 0, .established⟩ }

def beyond : BgpCli := { adjRibIn := (∅ : BgpAdjRib).insert beyondRoute.entry beyondRoute }

theorem mem_entries_beyond {e : BgpUpdate} : e ∈ beyond.entries ↔ e = beyondRoute.update := by
  rw [Log2Bgp.mem_entries]
  constructor
  · rintro ⟨k, r, hr, rfl⟩
    rw [beyond, lookup_insert] at hr
    split at hr
    · cases hr
      rfl
    · rw [Std.ExtTreeMap.getElem?_empty] at hr
      cases hr
  · rintro rfl
    refine ⟨beyondRoute.entry, beyondRoute, ?_, rfl⟩
    rw [beyond, lookup_insert, if_pos rfl]

theorem announced_beyond : ∀ e ∈ beyond.entries, e.Announced := by
  intro e he
  rw [mem_entries_beyond] at he
  subst he
  exact ⟨⟨by decide, by decide, by decide⟩, _, rfl, by decide⟩

end Example

/-- 10.0.0.0/7 is shown as private, with its half in the public 11.0.0.0/8. -/
theorem beyond_private : ¬ Partitioned Example.beyond 64512 24 := by
  intro h
  have hnone := (privateOnly_iff Example.announced_beyond).mp h.privateOnly
  have hmem : Example.beyondRoute.update ∈ Example.beyond.originating 64512 24 :=
    List.mem_filter.mpr ⟨Example.mem_entries_beyond.mpr rfl, by decide⟩
  exact hnone _ hmem (by decide)

/-- The three queries agree with the ranges of what they show, just where no matching entry is one of the
prefixes that begin in a private block and go beyond it. -/
theorem partitioned_iff (h : ∀ e ∈ b.entries, e.Announced) (asn length : UInt32) :
    Partitioned b asn length ↔ ∀ e ∈ b.originating asn length, e.shown ∉ BgpNlri.straddling := by
  refine ⟨fun hall => (privateOnly_iff h).mp hall.privateOnly, fun hnone => ⟨?_, (privateOnly_iff h).mpr hnone, ?_⟩⟩
  · have hall : (b.originating asn length).filter OriginQuery.all.selects = b.originating asn length :=
      List.filter_eq_self.mpr fun _ _ => rfl
    rw [originMatches_eq h, hall]
  · rw [originMatches_eq h]
    refine congrArg (fun es => Except.ok (List.map BgpUpdate.shown es)) (List.filter_congr fun e he => ?_)
    have hcanonical := (h e (List.mem_filter.mp he).1).canonical
    have hsame : e.nlri.StartsPrivate ↔ e.nlri.IsPrivate :=
      ⟨hcanonical.straddles_iff.mpr (hnone e he), BgpNlri.IsPrivate.starts⟩
    simp [OriginQuery.selects, hsame]

namespace Example

/-- A route from an AS, with the lowest and the highest address of its prefix. -/
def originRoute (asn : UInt32) (lowest highest : List UInt8) (length : UInt8) : Route :=
  { update := {
      asPath := some ⟨2, ⟨2, [64496, asn], rfl⟩⟩
      nlri := { bgpId := 7, pfx := memWord lowest, prefixHighest := memWord highest, prefixLength := length } }
    receipt := ⟨0, 0, .established⟩ }

/-- A private and a public prefix from one AS, a longer one, and from another AS one that goes beyond its block. -/
def mixedOrigins : BgpCli :=
  { adjRibIn := [originRoute 64512 [10, 1, 0, 0] [10, 1, 255, 255] 16, originRoute 64512 [8, 8, 8, 0] [8, 8, 8, 255] 24,
      originRoute 64512 [9, 9, 9, 128] [9, 9, 9, 255] 25, originRoute 64513 [10, 0, 0, 0] [11, 255, 255, 255] 7].foldl
      (fun rib r => rib.insert r.entry r) ∅ }

theorem announced_mixedOrigins : ∀ e ∈ mixedOrigins.entries, e.Announced := by
  have hall : ∀ e ∈ mixedOrigins.entries, (e.nlri.prefixLength.toNat ≤ 32 ∧
      (ntohl e.nlri.pfx).toNat % 2 ^ (32 - e.nlri.prefixLength.toNat) = 0 ∧
      (ntohl e.nlri.prefixHighest).toNat =
        (ntohl e.nlri.pfx).toNat ||| (2 ^ (32 - e.nlri.prefixLength.toNat) - 1)) ∧
      ∃ s ∈ e.asPath, s.segValue.length ≠ 0 := by decide +kernel
  intro e he
  obtain ⟨⟨hlength, hlowest, hhighest⟩, s, hs, hpath⟩ := hall e he
  exact ⟨⟨hlength, hlowest, hhighest⟩, s, hs, hpath⟩

end Example

theorem partitioned_iff_mixed :
    (Example.mixedOrigins.originating 64512 24).map BgpUpdate.shown =
      [(memWord [8, 8, 8, 0], 24), (memWord [10, 1, 0, 0], 16)] ∧
    originMatches .privateOnly Example.mixedOrigins 64512 24 = .ok [(memWord [10, 1, 0, 0], 16)] ∧
    originMatches .publicOnly Example.mixedOrigins 64512 24 = .ok [(memWord [8, 8, 8, 0], 24)] := by
  have hnone : ∀ e ∈ Example.mixedOrigins.originating 64512 24, e.shown ∉ BgpNlri.straddling := by decide +kernel
  have hpartitioned := (partitioned_iff Example.announced_mixedOrigins 64512 24).mpr hnone
  have hprivate : ((Example.mixedOrigins.originating 64512 24).filter fun e => e.nlri.IsPrivate).map BgpUpdate.shown =
      [(memWord [10, 1, 0, 0], 16)] := by decide +kernel
  have hpublic : ((Example.mixedOrigins.originating 64512 24).filter fun e => ¬ e.nlri.IsPrivate).map BgpUpdate.shown =
      [(memWord [8, 8, 8, 0], 24)] := by decide +kernel
  exact ⟨by decide +kernel, hprivate ▸ hpartitioned.privateOnly, hpublic ▸ hpartitioned.publicOnly⟩

end Log2Bgp
