import Log2Bgp.Model.Database

/-!
# A record is read back as it was written
-/

namespace Log2Bgp

open Lib

/-! ## The values of fields -/

theorem reads_aggregator (a : AggregatorSegment) : Reads readAggregator a.bytes a :=
  (Reads.pod 0 a.asn).bind (Reads.pod 0 a.origin).map

theorem reads_segment (s : AsPathSegment) : Reads readSegment s.bytes s :=
  (Reads.pod 0 s.segValue.length).bind
    ((Reads.pod 0 s.segType).bind (Reads.counted (Reads.pod 0) s.segValue).map)

theorem reads_communitySegment (c : CommunitySegment) : Reads readCommunitySegment c.bytes c :=
  (Reads.pod 0 c.asn).bind (Reads.pod 0 c.value).map

theorem reads_communities (old c : Counted CommunitySegment) :
    Reads (readCommunities old) (communityBytes c) c :=
  (Reads.pod old.length c.length).bind (Reads.counted reads_communitySegment c)

theorem reads_nlri (old n : BgpNlri) : Reads (readNlri old) n.bytes n :=
  (Reads.pod old.age n.age).bind <| (Reads.pod old.bgpId n.bgpId).bind <|
    (Reads.pod old.lastWithdrawTime n.lastWithdrawTime).bind <| (Reads.pod old.pfx n.pfx).bind <|
    (Reads.pod old.prefixHighest n.prefixHighest).bind <|
    (Reads.pod old.prefixLength n.prefixLength).bind <|
    (Reads.pod old.received n.received).bind <| (Reads.pod old.subnetMask n.subnetMask).bind <|
    (Reads.pod old.withdrawn n.withdrawn).map

/-! ## Fields -/

theorem DbaseAttrib.ofWord_toWord (a : DbaseAttrib) : DbaseAttrib.ofWord a.toWord = some a := by
  cases a <;> decide

/-- The loop makes an update of bytes, with `n` markers at most. -/
def ReadsRecord (ud : BgpUpdate) (bs : List UInt8) (n : Nat) (u : BgpUpdate) : Prop :=
  ∀ fuel code, n ≤ fuel → Reads (readRecord fuel code ud) bs (some u)

namespace ReadsRecord

variable {ud ud' u : BgpUpdate} {bs value : List UInt8} {n : Nat}

theorem stop (u : BgpUpdate) : ReadsRecord u (dbaseField .endOfRecord []) 1 u := by
  intro fuel code hfuel
  obtain ⟨fuel, rfl⟩ : ∃ k, fuel = k + 1 := ⟨fuel - 1, by omega⟩
  have hcode : Reads (Fstream.readPod code) (Pod.bytes DbaseAttrib.endOfRecord.toWord) _ :=
    Reads.pod code DbaseAttrib.endOfRecord.toWord
  refine hcode.bind ?_
  have hfield : readDbaseField DbaseAttrib.endOfRecord.toWord u = pure u := by
    unfold readDbaseField
    rw [DbaseAttrib.ofWord_toWord]
  rw [hfield]
  exact Reads.pure (some u)

theorem field {a : DbaseAttrib} (ha : a.toWord ≠ DbaseAttrib.endOfRecord.toWord)
    (hvalue : Reads (readDbaseField a.toWord ud) value ud') (hrest : ReadsRecord ud' bs n u) :
    ReadsRecord ud (dbaseField a value ++ bs) (n + 1) u := by
  intro fuel code hfuel
  obtain ⟨fuel, rfl⟩ : ∃ k, fuel = k + 1 := ⟨fuel - 1, by omega⟩
  have htail := hrest fuel a.toWord (by omega)
  rw [dbaseField, List.append_assoc]
  refine (Reads.pod code a.toWord).bind (hvalue.bind ?_)
  rw [if_neg ha]
  exact htail

theorem skip (hrest : ReadsRecord ud bs n u) : ReadsRecord ud ([] ++ bs) (n + 1) u :=
  fun fuel code hfuel => hrest fuel code (by omega)

theorem option {α : Type} {a : DbaseAttrib} {enc : α → List UInt8} {v : Option α}
    (store : Option α → BgpUpdate) (ha : a.toWord ≠ DbaseAttrib.endOfRecord.toWord)
    (hstore : ∀ x, Reads (readDbaseField a.toWord (store none)) (enc x) (store (some x)))
    (hrest : ReadsRecord (store v) bs n u) :
    ReadsRecord (store none) (dbaseOption a enc v ++ bs) (n + 1) u := by
  cases v with
  | none => exact hrest.skip
  | some x => exact field ha (hstore x) hrest

end ReadsRecord

/-! ## The whole record -/

/-- Reading a record from its first byte on leaves the update it was written for. -/
theorem readsRecord_record (u : BgpUpdate) : ReadsRecord {} (record u) 14 u := by
  obtain ⟨origin, asPath, as4Path, ipv4NextHop, med, localPref, atomicAggregate, aggregator,
    as4Aggregator, community, addrFamily, addrFamilyId, nlri⟩ := u
  let u₁ : BgpUpdate := { addrFamily }
  let u₂ : BgpUpdate := { u₁ with addrFamilyId }
  let u₃ (aggregator : Option AggregatorSegment) : BgpUpdate := { u₂ with aggregator }
  let u₄ (as4Aggregator : Option AggregatorSegment) : BgpUpdate := { u₃ aggregator with as4Aggregator }
  let u₅ (as4Path : Option AsPathSegment) : BgpUpdate := { u₄ as4Aggregator with as4Path }
  let u₆ (asPath : Option AsPathSegment) : BgpUpdate := { u₅ as4Path with asPath }
  let u₇ : BgpUpdate := { u₆ asPath with atomicAggregate }
  let u₈ : BgpUpdate := { u₇ with community }
  let u₉ : BgpUpdate := { u₈ with ipv4NextHop }
  let u₁₀ : BgpUpdate := { u₉ with localPref }
  let u₁₁ : BgpUpdate := { u₁₀ with med }
  let u₁₂ : BgpUpdate := { u₁₁ with nlri }
  unfold record
  refine .field (by decide) (show Reads _ _ u₁ from (Reads.pod _ addrFamily).map) ?_
  refine .field (by decide) (show Reads _ _ u₂ from (Reads.pod _ addrFamilyId).map) ?_
  refine .option u₃ (by decide) (fun a => (reads_aggregator a).map) ?_
  refine .option u₄ (by decide) (fun a => (reads_aggregator a).map) ?_
  refine .option u₅ (by decide) (fun s => (reads_segment s).map) ?_
  refine .option u₆ (by decide) (fun s => (reads_segment s).map) ?_
  have hatomic : ∀ {bs : List UInt8} {n : Nat} {u : BgpUpdate}, ReadsRecord u₇ bs n u →
      ReadsRecord (u₆ asPath) ((if atomicAggregate then dbaseField .atomicAggregate [] else []) ++ bs)
        (n + 1) u := by
    intro bs n u hrest
    cases atomicAggregate with
    | false => exact hrest.skip
    | true => exact .field (by decide) (Reads.pure u₇) hrest
  have hcommunity : ∀ {bs : List UInt8} {n : Nat} {u : BgpUpdate}, ReadsRecord u₈ bs n u →
      ReadsRecord u₇ ((if community = .empty then []
        else dbaseField .community (communityBytes community)) ++ bs) (n + 1) u := by
    intro bs n u hrest
    by_cases hempty : community = .empty
    · subst hempty
      exact hrest.skip
    · rw [if_neg hempty]
      exact .field (by decide) (reads_communities .empty community).map hrest
  refine hatomic (hcommunity ?_)
  refine .field (by decide) (show Reads _ _ u₉ from (Reads.pod _ ipv4NextHop).map) ?_
  refine .field (by decide) (show Reads _ _ u₁₀ from (Reads.pod _ localPref).map) ?_
  refine .field (by decide) (show Reads _ _ u₁₁ from (Reads.pod _ med).map) ?_
  refine .field (by decide) (show Reads _ _ u₁₂ from (reads_nlri _ nlri).map) ?_
  refine .field (by decide) (Reads.pod _ origin).map ?_
  exact .stop _

end Log2Bgp
