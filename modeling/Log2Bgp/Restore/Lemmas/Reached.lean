import Log2Bgp.Cli.Lemmas.Neighbors
import Log2Bgp.Restore.Lemmas.Aliases
import Log2Bgp.Restore.Lemmas.Changes

/-!
# Instances that commands lead to
-/

namespace Log2Bgp

open Lib

/-- A peer as commands leave it, before any session. -/
structure CliPeer.Settled (p : CliPeer) : Prop where
  bgpId : p.bgpId = 0
  ipv4 : p.ipv4 = 0
  address : p.addrFamily = afInet → ∃ addr, p.pIp = ntoa addr
  aliases : ∀ a ∈ p.translateAttribs, p.AliasOf a
  keys : (p.translateAttribs.map fun a => (a.code, a.value)).Nodup
  aliasing : p.isAliasing = true ↔ p.translateAttribs ≠ []

/-- A peer for which nothing has been set. -/
structure CliPeer.Unset (p : CliPeer) : Prop where
  sizes : p.sizes = ((14600, 4096), (14600, 4096))
  isAliasing : p.isAliasing = false
  aliases : p.translateAttribs = []

/-- What is set for an address is set for the first peer with it, and 0.0.0.0 can only be the first
address of all. -/
structure BgpCli.Reached (b : BgpCli) : Prop where
  peers : ∀ p ∈ b.threadQ, p.Settled
  later : b.threadQ.Pairwise fun p q => (p.pIp = q.pIp → q.Unset) ∧ (q.addrFamily = afInet → q.pIp ≠ ntoa 0)
  count : b.threadQ.length ≤ 256
  bgpId : (b.bIp = [] ∧ b.bgpId = 0) ∨ b.bIp = ntoa b.bgpId
  hosts : ∀ (k : UInt32) (s : UdpSender), b.dumper[k]? = some s → IsWord s.host

theorem BgpCli.reached_initBgp (asn : UInt16) : (initBgp asn).Reached where
  peers := by simp [initBgp]
  later := by simp [initBgp]
  count := by simp [initBgp]
  bgpId := .inl ⟨rfl, rfl⟩
  hosts := by simp [initBgp]

/-! ## One peer -/

theorem CliPeer.unset_copy (p : CliPeer) : p.copy.Unset := ⟨rfl, rfl, rfl⟩

theorem CliPeer.settled_copy {p : CliPeer} (h : p.addrFamily = afInet → ∃ addr, p.pIp = ntoa addr) :
    p.copy.Settled where
  bgpId := rfl
  ipv4 := rfl
  address := h
  aliases := by simp [copy]
  keys := by simp [copy]
  aliasing := by simp [copy]

theorem SetsSizes.settled {set : CliPeer → CliPeer} (hset : SetsSizes set) {p : CliPeer} (h : p.Settled) :
    (set p).Settled := by
  cases hset with
  | rx tcp bgp => exact ⟨h.bgpId, h.ipv4, h.address, fun a ha => (h.aliases a ha).of_bgpId rfl, h.keys, h.aliasing⟩
  | tx tcp bgp => exact ⟨h.bgpId, h.ipv4, h.address, fun a ha => (h.aliases a ha).of_bgpId rfl, h.keys, h.aliasing⟩

theorem CliPeer.Settled.setTranslation {std : AliasSort} {p p' : CliPeer} (h : p.Settled)
    {a : TranslateAttribsBase} (ha : p.AliasOf a)
    (hset : p.setTranslation std a.code a.value a.printableAttrib = .ok p') :
    p'.Settled ∧ p'.pIp = p.pIp ∧ p'.addrFamily = p.addrFamily := by
  obtain ⟨t, hsub, hfits, rfl⟩ := setTranslation_ok hset
  refine ⟨⟨h.bgpId, h.ipv4, h.address, ?_, ?_, ?_⟩, rfl, rfl⟩
  · intro a' ha'
    rw [(std.perm _).mem_iff, List.mem_append, List.mem_singleton] at ha'
    obtain ha' | rfl := ha'
    · exact (h.aliases a' (hsub.subset ha')).of_bgpId rfl
    · exact ha.of_bgpId rfl
  · have hperm := (std.perm (t ++ [a])).map fun a => (a.code, a.value)
    rw [hperm.nodup_iff, List.map_append, List.nodup_append]
    refine ⟨h.keys.sublist (hsub.map _), List.nodup_singleton _, ?_⟩
    intro k hk k' hk' heq
    obtain ⟨a', ha', rfl⟩ := List.mem_map.mp hk
    cases List.mem_singleton.mp hk'
    exact hfits a' ha' ⟨congrArg Prod.fst heq, congrArg Prod.snd heq⟩
  · have hmem : a ∈ std.sort (t ++ [a]) := (std.perm _).mem_iff.mpr (List.mem_append_right _ (List.mem_singleton_self a))
    exact iff_of_true rfl (List.ne_nil_of_mem hmem)

/-! ## The table of peers -/

theorem neighborPeer_address (u : Uninit) (ip : Text) (h : (neighborPeer u ip).addrFamily = afInet) :
    (neighborPeer u ip).pIp = ntoa (neighborPeer u ip).ipv4 := by
  unfold neighborPeer at *
  split
  · rfl
  · rename_i hpton
    rw [hpton] at h
    cases h

/-- Where `peer_exists` finds no peer, there is room and no peer fits. -/
theorem peerExists_eq_false {b : BgpCli} (hb : b.NoIpv4) {peer : CliPeer} (h : peerExists b.threadQ peer = .ok false) :
    b.threadQ.length < 256 ∧ ∀ q ∈ b.threadQ, peer.addrFamily = afInet → q.ipv4 ≠ peer.ipv4 := by
  have hnone : ∀ q ∈ b.threadQ, ¬ (peer.addrFamily = afInet ∧ q.ipv4 = peer.ipv4) := by
    rintro q hq ⟨hfamily, hfits⟩
    obtain ⟨first, rest, hfirst⟩ := List.exists_cons_of_ne_nil (List.ne_nil_of_mem hq)
    have hzero : first.ipv4 = peer.ipv4 := by
      rw [← hfits, hb q hq, hb first (hfirst ▸ List.mem_cons_self)]
    rw [hfirst, peerExists_of_first hfamily hzero] at h
    cases h
  rw [peerExists_of_none hnone] at h
  split at h
  · rename_i hlt
    exact ⟨hlt, fun q hq hfamily hfits => hnone q hq ⟨hfamily, hfits⟩⟩
  · cases h

theorem getPeerByStrIp_eq_some {b : BgpCli} {ip : Text} {i : Nat} :
    b.getPeerByStrIp ip = some i ↔ ip ≠ [] ∧ ∃ before p behind, b.threadQ = before ++ p :: behind ∧
      before.length = i ∧ p.pIp = ip ∧ ∀ q ∈ before, q.pIp ≠ ip := by
  unfold BgpCli.getPeerByStrIp
  split
  · rename_i hnil
    simp [hnil]
  · rename_i hne
    simp [findIdx?_eq_some_iff_append, hne]

theorem getElem?_of_getPeerByStrIp {b : BgpCli} {ip : Text} {i : Nat} (h : b.getPeerByStrIp ip = some i) :
    ∃ p, b.threadQ[i]? = some p ∧ p.pIp = ip := by
  obtain ⟨-, before, p, behind, hq, rfl, hp, -⟩ := getPeerByStrIp_eq_some.mp h
  exact ⟨p, by simp [hq], hp⟩

theorem modifyPeer_eq {b : BgpCli} {i : Nat} {p : CliPeer} (hp : b.threadQ[i]? = some p)
    (f : CliPeer → CliPeer) : b.modifyPeer i f = { b with threadQ := b.threadQ.set i (f p) } := by
  obtain ⟨hi, rfl⟩ := List.getElem?_eq_some_iff.mp hp
  rw [BgpCli.modifyPeer, List.modify_eq_take_cons_drop hi, List.set_eq_take_append_cons_drop, if_pos hi]

theorem SetsSizes.same {set : CliPeer → CliPeer} (hset : SetsSizes set) (p : CliPeer) :
    (set p).pIp = p.pIp ∧ (set p).addrFamily = p.addrFamily := by
  cases hset with
  | rx tcp bgp => exact ⟨rfl, rfl⟩
  | tx tcp bgp => exact ⟨rfl, rfl⟩

namespace BgpCli.Reached

variable {b b' : BgpCli} (hb : b.Reached)
include hb

theorem getElem?_settled {i : Nat} {p : CliPeer} (hp : b.threadQ[i]? = some p) : p.Settled :=
  hb.peers p (List.mem_of_getElem? hp)

theorem setPeer {ip : Text} {i : Nat} {p p' : CliPeer} (hi : b.getPeerByStrIp ip = some i)
    (hp : b.threadQ[i]? = some p) (hp' : p'.Settled) (hip : p'.pIp = p.pIp)
    (hfamily : p'.addrFamily = p.addrFamily) : Reached { b with threadQ := b.threadQ.set i p' } := by
  obtain ⟨-, before, q, behind, hq, rfl, rfl, hbefore⟩ := getPeerByStrIp_eq_some.mp hi
  have hqp : q = p := by
    rw [hq] at hp
    simpa using hp
  subst hqp
  have hset : b.threadQ.set before.length p' = before ++ p' :: behind := by rw [hq]; simp
  have hlater := hb.later
  have hpeers := hb.peers
  have hcount := hb.count
  rw [hq] at hlater hpeers hcount
  refine ⟨?_, ?_, ?_, hb.bgpId, hb.hosts⟩
  · intro r hr
    rw [hset] at hr
    simp only [List.mem_append, List.mem_cons] at hr hpeers
    obtain hr | rfl | hr := hr
    · exact hpeers r (.inl hr)
    · exact hp'
    · exact hpeers r (.inr (.inr hr))
  · rw [hset]
    simp only [List.pairwise_append, List.pairwise_cons, List.forall_mem_cons] at hlater ⊢
    obtain ⟨hleft, ⟨hq, hright⟩, hcross⟩ := hlater
    refine ⟨hleft, ⟨fun r hr => hip ▸ hq r hr, hright⟩, fun r hr => ⟨⟨?_, ?_⟩, (hcross r hr).2⟩⟩
    · exact fun heq => absurd (heq.trans hip) (hbefore r hr)
    · rw [hfamily, hip]
      exact (hcross r hr).1.2
  · rw [hset]
    simpa using hcount

theorem startPeer {u : Uninit} {ip : Text} (asn : UInt16)
    (h : peerExists b.threadQ (neighborPeer u ip) = .ok false) :
    (b.startPeer { neighborPeer u ip with AS := asn }).Reached := by
  obtain ⟨hcount, hzero⟩ := peerExists_eq_false (fun q hq => (hb.peers q hq).ipv4) h
  let params : CliPeer := { neighborPeer u ip with AS := asn }
  have haddress : params.addrFamily = afInet → params.pIp = ntoa params.ipv4 := neighborPeer_address u ip
  refine ⟨?_, ?_, ?_, hb.bgpId, hb.hosts⟩
  · intro p hp
    obtain hp | hp := List.mem_append.mp hp
    · exact hb.peers p hp
    · rw [List.mem_singleton.mp hp]
      exact CliPeer.settled_copy fun hfamily => ⟨_, haddress hfamily⟩
  · refine List.pairwise_append.mpr ⟨hb.later, List.pairwise_singleton _ _, fun p hp q hq => ?_⟩
    rw [List.mem_singleton.mp hq]
    refine ⟨fun _ => CliPeer.unset_copy _, fun hfamily hnull => ?_⟩
    have hip : params.ipv4 = 0 := ntoa_inj ((haddress hfamily).symm.trans hnull)
    exact hzero p hp hfamily (((hb.peers p hp).ipv4).trans hip.symm)
  · simp only [BgpCli.startPeer, List.length_append, List.length_singleton]
    omega

theorem change {u : Uninit} (h : b.Change u b') : b'.Reached := by
  cases h with
  | none h =>
      rw [h]
      exact ⟨hb.peers, hb.later, hb.count, hb.bgpId, hb.hosts⟩
  | setId addr => exact ⟨hb.peers, hb.later, hb.count, .inr rfl, hb.hosts⟩
  | dumper on => exact ⟨hb.peers, hb.later, hb.count, hb.bgpId, hb.hosts⟩
  | neighbor ip asn h => exact hb.startPeer asn h
  | sizes hi hset =>
      obtain ⟨p, hp, -⟩ := getElem?_of_getPeerByStrIp hi
      obtain ⟨hip, hfamily⟩ := hset.same p
      rw [modifyPeer_eq hp]
      exact hb.setPeer hi hp (hset.settled (hb.getElem?_settled hp)) hip hfamily
  | translation std hi hp ha hset =>
      obtain ⟨hsettled, hip, hfamily⟩ := (hb.getElem?_settled hp).setTranslation ha hset
      exact hb.setPeer hi hp hsettled hip hfamily
  | @logging p host port hp hhost =>
      refine ⟨hb.peers, hb.later, hb.count, hb.bgpId, fun k s hs => ?_⟩
      unfold UdpDestinations.addDestHost at hs
      rw [lookup_insert] at hs
      split at hs
      · cases hs
        exact hhost
      · exact hb.hosts k s hs

end BgpCli.Reached

theorem BgpCli.reached_of_run {asn : UInt16} {inputs : List CliInput} {b : BgpCli}
    (h : runAll CliInput.step inputs (.initBgp asn) = some b) : b.Reached :=
  runAll_invariant (fun _ _ _ hb hstep => hb.change (CliInput.step_change hstep)) (reached_initBgp asn) h

end Log2Bgp
