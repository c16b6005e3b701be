import Log2Bgp.Restore.Lemmas.Feed

/-!
# The run of a written configuration
-/

namespace Log2Bgp

open Lib

/-- A peer with the same settings and without a session. -/
structure CliPeer.Again (p q : CliPeer) : Prop extends CliPeer.Same p q where
  bgpId : q.bgpId = 0
  ipv4 : q.ipv4 = 0

/-- What is restored behind the lines of some peers. -/
structure BgpCli.Restored (b : BgpCli) (ps : List CliPeer) (b' : BgpCli) : Prop where
  bgpId : b'.bgpId = b.bgpId
  bIp : b'.bIp = b.bIp
  dumperOnOff : b'.dumperOnOff = b.dumperOnOff
  peers : List.Forall₂ CliPeer.Again ps b'.threadQ
  destination : b'.destination = if ps = [] then none else b.destination

theorem BgpCli.logging_eq {b : BgpCli} {p : CliPeer} (h : p.bgpId = 0) : b.logging p = b.destination := by
  rw [logging, h, destination]

/-- A new peer, which has the settings of a peer for which none have been made. -/
def freshPeer (addr : UInt32) (asn : UInt16) : CliPeer := { pIp := ntoa addr, AS := asn, addrFamily := afInet }

theorem again_fresh {p : CliPeer} {addr : UInt32} (haddr : p.pIp = ntoa addr) (hunset : p.Unset) :
    p.Again (freshPeer addr p.AS) where
  pIp := haddr.symm
  AS := rfl
  sizes := hunset.sizes.symm
  isAliasing := hunset.isAliasing.symm
  aliases := by rw [hunset.aliases]; exact .refl _
  bgpId := rfl
  ipv4 := rfl

theorem again_set {p : CliPeer} {addr : UInt32} (haddr : p.pIp = ntoa addr) {t : List TranslateAttribsBase}
    (ht : t.Perm p.translateAttribs) :
    p.Again { (freshPeer addr p.AS).sized p with translateAttribs := t, isAliasing := p.isAliasing } where
  pIp := haddr.symm
  AS := rfl
  sizes := rfl
  isAliasing := rfl
  aliases := ht
  bgpId := rfl
  ipv4 := rfl

namespace BgpCli

section Peer

variable {b b' : BgpCli} {ps rest : List CliPeer} {p : CliPeer} {addr : UInt32} (hb : b.Reached) (h : b.Restorable)
  (hq : b.threadQ = ps ++ p :: rest) (hb' : b.Restored ps b') (haddr : p.pIp = ntoa addr)
include hb h hq hb' haddr

theorem Restored.found (b₁ : BgpCli) (hb₁ : b₁.threadQ = b'.threadQ ++ [freshPeer addr p.AS]) :
    ∃ i q, b₁.getPeerByStrIp p.pIp = some i ∧ b₁.threadQ[i]? = some q ∧ q.bgpId = 0 ∧
      ((q.translateAttribs ++ p.translateAttribs).map fun a => (a.code, a.value)).Nodup ∧
      ∀ t, t.Perm (q.translateAttribs ++ p.translateAttribs) →
        List.Forall₂ CliPeer.Again (ps ++ [p]) (b₁.threadQ.set i { q.sized p with
          translateAttribs := t, isAliasing := q.isAliasing || p.isAliasing }) := by
  have hp : p ∈ b.threadQ := by simp [hq]
  have hip : p.pIp ≠ [] := haddr ▸ (isWord_ntoa addr).1
  cases hfind : b'.getPeerByStrIp p.pIp with
  | some i =>
      obtain ⟨-, before, q, behind, hsplit, rfl, hfits, hbefore⟩ := getPeerByStrIp_eq_some.mp hfind
      have hqi : b'.threadQ[before.length]? = some q := by simp [hsplit]
      obtain ⟨p₀, hp₀, hagain⟩ := forall₂_getElem? hb'.peers hqi
      have hmem : p₀ ∈ ps := List.mem_of_getElem? hp₀
      have hsame : p₀.pIp = p.pIp := hagain.pIp.symm.trans hfits
      have hunset : p.Unset := by
        have hlater := hb.later
        rw [hq, List.pairwise_append] at hlater
        exact (hlater.2.2 p₀ hmem p List.mem_cons_self).1 hsame
      have hsizes : q.sizes = p.sizes :=
        hagain.sizes.trans (h.sizes p₀ (by simp [hq, hmem]) p hp hsame)
      refine ⟨before.length, q, getPeerByStrIp_eq_some.mpr ⟨hip, before, q, behind ++ [freshPeer addr p.AS], ?_, rfl,
        hfits, hbefore⟩, ?_, hagain.bgpId, ?_, ?_⟩
      · rw [hb₁, hsplit, List.append_assoc, List.cons_append]
      · simp [hb₁, hsplit]
      · rw [hunset.aliases, List.append_nil, (hagain.aliases.map _).nodup_iff]
        exact (hb.peers p₀ (by simp [hq, hmem])).keys
      · intro t ht
        rw [hunset.aliases, List.append_nil] at ht
        rw [hb₁, CliPeer.sized_self hsizes, hunset.isAliasing, Bool.or_false]
        refine forall₂_set (forall₂_append hb'.peers (.cons (again_fresh haddr hunset) .nil)) fun x hx => ?_
        obtain ⟨hlt, -⟩ := List.getElem?_eq_some_iff.mp hp₀
        rw [List.getElem?_append_left hlt, hp₀] at hx
        cases hx
        exact { hagain with aliases := ht.trans hagain.aliases }
  | none =>
      have hnew : ∀ q ∈ b'.threadQ, q.pIp ≠ p.pIp := by
        rw [getPeerByStrIp, if_neg hip, List.findIdx?_eq_none_iff] at hfind
        simpa using hfind
      refine ⟨b'.threadQ.length, freshPeer addr p.AS, getPeerByStrIp_eq_some.mpr ⟨hip, b'.threadQ, _, [], hb₁, rfl,
        haddr.symm, hnew⟩, ?_, rfl, (hb.peers p hp).keys, ?_⟩
      · simp [hb₁]
      · intro t ht
        have hset := forall₂_append hb'.peers (.cons (again_set haddr ht) .nil)
        rw [hb₁, List.set_append_right _ _ (le_refl _)]
        simpa [freshPeer] using hset

theorem Restored.leads_peer (hfirst : addr ≠ 0 ∨ ps = []) :
    Leads CliInput.step CliInput.line (b.Restored (ps ++ [p])) (configPeer b p).tail b' := by
  have hp : p ∈ b.threadQ := by simp [hq]
  have hip : IsWord p.pIp := haddr ▸ isWord_ntoa addr
  have hnoIpv4 : b'.NoIpv4 := by
    intro q hq
    obtain ⟨i, hi⟩ := List.mem_iff_getElem?.mp hq
    obtain ⟨_, -, hagain⟩ := forall₂_getElem? hb'.peers hi
    exact hagain.ipv4
  have hlen := hb'.peers.length_eq
  have hroom : b'.threadQ.length < 256 := by
    have hcount := hb.count
    rw [hq, List.length_append, List.length_cons] at hcount
    omega
  have hzero : addr ≠ 0 ∨ b'.threadQ = [] := by
    obtain hne | rfl := hfirst
    · exact .inl hne
    · exact .inr (List.length_eq_zero_iff.mp hlen.symm)
  obtain ⟨i, q, hi, hqi, hqid, hkeys, hset⟩ := hb'.found hb h hq haddr
    (b'.startPeer { pIp := ntoa addr, ipv4 := addr, addrFamily := afInet, AS := p.AS }) rfl
  have hnone : b.destination = none → b'.destination = none := by
    intro hnone
    rw [hb'.destination, hnone, ite_self]
  intro c hc
  rw [haddr] at hc
  refine ⟨_, step_remoteAs hnoIpv4 hroom hzero hc, ?_⟩
  refine (leads_settings hip hi hqi hb h hp hqid hkeys hnone).mono ?_
  rintro b₂ ⟨hdestination, t, ht, hb₂⟩
  refine ⟨?_, ?_, ?_, ?_, ?_⟩
  · rw [hb₂]; exact hb'.bgpId
  · rw [hb₂]; exact hb'.bIp
  · rw [hb₂]; exact hb'.dumperOnOff
  · rw [hb₂]; exact hset t ht
  · rw [if_neg (by simp)]; exact hdestination

end Peer

section Run

variable {b b' : BgpCli} (hb : b.Reached) (h : b.Restorable)
include hb h

theorem Restored.leads_peers {ps rest : List CliPeer} (hq : b.threadQ = ps ++ rest) (hb' : b.Restored ps b') :
    Leads CliInput.step CliInput.line (b.Restored b.threadQ) (rest.flatMap fun p => (configPeer b p).tail) b' := by
  induction rest generalizing ps b' with
  | nil =>
      rw [List.append_nil] at hq
      rw [← hq] at hb'
      exact hb'
  | cons p rest ih =>
      have hp : p ∈ b.threadQ := by simp [hq]
      obtain ⟨addr, haddr⟩ := h.address p hp
      have hfirst : addr ≠ 0 ∨ ps = [] := by
        cases ps with
        | nil => exact .inr rfl
        | cons p₀ ps =>
            refine .inl fun hzero => h.first p ?_ (hzero ▸ haddr)
            simp [hq]
      rw [List.flatMap_cons]
      refine (hb'.leads_peer hb h hq haddr hfirst).append fun b₂ hb₂ => ?_
      exact ih (by rw [hq, List.append_assoc, List.singleton_append]) hb₂

/-- The lines in front of the first peer restore what is set for the whole instance. -/
theorem Restorable.leads_switches :
    Leads CliInput.step CliInput.line (b.Restored [])
      ((" bgp-id ".toList ++ ntoa b.bgpId ++ "\n".toList) :: if b.dumperOnOff then [" dumper on\n".toList] else [])
      (.initBgp b.AS) := by
  intro c hc
  refine ⟨_, step_bgpId b.bgpId hc, ?_⟩
  cases hon : b.dumperOnOff with
  | false => exact ⟨rfl, (h.bIp_eq hb).symm, hon.symm, .nil, rfl⟩
  | true =>
      intro c' hc'
      exact ⟨_, step_dumper hc', rfl, (h.bIp_eq hb).symm, hon.symm, .nil, rfl⟩

omit h in
theorem Restored.same (hb' : b.Restored b.threadQ b') : b.Same b' where
  bgpId := hb'.bgpId
  bIp := hb'.bIp
  dumperOnOff := hb'.dumperOnOff
  peers := by
    obtain ⟨hlen, hget⟩ := List.forall₂_iff_get.mp hb'.peers
    refine List.forall₂_iff_get.mpr ⟨hlen, fun i hi hi' => ⟨(hget i hi hi').toSame, ?_⟩⟩
    have hp := List.get_mem b.threadQ ⟨i, hi⟩
    rw [logging_eq (hget i hi hi').bgpId, logging_eq (hb.peers _ hp).bgpId, hb'.destination,
      if_neg (List.ne_nil_of_mem hp)]

theorem Restorable.restores : b.Restores where
  lines := h.wholeLines hb
  config := by
    intro inputs hinputs
    have hrun : Leads CliInput.step CliInput.line (b.Restored b.threadQ) b.configCommands (.initBgp b.AS) := by
      rw [h.configCommands_eq hb, ← List.cons_append]
      exact (h.leads_switches hb).append fun b₁ hb₁ => hb₁.leads_peers hb h rfl
    rw [← hinputs] at hrun
    obtain ⟨b', hb', hrestored⟩ := hrun.runAll
    exact ⟨b', hb', hrestored.same hb⟩

end Run

end BgpCli

end Log2Bgp
