import Log2Bgp.Restore.Lemmas.Effects
import Log2Bgp.Restore.Lemmas.Printed

/-!
# What the lines of one peer restore
-/

namespace Log2Bgp

open Lib

/-! ## A peer at its place -/

section WithPeer

variable {b : BgpCli} {ip : Text} {i : Nat} {p : CliPeer}

theorem getPeerByStrIp_withPeer (hi : b.getPeerByStrIp ip = some i) (hp : b.threadQ[i]? = some p) (p' : CliPeer)
    (hip : p'.pIp = p.pIp) :
    (b.withPeer i p').getPeerByStrIp ip = some i ∧ (b.withPeer i p').threadQ[i]? = some p' := by
  obtain ⟨hne, before, q, behind, hq, rfl, hfits, hbefore⟩ := getPeerByStrIp_eq_some.mp hi
  have hqp : q = p := by
    rw [hq] at hp
    simpa using hp
  have hset : (b.withPeer before.length p').threadQ = before ++ p' :: behind := by
    simp [BgpCli.withPeer, hq]
  refine ⟨getPeerByStrIp_eq_some.mpr ⟨hne, before, p', behind, hset, rfl, ?_, hbefore⟩, by simp [hset]⟩
  rw [hip, ← hqp, hfits]

theorem withPeer_withPeer (q q' : CliPeer) : (b.withPeer i q).withPeer i q' = b.withPeer i q' := by
  simp [BgpCli.withPeer]

theorem withPeer_self (hp : b.threadQ[i]? = some p) : b.withPeer i p = b := by
  obtain ⟨hi, rfl⟩ := List.getElem?_eq_some_iff.mp hp
  simp [BgpCli.withPeer]

end WithPeer

/-! ## The settings of a peer -/

/-- Where the updates of peers without a session are logged to. -/
def BgpCli.destination (b : BgpCli) : Option (Text × UInt16) := (b.dumper[(0 : UInt32)]?).map fun s => (s.host, s.port)

/-- A peer with the sizes of another one. -/
def CliPeer.sized (q p : CliPeer) : CliPeer :=
  { q with
    tcpTxSocketBufferSize := p.tcpTxSocketBufferSize, bgpTxBufferSize := p.bgpTxBufferSize
    tcpRxSocketBufferSize := p.tcpRxSocketBufferSize, bgpRxBufferSize := p.bgpRxBufferSize }

theorem CliPeer.sized_self {p q : CliPeer} (h : q.sizes = p.sizes) : q.sized p = q := by
  simp only [sizes, Prod.mk.injEq] at h
  obtain ⟨⟨htcp, hbgp⟩, htcp', hbgp'⟩ := h
  rw [sized, ← htcp, ← hbgp, ← htcp', ← hbgp']

section Settings

variable {b b₁ : BgpCli} {i : Nat} {p q : CliPeer} (hip : IsWord p.pIp) (hi : b₁.getPeerByStrIp p.pIp = some i)
  (hq : b₁.threadQ[i]? = some q)
include hip hi hq

theorem leads_buffers :
    Leads CliInput.step CliInput.line (· = b₁.withPeer i (q.sized p))
      ["  neighbor ".toList ++ p.pIp ++ " tx-buffer ".toList ++ decimalInt p.tcpTxSocketBufferSize.toInt ++
          " ".toList ++ decimalInt p.bgpTxBufferSize.toInt ++ "\n".toList,
        "  neighbor ".toList ++ p.pIp ++ " rx-buffer ".toList ++ decimalInt p.tcpRxSocketBufferSize.toInt ++
          " ".toList ++ decimalInt p.bgpRxBufferSize.toInt ++ "\n".toList] b₁ := by
  intro c hc
  refine ⟨_, step_txBuffer hip hi hq hc, ?_⟩
  intro c' hc'
  obtain ⟨hi', hq'⟩ := getPeerByStrIp_withPeer hi hq { q with
    tcpTxSocketBufferSize := p.tcpTxSocketBufferSize, bgpTxBufferSize := p.bgpTxBufferSize } rfl
  exact ⟨_, step_rxBuffer hip hi' hq' hc', withPeer_withPeer _ _⟩

theorem leads_logging (hb : b.Reached) (h : b.Restorable) (hp : p ∈ b.threadQ) (hqid : q.bgpId = 0)
    (hnone : b.destination = none → b₁.destination = none) :
    Leads CliInput.step CliInput.line
      (fun b₂ => b₂.destination = b.destination ∧ b₂ = { b₁ with dumper := b₂.dumper })
      (match b.dumper[p.bgpId]? with
        | some s => ["neighbor ".toList ++ p.pIp ++ " logging host ".toList ++ s.host ++ " ".toList ++
            decimal s.port.toNat ++ "\n".toList]
        | none => []) b₁ := by
  have hpid : p.bgpId = 0 := (hb.peers p hp).bgpId
  cases hs : b.dumper[p.bgpId]? with
  | none =>
      have hdestination : b.destination = none := by
        rw [BgpCli.destination, ← hpid, hs]
        rfl
      exact ⟨(hnone hdestination).trans hdestination.symm, rfl⟩
  | some s =>
      obtain ⟨⟨addr, haddr, hne⟩, hport⟩ := h.logging p hp s hs
      have hhost := hb.hosts _ s hs
      intro c hc
      have hvalid : stringToIp c.env.uninit s.host ≠ 0 := by
        rw [stringToIp, if_neg hhost.1, haddr]
        exact hne
      refine ⟨_, step_logging hip hi hq hhost hc, ?_⟩
      rw [if_neg hvalid, hqid, hport]
      refine ⟨?_, rfl⟩
      rw [hpid] at hs
      simp only [BgpCli.destination, UdpDestinations.addDestHost, lookup_insert, hs]
      simp [UdpSender.call]

theorem leads_aliases {as : List TranslateAttribsBase} (hcodes : ∀ a ∈ as, a.code ∈ printedAliases)
    (hof : ∀ a ∈ as, q.AliasOf a) (hkeys : ((q.translateAttribs ++ as).map fun a => (a.code, a.value)).Nodup) :
    Leads CliInput.step CliInput.line
      (fun b₂ => ∃ t, t.Perm (q.translateAttribs ++ as) ∧
        b₂ = b₁.withPeer i { q with translateAttribs := t, isAliasing := q.isAliasing || !as.isEmpty })
      (as.map (configAlias p.pIp)) b₁ := by
  induction as generalizing b₁ q with
  | nil => exact ⟨q.translateAttribs, by simp, by simp [withPeer_self hq]⟩
  | cons a as ih =>
      intro c hc
      have hfresh : ∀ a' ∈ q.translateAttribs, ¬ a'.Fits a.code a.value := by
        rintro a' ha' ⟨hcode, hvalue⟩
        rw [List.map_append, List.nodup_append] at hkeys
        exact hkeys.2.2 _ (List.mem_map_of_mem ha') _ (List.mem_map_of_mem List.mem_cons_self)
          (Prod.ext hcode hvalue)
      refine ⟨_, step_alias hip hi hq (hcodes a List.mem_cons_self) (hof a List.mem_cons_self) hfresh hc, ?_⟩
      obtain ⟨hi', hq'⟩ := getPeerByStrIp_withPeer hi hq { q with
        translateAttribs := c.env.std.sort (q.translateAttribs ++ [a]), isAliasing := true } rfl
      have hperm : (c.env.std.sort (q.translateAttribs ++ [a]) ++ as).Perm (q.translateAttribs ++ a :: as) := by
        have hsort := (c.env.std.perm (q.translateAttribs ++ [a])).append_right as
        rwa [List.append_assoc] at hsort
      refine (ih hi' hq' (fun a' ha' => hcodes a' (List.mem_cons_of_mem _ ha'))
        (fun a' ha' => (hof a' (List.mem_cons_of_mem _ ha')).of_bgpId rfl)
        ((hperm.map _).nodup_iff.mpr hkeys)).mono ?_
      rintro b₂ ⟨t, ht, rfl⟩
      exact ⟨t, ht.trans hperm, by simp [withPeer_withPeer]⟩

theorem leads_settings (hb : b.Reached) (h : b.Restorable) (hp : p ∈ b.threadQ) (hqid : q.bgpId = 0)
    (hkeys : ((q.translateAttribs ++ p.translateAttribs).map fun a => (a.code, a.value)).Nodup)
    (hnone : b.destination = none → b₁.destination = none) :
    Leads CliInput.step CliInput.line
      (fun b₂ => b₂.destination = b.destination ∧ ∃ t, t.Perm (q.translateAttribs ++ p.translateAttribs) ∧
        b₂ = { b₁.withPeer i { q.sized p with
          translateAttribs := t, isAliasing := q.isAliasing || p.isAliasing } with dumper := b₂.dumper })
      (configPeer b p).tail.tail b₁ := by
  have hsettled := hb.peers p hp
  have hprinted : (if p.isAliasing then p.translateAttribs.map (configAlias p.pIp) else []) =
      p.translateAttribs.map (configAlias p.pIp) := by
    split
    · rfl
    · rename_i hoff
      rw [of_not_not fun hne => hoff (hsettled.aliasing.mpr hne), List.map_nil]
  have haliasing : (!p.translateAttribs.isEmpty) = p.isAliasing := by
    rw [Bool.eq_iff_iff, hsettled.aliasing]
    simp
  unfold configPeer
  rw [hprinted, ← haliasing, List.append_assoc]
  refine (leads_buffers hip hi hq).append ?_
  rintro b₂ rfl
  obtain ⟨hi₂, hq₂⟩ := getPeerByStrIp_withPeer hi hq (q.sized p) rfl
  refine (leads_logging hip hi₂ hq₂ hb h hp hqid hnone).append ?_
  rintro b₃ ⟨hdestination, hb₃⟩
  have hi₃ : b₃.getPeerByStrIp p.pIp = some i := by rw [hb₃]; exact hi₂
  have hq₃ : b₃.threadQ[i]? = some (q.sized p) := by rw [hb₃]; exact hq₂
  refine (leads_aliases hip hi₃ hq₃ (h.aliases p hp)
    (fun a ha => (hsettled.aliases a ha).of_bgpId (hqid.trans hsettled.bgpId.symm)) hkeys).mono ?_
  rintro b₄ ⟨t, ht, rfl⟩
  refine ⟨hdestination, t, ht, ?_⟩
  rw [hb₃]
  exact congrArg (fun b => { b with dumper := b₃.dumper }) (withPeer_withPeer _ _)

end Settings

end Log2Bgp
