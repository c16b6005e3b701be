import Log2Bgp.Cli.Lemmas.Tree
import Log2Bgp.Restore.Run

/-!
# What a command changes
-/

namespace Log2Bgp

open Lib

/-- The aliases that a command can set for a peer. -/
structure CliPeer.AliasOf (p : CliPeer) (a : TranslateAttribsBase) : Prop where
  code : a.code ∈ [BgpPathAttrib.bgpId, .origin, .asPath, .nextHop, .multiExitDisc, .localPref, .community]
  value : a.code = .bgpId → a.value = p.bgpId
  label : a.code ∈ printedAliases → IsWord a.printableAttrib

theorem CliPeer.AliasOf.of_bgpId {p q : CliPeer} {a : TranslateAttribsBase} (h : p.AliasOf a)
    (heq : q.bgpId = p.bgpId) : q.AliasOf a :=
  ⟨h.code, fun hcode => (h.value hcode).trans heq.symm, h.label⟩

/-- Sets the sizes of one direction. -/
inductive SetsSizes : (CliPeer → CliPeer) → Prop where
  | rx (tcp bgp : Int32) : SetsSizes fun p => { p with tcpRxSocketBufferSize := tcp, bgpRxBufferSize := bgp }
  | tx (tcp bgp : Int32) : SetsSizes fun p => { p with tcpTxSocketBufferSize := tcp, bgpTxBufferSize := bgp }

/-- What a command does to the configuration of an instance. -/
inductive BgpCli.Change (u : Uninit) (b : BgpCli) : BgpCli → Prop where
  | none {b' : BgpCli} : b' = { b with
      db := b'.db, config := b'.config, stopAndExitInstance := b'.stopAndExitInstance } → Change u b b'
  | setId (addr : UInt32) : Change u b (b.setId addr)
  | dumper (on : Bool) : Change u b { b with dumperOnOff := on }
  | neighbor (ip : Text) (asn : UInt16) : peerExists b.threadQ (neighborPeer u ip) = .ok false →
      Change u b (b.startPeer { neighborPeer u ip with AS := asn })
  | sizes {ip : Text} {i : Nat} {set : CliPeer → CliPeer} : b.getPeerByStrIp ip = some i → SetsSizes set →
      Change u b (b.modifyPeer i set)
  | translation {ip : Text} {i : Nat} {p p' : CliPeer} {a : TranslateAttribsBase} (std : AliasSort) :
      b.getPeerByStrIp ip = some i → b.threadQ[i]? = some p → p.AliasOf a →
      p.setTranslation std a.code a.value a.printableAttrib = .ok p' →
      Change u b { b with threadQ := b.threadQ.set i p' }
  | logging {p : CliPeer} {host : Text} (port : UInt16) : p ∈ b.threadQ → IsWord host →
      Change u b { b with dumper := b.dumper.addDestHost p.bgpId host port }

section Functions

variable {env : CliEnv} {b b' : BgpCli} {tokens : List Text} {r : Reply} {u : Uninit}

theorem BgpCli.Change.refl (b : BgpCli) : b.Change u b := .none rfl

theorem tokenAt_eq_ok {i : Nat} {t : Text} : tokenAt tokens i = .ok t ↔ tokens[i]? = some t := by
  unfold tokenAt
  cases tokens[i]? with
  | none => simp
  | some t' => simp

theorem BgpCli.SameButDb.change (h : b.SameButDb b') : b.Change u b' := by
  unfold BgpCli.SameButDb at h
  rw [h]
  exact .none rfl

theorem showEntry_same {hist : Bool} {entry : BgpUpdate} {text : Text}
    (h : showEntry env hist b entry = .ok (b', text)) : b.SameButDb b' := by
  obtain ⟨current, -, h⟩ := Checked.bind_eq_ok.mp h
  dsimp only at h
  split at h
  · obtain ⟨⟨b₁, records⟩, hdb, h⟩ := Checked.bind_eq_ok.mp h
    obtain ⟨history, -, h⟩ := Checked.bind_eq_ok.mp h
    cases h
    exact dbGetEntries_same hdb
  · cases h
    exact .refl b

theorem showEntries_same {hist : Bool} {entries : List BgpUpdate} {text : Text}
    (h : showEntries env hist entries b = .ok (b', text)) : b.SameButDb b' := by
  induction entries generalizing b b' text with
  | nil =>
      cases h
      exact .refl b
  | cons entry rest ih =>
      obtain ⟨⟨b₁, text⟩, hone, h⟩ := Checked.bind_eq_ok.mp h
      obtain ⟨⟨b₂, texts⟩, hrest, h⟩ := Checked.bind_eq_ok.mp h
      cases h
      exact (showEntry_same hone).trans (ih hrest)

theorem showBgpPrefix_same (h : showBgpPrefix env b tokens = .ok (b', r)) : b.SameButDb b' := by
  obtain ⟨ip, -, h⟩ := Checked.bind_eq_ok.mp h
  split at h
  · cases h
    exact .refl b
  · obtain ⟨hist, -, h⟩ := Checked.bind_eq_ok.mp h
    dsimp only at h
    split at h
    · cases h
      exact .refl b
    · obtain ⟨⟨b₁, text⟩, hentries, h⟩ := Checked.bind_eq_ok.mp h
      cases h
      exact showEntries_same (Cli.ofChecked_eq_ok.mp hentries)

/-- A command for a peer changes nothing if the peer is not there. -/
theorem peer_cases {body : Nat → Cli (BgpCli × Reply)}
    (h : (do
      let ip ← tokenAt tokens 1
      match b.getPeerByStrIp ip with
      | none => pure (b, noPeer ip)
      | some i => body i) = Except.ok (b', r)) :
    ∃ ip, tokens[1]? = some ip ∧ ((b.getPeerByStrIp ip = none ∧ b' = b) ∨
      ∃ i, b.getPeerByStrIp ip = some i ∧ body i = .ok (b', r)) := by
  obtain ⟨ip, hip, h⟩ := Checked.bind_eq_ok.mp h
  refine ⟨ip, tokenAt_eq_ok.mp hip, ?_⟩
  cases hpeer : b.getPeerByStrIp ip with
  | none =>
      rw [hpeer] at h
      cases h
      exact .inl ⟨rfl, rfl⟩
  | some i =>
      rw [hpeer] at h
      exact .inr ⟨i, rfl, h⟩

theorem peerBufferSize_change {letters : String × String} {set : Int32 → Int32 → CliPeer → CliPeer}
    (hset : ∀ tcp bgp, SetsSizes (set tcp bgp)) (h : peerBufferSize letters set env b tokens = .ok (b', r)) :
    b.Change env.uninit b' := by
  obtain ⟨ip, -, ⟨-, rfl⟩ | ⟨i, hpeer, h⟩⟩ := peer_cases h
  · exact .refl _
  · obtain ⟨tcp, -, h⟩ := Checked.bind_eq_ok.mp h
    obtain ⟨bgp, -, h⟩ := Checked.bind_eq_ok.mp h
    have hb : b' = b.modifyPeer i (set (atoi tcp) (atoi bgp)) := by
      dsimp only at h
      split at h
      · cases h
        rfl
      · split at h
        · split at h
          · cases h
            rfl
          · cases h
            rfl
        · cases h
          rfl
    rw [hb]
    exact .sizes hpeer (hset _ _)

theorem setPeerTranslation_cases {i : Nat} {code : BgpPathAttrib} {value : CliPeer → UInt32} {label : Text}
    (h : setPeerTranslation env b i code value label = .ok (b', r)) : (b.threadQ[i]? = none ∧ b' = b) ∨
      ∃ p p', b.threadQ[i]? = some p ∧ p.setTranslation env.std code (value p) label = .ok p' ∧
        b' = { b with threadQ := b.threadQ.set i p' } := by
  unfold setPeerTranslation at h
  cases hp : b.threadQ[i]? with
  | none =>
      rw [hp] at h
      cases h
      exact .inl ⟨rfl, rfl⟩
  | some p =>
      rw [hp] at h
      obtain ⟨p', hset, h⟩ := Checked.bind_eq_ok.mp h
      cases h
      exact .inr ⟨p, p', rfl, Cli.ofChecked_eq_ok.mp hset, rfl⟩

theorem setPeerTranslation_change {ip : Text} {i : Nat} {code : BgpPathAttrib} {value : CliPeer → UInt32}
    {label : Text} (hpeer : b.getPeerByStrIp ip = some i) (halias : ∀ p : CliPeer, p.AliasOf ⟨code, value p, label⟩)
    (h : setPeerTranslation env b i code value label = .ok (b', r)) : b.Change env.uninit b' := by
  obtain ⟨-, rfl⟩ | ⟨p, p', hp, hset, rfl⟩ := setPeerTranslation_cases h
  · exact .refl _
  · exact .translation env.std hpeer hp (halias p) hset

variable (hwords : ∀ t ∈ tokens, IsWord t)
include hwords

theorem attributeTranslateValue_change {code : BgpPathAttrib}
    (hcode : code ∈ [BgpPathAttrib.bgpId, .origin, .asPath, .nextHop, .multiExitDisc, .localPref, .community])
    (hne : code ≠ .bgpId) (h : attributeTranslateValue code env b tokens = .ok (b', r)) : b.Change env.uninit b' := by
  obtain ⟨ip, -, ⟨-, rfl⟩ | ⟨i, hpeer, h⟩⟩ := peer_cases h
  · exact .refl _
  · obtain ⟨number, -, h⟩ := Checked.bind_eq_ok.mp h
    obtain ⟨label, hlabel, h⟩ := Checked.bind_eq_ok.mp h
    have hword : IsWord label := hwords _ (List.mem_of_getElem? (tokenAt_eq_ok.mp hlabel))
    exact setPeerTranslation_change hpeer (fun p => ⟨hcode, fun h => absurd h hne, fun _ => hword⟩) h

theorem v4nexthop_change (h : protoBgpAttributeV4nexthopTranslateValue env b tokens = .ok (b', r)) : b.Change env.uninit b' := by
  obtain ⟨ip, -, ⟨-, rfl⟩ | ⟨i, hpeer, h⟩⟩ := peer_cases h
  · exact .refl _
  · obtain ⟨nextHop, -, h⟩ := Checked.bind_eq_ok.mp h
    obtain ⟨label, hlabel, h⟩ := Checked.bind_eq_ok.mp h
    have hword : IsWord label := hwords _ (List.mem_of_getElem? (tokenAt_eq_ok.mp hlabel))
    exact setPeerTranslation_change hpeer (fun p => ⟨by simp, fun h => (by cases h), fun _ => hword⟩) h

theorem bgpIdTranslate_change (h : protoBgpAttributeBgpIdTranslateValue env b tokens = .ok (b', r)) : b.Change env.uninit b' := by
  obtain ⟨ip, -, ⟨-, rfl⟩ | ⟨i, hpeer, h⟩⟩ := peer_cases h
  · exact .refl _
  · obtain ⟨label, hlabel, h⟩ := Checked.bind_eq_ok.mp h
    have hword : IsWord label := hwords _ (List.mem_of_getElem? (tokenAt_eq_ok.mp hlabel))
    exact setPeerTranslation_change hpeer (fun p => ⟨by simp, fun _ => rfl, fun _ => hword⟩) h

theorem setPeerLogging_change (h : setPeerLogging env b tokens = .ok (b', r)) : b.Change env.uninit b' := by
  obtain ⟨ip, -, h⟩ := Checked.bind_eq_ok.mp h
  cases hpeer : (b.getPeerByStrIp ip).bind (b.threadQ[·]?) with
  | none =>
      rw [hpeer] at h
      cases h
      exact .refl b
  | some p =>
      rw [hpeer] at h
      obtain ⟨i, -, hp⟩ := Option.bind_eq_some_iff.mp hpeer
      obtain ⟨host, hhost, h⟩ := Checked.bind_eq_ok.mp h
      have hword : IsWord host := hwords _ (List.mem_of_getElem? (tokenAt_eq_ok.mp hhost))
      split at h
      · cases h
        exact .refl b
      · obtain ⟨port, -, h⟩ := Checked.bind_eq_ok.mp h
        cases h
        exact .logging _ (List.mem_of_getElem? hp) hword

omit hwords in
theorem originTranslate_change (h : protoBgpAttributeOriginTranslateValue env b tokens = .ok (b', r)) : b.Change env.uninit b' := by
  obtain ⟨ip, -, ⟨-, rfl⟩ | ⟨i, hpeer, h⟩⟩ := peer_cases h
  · exact .refl _
  · exact setPeerTranslation_change hpeer
      (fun p => ⟨by simp, fun h => (by cases h), fun h => absurd h (by simp [printedAliases])⟩) h

omit hwords in
theorem protoBgpNeighbor_change (h : protoBgpNeighbor env b tokens = .ok (b', r)) : b.Change env.uninit b' := by
  obtain ⟨ip, -, h⟩ := Checked.bind_eq_ok.mp h
  obtain ⟨found, hfound, h⟩ := Checked.bind_eq_ok.mp h
  cases found with
  | true =>
      cases h
      exact .refl b
  | false =>
      obtain ⟨asn, -, h⟩ := Checked.bind_eq_ok.mp h
      cases h
      exact .neighbor ip _ (Cli.ofChecked_eq_ok.mp hfound)

/-- A function of the tree changes the configuration in one way, or not at all. -/
theorem runFunc_change {f : CmdBgpFunc} (h : runFunc f env b tokens = .ok (b', r)) : b.Change env.uninit b' := by
  cases f with
  | apiGetPrefix => exact (runFunc_api_same (by decide) h).change
  | apiGetAllOriginAs => exact (runFunc_api_same (by decide) h).change
  | apiGetPublicOriginAs => exact (runFunc_api_same (by decide) h).change
  | apiGetPrivateOriginAs => exact (runFunc_api_same (by decide) h).change
  | «show» => cases h; exact .refl b
  | showBgpPrefix => exact (showBgpPrefix_same h).change
  | showBgpNeighbors =>
      simp only [runFunc, showBgpNeighbors] at h
      split at h
      · cases h
        exact .refl b
      · cases h
        exact .refl b
  | showBgpAdjRibIn =>
      obtain ⟨rows, -, h⟩ := Checked.bind_eq_ok.mp h
      cases h
      exact .refl b
  | showBgpAdjRibWdrawn => cases h; exact .refl b
  | writeConfigs =>
      simp only [runFunc, writeConfigs] at h
      split at h
      · cases h
        exact .none rfl
      · cases h
        exact .refl b
  | protoBgpToggleUpdateDump =>
      obtain ⟨t, -, h⟩ := Checked.bind_eq_ok.mp h
      split at h
      · cases h
        exact .dumper true
      · split at h
        · cases h
          exact .dumper false
        · cases h
          exact .refl b
  | protoBgpNeighbor => exact protoBgpNeighbor_change h
  | setPeerLogging => exact setPeerLogging_change hwords h
  | protoBgpPeerRcvBufferSize => exact peerBufferSize_change .rx h
  | protoBgpPeerSndBufferSize => exact peerBufferSize_change .tx h
  | protoBgpPeerTimers => cases h; exact .refl b
  | protoBgpPeerAttribute => cases h; exact .refl b
  | protoBgpAttributeBgpIdTranslateValue => exact bgpIdTranslate_change hwords h
  | protoBgpAttributeOriginTranslateValue => exact originTranslate_change h
  | protoBgpAttributeAspathTranslateValue => exact attributeTranslateValue_change hwords (by simp) (by simp) h
  | protoBgpAttributeNexthopTranslateValue => cases h; exact .refl b
  | protoBgpAttributeV4nexthopTranslateValue => exact v4nexthop_change hwords h
  | protoBgpAttributeMedTranslateValue => exact attributeTranslateValue_change hwords (by simp) (by simp) h
  | protoBgpAttributeLocalprefTranslateValue => exact attributeTranslateValue_change hwords (by simp) (by simp) h
  | protoBgpAttributeAtomicaggrTranslateValue => cases h; exact .refl b
  | protoBgpAttributeCommunityTranslateValue => exact attributeTranslateValue_change hwords (by simp) (by simp) h
  | setBgpId =>
      obtain ⟨ip, -, h⟩ := Checked.bind_eq_ok.mp h
      cases h
      exact .setId _
  | killAllSignal =>
      cases h
      exact .none rfl

end Functions

theorem CliInput.step_eq_some {b b' : BgpCli} {c : CliInput} :
    CliInput.step b c = some b' ↔ ∃ r, executeLine c.env b c.line = .ok (b', r) := by
  unfold CliInput.step
  cases executeLine c.env b c.line with
  | error e => simp [Except.toOption]
  | ok x => simp [Except.toOption, Prod.ext_iff]

theorem CliInput.step_change {b b' : BgpCli} {c : CliInput} (h : CliInput.step b c = some b') :
    b.Change c.env.uninit b' := by
  obtain ⟨r, h⟩ := CliInput.step_eq_some.mp h
  unfold executeLine at h
  split at h
  · cases h
    exact .refl b
  · split at h
    · cases h
      exact .refl b
    · exact runFunc_change (fun t ht => isWord_of_mem_words ht) h

end Log2Bgp
