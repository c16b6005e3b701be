import Log2Bgp.Cli.Lemmas.Neighbors
import Log2Bgp.Restore.Lemmas.Reached

/-!
# Tokens that are no addresses

The commands that take an address, and what becomes of one that its own conversion does not accept.
-/

namespace Log2Bgp

open Lib

/-! ## Addresses and refusals -/

/-- The place of the address among the tokens of a command, and the call that converts it. -/
def CmdBgpFunc.address : CmdBgpFunc → Option (Nat × (Text → Option UInt32))
  | .setBgpId => some (1, aton)
  | .protoBgpNeighbor => some (1, pton)
  | .protoBgpAttributeV4nexthopTranslateValue => some (6, pton)
  | .setPeerLogging => some (4, aton)
  | _ => none

/-- A command is refused: it answers with a text and leaves the instance as it was. -/
def Refused (b : BgpCli) (r : Cli (BgpCli × Reply)) : Prop := ∃ t, t ≠ [] ∧ r = .ok (b, .text t)

/-- A line is refused whatever stands in memory that is read before it is written. -/
def LineRefused (b : BgpCli) (line : Text) : Prop := ∀ env, Refused b (executeLine env b line)

variable {env : CliEnv} {b b' : BgpCli} {tokens : List Text} {t ip : Text}

theorem refused_text (ht : t ≠ []) : Refused b (.ok (b, .text t)) := ⟨t, ht, rfl⟩

theorem not_refused_nil : ¬ Refused b (.ok (b', .text [])) := by
  rintro ⟨t, ht, h⟩
  cases h
  exact ht rfl

theorem not_refused_error (e : CliFault) : ¬ Refused b (.error e) := by
  rintro ⟨t, -, h⟩
  cases h

theorem not_refused_bind {α : Type} {x : Cli α} {f : α → Cli (BgpCli × Reply)} (h : ∀ a, ¬ Refused b (f a)) :
    ¬ Refused b (x >>= f) := by
  cases x with
  | error e => exact not_refused_error e
  | ok a => exact h a

/-! ## The four commands -/

theorem not_refused_setBgpId (ht : tokens[1]? = some t) : ¬ Refused b (setBgpId env b tokens) := by
  rw [setBgpId, tokenAt_eq_ok.mpr ht]
  exact not_refused_nil

/-- Without an address the new peer belongs to no family, so that no peer is found to be the same. -/
theorem not_refused_protoBgpNeighbor (ht : tokens[1]? = some t) (hinvalid : pton t = none) :
    ¬ Refused b (protoBgpNeighbor env b tokens) := by
  have hpeer : neighborPeer env.uninit t = { pIp := env.uninit.pIp } := by
    rw [neighborPeer, hinvalid]
  have hnone : ∀ q ∈ b.threadQ, ¬ ((neighborPeer env.uninit t).addrFamily = afInet ∧
      q.ipv4 = (neighborPeer env.uninit t).ipv4) := by
    rintro q - ⟨hfamily, -⟩
    rw [hpeer] at hfamily
    cases hfamily
  unfold protoBgpNeighbor
  simp only [tokenAt_eq_ok.mpr ht, Checked.ok_bind, peerExists_of_none hnone]
  by_cases hcount : b.threadQ.length < 256
  · simp only [if_pos hcount, Cli.ofChecked, Checked.ok_bind, Bool.false_eq_true, if_false]
    exact not_refused_bind fun _ => not_refused_nil
  · rw [if_neg hcount]
    exact not_refused_error _

theorem not_refused_setPeerTranslation (i : Nat) (code : BgpPathAttrib) (matchValue : CliPeer → UInt32) (value : Text) :
    ¬ Refused b (setPeerTranslation env b i code matchValue value) := by
  unfold setPeerTranslation
  cases b.threadQ[i]? with
  | none => exact not_refused_nil
  | some peer => exact not_refused_bind fun _ => not_refused_nil

theorem refused_noPeer : Refused b (.ok (b, noPeer ip)) := refused_text (by simp)

theorem refused_v4nexthop_iff (hip : tokens[1]? = some ip) :
    Refused b (protoBgpAttributeV4nexthopTranslateValue env b tokens) ↔ b.getPeerByStrIp ip = none := by
  rw [protoBgpAttributeV4nexthopTranslateValue, tokenAt_eq_ok.mpr hip, Checked.ok_bind]
  cases b.getPeerByStrIp ip with
  | none => exact iff_of_true refused_noPeer rfl
  | some i =>
      refine iff_of_false ?_ (Option.some_ne_none i)
      exact not_refused_bind fun _ => not_refused_bind fun _ => not_refused_setPeerTranslation _ _ _ _

/-- What is no address is taken for the number that was in memory. -/
theorem refused_setPeerLogging_iff (hip : tokens[1]? = some ip) (ht : tokens[4]? = some t) (hne : t ≠ [])
    (hinvalid : aton t = none) :
    Refused b (setPeerLogging env b tokens) ↔ b.getPeerByStrIp ip = none ∨ env.uninit.addr = 0 := by
  have hhost : stringToIp env.uninit t = env.uninit.addr := by
    rw [stringToIp, if_neg hne, hinvalid, Option.getD_none]
  rw [setPeerLogging, tokenAt_eq_ok.mpr hip, Checked.ok_bind]
  cases hpeer : b.getPeerByStrIp ip with
  | none => exact iff_of_true refused_noPeer (.inl rfl)
  | some i =>
      obtain ⟨peer, hi, -⟩ := getElem?_of_getPeerByStrIp hpeer
      simp only [Option.bind_some, hi, tokenAt_eq_ok.mpr ht, Checked.ok_bind, hhost]
      split
      · rename_i hzero
        exact iff_of_true (refused_text (by simp)) (.inr hzero)
      · rename_i hsome
        exact iff_of_false (not_refused_bind fun _ => not_refused_nil) (by simp [hsome])

/-! ## Lines -/

theorem getPeerByStrIp_initBgp (asn : UInt16) (ip : Text) : (BgpCli.initBgp asn).getPeerByStrIp ip = none := by
  unfold BgpCli.getPeerByStrIp
  split
  · rfl
  · rfl

/-- A line with an address that its command does not accept is refused just where the command first looks for a
peer, which is not there. -/
theorem lineRefused_iff {line : Text} {cmd : Command} {k : Nat} {convert : Text → Option UInt32} (b : BgpCli)
    (hcmd : findCommand commands (words line) = some cmd) (haddress : cmd.func.address = some (k, convert))
    (ht : (words line)[k]? = some t) (hinvalid : convert t = none) :
    LineRefused b line ↔
      (cmd.func = .protoBgpAttributeV4nexthopTranslateValue ∨ cmd.func = .setPeerLogging) ∧
        ∀ ip, (words line)[1]? = some ip → b.getPeerByStrIp ip = none := by
  have hne : t ≠ [] := (isWord_of_mem_words (List.mem_of_getElem? ht)).1
  have hline : ∀ env, executeLine env b line = runFunc cmd.func env b (words line) := by
    intro env
    cases hwords : words line with
    | nil => rw [hwords] at ht; cases ht
    | cons w ws => rw [hwords] at hcmd; exact executeLine_eq env b hwords hcmd
  have hpeer : 1 ≤ k → ∃ ip, (words line)[1]? = some ip := by
    intro hk
    have hlt : k < (words line).length := (List.getElem?_eq_some_iff.mp ht).1
    exact ⟨_, List.getElem?_eq_getElem (by omega)⟩
  unfold LineRefused
  simp only [hline]
  cases hfunc : cmd.func with
  | setBgpId =>
      rw [hfunc] at haddress
      cases haddress
      exact iff_of_false (fun h => not_refused_setBgpId ht (h { std := .stable })) (by simp)
  | protoBgpNeighbor =>
      rw [hfunc] at haddress
      cases haddress
      exact iff_of_false (fun h => not_refused_protoBgpNeighbor ht hinvalid (h { std := .stable })) (by simp)
  | protoBgpAttributeV4nexthopTranslateValue =>
      rw [hfunc] at haddress
      cases haddress
      obtain ⟨ip, hip⟩ := hpeer (by decide)
      have hrefused : ∀ env : CliEnv, Refused b (protoBgpAttributeV4nexthopTranslateValue env b (words line)) ↔ _ :=
        fun env => refused_v4nexthop_iff hip
      simp only [runFunc, hrefused, hip]
      constructor
      · intro h
        refine ⟨.inl trivial, ?_⟩
        rintro _ ⟨⟩
        exact h { std := .stable }
      · exact fun h _ => h.2 ip rfl
  | setPeerLogging =>
      rw [hfunc] at haddress
      cases haddress
      obtain ⟨ip, hip⟩ := hpeer (by decide)
      have hrefused : ∀ env : CliEnv, Refused b (setPeerLogging env b (words line)) ↔ _ :=
        fun env => refused_setPeerLogging_iff hip ht hne hinvalid
      simp only [runFunc, hrefused, hip]
      constructor
      · intro h
        refine ⟨.inr trivial, ?_⟩
        rintro _ ⟨⟩
        -- memory that is not zero
        exact (h { std := .stable, uninit := { addr := 1 } }).resolve_right (by decide)
      · exact fun h _ => .inl (h.2 ip rfl)
  | _ => rw [hfunc] at haddress; cases haddress

/-- A host that is no address, for a neighbor that is not there. -/
theorem lineRefused_iff_nobody :
    LineRefused (.initBgp 65000) "neighbor 10.0.0.1 logging host nowhere 9000".toList := by
  have hwords : words "neighbor 10.0.0.1 logging host nowhere 9000".toList =
      "neighbor".toList :: "10.0.0.1".toList :: (["logging".toList] ++
        ["host".toList, "nowhere".toList, "9000".toList]) := rfl
  have hfound : (["logging".toList].foldl Command.descend peerNode).allFuncs (· = .setPeerLogging) = true := by decide
  obtain ⟨cmd, hcmd, hfunc⟩ := findCommand_neighbor hfound "10.0.0.1".toList
    ["host".toList, "nowhere".toList, "9000".toList]
  rw [← hwords] at hcmd
  have haddress : cmd.func.address = some (4, aton) := by rw [hfunc]; rfl
  have ht : (words "neighbor 10.0.0.1 logging host nowhere 9000".toList)[4]? = some "nowhere".toList := by
    rw [hwords]
    rfl
  have hinvalid : aton "nowhere".toList = none := by
    simp [aton, atonParts]
  have hrefused := lineRefused_iff (.initBgp 65000) hcmd haddress ht hinvalid
  exact hrefused.mpr ⟨.inr hfunc, fun ip _ => getPeerByStrIp_initBgp 65000 ip⟩

/-- The two commands for an address of their own. -/
theorem not_lineRefused :
    ¬ LineRefused (.initBgp 65000) "bgp-id nowhere".toList ∧
      ¬ LineRefused (.initBgp 65000) "neighbor nowhere remote-as 65001".toList := by
  constructor
  · intro h
    have hcmd : findCommand commands ["bgp-id".toList, "nowhere".toList] = some ⟨"<x.x.x.x>".toList, .setBgpId, []⟩ := rfl
    have hwords : words "bgp-id nowhere".toList = ["bgp-id".toList, "nowhere".toList] := rfl
    exact not_refused_setBgpId rfl (executeLine_eq { std := .stable } (.initBgp 65000) hwords hcmd ▸ h { std := .stable })
  · intro h
    have hfound : (["remote-as".toList].foldl Command.descend peerNode).allFuncs (· = .protoBgpNeighbor) = true := by decide
    obtain ⟨cmd, hcmd, hfunc⟩ := findCommand_neighbor hfound "nowhere".toList ["65001".toList]
    have hwords : words "neighbor nowhere remote-as 65001".toList =
      "neighbor".toList :: "nowhere".toList :: (["remote-as".toList] ++ ["65001".toList]) := rfl
    have hrun := h { std := .stable }
    rw [executeLine_eq _ _ hwords hcmd, hfunc] at hrun
    exact not_refused_protoBgpNeighbor rfl rfl hrun

end Log2Bgp
