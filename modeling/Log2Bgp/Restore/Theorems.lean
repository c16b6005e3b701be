import Log2Bgp.Restore.Lemmas.Again

/-!
# Written configurations: main results
-/

namespace Log2Bgp

open Lib

/-- Behind any commands, a configuration with nothing that is lost when it is written is restored from
what is written of it. -/
theorem restores_of_run {asn : UInt16} {inputs : List CliInput} {b : BgpCli}
    (hrun : runAll CliInput.step inputs (.initBgp asn) = some b) (h : b.Restorable) : b.Restores :=
  h.restores (BgpCli.reached_of_run hrun)

namespace Example

/-- A line at the command line. -/
def typed (line : String) : CliInput := ⟨{ std := .stable }, line.toList⟩

/-- An identifier, a peer, an alias of the peer and the host that it is logged to. -/
def settings : List CliInput :=
  [typed " bgp-id 10.0.0.1\n", typed "  neighbor 10.0.0.2 remote-as 65001\n",
    typed "  neighbor 10.0.0.2 attribute as-path alias 65001 upstream\n",
    typed "neighbor 10.0.0.2 logging host 10.0.0.9 514\n"]

/-- The instance with an identifier and a peer. -/
def started : BgpCli :=
  (BgpCli.setId (.initBgp 65000) 0x0100000a).startPeer
    { pIp := ntoa 0x0200000a, ipv4 := 0x0200000a, addrFamily := afInet, AS := 65001 }

/-- The peer with its alias. -/
def aliased : CliPeer :=
  { freshPeer 0x0200000a 65001 with
    translateAttribs := AliasSort.stable.sort [⟨.asPath, 65001, "upstream".toList⟩], isAliasing := true }

theorem run_settings : runAll CliInput.step settings (.initBgp 65000) = some { started.withPeer 0 aliased with
    dumper := UdpDestinations.addDestHost ∅ 0 "10.0.0.9".toList (htons 514) } := by
  have hip : IsWord (ntoa 0x0200000a) := isWord_ntoa _
  have hid : CliInput.step (.initBgp 65000) (typed " bgp-id 10.0.0.1\n") =
      some (BgpCli.setId (.initBgp 65000) 0x0100000a) := step_bgpId _ (by decide)
  have hneighbor : CliInput.step (BgpCli.setId (.initBgp 65000) 0x0100000a)
      (typed "  neighbor 10.0.0.2 remote-as 65001\n") = some started :=
    step_remoteAs (fun _ h => by cases h) (by decide) (.inr rfl) (by decide)
  have hfound : started.getPeerByStrIp (ntoa 0x0200000a) = some 0 := by decide
  have halias : CliInput.step started (typed "  neighbor 10.0.0.2 attribute as-path alias 65001 upstream\n") =
      some (started.withPeer 0 aliased) := by
    have hlabel : IsWord "upstream".toList := ⟨by decide, by simp [isSpace]⟩
    exact step_alias hip hfound (p := freshPeer 0x0200000a 65001) rfl (a := ⟨.asPath, 65001, "upstream".toList⟩)
      (by decide) ⟨by decide, (fun h => by cases h), fun _ => hlabel⟩ (fun a ha => by cases ha) (by decide)
  obtain ⟨hfound', hpeer'⟩ := getPeerByStrIp_withPeer hfound rfl aliased rfl
  have hlogging := step_logging hip hfound' hpeer' (c := typed "neighbor 10.0.0.2 logging host 10.0.0.9 514\n")
    (isWord_ntoa 0x0900000a) (by decide : _ = "neighbor ".toList ++ ntoa 0x0200000a ++ " logging host ".toList ++
      ntoa 0x0900000a ++ " ".toList ++ decimal (514 : UInt16).toNat ++ "\n".toList)
  have hvalid : ∀ u : Uninit, stringToIp u (ntoa 0x0900000a) ≠ 0 := by
    intro u
    rw [stringToIp, if_neg (isWord_ntoa _).1, aton_ntoa, Option.getD_some]
    decide
  rw [if_neg (hvalid _)] at hlogging
  rw [settings, runAll, hid, Option.bind_some, runAll, hneighbor, Option.bind_some, runAll, halias, Option.bind_some,
    runAll, hlogging]
  rfl

end Example

theorem restores_of_run_settings :
    ∃ b, runAll CliInput.step Example.settings (.initBgp 65000) = some b ∧ b.Restores := by
  refine ⟨_, Example.run_settings, restores_of_run Example.run_settings ⟨?_, ?_, ?_, ?_, ?_, ?_⟩⟩
  · exact (isWord_ntoa _).1
  · intro p hp
    exact ⟨0x0200000a, congrArg CliPeer.pIp (List.mem_singleton.mp hp)⟩
  · exact fun p hp => nomatch hp
  · intro p hp a ha
    cases List.mem_singleton.mp hp
    rw [List.mem_singleton.mp ((AliasSort.stable.perm _).mem_iff.mp ha)]
    decide
  · intro p hp q hq _
    rw [List.mem_singleton.mp hp, List.mem_singleton.mp hq]
  · intro p hp s hs
    cases List.mem_singleton.mp hp
    have hs' : (UdpDestinations.addDestHost ∅ 0 "10.0.0.9".toList (htons 514))[(0 : UInt32)]? = some s := hs
    rw [UdpDestinations.addDestHost, lookup_insert, if_pos rfl] at hs'
    cases hs'
    exact ⟨⟨0x0900000a, aton_ntoa 0x0900000a, by decide⟩, by decide⟩

/-- The line for an identifier that is not set has no address. -/
theorem config_not_restored :
    ∃ b, runAll CliInput.step [] (.initBgp 65000) = some b ∧ ¬ b.Restores := by
  refine ⟨_, rfl, fun h => ?_⟩
  obtain ⟨t, ht, -, hwhole⟩ := h.lines " bgp-id \n".toList (by decide)
  obtain rfl : t = " bgp-id ".toList := List.append_cancel_right (ht.symm.trans (by decide : _ = " bgp-id ".toList ++ ['\n']))
  obtain hconsumed | ⟨-, hread⟩ := hwhole
  · exact absurd hconsumed (by decide)
  · have hwords : words " bgp-id ".toList = ["bgp-id".toList] := by decide
    have hfunc : (findCommand commands ["bgp-id".toList]).map Command.func = some .setBgpId := by decide
    obtain ⟨cmd, hfind, hcmd⟩ := Option.map_eq_some_iff.mp hfunc
    have htoken := (executeLine_inBounds { std := .stable } (.initBgp 65000) " bgp-id ".toList).mp (hread _ _)
    rw [hwords] at htoken
    have hlen := htoken cmd hfind
    rw [hcmd] at hlen
    exact absurd hlen (by decide)

end Log2Bgp
