import Log2Bgp.Cli.Lemmas.Tree
import Log2Bgp.Restore.Run

/-!
# Lines of a written configuration

The tokens of each line, and the function of the command tree that they lead to.
-/

namespace Log2Bgp

open Lib

/-- A line with its newline, the tokens that it is read as and the function for them. -/
structure PrintedAs (line : Text) (tokens : List Text) (f : CmdBgpFunc) : Prop where
  newline : ∃ t, line = t ++ ['\n'] ∧ '\n' ∉ t
  words_eq : words line = tokens
  func : ∃ cmd, findCommand commands tokens = some cmd ∧ cmd.func = f

namespace PrintedAs

variable {line : Text} {tokens : List Text} {f : CmdBgpFunc} (h : PrintedAs line tokens f)
include h

theorem executeLine_eq (env : CliEnv) (b : BgpCli) : executeLine env b line = runFunc f env b tokens := by
  obtain ⟨cmd, hfind, rfl⟩ := h.func
  cases hwords : tokens with
  | nil =>
      rw [hwords] at hfind
      cases hfind
  | cons t ts =>
      rw [hwords] at hfind
      exact Log2Bgp.executeLine_eq env b (h.words_eq.trans hwords) hfind

/-- A line is whole when its function reads no more tokens than it has. -/
theorem wholeLine (hread : ∀ env b, tokensRead env b tokens f ≤ tokens.length) : WholeLine line := by
  obtain ⟨t, rfl, hnewline⟩ := h.newline
  have hwords : words t = tokens := by
    rw [← h.words_eq, words_append_cons t [] rfl, words_nil, List.append_nil]
  obtain ⟨cmd, hfind, hfunc⟩ := h.func
  refine ⟨t, rfl, hnewline, .inr ⟨by rw [hwords, hfind]; rfl, fun env b => ?_⟩⟩
  rw [executeLine_inBounds, hwords]
  intro cmd' hcmd'
  cases hfind.symm.trans hcmd'
  rw [hfunc]
  exact hread env b

theorem not_consumed {t : Text} {ts : List Text} (htokens : tokens = t :: ts) (hmark : t ≠ "!".toList)
    (hprotocol : t ≠ "protocol".toList) : consumed line = false := by
  unfold consumed
  rw [h.words_eq, htokens]
  simp only [List.cons.injEq, hmark, hprotocol, false_and, decide_false, Bool.or_self, List.take_succ_cons]

end PrintedAs

/-- The lines for a neighbor: what the fixed parts of a line must be. -/
theorem printedAs_neighbor (lead mid : Text) (key : List Text) (f : CmdBgpFunc) {ip rest : Text} {ws : List Text}
    (hlead : words lead = ["neighbor".toList] ∧ lead.getLast?.any isSpace = true ∧ '\n' ∉ lead)
    (hmid : words mid = key ∧ mid.head?.any isSpace = true ∧ mid.getLast?.any isSpace = true ∧ '\n' ∉ mid)
    (hkey : (key.foldl Command.descend peerNode).allFuncs (· = f) = true) (hip : IsWord ip)
    (hrest : words rest = ws ∧ '\n' ∉ rest) :
    PrintedAs (lead ++ ip ++ mid ++ rest ++ "\n".toList) ("neighbor".toList :: ip :: (key ++ ws)) f := by
  obtain ⟨hlead, hleadEnd, hleadLine⟩ := hlead
  obtain ⟨rfl, hmidStart, hmidEnd, hmidLine⟩ := hmid
  obtain ⟨rfl, hrestLine⟩ := hrest
  refine ⟨⟨lead ++ ip ++ mid ++ rest, rfl, ?_⟩, ?_, findCommand_neighbor hkey ip _⟩
  · exact List.not_mem_append (List.not_mem_append (List.not_mem_append hleadLine hip.newline_not_mem) hmidLine) hrestLine
  · have hend : WordEnd (mid ++ (rest ++ "\n".toList)) := by
      cases mid with
      | nil => cases hmidStart
      | cons c mid => exact .inr ⟨c, _, rfl, hmidStart⟩
    have hlast : words (rest ++ "\n".toList) = words rest := by
      have hcut := words_append_cons rest [] (c := '\n') rfl
      rwa [words_nil, List.append_nil] at hcut
    simp only [List.append_assoc]
    rw [words_append_of_getLast hleadEnd, hlead, words_append hip hend, words_append_of_getLast hmidEnd, hlast]
    rfl

/-! ## The lines of a peer -/

section Peer

variable {ip label host : Text} (hip : IsWord ip)

theorem words_rest {w : Text} (hw : IsWord w) : words w = [w] ∧ '\n' ∉ w :=
  ⟨words_of_isWord hw, hw.newline_not_mem⟩

theorem words_rest_two {w v : Text} (hw : IsWord w) (hv : IsWord v) :
    words (w ++ (" ".toList ++ v)) = [w, v] ∧ '\n' ∉ w ++ (" ".toList ++ v) := by
  constructor
  · exact (words_append_space hw v).trans (congrArg (w :: ·) (words_of_isWord hv))
  · exact List.not_mem_append hw.newline_not_mem (List.not_mem_append (by decide) hv.newline_not_mem)

include hip

theorem printedAs_remoteAs (n : Nat) :
    PrintedAs ("  neighbor ".toList ++ ip ++ " remote-as ".toList ++ decimal n ++ "\n".toList)
      ["neighbor".toList, ip, "remote-as".toList, decimal n] .protoBgpNeighbor :=
  printedAs_neighbor _ _ ["remote-as".toList] _ (by decide) (by decide) (by decide) hip
    (words_rest (isWord_decimal n))

theorem printedAs_txBuffer (tcp bgp : Int) :
    PrintedAs ("  neighbor ".toList ++ ip ++ " tx-buffer ".toList ++ decimalInt tcp ++ " ".toList ++
        decimalInt bgp ++ "\n".toList)
      ["neighbor".toList, ip, "tx-buffer".toList, decimalInt tcp, decimalInt bgp] .protoBgpPeerSndBufferSize := by
  have h := printedAs_neighbor "  neighbor ".toList " tx-buffer ".toList ["tx-buffer".toList]
    .protoBgpPeerSndBufferSize (by decide) (by decide) (by decide) hip
    (words_rest_two (isWord_decimalInt tcp) (isWord_decimalInt bgp))
  simpa only [List.append_assoc, List.cons_append, List.nil_append] using h

theorem printedAs_rxBuffer (tcp bgp : Int) :
    PrintedAs ("  neighbor ".toList ++ ip ++ " rx-buffer ".toList ++ decimalInt tcp ++ " ".toList ++
        decimalInt bgp ++ "\n".toList)
      ["neighbor".toList, ip, "rx-buffer".toList, decimalInt tcp, decimalInt bgp] .protoBgpPeerRcvBufferSize := by
  have h := printedAs_neighbor "  neighbor ".toList " rx-buffer ".toList ["rx-buffer".toList]
    .protoBgpPeerRcvBufferSize (by decide) (by decide) (by decide) hip
    (words_rest_two (isWord_decimalInt tcp) (isWord_decimalInt bgp))
  simpa only [List.append_assoc, List.cons_append, List.nil_append] using h

theorem printedAs_logging (hhost : IsWord host) (port : Nat) :
    PrintedAs ("neighbor ".toList ++ ip ++ " logging host ".toList ++ host ++ " ".toList ++ decimal port ++
        "\n".toList)
      ["neighbor".toList, ip, "logging".toList, "host".toList, host, decimal port] .setPeerLogging := by
  have h := printedAs_neighbor "neighbor ".toList " logging host ".toList ["logging".toList, "host".toList]
    .setPeerLogging (by decide) (by decide) (by decide) hip (words_rest_two hhost (isWord_decimal port))
  simpa only [List.append_assoc, List.cons_append, List.nil_append] using h

variable (hlabel : IsWord label)
include hlabel

theorem printedAs_bgpIdAlias (value : UInt32) :
    PrintedAs (configAlias ip ⟨.bgpId, value, label⟩)
      ["neighbor".toList, ip, "attribute".toList, "bgp-id".toList, "alias".toList, label]
      .protoBgpAttributeBgpIdTranslateValue := by
  have h := printedAs_neighbor "  neighbor ".toList (" attribute ".toList ++ "bgp-id alias ".toList)
    ["attribute".toList, "bgp-id".toList, "alias".toList] .protoBgpAttributeBgpIdTranslateValue
    (by decide) (by decide) (by decide) hip (words_rest hlabel)
  unfold configAlias
  simp only [List.append_assoc, List.cons_append, List.nil_append] at h ⊢
  exact h

theorem printedAs_asPathAlias (value : UInt32) :
    PrintedAs (configAlias ip ⟨.asPath, value, label⟩)
      ["neighbor".toList, ip, "attribute".toList, "as-path".toList, "alias".toList, decimal value.toNat, label]
      .protoBgpAttributeAspathTranslateValue := by
  have h := printedAs_neighbor "  neighbor ".toList (" attribute ".toList ++ "as-path alias ".toList)
    ["attribute".toList, "as-path".toList, "alias".toList] .protoBgpAttributeAspathTranslateValue
    (by decide) (by decide) (by decide) hip (words_rest_two (isWord_decimal value.toNat) hlabel)
  unfold configAlias
  simp only [List.append_assoc, List.cons_append, List.nil_append] at h ⊢
  exact h

theorem printedAs_communityAlias (value : UInt32) :
    PrintedAs (configAlias ip ⟨.community, value, label⟩)
      ["neighbor".toList, ip, "attribute".toList, "community".toList, "alias".toList, decimal value.toNat, label]
      .protoBgpAttributeCommunityTranslateValue := by
  have h := printedAs_neighbor "  neighbor ".toList (" attribute ".toList ++ "community alias ".toList)
    ["attribute".toList, "community".toList, "alias".toList] .protoBgpAttributeCommunityTranslateValue
    (by decide) (by decide) (by decide) hip (words_rest_two (isWord_decimal value.toNat) hlabel)
  unfold configAlias
  simp only [List.append_assoc, List.cons_append, List.nil_append] at h ⊢
  exact h

theorem printedAs_nextHopAlias (value : UInt32) :
    PrintedAs (configAlias ip ⟨.nextHop, value, label⟩)
      ["neighbor".toList, ip, "attribute".toList, "next-hop".toList, "alias".toList, "ipv4".toList, ntoa value, label]
      .protoBgpAttributeV4nexthopTranslateValue := by
  have h := printedAs_neighbor "  neighbor ".toList (" attribute ".toList ++ "next-hop alias ipv4 ".toList)
    ["attribute".toList, "next-hop".toList, "alias".toList, "ipv4".toList]
    .protoBgpAttributeV4nexthopTranslateValue
    (by decide) (by decide) (by decide) hip (words_rest_two (isWord_ntoa value) hlabel)
  unfold configAlias
  simp only [List.append_assoc, List.cons_append, List.nil_append] at h ⊢
  exact h

end Peer

/-! ## The other lines -/

theorem printedAs_bgpId (addr : UInt32) :
    PrintedAs (" bgp-id ".toList ++ ntoa addr ++ "\n".toList) ["bgp-id".toList, ntoa addr] .setBgpId := by
  have hip := isWord_ntoa addr
  refine ⟨⟨" bgp-id ".toList ++ ntoa addr, rfl, List.not_mem_append (by decide) hip.newline_not_mem⟩, ?_, ?_⟩
  · have hlead : words " bgp-id ".toList = ["bgp-id".toList] := by decide
    rw [List.append_assoc, words_append_of_getLast (by decide), hlead]
    exact congrArg ("bgp-id".toList :: ·) (words_append_newline hip)
  · have hroot : (findRoot commands "bgp-id".toList).map (Command.allFuncs (· = .setBgpId)) = some true := by
      decide
    obtain ⟨root, hroot, hall⟩ := Option.map_eq_some_iff.mp hroot
    refine ⟨root.descend (ntoa addr), by rw [findCommand, hroot]; rfl, ?_⟩
    simpa using Command.func_of_allFuncs (Command.allFuncs_descend hall _)

theorem printedAs_dumper : PrintedAs " dumper on\n".toList ["dumper".toList, "on".toList] .protoBgpToggleUpdateDump :=
  ⟨⟨" dumper on".toList, by decide, by decide⟩, by decide, _, rfl, by decide⟩

end Log2Bgp
