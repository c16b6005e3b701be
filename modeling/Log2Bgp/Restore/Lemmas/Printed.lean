import Log2Bgp.Restore.Lemmas.Lines
import Log2Bgp.Restore.Lemmas.Reached

/-!
# The lines that a restorable configuration is written as
-/

namespace Log2Bgp

open Lib

/-- A line with a command that finds all its tokens. -/
def PrintedCommand (line : Text) : Prop :=
  ∃ t ts f, PrintedAs line (t :: ts) f ∧ t ≠ "!".toList ∧ t ≠ "protocol".toList ∧
    ∀ env b, tokensRead env b (t :: ts) f ≤ (t :: ts).length

theorem PrintedCommand.wholeLine {line : Text} (h : PrintedCommand line) : WholeLine line := by
  obtain ⟨t, ts, f, hprinted, -, -, hread⟩ := h
  exact hprinted.wholeLine hread

theorem PrintedCommand.not_consumed {line : Text} (h : PrintedCommand line) : consumed line = false := by
  obtain ⟨t, ts, f, hprinted, hmark, hprotocol, -⟩ := h
  exact hprinted.not_consumed rfl hmark hprotocol

theorem PrintedAs.command {line ip : Text} {ts : List Text} {f : CmdBgpFunc}
    (h : PrintedAs line ("neighbor".toList :: ip :: ts) f)
    (hread : ∀ env b, tokensRead env b ("neighbor".toList :: ip :: ts) f ≤ ts.length + 2) : PrintedCommand line :=
  ⟨_, _, f, h, by decide, by decide, hread⟩

theorem peerTokens_le {n : Nat} (hn : 2 ≤ n) (b : BgpCli) (tokens : List Text) : peerTokens b tokens n ≤ n := by
  unfold peerTokens
  split
  · exact hn
  · exact le_refl n

section Commands

variable {ip host : Text} (hip : IsWord ip)
include hip

theorem printedCommand_remoteAs (n : Nat) :
    PrintedCommand ("  neighbor ".toList ++ ip ++ " remote-as ".toList ++ decimal n ++ "\n".toList) := by
  refine (printedAs_remoteAs hip n).command fun env b => ?_
  rw [tokensRead]
  split
  · simp
  · simp

theorem printedCommand_txBuffer (tcp bgp : Int) :
    PrintedCommand ("  neighbor ".toList ++ ip ++ " tx-buffer ".toList ++ decimalInt tcp ++ " ".toList ++
      decimalInt bgp ++ "\n".toList) :=
  (printedAs_txBuffer hip tcp bgp).command fun _ _ => peerTokens_le (by decide) _ _

theorem printedCommand_rxBuffer (tcp bgp : Int) :
    PrintedCommand ("  neighbor ".toList ++ ip ++ " rx-buffer ".toList ++ decimalInt tcp ++ " ".toList ++
      decimalInt bgp ++ "\n".toList) :=
  (printedAs_rxBuffer hip tcp bgp).command fun _ _ => peerTokens_le (by decide) _ _

theorem printedCommand_logging (hhost : IsWord host) (port : Nat) :
    PrintedCommand ("neighbor ".toList ++ ip ++ " logging host ".toList ++ host ++ " ".toList ++ decimal port ++
      "\n".toList) := by
  refine (printedAs_logging hip hhost port).command fun env b => ?_
  simp only [tokensRead, List.getElem?_cons_succ, List.getElem?_cons_zero]
  split
  · exact (peerTokens_le (by decide) _ _).trans (by simp)
  · exact peerTokens_le (by decide) _ _

theorem printedCommand_alias {p : CliPeer} {a : TranslateAttribsBase} (ha : p.AliasOf a)
    (hcode : a.code ∈ printedAliases) : PrintedCommand (configAlias ip a) := by
  have hlabel := ha.label hcode
  obtain ⟨code, value, label⟩ := a
  simp only [printedAliases, List.mem_cons, List.not_mem_nil, or_false] at hcode
  obtain rfl | rfl | rfl | rfl := hcode
  · exact (printedAs_bgpIdAlias hip hlabel value).command fun _ _ => peerTokens_le (by decide) _ _
  · exact (printedAs_asPathAlias hip hlabel value).command fun _ _ => peerTokens_le (by decide) _ _
  · exact (printedAs_nextHopAlias hip hlabel value).command fun _ _ => peerTokens_le (by decide) _ _
  · exact (printedAs_communityAlias hip hlabel value).command fun _ _ => peerTokens_le (by decide) _ _

end Commands

theorem printedCommand_bgpId (addr : UInt32) : PrintedCommand (" bgp-id ".toList ++ ntoa addr ++ "\n".toList) :=
  ⟨_, _, _, printedAs_bgpId addr, by decide, by decide, fun _ _ => le_refl 2⟩

theorem printedCommand_dumper : PrintedCommand " dumper on\n".toList :=
  ⟨_, _, _, printedAs_dumper, by decide, by decide, fun _ _ => le_refl 2⟩

/-! ## The lines that are no commands -/

theorem wholeLine_of_consumed {t : Text} (hnewline : '\n' ∉ t) (h : consumed t = true) : WholeLine (t ++ ['\n']) :=
  ⟨t, rfl, hnewline, .inl h⟩

theorem consumed_newline {t : Text} : consumed (t ++ ['\n']) = consumed t := by
  have hwords : words (t ++ ['\n']) = words t := by
    rw [words_append_cons t [] rfl, words_nil, List.append_nil]
  rw [consumed, hwords]
  rfl

theorem consumed_protocol (n : Nat) : consumed ("protocol bgp ".toList ++ decimal n) = true := by
  have hlead : words "protocol bgp ".toList = ["protocol".toList, "bgp".toList] := by decide
  have hwords : words ("protocol bgp ".toList ++ decimal n) = ["protocol".toList, "bgp".toList, decimal n] := by
    rw [words_append_of_getLast (by decide), hlead, words_of_isWord (isWord_decimal n)]
    rfl
  rw [consumed, hwords]
  simp

namespace BgpCli

variable {b : BgpCli} (hb : b.Reached) (h : b.Restorable)
include hb h

theorem Restorable.bIp_eq : b.bIp = ntoa b.bgpId := by
  obtain ⟨hnil, -⟩ | heq := hb.bgpId
  · exact absurd hnil h.bgpId
  · exact heq

theorem Restorable.peer_commands {p : CliPeer} (hp : p ∈ b.threadQ) :
    ∀ l ∈ (configPeer b p).tail, PrintedCommand l := by
  obtain ⟨addr, haddr⟩ := h.address p hp
  have hip : IsWord p.pIp := haddr ▸ isWord_ntoa addr
  intro l hl
  simp only [configPeer, List.cons_append, List.nil_append, List.tail_cons, List.mem_cons, List.mem_append] at hl
  obtain rfl | rfl | rfl | hl | hl := hl
  · exact printedCommand_remoteAs hip _
  · exact printedCommand_txBuffer hip _ _
  · exact printedCommand_rxBuffer hip _ _
  · split at hl
    · rename_i s hs
      rw [List.mem_singleton.mp hl]
      exact printedCommand_logging hip (hb.hosts _ s hs) _
    · cases hl
  · split at hl
    · obtain ⟨a, ha, rfl⟩ := List.mem_map.mp hl
      exact printedCommand_alias hip ((hb.peers p hp).aliases a ha) (h.aliases p hp a ha)
    · cases hl

theorem Restorable.wholeLines : ∀ l ∈ configLines b, WholeLine l := by
  intro l hl
  simp only [configLines, List.cons_append, List.nil_append, List.mem_cons, List.mem_append, List.mem_flatMap,
    List.not_mem_nil, or_false] at hl
  obtain rfl | rfl | rfl | (hl | ⟨p, hp, hl⟩) | rfl := hl
  · exact wholeLine_of_consumed (t := "!".toList) (by decide) (by decide)
  · exact wholeLine_of_consumed (List.not_mem_append (by decide) (isWord_decimal _).newline_not_mem)
      (consumed_protocol _)
  · rw [h.bIp_eq hb]
    exact (printedCommand_bgpId _).wholeLine
  · split at hl
    · simp only [List.mem_cons, List.not_mem_nil, or_false] at hl
      obtain rfl | rfl := hl
      · exact printedCommand_dumper.wholeLine
      · exact wholeLine_of_consumed (t := "!".toList) (by decide) (by decide)
    · cases hl
  · have htail := h.peer_commands hb hp
    rw [configPeer, List.cons_append, List.cons_append] at hl
    obtain rfl | hl := List.mem_cons.mp hl
    · exact wholeLine_of_consumed (t := "  !".toList) (by decide) (by decide)
    · exact (htail l hl).wholeLine
  · exact wholeLine_of_consumed (t := "!".toList) (by decide) (by decide)

theorem Restorable.filter_configPeer {p : CliPeer} (hp : p ∈ b.threadQ) :
    (configPeer b p).filter (fun l => !consumed l) = (configPeer b p).tail := by
  have htail := h.peer_commands hb hp
  rw [configPeer, List.cons_append, List.cons_append] at htail ⊢
  rw [List.filter_cons_of_neg (by decide), List.tail_cons, List.filter_eq_self]
  intro l hl
  rw [(htail l hl).not_consumed]
  rfl

theorem Restorable.configCommands_eq :
    b.configCommands = (" bgp-id ".toList ++ ntoa b.bgpId ++ "\n".toList) ::
      ((if b.dumperOnOff then [" dumper on\n".toList] else []) ++
        b.threadQ.flatMap fun p => (configPeer b p).tail) := by
  have hprotocol : consumed ("protocol bgp ".toList ++ decimal b.AS.toNat ++ "\n".toList) = true :=
    consumed_newline.trans (consumed_protocol _)
  have hid := (printedCommand_bgpId b.bgpId).not_consumed
  have hdumper : (if b.dumperOnOff then [" dumper on\n".toList, "!\n".toList] else []).filter (fun l => !consumed l) =
      if b.dumperOnOff then [" dumper on\n".toList] else [] := by
    split
    · rw [List.filter_cons_of_pos (by decide), List.filter_cons_of_neg (by decide), List.filter_nil]
    · rfl
  have hpeers : (b.threadQ.flatMap (configPeer b)).filter (fun l => !consumed l) =
      b.threadQ.flatMap fun p => (configPeer b p).tail := by
    rw [List.filter_flatMap]
    exact List.flatMap_congr fun p hp => h.filter_configPeer hb hp
  unfold configCommands configLines
  rw [h.bIp_eq hb, List.filter_append, List.filter_append, List.filter_append, hpeers, hdumper,
    List.filter_cons_of_neg (by decide), List.filter_cons_of_neg (by rw [hprotocol]; decide),
    List.filter_cons_of_pos (by rw [hid]; rfl), List.filter_cons_of_neg (by decide), List.filter_nil,
    List.append_nil]
  rfl

end BgpCli

end Log2Bgp
