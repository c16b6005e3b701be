import Log2Bgp.Dumper.Lemmas.Filing
import Log2Bgp.Restore.Lemmas.Lines
import Log2Bgp.Restore.Lemmas.Reached

/-!
# What the lines of a written configuration do
-/

namespace Log2Bgp

open Lib

theorem PrintedAs.step_eq {c : CliInput} {tokens : List Text} {f : CmdBgpFunc} (h : PrintedAs c.line tokens f)
    {b b' : BgpCli} {r : Reply} (hrun : runFunc f c.env b tokens = .ok (b', r)) :
    CliInput.step b c = some b' :=
  CliInput.step_eq_some.mpr ⟨r, (h.executeLine_eq c.env b).trans hrun⟩

/-- Puts a peer at a place. -/
def BgpCli.withPeer (b : BgpCli) (i : Nat) (p : CliPeer) : BgpCli := { b with threadQ := b.threadQ.set i p }

section Effects

variable {b : BgpCli} {c : CliInput} {ip : Text} (hip : IsWord ip)

theorem atoi_decimal_AS (asn : UInt16) : (atoi (decimal asn.toNat)).toUInt32.toUInt16 = asn := by
  have hlt := asn.toNat_lt
  rw [atoi_decimal _ (by omega), Int32.ofInt_eq_ofNat]
  simp

theorem stringToUint16_decimal (port : UInt16) : stringToUint16 (decimal port.toNat) = port := by
  have hlt := port.toNat_lt
  rw [stringToUint16, extractUnsigned_decimal _ (by omega), Option.getD_some, UInt16.ofNat_toNat]

theorem stringToUint32_decimal (value : UInt32) : stringToUint32 (decimal value.toNat) = value := by
  have hlt := value.toNat_lt
  rw [stringToUint32, extractUnsigned_decimal _ (by omega), Option.getD_some, UInt32.ofNat_toNat]

theorem step_remoteAs {addr : UInt32} {asn : UInt16} (hb : b.NoIpv4) (hroom : b.threadQ.length < 256)
    (hzero : addr ≠ 0 ∨ b.threadQ = [])
    (hline : c.line = "  neighbor ".toList ++ ntoa addr ++ " remote-as ".toList ++ decimal asn.toNat ++ "\n".toList) :
    CliInput.step b c =
      some (b.startPeer { pIp := ntoa addr, ipv4 := addr, addrFamily := afInet, AS := asn }) := by
  have hprinted := printedAs_remoteAs (isWord_ntoa addr) asn.toNat
  rw [← hline] at hprinted
  let command : NeighborCommand :=
    { env := c.env, line := c.line, ip := ntoa addr, asn := decimal asn.toNat, addr := addr
      tokens := hprinted.words_eq, valid := pton_ntoa addr }
  have hparams : command.params = { pIp := ntoa addr, ipv4 := addr, addrFamily := afInet, AS := asn } := by
    rw [NeighborCommand.params, atoi_decimal_AS]
    rfl
  obtain ⟨hnull, hne, -⟩ | ⟨-, hrun⟩ := command.run_cases hb
  · obtain hzero | hzero := hzero
    · exact absurd hnull hzero
    · exact absurd hzero hne
  · rw [if_pos hroom, hparams] at hrun
    exact CliInput.step_eq_some.mpr ⟨_, hrun⟩

theorem peerBufferSize_ok (letters : String × String) (set : Int32 → Int32 → CliPeer → CliPeer) {i : Nat}
    (hi : b.getPeerByStrIp ip = some i) (env : CliEnv) (tcp bgp : Int32) (name word : Text) :
    ∃ r, peerBufferSize letters set env b [name, ip, word, decimalInt tcp.toInt, decimalInt bgp.toInt] =
      .ok (b.modifyPeer i (set tcp bgp), r) := by
  unfold peerBufferSize
  simp only [tokenAt, List.getElem?_cons_succ, List.getElem?_cons_zero, Checked.ok_bind, hi, atoi_decimalInt]
  split
  · exact ⟨_, rfl⟩
  · split
    · split
      · exact ⟨_, rfl⟩
      · exact ⟨_, rfl⟩
    · exact ⟨_, rfl⟩

include hip

theorem step_txBuffer {i : Nat} {p : CliPeer} (hi : b.getPeerByStrIp ip = some i) (hp : b.threadQ[i]? = some p)
    {tcp bgp : Int32} (hline : c.line = "  neighbor ".toList ++ ip ++ " tx-buffer ".toList ++ decimalInt tcp.toInt ++
      " ".toList ++ decimalInt bgp.toInt ++ "\n".toList) :
    CliInput.step b c = some (b.withPeer i { p with tcpTxSocketBufferSize := tcp, bgpTxBufferSize := bgp }) := by
  have hprinted := printedAs_txBuffer hip tcp.toInt bgp.toInt
  rw [← hline] at hprinted
  obtain ⟨r, hrun⟩ := peerBufferSize_ok ("send", "tx")
    (fun tcp bgp p => { p with tcpTxSocketBufferSize := tcp, bgpTxBufferSize := bgp }) hi c.env tcp bgp _ _
  rw [modifyPeer_eq hp] at hrun
  exact hprinted.step_eq hrun

theorem step_rxBuffer {i : Nat} {p : CliPeer} (hi : b.getPeerByStrIp ip = some i) (hp : b.threadQ[i]? = some p)
    {tcp bgp : Int32} (hline : c.line = "  neighbor ".toList ++ ip ++ " rx-buffer ".toList ++ decimalInt tcp.toInt ++
      " ".toList ++ decimalInt bgp.toInt ++ "\n".toList) :
    CliInput.step b c = some (b.withPeer i { p with tcpRxSocketBufferSize := tcp, bgpRxBufferSize := bgp }) := by
  have hprinted := printedAs_rxBuffer hip tcp.toInt bgp.toInt
  rw [← hline] at hprinted
  obtain ⟨r, hrun⟩ := peerBufferSize_ok ("receive", "rx")
    (fun tcp bgp p => { p with tcpRxSocketBufferSize := tcp, bgpRxBufferSize := bgp }) hi c.env tcp bgp _ _
  rw [modifyPeer_eq hp] at hrun
  exact hprinted.step_eq hrun

/-- The bytes of the port are swapped on the way in. -/
theorem step_logging {i : Nat} {p : CliPeer} (hi : b.getPeerByStrIp ip = some i) (hp : b.threadQ[i]? = some p)
    {host : Text} (hhost : IsWord host) {port : UInt16}
    (hline : c.line = "neighbor ".toList ++ ip ++ " logging host ".toList ++ host ++ " ".toList ++
      decimal port.toNat ++ "\n".toList) :
    CliInput.step b c = some (if stringToIp c.env.uninit host = 0 then b
      else { b with dumper := b.dumper.addDestHost p.bgpId host (htons port) }) := by
  have hprinted := printedAs_logging hip hhost port.toNat
  rw [← hline] at hprinted
  have hrun : ∃ r, runFunc .setPeerLogging c.env b
      ["neighbor".toList, ip, "logging".toList, "host".toList, host, decimal port.toNat] =
      .ok (if stringToIp c.env.uninit host = 0 then b
        else { b with dumper := b.dumper.addDestHost p.bgpId host (htons port) }, r) := by
    simp only [runFunc, setPeerLogging, tokenAt, List.getElem?_cons_succ, List.getElem?_cons_zero, Checked.ok_bind, hi,
      Option.bind_some, hp, stringToUint16_decimal]
    split
    · exact ⟨_, rfl⟩
    · exact ⟨_, rfl⟩
  obtain ⟨r, hrun⟩ := hrun
  exact hprinted.step_eq hrun

omit hip in
theorem setPeerTranslation_ok {i : Nat} {p : CliPeer} (hp : b.threadQ[i]? = some p) (env : CliEnv)
    {a : TranslateAttribsBase} (hfresh : ∀ a' ∈ p.translateAttribs, ¬ a'.Fits a.code a.value)
    (value : CliPeer → UInt32) (hvalue : value p = a.value) :
    setPeerTranslation env b i a.code value a.printableAttrib = .ok (b.withPeer i { p with
      translateAttribs := env.std.sort (p.translateAttribs ++ [a]), isAliasing := true }, .text []) := by
  unfold setPeerTranslation
  rw [hp]
  dsimp only
  rw [hvalue, CliPeer.setTranslation_fresh hfresh]
  rfl

theorem step_alias {i : Nat} {p : CliPeer} (hi : b.getPeerByStrIp ip = some i) (hp : b.threadQ[i]? = some p)
    {a : TranslateAttribsBase} (hcode : a.code ∈ printedAliases) (ha : p.AliasOf a)
    (hfresh : ∀ a' ∈ p.translateAttribs, ¬ a'.Fits a.code a.value) (hline : c.line = configAlias ip a) :
    CliInput.step b c = some (b.withPeer i { p with
      translateAttribs := c.env.std.sort (p.translateAttribs ++ [a]), isAliasing := true }) := by
  have hlabel := ha.label hcode
  have hid := ha.value
  have hset := setPeerTranslation_ok hp c.env hfresh
  obtain ⟨code, value, label⟩ := a
  simp only [printedAliases, List.mem_cons, List.not_mem_nil, or_false] at hcode
  obtain rfl | rfl | rfl | rfl := hcode
  · have hprinted := printedAs_bgpIdAlias hip hlabel value
    rw [← hline] at hprinted
    refine hprinted.step_eq (r := .text []) ?_
    simp only [runFunc, protoBgpAttributeBgpIdTranslateValue, tokenAt, List.getElem?_cons_succ,
      List.getElem?_cons_zero, Checked.ok_bind, hi]
    exact hset _ (hid rfl).symm
  · have hprinted := printedAs_asPathAlias hip hlabel value
    rw [← hline] at hprinted
    refine hprinted.step_eq (r := .text []) ?_
    simp only [runFunc, protoBgpAttributeAspathTranslateValue, attributeTranslateValue, tokenAt,
      List.getElem?_cons_succ, List.getElem?_cons_zero, Checked.ok_bind, hi, stringToUint32_decimal]
    exact hset _ rfl
  · have hprinted := printedAs_nextHopAlias hip hlabel value
    rw [← hline] at hprinted
    refine hprinted.step_eq (r := .text []) ?_
    simp only [runFunc, protoBgpAttributeV4nexthopTranslateValue, tokenAt, List.getElem?_cons_succ,
      List.getElem?_cons_zero, Checked.ok_bind, hi, pton_ntoa, Option.getD_some]
    exact hset _ rfl
  · have hprinted := printedAs_communityAlias hip hlabel value
    rw [← hline] at hprinted
    refine hprinted.step_eq (r := .text []) ?_
    simp only [runFunc, protoBgpAttributeCommunityTranslateValue, attributeTranslateValue, tokenAt,
      List.getElem?_cons_succ, List.getElem?_cons_zero, Checked.ok_bind, hi, stringToUint32_decimal]
    exact hset _ rfl

omit hip

theorem step_bgpId (addr : UInt32) (hline : c.line = " bgp-id ".toList ++ ntoa addr ++ "\n".toList) :
    CliInput.step b c = some (b.setId addr) := by
  have hprinted := printedAs_bgpId addr
  rw [← hline] at hprinted
  refine hprinted.step_eq (r := .text []) ?_
  simp only [runFunc, setBgpId, tokenAt, List.getElem?_cons_succ, List.getElem?_cons_zero, Checked.ok_bind, aton_ntoa,
    Option.getD_some]
  rfl

theorem step_dumper (hline : c.line = " dumper on\n".toList) :
    CliInput.step b c = some { b with dumperOnOff := true } := by
  have hprinted := printedAs_dumper
  rw [← hline] at hprinted
  exact hprinted.step_eq rfl

end Effects

end Log2Bgp
