import Log2Bgp.Model.Report

/-!
# Commands

The functions behind the command tree, the execution of a line and the port of the API
(`bgp_cli.cpp`, `bgp_api.cpp`, `bgp_cmdparser.cpp`, `tcp_server.cpp`).
-/

namespace Log2Bgp

open Lib

/-- What the run of a command depends on besides the instance: the sort of the aliases, memory that is
read before it is written, a bound on the markers of a record, and how the calls of the system go. -/
structure CliEnv where
  std : AliasSort
  uninit : Uninit := {}
  fuel : Nat := 1
  configOpens : Bool := true
  streamResizes : Bool := true

/-- What a command returns. The layout of the two reports is left out. -/
inductive Reply where
  | text (t : Text)
  | adjRibIn (rows : List RibRow)
  | neighbors (peers : List CliPeer)
deriving DecidableEq, Repr

/-- A function of the command tree. -/
abbrev Handler := CliEnv → BgpCli → List Text → Cli (BgpCli × Reply)

/-! ## Numbers and addresses of tokens -/

/-- `string_to_uint32_t`. -/
def stringToUint32 (s : Text) : UInt32 := UInt32.ofNat ((extractUnsigned 4294967295 s).getD 0)

/-- `string_to_uint16_t`. -/
def stringToUint16 (s : Text) : UInt16 := UInt16.ofNat ((extractUnsigned 65535 s).getD 0)

/-- `string_to_ip`. `inet_aton` never returns -1. -/
def stringToIp (u : Uninit) (ip : Text) : UInt32 := if ip = [] then 0 else (aton ip).getD u.addr

/-! ## The instance -/

/-- `set_bgp_id`. `inet_aton` never returns -1. -/
def setBgpId : Handler := fun env b tokens => do
  let ip ← tokenAt tokens 1
  pure (b.setId ((aton ip).getD env.uninit.addr), .text [])

/-- `proto_bgp_toggle_update_dump`. -/
def protoBgpToggleUpdateDump : Handler := fun _ b tokens => do
  let t ← tokenAt tokens 1
  if t = "on".toList then
    pure ({ b with dumperOnOff := true }, .text ("% Warning: with this option enabled, performance ".toList ++
      "will be degraded during initial convergence\n".toList))
  else if t = "off".toList then pure ({ b with dumperOnOff := false }, .text [])
  else pure (b, .text [])

/-- `kill_all_signal`. -/
def killAllSignal : Handler := fun _ b _ =>
  pure ({ b with stopAndExitInstance := true }, .text "% Sent: this->kill_all()".toList)

/-- The functions that return an empty text. -/
def nothing : Handler := fun _ b _ => pure (b, .text [])

/-! ## Peers -/

/-- The peer that `proto_bgp_neighbor` makes of an address. -/
def neighborPeer (u : Uninit) (ip : Text) : CliPeer :=
  match pton ip with
  | some addr => { pIp := ntoa addr, ipv4 := addr, addrFamily := afInet }
  | none => { pIp := u.pIp }

/-- `proto_bgp_neighbor`. -/
def protoBgpNeighbor : Handler := fun env b tokens => do
  let ip ← tokenAt tokens 1
  let peer := neighborPeer env.uninit ip
  let found ← Cli.ofChecked (peerExists b.threadQ peer)
  if found then
    pure (b, .text ("% Neighbor ".toList ++ peer.pIp ++ " already exists in table\n".toList))
  else do
    let asn ← tokenAt tokens 3
    pure (b.startPeer { peer with AS := (atoi asn).toUInt32.toUInt16 }, .text [])

/-- The reply of a command for a peer that is not there. -/
def noPeer (ip : Text) : Reply := .text ("% Peer ".toList ++ ip ++ " does not exist\n".toList)

/-- `peer_state`. -/
def peerState : BgpPeerState → String
  | .idle => "Idle"
  | .connect => "Connect"
  | .active => "Active"
  | .opensent => "Open Sent"
  | .openconfirm => "Open Confirm"
  | .established => "Established"
  | .deleted => "Deleted"
  | .clearing => "Clearing"

/-- The two functions that set buffer sizes. `letters` are the two words for the direction. -/
def peerBufferSize (letters : String × String) (set : Int32 → Int32 → CliPeer → CliPeer) : Handler :=
  fun env b tokens => do
    let ip ← tokenAt tokens 1
    match b.getPeerByStrIp ip with
    | none => pure (b, noPeer ip)
    | some i => do
        let tcp ← tokenAt tokens 3
        let bgp ← tokenAt tokens 4
        let b := b.modifyPeer i (set (atoi tcp) (atoi bgp))
        match b.threadQ[i]? with
        | none => pure (b, .text [])
        | some peer =>
            if peer.connected then
              if env.streamResizes then pure (b, .text [])
              else pure (b, .text ("% Error setting ".toList ++ letters.1.toList ++
                " buffer size to tcp=".toList ++ tcp ++ " and bgp=".toList ++ bgp ++ "\n".toList))
            else pure (b, .text ("% Peer ".toList ++ peer.pIp ++ " state is ".toList ++
              (peerState peer.state).toList ++ ": will resize ".toList ++ letters.2.toList ++
              "-buffers on Established\n".toList))

/-- `proto_bgp_peer_rcv_buffer_size`. -/
def protoBgpPeerRcvBufferSize : Handler :=
  peerBufferSize ("receive", "rx") fun tcp bgp p =>
    { p with tcpRxSocketBufferSize := tcp, bgpRxBufferSize := bgp }

/-- `proto_bgp_peer_snd_buffer_size`. -/
def protoBgpPeerSndBufferSize : Handler :=
  peerBufferSize ("send", "tx") fun tcp bgp p =>
    { p with tcpTxSocketBufferSize := tcp, bgpTxBufferSize := bgp }

/-- Sets an alias of one peer. -/
def setPeerTranslation (env : CliEnv) (b : BgpCli) (i : Nat) (code : BgpPathAttrib)
    (matchValue : CliPeer → UInt32) (newValue : Text) : Cli (BgpCli × Reply) :=
  match b.threadQ[i]? with
  | none => pure (b, .text [])
  | some peer => do
      let peer ← Cli.ofChecked (peer.setTranslation env.std code (matchValue peer) newValue)
      pure ({ b with threadQ := b.threadQ.set i peer }, .text [])

/-- `proto_bgp_attribute_bgp_id_translate_value`. -/
def protoBgpAttributeBgpIdTranslateValue : Handler := fun env b tokens => do
  let ip ← tokenAt tokens 1
  match b.getPeerByStrIp ip with
  | none => pure (b, noPeer ip)
  | some i => do
      let value ← tokenAt tokens 5
      setPeerTranslation env b i .bgpId (·.bgpId) value

/-- `proto_bgp_attribute_origin_translate_value`. -/
def protoBgpAttributeOriginTranslateValue : Handler := fun env b tokens => do
  let ip ← tokenAt tokens 1
  match b.getPeerByStrIp ip with
  | none => pure (b, noPeer ip)
  | some i => setPeerTranslation env b i .origin (fun _ => 0) []

/-- The functions that set an alias of a number. -/
def attributeTranslateValue (code : BgpPathAttrib) : Handler := fun env b tokens => do
  let ip ← tokenAt tokens 1
  match b.getPeerByStrIp ip with
  | none => pure (b, noPeer ip)
  | some i => do
      let number ← tokenAt tokens 5
      let value ← tokenAt tokens 6
      setPeerTranslation env b i code (fun _ => stringToUint32 number) value

/-- `proto_bgp_attribute_aspath_translate_value`. -/
def protoBgpAttributeAspathTranslateValue : Handler := attributeTranslateValue .asPath

/-- `proto_bgp_attribute_med_translate_value`. -/
def protoBgpAttributeMedTranslateValue : Handler := attributeTranslateValue .multiExitDisc

/-- `proto_bgp_attribute_localpref_translate_value`. -/
def protoBgpAttributeLocalprefTranslateValue : Handler := attributeTranslateValue .localPref

/-- `proto_bgp_attribute_community_translate_value`. -/
def protoBgpAttributeCommunityTranslateValue : Handler := attributeTranslateValue .community

/-- `proto_bgp_attribute_v4nexthop_translate_value`. `inet_pton` is negative for no text. -/
def protoBgpAttributeV4nexthopTranslateValue : Handler := fun env b tokens => do
  let ip ← tokenAt tokens 1
  match b.getPeerByStrIp ip with
  | none => pure (b, noPeer ip)
  | some i => do
      let nextHop ← tokenAt tokens 6
      let value ← tokenAt tokens 7
      setPeerTranslation env b i .nextHop (fun _ => (pton nextHop).getD 0) value

/-- `set_peer_logging`. -/
def setPeerLogging : Handler := fun env b tokens => do
  let ip ← tokenAt tokens 1
  match (b.getPeerByStrIp ip).bind (b.threadQ[·]?) with
  | none => pure (b, noPeer ip)
  | some peer => do
      let loggingHost ← tokenAt tokens 4
      if stringToIp env.uninit loggingHost = 0 then
        pure (b, .text ("% ".toList ++ loggingHost ++ " is not a valid host address\n".toList))
      else do
        let loggingPort ← tokenAt tokens 5
        let port := htons (stringToUint16 loggingPort)
        pure ({ b with dumper := b.dumper.addDestHost peer.bgpId loggingHost port }, .text [])

/-! ## `write_configs` -/

/-- What is printed of one alias. Some kinds are not implemented beyond the head of the line. -/
def configAlias (pIp : Text) (a : TranslateAttribsBase) : Text :=
  "  neighbor ".toList ++ pIp ++ " attribute ".toList ++
  match a.code with
  | .bgpId => "bgp-id alias ".toList ++ a.printableAttrib ++ "\n".toList
  | .asPath => "as-path alias ".toList ++ decimal a.value.toNat ++ " ".toList ++ a.printableAttrib ++
      "\n".toList
  | .nextHop => "next-hop alias ipv4 ".toList ++ ntoa a.value ++ " ".toList ++ a.printableAttrib ++
      "\n".toList
  | .community => "community alias ".toList ++ decimal a.value.toNat ++ " ".toList ++ a.printableAttrib ++
      "\n".toList
  | _ => []

/-- What is printed of one peer, line by line. -/
def configPeer (b : BgpCli) (p : CliPeer) : List Text :=
  let neighbor := "  neighbor ".toList ++ p.pIp
  ["  !\n".toList,
    neighbor ++ " remote-as ".toList ++ decimal p.AS.toNat ++ "\n".toList,
    neighbor ++ " tx-buffer ".toList ++ decimalInt p.tcpTxSocketBufferSize.toInt ++ " ".toList ++
      decimalInt p.bgpTxBufferSize.toInt ++ "\n".toList,
    neighbor ++ " rx-buffer ".toList ++ decimalInt p.tcpRxSocketBufferSize.toInt ++ " ".toList ++
      decimalInt p.bgpRxBufferSize.toInt ++ "\n".toList] ++
  (match b.dumper[p.bgpId]? with
    | some s => ["neighbor ".toList ++ p.pIp ++ " logging host ".toList ++ s.host ++ " ".toList ++
        decimal s.port.toNat ++ "\n".toList]
    | none => []) ++
  (if p.isAliasing then p.translateAttribs.map (configAlias p.pIp) else [])

/-- What `write_configs` prints, line by line. `bgp_id_ip` is never null. -/
def configLines (b : BgpCli) : List Text :=
  ["!\n".toList,
    "protocol bgp ".toList ++ decimal b.AS.toNat ++ "\n".toList,
    " bgp-id ".toList ++ b.bIp ++ "\n".toList] ++
  (if b.dumperOnOff then [" dumper on\n".toList, "!\n".toList] else []) ++
  b.threadQ.flatMap (configPeer b) ++
  ["!\n".toList]

/-- `write_configs`. -/
def writeConfigs : Handler := fun env b _ =>
  if env.configOpens then pure ({ b with config := some (configLines b).flatten }, .text "[OK]".toList)
  else pure (b, .text "[FAILED]".toList)

/-! ## Reports -/

/-- `show_bgp_neighbors`. -/
def showBgpNeighbors : Handler := fun _ b _ =>
  if b.threadQ = [] then pure (b, .text "% Peer table is empty\n".toList)
  else pure (b, .neighbors b.threadQ)

/-- `show_bgp_adj_rib_in`. -/
def showBgpAdjRibInCommand : Handler := fun _ b _ => do
  let rows ← Cli.ofChecked (showBgpAdjRibIn b)
  pure (b, .adjRibIn rows)

/-- `show_bgp_adj_rib_wdrawn`. -/
def showBgpAdjRibWdrawn : Handler := fun _ b _ => pure (b, .text "% not implemented".toList)

/-- The loop body over the matches of `show_bgp_prefix`. -/
def showEntry (env : CliEnv) (dumpHistory : Bool) (b : BgpCli) (entry : BgpUpdate) :
    Checked (BgpCli × Text) := do
  let n := entry.nlri
  let current ← displayEntry env.uninit b entry
  let text := "\nBGP routing table entry for ".toList ++ ntoa n.pfx ++ "/".toList ++
    decimal n.prefixLength.toNat ++ " : (".toList ++ ntoa n.pfx ++ " - ".toList ++
    ntoa n.prefixHighest ++ ")\n".toList ++ "Received from ".toList ++ ntoa n.bgpId ++
    (if b.peerDoingAlias n.bgpId then "(".toList ++ b.translateBgpId n.bgpId ++ ")".toList else []) ++
    "\n[c]".toList ++ current
  if dumpHistory then do
    let (b, records) ← b.dbGetEntries env.fuel entry
    let history ← records.mapM fun r => do
      let t ← displayEntry env.uninit b r
      pure ("\n\n[h]".toList ++ t)
    pure (b, text ++ history.flatten ++ "\n".toList)
  else pure (b, text ++ "\n".toList)

/-- The loop over the matches of `show_bgp_prefix`. -/
def showEntries (env : CliEnv) (dumpHistory : Bool) :
    List BgpUpdate → BgpCli → Checked (BgpCli × Text)
  | [], b => .ok (b, [])
  | entry :: rest, b => do
      let (b, text) ← showEntry env dumpHistory b entry
      let (b, texts) ← showEntries env dumpHistory rest b
      pure (b, text ++ texts)

/-- Whether a line of `count` tokens ends in `history`. -/
def asksHistory (tokens : List Text) (count : Nat) : Cli Bool :=
  if tokens.length = count then do
    let t ← tokenAt tokens (count - 1)
    pure (t = "history".toList)
  else pure false

/-- `show_bgp_prefix`. -/
def showBgpPrefix : Handler := fun env b tokens => do
  let ip ← tokenAt tokens 3
  match aton ip with
  | none => pure (b, .text [])
  | some addr => do
      let dumpHistory ← asksHistory tokens 5
      let found := b.prefixMatches addr
      if found = [] then pure (b, .text "% Network not in table\n".toList)
      else do
        let (b', text) ← Cli.ofChecked (showEntries env dumpHistory found b)
        pure (b', .text ("\nEntries: (".toList ++ decimal found.length ++
          " available)\n[c] = current".toList ++
          (if dumpHistory then " [h] = historical\n".toList else "\n".toList) ++ text ++ "\n".toList))

/-! ## The API -/

/-- `api_get_prefix`. -/
def apiGetPrefix : Handler := fun env b tokens => do
  let opening := ['{'] ++ "\"entries\":[".toList
  if tokens.length < 3 then
    pure (b, .text (opening ++ "\"prefix\":\"invalid number of parameters\"]".toList ++ ['}']))
  else do
    let ip ← tokenAt tokens 2
    match aton ip with
    | none =>
        pure (b, .text (opening ++ ['{'] ++
          "\"prefix\":\"c'mon, thats not even a real ip prefix\"".toList ++ ['}'] ++ "]".toList ++ ['}']))
    | some addr => do
        let dumpHistory ← asksHistory tokens 4
        let found := b.prefixMatches addr
        if found = [] then
          pure (b, .text (opening ++ ['{'] ++ "\"prefix\":\"network not in table\"".toList ++ ['}'] ++
            "]".toList ++ ['}']))
        else do
          let (b', texts) ← Cli.ofChecked (jsonEntries env.uninit env.fuel dumpHistory found b)
          pure (b', .text (opening ++ joinTexts ",".toList texts ++ "]".toList ++ ['}']))

/-- The three queries for an origin AS. -/
def apiGetOriginAs (query : OriginQuery) : Handler := fun _ b tokens => do
  if tokens.length < 4 then
    pure (b, .text (['{'] ++ "\"entries\":[\"prefix\":\"invalid number of parameters\"]".toList ++ ['}']))
  else do
    let asn ← tokenAt tokens 2
    let length ← tokenAt tokens 3
    let found ← Cli.ofChecked (originMatches query b (stringToUint32 asn) (stringToUint32 length))
    let prefixes := found.map fun m =>
      "\"".toList ++ ntoa m.1 ++ "/".toList ++ decimal m.2.toNat ++ "\"".toList
    pure (b, .text (['{'] ++ "\"entries\":[".toList ++ joinTexts ",".toList prefixes ++ "]".toList ++ ['}']))

/-- `api_get_all_origin_as`. -/
def apiGetAllOriginAs : Handler := apiGetOriginAs .all

/-- `api_get_public_origin_as`. -/
def apiGetPublicOriginAs : Handler := apiGetOriginAs .publicOnly

/-- `api_get_private_origin_as`. -/
def apiGetPrivateOriginAs : Handler := apiGetOriginAs .privateOnly

/-! ## Execution -/

/-- The functions by their names in the tree. -/
def runFunc : CmdBgpFunc → Handler
  | .apiGetPrefix => apiGetPrefix
  | .apiGetAllOriginAs => apiGetAllOriginAs
  | .apiGetPublicOriginAs => apiGetPublicOriginAs
  | .apiGetPrivateOriginAs => apiGetPrivateOriginAs
  | .show => nothing
  | .showBgpPrefix => showBgpPrefix
  | .showBgpNeighbors => showBgpNeighbors
  | .showBgpAdjRibIn => showBgpAdjRibInCommand
  | .showBgpAdjRibWdrawn => showBgpAdjRibWdrawn
  | .writeConfigs => writeConfigs
  | .protoBgpToggleUpdateDump => protoBgpToggleUpdateDump
  | .protoBgpNeighbor => protoBgpNeighbor
  | .setPeerLogging => setPeerLogging
  | .protoBgpPeerRcvBufferSize => protoBgpPeerRcvBufferSize
  | .protoBgpPeerSndBufferSize => protoBgpPeerSndBufferSize
  | .protoBgpPeerTimers => nothing
  | .protoBgpPeerAttribute => nothing
  | .protoBgpAttributeBgpIdTranslateValue => protoBgpAttributeBgpIdTranslateValue
  | .protoBgpAttributeOriginTranslateValue => protoBgpAttributeOriginTranslateValue
  | .protoBgpAttributeAspathTranslateValue => protoBgpAttributeAspathTranslateValue
  | .protoBgpAttributeNexthopTranslateValue => nothing
  | .protoBgpAttributeV4nexthopTranslateValue => protoBgpAttributeV4nexthopTranslateValue
  | .protoBgpAttributeMedTranslateValue => protoBgpAttributeMedTranslateValue
  | .protoBgpAttributeLocalprefTranslateValue => protoBgpAttributeLocalprefTranslateValue
  | .protoBgpAttributeAtomicaggrTranslateValue => nothing
  | .protoBgpAttributeCommunityTranslateValue => protoBgpAttributeCommunityTranslateValue
  | .setBgpId => setBgpId
  | .killAllSignal => killAllSignal

/-- `ExecuteLine`. -/
def executeLine (env : CliEnv) (b : BgpCli) (line : Text) : Cli (BgpCli × Reply) :=
  if line = [] then pure (b, .text [])
  else
    match findCommand commands (words line) with
    | none => pure (b, .text (line ++ " % invalid command.\n".toList))
    | some cmd => runFunc cmd.func env b (words line)

/-! ## The port of the command line -/

/-- The text in `buffer`, of 255 characters, after `fread` has put `bytes` into it. It was cleared before;
where no null character is left the text goes on behind it. -/
def commandText (bytes : List UInt8) : Cli Text :=
  let buffer := bytes ++ List.replicate (255 - bytes.length) 0
  if 0 ∈ buffer then .ok ((buffer.takeWhile (· ≠ 0)).map fun c => Char.ofNat c.toNat)
  else .error (.memory (.read 255))

/-- `connection_loop` over the bytes that its client sends. A command of no bytes is not handed on. -/
def connectionLoop (env : CliEnv) : List UInt8 → BgpCli → Cli (BgpCli × List Reply)
  | [], b => pure (b, [])
  | len :: input, b =>
      if b.stopAndExitInstance then pure (b, [])
      else
        let bytes := input.take len.toNat
        if bytes = [] then connectionLoop env (input.drop len.toNat) b
        else do
          let line ← commandText bytes
          let (b', reply) ← executeLine env b line
          let (b'', replies) ← connectionLoop env (input.drop len.toNat) b'
          pure (b'', reply :: replies)
termination_by input => input.length
decreasing_by all_goals (simp only [List.length_drop, List.length_cons]; omega)

/-! ## The port of the API -/

/-- The wide character that a byte is read as. No locale is set, and from 0x80 on it is none. -/
def wideChar (c : UInt8) : Option UInt32 := if c < 0x80 then some c.toUInt32 else none

/-- The characters that `fgetws` stores of the bytes of a stream, at most `n` and none behind a newline, and whether it
fails at a byte that is none. -/
def takeLine : (n : Nat) → List UInt8 → List UInt32 × Bool
  | 0, _ => ([], false)
  | _, [] => ([], false)
  | n + 1, c :: input =>
      match wideChar c with
      | none => ([], true)
      | some w => if w = 10 then ([w], false) else (w :: (takeLine n input).1, (takeLine n input).2)

/-- The text in `wbuffer`, of 255 characters, after `fgetws(wbuffer, len + 1, c_rx)`. Where the call returns null, as
there is nothing to read or it fails, what the buffer holds is not initialised or not determined. -/
def readRequest (len : Nat) (input : List UInt8) (stale : List UInt32) : Cli (List UInt32) :=
  let (line, failed) := takeLine len input
  if 255 < line.length + (if failed then 0 else 1) then .error (.memory (.write 255 255))
  else if failed ∨ (line = [] ∧ 0 < len) then .ok (stale.takeWhile (· ≠ 0))
  else .ok (line.takeWhile (· ≠ 0))

/-- `to_narrow_str`: the lowest byte of each wide character. -/
def toNarrowStr (wide : List UInt32) : Text := wide.map fun w => Char.ofNat (w.toNat % 256)

/-- The text in front of the first null character. -/
def cStr (s : Text) : Text := s.takeWhile (· ≠ Char.ofNat 0)

/-- What `sinatra_api` does with the text in `wbuffer`. -/
def answerRequest (env : CliEnv) (b : BgpCli) (len : Nat) (wbuffer : List UInt32) :
    Cli (BgpCli × Reply) := do
  let legal ← if 0 < len then isApiCall (toNarrowStr wbuffer) else pure false
  if legal then executeLine env b (cStr (toNarrowStr wbuffer))
  else pure (b, .text "bgpd: illegal API call".toList)

/-- `sinatra_api` over the bytes that its client sends. It returns at once where `fgetwc` has no length for it. -/
def sinatraApi (env : CliEnv) (b : BgpCli) (input : List UInt8) (stale : List UInt32) : Cli (BgpCli × Option Reply) :=
  if b.stopAndExitInstance then pure (b, none)
  else
    match input with
    | [] => pure (b, none)
    | c :: input =>
        match wideChar c with
        | none => pure (b, none)
        | some len => do
            let wbuffer ← readRequest len.toNat input stale
            let (b', reply) ← answerRequest env b len.toNat wbuffer
            pure (b', some reply)

end Log2Bgp
