import Log2Bgp.Model.Config

/-!
# Reports

What the readers of the RIB make of its entries: `display_entry` and `show_bgp_adj_rib_in`
(`bgp_cli.cpp`), the JSON of the API (`bgp_api.cpp`) and the lines of the dumper (`bgp_syslog.cpp`).
-/

namespace Log2Bgp

open Lib

/-- `bgp_origin_code_text`. -/
def bgpOriginCodeText : List String := ["i", "e", "?"]

/-- `bgp_origin_code_text[origin]`. -/
def originText (origin : UInt8) : Checked Text :=
  match bgpOriginCodeText[origin.toNat]? with
  | some text => .ok text.toList
  | none => .error (.lookup origin.toNat)

/-- What a pointer points to. -/
def deref {α : Type} : Option α → Checked α
  | some a => .ok a
  | none => .error .null

/-- Texts with one between each two of them. -/
def joinTexts (sep : Text) : List Text → Text
  | [] => []
  | [t] => t
  | t :: ts => t ++ (sep ++ joinTexts sep ts)

/-- The elements of a path. -/
def AsPathSegment.asns (s : AsPathSegment) : List UInt32 := s.segValue.elems

/-- `bgp_as_path_type::as_set`. -/
def asSet : UInt8 := 1

/-! ## `display_entry` -/

/-- What is printed of an attribute that may be absent. -/
def optionText {α : Type} (a : Option α) (text : α → Text) : Text := (a.map text).getD []

/-- `display_entry`. `strftime` reads what `gmtime` returns. -/
def displayEntry (u : Uninit) (b : BgpCli) (entry : BgpUpdate) : Checked Text := do
  let id := entry.nlri.bgpId
  let tm ← deref (gmtime entry.nlri.age.toInt)
  let path (s : AsPathSegment) : Text := s.asns.flatMap fun a => b.translateAsPath id a ++ [' ']
  let origin ← originText entry.origin
  pure (
    "\tLast Modified: ".toList ++ tm.full ++ " (UTC)".toList ++
    "\n\tPath: ".toList ++ optionText entry.asPath path ++ optionText entry.as4Path path ++ origin ++
    "\n\tNext hop: ".toList ++ b.translateIpv4NextHop id entry.ipv4NextHop ++ " ".toList ++
    "Metric: ".toList ++ b.translateMed id entry.med ++ " ".toList ++
    "Local Pref: ".toList ++ b.translateLocalPref id entry.localPref ++ " ".toList ++
    (if entry.atomicAggregate then " Atomic Aggregate: true".toList else []) ++
    optionText entry.aggregator (fun a =>
      "\n\tAggregator Origin: ".toList ++ b.translateAggregator id a.origin ++
      " Aggregator AS: ".toList ++ b.translateAsPath id a.asn) ++
    optionText entry.as4Aggregator (fun a =>
      "\n\tAS4 Aggregator Origin: ".toList ++ b.translateAggregator id a.origin ++
      " Aggregator AS4: ".toList ++ b.translateAsPath id a.asn) ++
    (if entry.community.length > 0 then
      "\n\tCommunity: ".toList ++ entry.community.elems.flatMap fun c =>
        b.translateAsPath id c.asn ++ ":".toList ++
        b.translateCommunityValue u id c.value.toUInt16 ++ " ".toList
     else []))

/-! ## `show_bgp_adj_rib_in` -/

/-- The columns of one line of `show_bgp_adj_rib_in`. Their widths are left out. -/
structure RibRow where
  network : Text
  nextHop : Text
  metric : Text
  locPrf : Text
  path : Text
  origin : Text
deriving DecidableEq, Repr

/-- The loop body of `show_bgp_adj_rib_in`. -/
def ribRow (entry : BgpUpdate) : Checked RibRow := do
  let numbers (s : AsPathSegment) : Text := joinTexts " ".toList (s.asns.map fun a => decimal a.toNat)
  let inet := entry.addrFamily = afInet
  let opening ← deref entry.asPath
  let path ←
    match entry.as4Path with
    | some s => pure ("AS4_PATH(".toList ++ numbers s ++ ")".toList)
    | none => do
        let s ← deref entry.asPath
        pure (numbers s)
  let closing ← deref entry.asPath
  let origin ← originText entry.origin
  pure {
    network := if inet then ntoa entry.nlri.pfx ++ '/' :: decimal entry.nlri.prefixLength.toNat else []
    nextHop := if inet then ntoa entry.ipv4NextHop else []
    metric := decimal entry.med.toNat
    locPrf := decimal entry.localPref.toNat
    path :=
      (if opening.segType = asSet then ['{'] else []) ++ path ++
      (if closing.segType = asSet then ['}'] else [])
    origin := origin }

/-- The entries of the RIB in their order. -/
def BgpCli.entries (b : BgpCli) : List BgpUpdate := b.adjRibIn.toList.map fun e => e.2.update

/-- `show_bgp_adj_rib_in`, without the header. -/
def showBgpAdjRibIn (b : BgpCli) : Checked (List RibRow) := b.entries.mapM ribRow

/-! ## The dumper -/

/-- Where a dumped update goes: in a datagram to an address, or to the log file. -/
inductive Dumped where
  | datagram (dest : SockaddrIn) (packet : Text)
  | logFile (line : Text)
deriving DecidableEq, Repr

/-- `c_BGP_6_UPDATE` and `c_BGP_6_WITHDRAW`. -/
def NlriParse.msgType : NlriParse → String
  | .update => "%BGP-6-UPDATE"
  | .withdraw => "%BGP-6-WITHDRAW"

/-- A path in the line of an update. A copied path of no ASNs has no array. -/
def dumpPath (b : BgpCli) (id : UInt32) (opening : String) (s : AsPathSegment) : Text :=
  if s.segValue.length = 0 then []
  else opening.toList ++ joinTexts "_".toList (s.asns.map (b.translateAsPath id)) ++ "|".toList

/-- The text of `translate_and_dump_update`. It is stamped with the time of the system's clock, at which `gmtime`
does not fail. -/
def dumpText (u : Uninit) (now : TimeT) (b : BgpCli) (update : BgpUpdate) (flag : NlriParse) :
    Checked Text := do
  let id := update.nlri.bgpId
  let origin ← originText update.origin
  pure (
    " *".toList ++ (calendarTime now.toInt).american ++ ":".toList ++ " flowlab: ".toList ++
    " msg_type=".toList ++ flag.msgType.toList ++ "|".toList ++
    "peer=".toList ++ b.translateBgpId id ++ "|origin=".toList ++ origin ++
    optionText update.asPath (dumpPath b id "|as_path=") ++
    optionText update.as4Path (dumpPath b id "as4_path=") ++
    "next_hop=".toList ++ b.translateIpv4NextHop id update.ipv4NextHop ++
    "|med=".toList ++ b.translateMed id update.med ++
    "|local_pref=".toList ++ b.translateLocalPref id update.localPref ++
    (if update.atomicAggregate then "|atomic_aggregate=true|".toList else []) ++
    optionText update.aggregator (fun a =>
      "|aggregator_origin=".toList ++ b.translateAggregator id a.origin ++
      "|aggregator_as=".toList ++ b.translateAsPath id a.asn) ++
    optionText update.as4Aggregator (fun a =>
      "|as4_aggregator_origin=".toList ++ b.translateAggregator id a.origin ++
      "|as4_aggregator_as=".toList ++ b.translateAsPath id a.asn) ++
    (if update.community = .empty then []
     else "|community=".toList ++ update.community.elems.flatMap fun c =>
      "[".toList ++ b.translateAsPath id c.asn ++ ":".toList ++
      b.translateCommunityValue u id c.value.toUInt16 ++ "]".toList) ++
    "|prefix=".toList ++ ntoa update.nlri.pfx ++ "|prefix_length=".toList ++
    decimal update.nlri.prefixLength.toNat)

/-- `write`, with `LOG_LOCAL7` and `LOG_NOTICE`. -/
def UdpSender.write (s : UdpSender) (data : Text) : UdpSender × Dumped :=
  let s := { s with sequence := s.sequence + 1 }
  (s, .datagram s.dest ("<189>".toList ++ decimalInt s.sequence.toInt ++ ":".toList ++ data))

/-- `translate_and_dump_update`. -/
def translateAndDumpUpdate (u : Uninit) (now : TimeT) (b : BgpCli) (update : BgpUpdate)
    (flag : NlriParse) : Checked (BgpCli × Dumped) := do
  let text ← dumpText u now b update flag
  match b.dumper[update.nlri.bgpId]? with
  | some s =>
      let (s, dumped) := s.write text
      pure ({ b with dumper := b.dumper.insert update.nlri.bgpId s }, dumped)
  | none => pure (b, .logFile (text ++ "\n".toList))

/-! ## JSON -/

/-- The elements of a path in JSON. -/
def jsonAsPath (b : BgpCli) (id : UInt32) (s : AsPathSegment) : Text :=
  ",\"as_path_length\":".toList ++ decimal s.segValue.length.toNat ++ ",\"as_path\":[".toList ++
  joinTexts ",".toList (s.asns.map fun a => "\"".toList ++ b.translateAsPath id a ++ "\"".toList) ++
  "]".toList

/-- The elements of an AS4 path, which are not closed by a quote. -/
def jsonAs4Path (b : BgpCli) (id : UInt32) (s : AsPathSegment) : Text :=
  ",\"as4_path_length\":".toList ++ decimal s.segValue.length.toNat ++ ",\"as4_path\":[".toList ++
  joinTexts ",".toList (s.asns.map fun a => "\"".toList ++ b.translateAsPath id a) ++ "]".toList

def jsonAggregator (b : BgpCli) (id : UInt32) (a : AggregatorSegment) : Text :=
  ",\"aggregator_str\":\"".toList ++ b.translateAggregator id a.origin ++ "\",".toList ++
  "\"aggregator_bin\":".toList ++ decimal a.origin.toNat ++ ",".toList ++
  "\"aggregator_as_str\":\"".toList ++ b.translateAsPath id a.asn ++ "\",".toList ++
  "\"aggregator_as_bin\":".toList ++ decimal a.asn.toNat

/-- The last number is the one of `aggregator`. -/
def jsonAs4Aggregator (b : BgpCli) (id : UInt32) (aggregator : Option AggregatorSegment)
    (a : AggregatorSegment) : Checked Text := do
  let other ← deref aggregator
  pure (
    ",\"as4_aggregator_str\":\"".toList ++ b.translateAggregator id a.origin ++ "\",".toList ++
    "\"as4_aggregator_bin\":".toList ++ decimal a.origin.toNat ++ ",".toList ++
    "\"as4_aggregator_as_str\":\"".toList ++ b.translateAsPath id a.asn ++ "\",".toList ++
    "\"as4_aggregator_as_bin\":".toList ++ decimal other.asn.toNat)

def jsonCommunity (u : Uninit) (b : BgpCli) (id : UInt32) (cs : Counted CommunitySegment) : Text :=
  if cs.length > 0 then
    ",\"community_length\":".toList ++ decimal cs.length.toNat ++ ",\"community\":[".toList ++
    joinTexts ",".toList (cs.elems.map fun c =>
      "\"".toList ++ b.translateAsPath id c.asn ++ ":".toList ++
      b.translateCommunityValue u id c.value.toUInt16 ++ "\"".toList) ++
    "]".toList
  else []

/-- `jsonify_entry`. -/
def jsonifyEntry (u : Uninit) (b : BgpCli) (entry : BgpUpdate) : Checked Text := do
  let id := entry.nlri.bgpId
  let tm ← deref (gmtime entry.nlri.age.toInt)
  let origin ← originText entry.origin
  let as4Aggregator ←
    match entry.as4Aggregator with
    | none => pure []
    | some a => jsonAs4Aggregator b id entry.aggregator a
  pure (
    "\"time_str\":\"".toList ++ tm.iso ++ "\"".toList ++
    ",\"time_epoch\":".toList ++ decimalInt entry.nlri.age.toInt ++
    optionText entry.asPath (jsonAsPath b id) ++ optionText entry.as4Path (jsonAs4Path b id) ++
    ",\"origin\":\"".toList ++ origin ++ "\",".toList ++
    "\"next_hop_str\":\"".toList ++ ntoa entry.ipv4NextHop ++ "\",".toList ++
    "\"next_hop_name\":\"".toList ++ b.translateIpv4NextHop id entry.ipv4NextHop ++ "\",".toList ++
    "\"next_hop_bin\":".toList ++ decimal entry.ipv4NextHop.toNat ++ ",".toList ++
    "\"med\":".toList ++ decimal entry.med.toNat ++ ",".toList ++
    "\"local_pref\":".toList ++ decimal entry.localPref.toNat ++
    (if entry.atomicAggregate then ",\"atomic_aggregate\":true".toList
     else ",\"atomic_aggregate\":false".toList) ++
    optionText entry.aggregator (jsonAggregator b id) ++ as4Aggregator ++
    jsonCommunity u b id entry.community)

/-- `htonl((0xffffffff << (32 - prefix_length)))`. -/
def netmaskOf (prefixLength : UInt8) : Checked UInt32 :=
  let amount : Int := 32 - prefixLength.toNat
  if 0 ≤ amount ∧ amount < 32 then .ok (htonl (0xffffffff <<< UInt32.ofNat amount.toNat))
  else .error (.shift amount)

/-- The object of one match of `api_get_prefix`, up to its history. -/
def jsonMatch (u : Uninit) (b : BgpCli) (entry : BgpUpdate) : Checked Text := do
  let n := entry.nlri
  let netmask ← netmaskOf n.prefixLength
  let current ← jsonifyEntry u b entry
  pure (
    ['{'] ++ "\"prefix\":\"".toList ++ ntoa n.pfx ++ "\",".toList ++
    "\"prefix_bin\":".toList ++ decimal n.pfx.toNat ++ ",".toList ++
    "\"netmask\":\"".toList ++ ntoa netmask ++ "\",".toList ++
    "\"netmask_bin\":".toList ++ decimal netmask.toNat ++ ",".toList ++
    "\"length\":".toList ++ decimal n.prefixLength.toNat ++ ",".toList ++
    "\"prefix_range\":\"".toList ++ ntoa n.prefixHighest ++ "\",".toList ++
    "\"prefix_range_bin\":".toList ++ decimal n.prefixHighest.toNat ++ ",".toList ++
    "\"peer\":\"".toList ++ ntoa n.bgpId ++ "\"".toList ++
    (if b.peerDoingAlias n.bgpId then
      ",\"peer_name\":\"".toList ++ b.translateBgpId n.bgpId ++ "\",".toList
     else ",".toList) ++
    "\"current\":".toList ++ ['{'] ++ current ++ ['}'])

/-- `records`: `db_get_entries`, with at most `fuel` markers in a record. -/
def BgpCli.dbGetEntries (fuel : Nat) (b : BgpCli) (entry : BgpUpdate) :
    Checked (BgpCli × List BgpUpdate) :=
  match b.db.dbGetEntries fuel entry with
  | none => .error .loop
  | some (records, db) => .ok ({ b with db := db }, records)

/-- The history of one match. -/
def jsonHistory (u : Uninit) (b : BgpCli) (records : List BgpUpdate) : Checked Text := do
  let texts ← records.mapM fun r => do
    let text ← jsonifyEntry u b r
    pure (['{'] ++ text ++ ['}'])
  pure (",\"history_length\":".toList ++ decimal records.length ++ ",\"history\":[".toList ++
    joinTexts ",".toList texts ++ "]".toList)

/-- The loop body over the matches of `api_get_prefix`, without the comma behind the object. -/
def jsonEntry (u : Uninit) (fuel : Nat) (dumpHistory : Bool) (b : BgpCli) (entry : BgpUpdate) :
    Checked (BgpCli × Text) := do
  let text ← jsonMatch u b entry
  if dumpHistory then do
    let (b, records) ← b.dbGetEntries fuel entry
    let history ← jsonHistory u b records
    pure (b, text ++ history ++ ['}'])
  else pure (b, text ++ ['}'])

/-- The loop over the matches of `api_get_prefix`. -/
def jsonEntries (u : Uninit) (fuel : Nat) (dumpHistory : Bool) :
    List BgpUpdate → BgpCli → Checked (BgpCli × List Text)
  | [], b => .ok (b, [])
  | entry :: rest, b => do
      let (b, text) ← jsonEntry u fuel dumpHistory b entry
      let (b, texts) ← jsonEntries u fuel dumpHistory rest b
      pure (b, text :: texts)

/-- The entries whose range an address lies in. -/
def BgpCli.prefixMatches (b : BgpCli) (addr : UInt32) : List BgpUpdate :=
  b.entries.filter fun e =>
    memcmp e.nlri.pfx addr != .gt && memcmp e.nlri.prefixHighest addr != .lt

/-! ## Prefixes by origin AS -/

/-- `rfc_ips`. -/
def rfcIps : List (String × UInt8) := [("10.0.0.0", 8), ("172.16.0.0", 12), ("192.168.0.0", 16)]

/-- `is_rfc1918`. -/
def isRfc1918 (pfx : UInt32) : Checked Bool := do
  let blocks ← rfcIps.mapM fun rfc => do
    let addr := (aton rfc.1.toList).getD 0
    let range ← getIpv4HighRange addr rfc.2
    pure (addr, range)
  pure (blocks.any fun block => memcmp block.1 pfx != .gt && memcmp block.2 pfx != .lt)

/-- `seg_value[index]`. -/
def AsPathSegment.valueAt (s : AsPathSegment) (index : UInt8) : Checked UInt32 :=
  match s.asns[index.toNat]? with
  | some v => .ok v
  | none => .error (.read index.toNat)

/-- The kinds of prefixes that the three queries ask for. -/
inductive OriginQuery where
  | all | publicOnly | privateOnly
deriving DecidableEq, Repr

/-- The test that comes before the one of the length. -/
def OriginQuery.admits (query : OriginQuery) (pfx : UInt32) : Checked Bool :=
  match query with
  | .all => .ok true
  | .publicOnly => do
      let rfc ← isRfc1918 pfx
      pure !rfc
  | .privateOnly => isRfc1918 pfx

/-- The loop body of the three queries. -/
def originMatch (query : OriginQuery) (asn length : UInt32) (entry : BgpUpdate) :
    Checked (Option (UInt32 × UInt8)) := do
  match entry.asPath with
  | none => pure none
  | some s => do
      let len := s.segValue.length - 1
      let admitted ← query.admits entry.nlri.pfx
      if admitted ∧ entry.nlri.prefixLength.toUInt32 ≤ length then do
        let origin ← s.valueAt len
        pure (if origin = asn then some (entry.nlri.pfx, entry.nlri.prefixLength) else none)
      else pure none

/-- The matches of the three queries. -/
def originMatches (query : OriginQuery) (b : BgpCli) (asn length : UInt32) :
    Checked (List (UInt32 × UInt8)) := do
  let found ← b.entries.mapM (originMatch query asn length)
  pure (found.filterMap id)

end Log2Bgp
