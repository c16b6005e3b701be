import Log2Bgp.Lib.Calendar
import Log2Bgp.Model.Bgp
import Log2Bgp.Model.Command

/-!
# The configuration

What commands set: the peers with their aliases, the destinations of the syslog dumper and the
switches of the instance (`bgp_peer.cpp`, `bgp_thread-mgr.cpp`, `bgp_attrib_alias.cpp`,
`udp_sender.h`, `bgp.h`). A socket is always allocated.
-/

namespace Log2Bgp

open Lib

/-- Memory that is read before it is written: the address that a failed `inet_aton` leaves, the
`p_ip` of a new peer and the two bytes behind the argument `value` of `translate_community_value`. -/
structure Uninit where
  addr : UInt32 := 0
  pIp : Text := []
  behind : UInt16 := 0
deriving DecidableEq, Repr

/-! ## Aliases -/

def BgpPathAttrib.toByte : BgpPathAttrib → UInt8
  | .bgpId => 0x00
  | .origin => 0x01
  | .asPath => 0x02
  | .nextHop => 0x03
  | .multiExitDisc => 0x04
  | .localPref => 0x05
  | .atomicAggregate => 0x06
  | .aggregator => 0x07
  | .community => 0x08
  | .originator => 0x09
  | .clusterList => 0x0A
  | .mpReachNlri => 0x0E
  | .mpUnreachNlri => 0x0F
  | .as4Path => 0x11
  | .as4Aggregator => 0x12
  | .other code => code

/-- `translate_attribs_base`. -/
structure TranslateAttribsBase where
  code : BgpPathAttrib
  value : UInt32
  printableAttrib : Text
deriving DecidableEq, Repr

/-- `std::sort` with `alias_sort`, of which only the order of the codes is specified: entries with one
code may come in any order. -/
structure AliasSort where
  sort : List TranslateAttribsBase → List TranslateAttribsBase
  perm : ∀ xs, (sort xs).Perm xs
  sorted : ∀ xs, (sort xs).Pairwise fun a b => a.code.toByte ≤ b.code.toByte

instance : Std.Total fun a b : TranslateAttribsBase => a.code.toByte ≤ b.code.toByte :=
  ⟨fun _ _ => UInt8.le_total _ _⟩

instance : IsTrans TranslateAttribsBase fun a b => a.code.toByte ≤ b.code.toByte :=
  ⟨fun _ _ _ => UInt8.le_trans⟩

/-- The sort that keeps the order of entries with one code. -/
def AliasSort.stable : AliasSort where
  sort xs := xs.insertionSort fun a b => a.code.toByte ≤ b.code.toByte
  perm xs := List.perm_insertionSort _ xs
  sorted xs := List.pairwise_insertionSort _ xs

/-- The loop of `set_translation` that drops what an alias replaces. Its bound is the size before, and
an entry that is dropped moves the others up. -/
def eraseTranslations (code : BgpPathAttrib) (value : UInt32) :
    (passes i : Nat) → List TranslateAttribsBase → Checked (List TranslateAttribsBase)
  | 0, _, table => .ok table
  | passes + 1, i, table =>
      match table[i]? with
      | none => .error (.read i)
      | some a =>
          eraseTranslations code value passes (i + 1)
            (if a.code = code ∧ a.value = value then table.eraseIdx i else table)

/-! ## Peers -/

/-- `bgp_peer` with what commands set in it. `p_ip` has no default. -/
structure CliPeer extends BgpPeer where
  ipv4 : UInt32 := 0
  pIp : Text
  addrFamily : UInt16 := 0
  tcpRxSocketBufferSize : Int32 := 14600
  tcpTxSocketBufferSize : Int32 := 14600
  bgpTxBufferSize : Int32 := 4096
  bgpRxBufferSize : Int32 := 4096
  translateAttribs : List TranslateAttribsBase := []
  isAliasing : Bool := false
deriving DecidableEq, Repr

namespace CliPeer

/-- The copy constructor. -/
def copy (orig : CliPeer) : CliPeer :=
  { AS := orig.AS, addrFamily := orig.addrFamily, pIp := orig.pIp }

/-- `set_translation`. -/
def setTranslation (std : AliasSort) (p : CliPeer) (code : BgpPathAttrib) (matchValue : UInt32)
    (newValue : Text) : Checked CliPeer := do
  let table ← eraseTranslations code matchValue p.translateAttribs.length 0 p.translateAttribs
  pure { p with
    translateAttribs := std.sort (table ++ [⟨code, matchValue, newValue⟩])
    isAliasing := true }

end CliPeer

/-- `peer_exists` for a peer, from an index on. The counter has one byte: when it has gone through all
its values the loop goes on for ever. -/
def peerExistsFrom (threadQ : List CliPeer) (peer : CliPeer) : (passes : Nat) → (i : UInt8) → Checked Bool
  | 0, _ => .error .loop
  | passes + 1, i =>
      match threadQ[i.toNat]? with
      | none => .ok false
      | some q =>
          if peer.addrFamily = afInet ∧ q.ipv4 = peer.ipv4 then .ok true
          else peerExistsFrom threadQ peer passes (i + 1)

/-- `peer_exists` for a peer. -/
def peerExists (threadQ : List CliPeer) (peer : CliPeer) : Checked Bool :=
  peerExistsFrom threadQ peer 256 0

/-- A peer of `thread_q`, with a number that tells it from the others. -/
abbrev PeerT := CliPeer × Nat

/-- The loop of `delete_peer`, from an index on. An erased peer leaves its place to the next one, which
the loop has then gone past. A peer is freed with its place, if nothing else has a share in it, and the
message that is logged behind the erasure reads the address of the peer to delete. -/
def deletePeerFrom (shared : Bool) (peer : PeerT) : (passes : Nat) → (i : UInt8) → List PeerT → Checked (List PeerT)
  | 0, _, _ => .error .loop
  | passes + 1, i, threadQ =>
      match threadQ[i.toNat]? with
      | none => .ok threadQ
      | some q =>
          if q.1.bgpId = peer.1.bgpId then
            if q.2 = peer.2 ∧ ¬ shared then .error .null
            else deletePeerFrom shared peer passes (i + 1) (threadQ.eraseIdx i.toNat)
          else deletePeerFrom shared peer passes (i + 1) threadQ

/-! ## The syslog dumper -/

/-- `htons`, and `ntohs`, on a little-endian host. -/
def htons (v : UInt16) : UInt16 := (v <<< 8) ||| (v >>> 8)

@[inherit_doc htons] def ntohs (v : UInt16) : UInt16 := htons v

/-- `sockaddr_in`. -/
structure SockaddrIn where
  sinPort : UInt16 := 0
  sinAddr : UInt32 := 0
deriving DecidableEq, Repr

/-- `udp_sender`. -/
structure UdpSender where
  ipv4 : UInt32 := 0
  port : UInt16 := 0
  host : Text := []
  sequence : Int32 := 1000
  dest : SockaddrIn := {}
deriving DecidableEq, Repr

/-- `udp_sender::operator()`. -/
def UdpSender.call (s : UdpSender) (ipv4 : UInt32) (host : Text) (port : UInt16) : UdpSender :=
  { s with
    ipv4 := ipv4
    port := port
    host := host
    dest := { sinPort := htons port, sinAddr := (aton host).getD 0 } }

/-- `udp_destinations`. -/
abbrev UdpDestinations := Std.ExtTreeMap UInt32 UdpSender compare

/-- `add_dest_host`. -/
def UdpDestinations.addDestHost (m : UdpDestinations) (ipv4 : UInt32) (host : Text) (port : UInt16) :
    UdpDestinations :=
  m.insert ipv4 (((m[ipv4]?).getD {}).call ipv4 host port)

/-! ## The instance -/

/-- `BGP`, as far as its commands go. -/
structure BgpCli where
  AS : UInt16 := 0
  bgpId : UInt32 := 0
  bIp : Text := []
  dumperOnOff : Bool := false
  stopAndExitInstance : Bool := false
  threadQ : List CliPeer := []
  dumper : UdpDestinations := ∅
  adjRibIn : BgpAdjRib := ∅
  db : BgpDatabase := BgpDatabase.dbOpen {}
  config : Option Text := none

namespace BgpCli

/-- `init_BGP`. -/
def initBgp (asn : UInt16) : BgpCli := { AS := asn }

/-- `set_id`. -/
def setId (b : BgpCli) (addr : UInt32) : BgpCli := { b with bgpId := addr, bIp := ntoa addr }

/-- `start_peer`. -/
def startPeer (b : BgpCli) (params : CliPeer) : BgpCli := { b with threadQ := b.threadQ ++ [params.copy] }

/-- `get_peer_by_str_ip`: the place of the first peer with an address. -/
def getPeerByStrIp (b : BgpCli) (ip : Text) : Option Nat :=
  if ip = [] then none else b.threadQ.findIdx? (·.pIp = ip)

/-- `get_peer_by_uint32_t_bgp_id`. -/
def getPeerByUint32tBgpId (b : BgpCli) (bgpId : UInt32) : Option CliPeer :=
  b.threadQ.find? (·.bgpId = bgpId)

/-- `peer_doing_alias`, which asks the first peer whatever the identifier is. -/
def peerDoingAlias (b : BgpCli) (_bgpId : UInt32) : Bool :=
  match b.threadQ with
  | [] => false
  | p :: _ => p.isAliasing

/-- Changes one peer. -/
def modifyPeer (b : BgpCli) (i : Nat) (f : CliPeer → CliPeer) : BgpCli :=
  { b with threadQ := b.threadQ.modify i f }

/-! ## Translation -/

/-- The label of a value, where its peer has one and the first peer has aliases. -/
def label (b : BgpCli) (bgpId : UInt32) (fits : TranslateAttribsBase → Bool) : Option Text :=
  if b.peerDoingAlias bgpId then
    (b.getPeerByUint32tBgpId bgpId).bind fun p =>
      (p.translateAttribs.find? fits).map TranslateAttribsBase.printableAttrib
  else none

/-- The label of a value of an attribute. -/
def labelOf (b : BgpCli) (bgpId : UInt32) (code : BgpPathAttrib) (value : UInt32) : Option Text :=
  b.label bgpId fun a => a.code = code && a.value = value

def translateBgpId (b : BgpCli) (bgpId : UInt32) : Text :=
  (b.label bgpId fun a => a.code = .bgpId).getD (ntoa bgpId)

/-- The table of `translate_origin`. -/
def bgpOriginCodeString : List String := ["igp", "egp", "incomplete"]

/-- Labels of origins are not looked for. -/
def translateOrigin (_b : BgpCli) (_bgpId : UInt32) (origin : UInt8) : Checked Text :=
  match bgpOriginCodeString[origin.toNat]? with
  | some s => .ok s.toList
  | none => .error (.lookup origin.toNat)

/-- The label comes behind the number. -/
def translateAsPath (b : BgpCli) (bgpId asPath : UInt32) : Text :=
  decimal asPath.toNat ++ (b.labelOf bgpId .asPath asPath).getD []

def translateIpv4NextHop (b : BgpCli) (bgpId nextHop : UInt32) : Text :=
  (b.labelOf bgpId .nextHop nextHop).getD (ntoa nextHop)

def translateMed (b : BgpCli) (bgpId med : UInt32) : Text :=
  (b.labelOf bgpId .multiExitDisc med).getD (decimal med.toNat)

def translateLocalPref (b : BgpCli) (bgpId localPref : UInt32) : Text :=
  (b.labelOf bgpId .localPref localPref).getD (decimal localPref.toNat)

/-- The label comes behind the address. -/
def translateAggregator (b : BgpCli) (bgpId aggrSeg : UInt32) : Text :=
  ntoa aggrSeg ++ (b.labelOf bgpId .aggregator aggrSeg).getD []

/-- Four bytes are compared of a value of two. -/
def translateCommunityValue (u : Uninit) (b : BgpCli) (bgpId : UInt32) (value : UInt16) : Text :=
  (b.labelOf bgpId .community (value.toUInt32 ||| (u.behind.toUInt32 <<< 16))).getD
    (decimal value.toNat)

end BgpCli

end Log2Bgp
