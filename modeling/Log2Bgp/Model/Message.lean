import Log2Bgp.Lib.Bytes
import Log2Bgp.Lib.Checked

/-!
# Messages and routes

The data of `bgp_msg.h` and `bgp_msg_text.h`, and the queue entries of `bgp_peer.h`. Copying a
`bgp_update` copies what its pointers point to, so a copy is the same value here.
-/

namespace Log2Bgp

open Lib

/-- `time_t`. -/
abbrev TimeT := Int64

/-! ## Codes -/

/-- `bgp_msg_type`. A byte cast to it may lie outside the enumeration. -/
inductive BgpMsgType where
  | openMsg | update | notification | keepalive | routerefresh
  | other (code : UInt8)
deriving DecidableEq, Repr

def BgpMsgType.ofByte : UInt8 → BgpMsgType
  | 1 => .openMsg
  | 2 => .update
  | 3 => .notification
  | 4 => .keepalive
  | 5 => .routerefresh
  | code => .other code

def BgpMsgType.toByte : BgpMsgType → UInt8
  | .openMsg => 1
  | .update => 2
  | .notification => 3
  | .keepalive => 4
  | .routerefresh => 5
  | .other code => code

/-- `bgp_path_attrib`. -/
inductive BgpPathAttrib where
  | bgpId | origin | asPath | nextHop | multiExitDisc | localPref | atomicAggregate | aggregator
  | community | originator | clusterList | mpReachNlri | mpUnreachNlri | as4Path | as4Aggregator
  | other (code : UInt8)
deriving DecidableEq, Repr

def BgpPathAttrib.ofByte : UInt8 → BgpPathAttrib
  | 0x00 => .bgpId
  | 0x01 => .origin
  | 0x02 => .asPath
  | 0x03 => .nextHop
  | 0x04 => .multiExitDisc
  | 0x05 => .localPref
  | 0x06 => .atomicAggregate
  | 0x07 => .aggregator
  | 0x08 => .community
  | 0x09 => .originator
  | 0x0A => .clusterList
  | 0x0E => .mpReachNlri
  | 0x0F => .mpUnreachNlri
  | 0x11 => .as4Path
  | 0x12 => .as4Aggregator
  | code => .other code

/-- `bgp_error_code`. -/
inductive BgpErrorCode where
  | msgHeadErr | openMsgErr | updateMsgErr | holdTimeExpired | finiteStateMachErr | cease
  | other (code : UInt8)
deriving DecidableEq, Repr

def BgpErrorCode.ofByte : UInt8 → BgpErrorCode
  | 1 => .msgHeadErr
  | 2 => .openMsgErr
  | 3 => .updateMsgErr
  | 4 => .holdTimeExpired
  | 5 => .finiteStateMachErr
  | 6 => .cease
  | code => .other code

def BgpErrorCode.toByte : BgpErrorCode → UInt8
  | .msgHeadErr => 1
  | .openMsgErr => 2
  | .updateMsgErr => 3
  | .holdTimeExpired => 4
  | .finiteStateMachErr => 5
  | .cease => 6
  | .other code => code

/-- `bgp_open_error_subcode`, as far as the code sends it. -/
inductive BgpOpenErrorSubcode where
  | unsupVerNum | badPeerAs | badBgpId
deriving DecidableEq, Repr

def BgpOpenErrorSubcode.toByte : BgpOpenErrorSubcode → UInt8
  | .unsupVerNum => 1
  | .badPeerAs => 2
  | .badBgpId => 3

/-- `bgp_peer_state`. -/
inductive BgpPeerState where
  | idle | connect | active | opensent | openconfirm | established | deleted | clearing
deriving DecidableEq, Repr

/-! ## Texts of notifications. `none` is a null pointer -/

def bgpErrorCodes : List (Option String) :=
  [none, some "message header error, ", some "open message error, ",
    some "update message error, ", some "hold timer expired", some "finite state machine error",
    some "(cease)"]

def bgpErrorSubHeader : List (Option String) :=
  [none, some "connection not synchronized", some "bad message length", some "bad message type"]

def bgpErrorSubOpen : List (Option String) :=
  [none, some "unsupported version number", some "bad peer AS", some "bad BGP identifier",
    some "unsupported optional parameter", none, some "unacceptable hold-timer",
    some "unsupported capability"]

def bgpErrorSubUpdate : List (Option String) :=
  [none, some "malformed attribute list", some "unrecognized well-known attribute",
    some "missing well-known attribute", some "attribute flags error",
    some "attribute length error", some "invalid origin attribute", some "AS routing Loop",
    some "invalid NEXT_HOP attribute", some "optional attribute error",
    some "invalid network field", some "malformed AS_PATH"]

/-! ## Routes -/

/-- `as_path_segment`: `segValue` is `length` together with the array `seg_value`. -/
structure AsPathSegment where
  segType : UInt8
  segValue : Counted UInt32
deriving DecidableEq, Repr

/-- `aggregator_segment`. -/
structure AggregatorSegment where
  asn : UInt32
  origin : UInt32
deriving DecidableEq, Repr

/-- `community_segment`. -/
structure CommunitySegment where
  asn : UInt32
  value : UInt32
deriving DecidableEq, Repr

instance : Inhabited CommunitySegment := ⟨⟨0, 0⟩⟩

/-- `bgp_nlri`. Addresses are in network byte order, as they lie in memory. -/
structure BgpNlri where
  bgpId : UInt32 := 0
  pfx : UInt32 := 0
  prefixHighest : UInt32 := 0
  subnetMask : UInt32 := 0
  prefixLength : UInt8 := 0
  withdrawn : UInt16 := 0
  received : UInt16 := 0
  age : TimeT := 0
  lastWithdrawTime : TimeT := 0
deriving DecidableEq, Repr

/-- `prefix_entry`. -/
abbrev PrefixEntry := UInt32 × UInt32

/-- The key that a prefix is stored under. -/
def BgpNlri.entry (n : BgpNlri) : PrefixEntry := (n.pfx, n.bgpId)

/-- `bgp_update`. `community` is `com_seg_length` together with the array `community`. -/
@[ext] structure BgpUpdate where
  origin : UInt8 := 0
  asPath : Option AsPathSegment := none
  as4Path : Option AsPathSegment := none
  ipv4NextHop : UInt32 := 0
  med : UInt32 := 0
  localPref : UInt32 := 0
  atomicAggregate : Bool := false
  aggregator : Option AggregatorSegment := none
  as4Aggregator : Option AggregatorSegment := none
  community : Counted CommunitySegment := .empty
  addrFamily : UInt16 := 0
  addrFamilyId : UInt8 := 0
  nlri : BgpNlri := {}
deriving DecidableEq, Repr

/-- Where and when a message was received: the peer's place in `thread_q`, the number of its
connection and its state. Bookkeeping of the model that no function of the code reads. -/
structure Receipt where
  peer : Nat
  conn : Nat
  state : BgpPeerState
deriving DecidableEq, Repr

/-- A `bgp_update` in a queue or in the RIB, with the receipt of the message it came in. -/
structure Route where
  update : BgpUpdate
  receipt : Receipt
deriving DecidableEq, Repr

/-- `queue_data`: the first `length` bytes of the array `packet` of 4096 bytes. -/
structure QueueData where
  packet : List UInt8
  fits : packet.length ≤ 4096
  receipt : Receipt
deriving DecidableEq, Repr

/-- The two queues of the instance: updates for the RIB, and prefixes to be withdrawn. -/
@[ext] structure RibQueues where
  adjRibInQ : List Route := []
  adjRibInWdrawQ : List Route := []
deriving DecidableEq, Repr

def RibQueues.pushAdjRibInQ (q : RibQueues) (r : Route) : RibQueues :=
  { q with adjRibInQ := q.adjRibInQ ++ [r] }

def RibQueues.pushAdjRibInWdrawQ (q : RibQueues) (r : Route) : RibQueues :=
  { q with adjRibInWdrawQ := q.adjRibInWdrawQ ++ [r] }

end Log2Bgp
