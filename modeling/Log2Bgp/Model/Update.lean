import Log2Bgp.Model.Session

/-!
# UPDATE messages

The parsing of queued UPDATE messages into the two queues of the instance (`bgp_update.cpp`).
-/

namespace Log2Bgp

open Lib

/-! ## Attributes with a structure of their own -/

/-- The four bytes behind an index, as a big-endian number. -/
def readWord (packet : List UInt8) (i : Nat) : Checked UInt32 := do
  let a ← readByte packet (i + 1)
  let b ← readByte packet (i + 2)
  let c ← readByte packet (i + 3)
  let d ← readByte packet (i + 4)
  pure (be32 a b c d)

/-- The two bytes behind an index, as a big-endian number. -/
def readHalf (packet : List UInt8) (i : Nat) : Checked UInt32 := do
  let hi ← readByte packet (i + 1)
  let lo ← readByte packet (i + 2)
  pure (be16 hi lo).toUInt32

/-- One element of a community attribute. -/
def readCommunity (packet : List UInt8) (i : Nat) : Checked CommunitySegment := do
  let asn ← readHalf packet i
  let value ← readHalf packet (i + 2)
  pure ⟨asn, value⟩

/-- `parse_community`. The `memset` clears one element of the new array. -/
def parseCommunity (offset : Nat) (length : UInt8) (update : BgpUpdate) (packet : List UInt8) :
    Checked BgpUpdate := do
  let count := length / 4
  if count = 0 then .error (.write 0 0)
  else
    let community ← fillArray 4 (readCommunity packet) count offset
    pure { update with community := community }

/-- A segment of an AS path: its type, the number of ASNs and the ASNs, each of `width` bytes. -/
def parseSegment (width : Nat) (asn : Nat → Checked UInt32) (offset : Nat) (packet : List UInt8) :
    Checked AsPathSegment := do
  let segType ← readByte packet (offset + 1)
  let length ← readByte packet (offset + 2)
  let segValue ← fillArray width asn length (offset + 2)
  pure ⟨segType, segValue⟩

/-- `parse_as_path`. -/
def parseAsPath (offset : Nat) (update : BgpUpdate) (packet : List UInt8) : Checked BgpUpdate := do
  let segment ← parseSegment 2 (readHalf packet) offset packet
  pure { update with asPath := some segment }

/-- `parse_as4_path`. -/
def parseAs4Path (offset : Nat) (update : BgpUpdate) (packet : List UInt8) : Checked BgpUpdate := do
  let segment ← parseSegment 4 (readWord packet) offset packet
  pure { update with as4Path := some segment }

/-! ## The attribute walk of `proc_in_q` -/

/-- `bgp_attribute`. -/
structure BgpAttribute where
  flags : UInt8
  typeCode : BgpPathAttrib
  length : UInt8
deriving DecidableEq, Repr

/-- The variables of the walk: `update`, `i` and `read_len`. -/
structure Walk where
  update : BgpUpdate
  i : Nat
  readLen : UInt16
deriving DecidableEq, Repr

/-- `i += n; read_len += n`. -/
def Walk.advance (w : Walk) (n : UInt8) : Walk :=
  { w with i := w.i + n.toNat, readLen := w.readLen + n.toUInt16 }

/-- `switch (attrib.type_code)`. -/
def attribSwitch (packet : List UInt8) (attrib : BgpAttribute) (w : Walk) : Checked Walk :=
  match attrib.typeCode with
  | .origin =>
      if attrib.length = 0 then .ok w
      else do
        let origin ← readByte packet (w.i + 1)
        pure { update := { w.update with origin := origin }, i := w.i + 1, readLen := w.readLen + 1 }
  | .asPath =>
      if attrib.length = 0 then .ok w
      else do
        let update ← parseAsPath w.i w.update packet
        pure ({ w with update := update }.advance attrib.length)
  | .nextHop =>
      if attrib.length = 0 then .ok w
      else do
        let bytes ← copyBytes packet (w.i + 1) attrib.length.toNat 4
        let update := { w.update with ipv4NextHop := overlay w.update.ipv4NextHop bytes }
        pure ({ w with update := update }.advance attrib.length)
  | .multiExitDisc =>
      if attrib.length = 0 then .ok w
      else do
        let med ← readWord packet w.i
        pure ({ w with update := { w.update with med := med } }.advance attrib.length)
  | .localPref =>
      if attrib.length = 0 then .ok w
      else do
        let localPref ← readWord packet w.i
        pure ({ w with update := { w.update with localPref := localPref } }.advance attrib.length)
  | .atomicAggregate => .ok { w with update := { w.update with atomicAggregate := true } }
  | .aggregator =>
      if attrib.length = 0 then .ok w
      else do
        let asn ← readHalf packet w.i
        let bytes ← copyBytes packet (w.i + 3) ((attrib.length.toNat : Int) - 2) 4
        let aggregator : AggregatorSegment := ⟨asn, overlay 0 bytes⟩
        pure ({ w with update := { w.update with aggregator := some aggregator } }.advance attrib.length)
  | .community =>
      if attrib.length = 0 then .ok w
      else do
        let update ← parseCommunity w.i attrib.length w.update packet
        pure ({ w with update := update }.advance attrib.length)
  | .originator | .clusterList | .mpReachNlri | .mpUnreachNlri =>
      if attrib.length = 0 then .ok w else .ok (w.advance attrib.length)
  | .as4Path =>
      if attrib.length = 0 then .ok w
      else do
        let update ← parseAs4Path w.i w.update packet
        pure ({ w with update := update }.advance attrib.length)
  | .as4Aggregator =>
      if attrib.length = 0 then .ok w
      else do
        let asn ← readWord packet w.i
        let bytes ← copyBytes packet (w.i + 5) ((attrib.length.toNat : Int) - 4) 4
        let aggregator : AggregatorSegment := ⟨asn, overlay 0 bytes⟩
        pure ({ w with update := { w.update with as4Aggregator := some aggregator } }.advance
          attrib.length)
  | .bgpId | .other _ => .ok (w.advance attrib.length)

/-- `for (; read_len < path_attrib_len;)`, for at most `fuel` attributes. -/
def attribLoop (packet : List UInt8) (pathAttribLen : UInt16) : (fuel : Nat) → Walk → Checked Walk
  | 0, _ => .error .loop
  | fuel + 1, w =>
      if w.readLen < pathAttribLen then do
        let flags ← readByte packet (w.i + 1)
        let code ← readByte packet (w.i + 2)
        let length ← readByte packet (w.i + 3)
        let w ← attribSwitch packet ⟨flags, .ofByte code, length⟩
          { w with i := w.i + 3, readLen := w.readLen + 3 }
        attribLoop packet pathAttribLen fuel w
      else .ok w

/-! ## Prefixes -/

/-- `get_ipv4_high_range`. A shift by less than 0 or more than 31 bits is undefined. -/
def getIpv4HighRange (pfx : UInt32) (length : UInt8) : Checked UInt32 :=
  let amount : Int := 32 - length.toNat
  if 0 ≤ amount ∧ amount < 32 then
    let netMask : UInt32 := 0xFFFFFFFF <<< UInt32.ofNat amount.toNat
    .ok (htonl (ntohl pfx ||| ~~~ netMask))
  else .error (.shift amount)

/-- `nlri_parse`. -/
inductive NlriParse where
  | update | withdraw
deriving DecidableEq, Repr

/-- Number of bytes of a prefix: `length / 8`, and one more where `length % 8` is not 0. -/
def byteLength (length : UInt8) : Nat :=
  if length.toNat % 8 ≠ 0 then length.toNat / 8 + 1 else length.toNat / 8

/-- What `parse_nlri` is called for: the flag, the time, the peer's identifier and the receipt of
the message. -/
structure NlriContext where
  flag : NlriParse
  now : TimeT
  bgpId : UInt32
  receipt : Receipt
deriving DecidableEq, Repr

/-- The `bgp_nlri` of a prefix in a message. -/
def NlriContext.nlri (c : NlriContext) (length : UInt8) (bytes : List UInt8) (highest : UInt32) :
    BgpNlri :=
  { bgpId := c.bgpId
    pfx := overlay 0 bytes
    prefixHighest := highest
    prefixLength := length
    age := if c.flag = .update then c.now else 0
    lastWithdrawTime := if c.flag = .withdraw then c.now else 0 }

/-- Pushes to the queue that the flag names. -/
def NlriContext.push (c : NlriContext) (update : BgpUpdate) (q : RibQueues) : RibQueues :=
  match c.flag with
  | .update => q.pushAdjRibInQ ⟨update, c.receipt⟩
  | .withdraw => q.pushAdjRibInWdrawQ ⟨update, c.receipt⟩

/-- `parse_nlri`, for at most `fuel` prefixes. -/
def parseNlri (c : NlriContext) (update : BgpUpdate) (packet : List UInt8) :
    (fuel offset : Nat) → RibQueues → Checked RibQueues
  | 0, _, _ => .error .loop
  | fuel + 1, offset, q => do
      let length ← readByte packet offset
      if length = 0 then .ok q
      else
        let bytes ← copyBytes packet (offset + 1) (byteLength length) 4
        let highest ← getIpv4HighRange (overlay 0 bytes) length
        let update := { update with nlri := c.nlri length bytes highest }
        parseNlri c update packet fuel (offset + 1 + byteLength length) (c.push update q)

/-! ## `proc_in_q` -/

/-- `AF_INET`. -/
def afInet : UInt16 := 2

/-- The body of the loop of `proc_in_q`: one message of the queue. Every prefix and every attribute
takes bytes of the packet, which bounds the two loops. -/
def procMessage (now : TimeT) (bgpId : UInt32) (data : QueueData) (q : RibQueues) :
    Checked RibQueues := do
  let packet := data.packet ++ List.replicate 5 0
  let fuel := packet.length + 1
  let unfeasableHigh ← readByte packet 0
  let unfeasableLow ← readByte packet 1
  if be16 unfeasableHigh unfeasableLow ≠ 0 then
    parseNlri ⟨.withdraw, now, bgpId, data.receipt⟩ {} packet fuel 2 q
  else
    let lenHigh ← readByte packet 2
    let lenLow ← readByte packet 3
    let pathAttribLen := be16 lenHigh lenLow
    let w ← attribLoop packet pathAttribLen fuel { update := {}, i := 3, readLen := 0 }
    let update := { w.update with addrFamily := afInet }
    parseNlri ⟨.update, now, bgpId, data.receipt⟩ update packet fuel (pathAttribLen.toNat + 4) q

/-- `while (!peer->in_queue.empty())`. -/
def procMessages (now : TimeT) (bgpId : UInt32) : List QueueData → RibQueues → Checked RibQueues
  | [], q => .ok q
  | data :: rest, q => do
      let q ← procMessage now bgpId data q
      procMessages now bgpId rest q

/-- `proc_in_q`. -/
def procInQ (now : TimeT) (p : BgpPeer) (q : RibQueues) : Checked (BgpPeer × RibQueues) :=
  let (expired, p) := holdTimerExpired p now
  if expired then .ok (p, q)
  else do
    let q ← procMessages now p.bgpId p.inQueue q
    pure ({ p with inQueue := [], inQ := p.inQ - UInt16.ofNat p.inQueue.length }, q)

end Log2Bgp
