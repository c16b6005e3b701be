import Log2Bgp.Model.Update

/-!
# Well-formed UPDATE bodies

What an UPDATE says, apart from how it is parsed: its withdrawn prefixes, its attributes and its
prefixes, the bytes they are sent as, and the routes they stand for.
-/

namespace Log2Bgp

open Lib

/-! ## Prefixes -/

/-- A prefix of 1 to 32 bits in its encoding. -/
structure WirePrefix where
  length : UInt8
  addr : List UInt8
  length_pos : length ≠ 0
  length_le : length.toNat ≤ 32
  sized : addr.length = byteLength length
deriving DecidableEq, Repr

namespace WirePrefix

def encode (p : WirePrefix) : List UInt8 := p.length :: p.addr

/-- The address with the bytes that are not sent filled with zero. -/
def network (p : WirePrefix) : UInt32 := overlay 0 p.addr

/-- The address with every bit past the prefix length set. -/
def highest (p : WirePrefix) : UInt32 :=
  htonl (ntohl p.network ||| UInt32.ofNat (2 ^ (32 - p.length.toNat) - 1))

/-- Every bit past the prefix length is zero. -/
def Canonical (p : WirePrefix) : Prop := (ntohl p.network).toNat % 2 ^ (32 - p.length.toNat) = 0

instance (p : WirePrefix) : Decidable p.Canonical := inferInstanceAs (Decidable (_ = _))

end WirePrefix

/-! ## Attributes -/

/-- The value of an attribute. An AS path is a list of segments, of which the first one is stored. -/
inductive WireAttr where
  | origin (value : UInt8)
  | asPath (segments : List (UInt8 × Counted UInt16))
  | nextHop (addr : UInt32)
  | med (value : UInt32)
  | localPref (value : UInt32)
  | atomicAggregate
  | aggregator (asn : UInt16) (origin : UInt32)
  | community (values : Counted (UInt16 × UInt16))
  | as4Path (segments : List (UInt8 × Counted UInt32))
  | as4Aggregator (asn : UInt32) (origin : UInt32)
  | other (code : UInt8) (value : List UInt8)
deriving DecidableEq, Repr

namespace WireAttr

/-- The type codes whose values the code stores. -/
def storedCodes : List UInt8 := [1, 2, 3, 4, 5, 6, 7, 8, 0x11, 0x12]

def code : WireAttr → UInt8
  | origin _ => 1
  | asPath _ => 2
  | nextHop _ => 3
  | med _ => 4
  | localPref _ => 5
  | atomicAggregate => 6
  | aggregator _ _ => 7
  | community _ => 8
  | as4Path _ => 0x11
  | as4Aggregator _ _ => 0x12
  | other code _ => code

def half (v : UInt16) : List UInt8 := beBytes 2 v.toNat

def word (v : UInt32) : List UInt8 := beBytes 4 v.toNat

/-- A segment: its type, the number of its ASNs, and the ASNs. -/
def segment {α : Type} (asn : α → List UInt8) (s : UInt8 × Counted α) : List UInt8 :=
  s.1 :: s.2.length :: s.2.elems.flatMap asn

/-- The bytes of the value. Addresses are sent as they lie in memory. -/
def payload : WireAttr → List UInt8
  | origin v => [v]
  | asPath segments => segments.flatMap (segment half)
  | nextHop addr => memBytes addr
  | med v => word v
  | localPref v => word v
  | atomicAggregate => []
  | aggregator asn addr => half asn ++ memBytes addr
  | community values => values.elems.flatMap fun v => half v.1 ++ half v.2
  | as4Path segments => segments.flatMap (segment word)
  | as4Aggregator asn addr => word asn ++ memBytes addr
  | other _ bytes => bytes

/-- The value fits a one-byte length, and is one of the kind its code says. -/
def Fits (a : WireAttr) : Prop :=
  a.payload.length ≤ 255 ∧
    match a with
    | community values => values.length ≠ 0
    | other code _ => code ∉ storedCodes
    | _ => True

instance (a : WireAttr) : Decidable a.Fits := by
  unfold Fits
  cases a <;> infer_instance

/-! What an attribute says about each field of a `bgp_update`. -/

def origin? : WireAttr → Option UInt8
  | origin v => some v
  | _ => none

def asPath? : WireAttr → Option AsPathSegment
  | asPath ((t, asns) :: _) => some ⟨t, asns.map UInt16.toUInt32⟩
  | _ => none

def nextHop? : WireAttr → Option UInt32
  | nextHop addr => some addr
  | _ => none

def med? : WireAttr → Option UInt32
  | med v => some v
  | _ => none

def localPref? : WireAttr → Option UInt32
  | localPref v => some v
  | _ => none

def atomicAggregate? : WireAttr → Option Bool
  | atomicAggregate => some true
  | _ => none

def aggregator? : WireAttr → Option AggregatorSegment
  | aggregator asn addr => some ⟨asn.toUInt32, addr⟩
  | _ => none

def community? : WireAttr → Option (Counted CommunitySegment)
  | community values => some (values.map fun v => ⟨v.1.toUInt32, v.2.toUInt32⟩)
  | _ => none

def as4Path? : WireAttr → Option AsPathSegment
  | as4Path ((t, asns) :: _) => some ⟨t, asns⟩
  | _ => none

def as4Aggregator? : WireAttr → Option AggregatorSegment
  | as4Aggregator asn addr => some ⟨asn, addr⟩
  | _ => none

end WireAttr

/-- An attribute with its flags, and a length of one byte. -/
structure PathAttribute where
  flags : UInt8
  value : WireAttr
  fits : value.Fits
deriving DecidableEq

namespace PathAttribute

def code (a : PathAttribute) : UInt8 := a.value.code

def encode (a : PathAttribute) : List UInt8 :=
  a.flags :: a.code :: UInt8.ofNat a.value.payload.length :: a.value.payload

end PathAttribute

/-- The `bgp_update` that carries the values of a list of attributes, and the default of each field
that no attribute speaks of. -/
def carried (as : List PathAttribute) : BgpUpdate :=
  { origin := (as.findSome? (·.value.origin?)).getD 0
    asPath := as.findSome? (·.value.asPath?)
    as4Path := as.findSome? (·.value.as4Path?)
    ipv4NextHop := (as.findSome? (·.value.nextHop?)).getD 0
    med := (as.findSome? (·.value.med?)).getD 0
    localPref := (as.findSome? (·.value.localPref?)).getD 0
    atomicAggregate := (as.findSome? (·.value.atomicAggregate?)).getD false
    aggregator := as.findSome? (·.value.aggregator?)
    as4Aggregator := as.findSome? (·.value.as4Aggregator?)
    community := (as.findSome? (·.value.community?)).getD .empty
    addrFamily := afInet }

/-! ## Bodies -/

/-- The body of an UPDATE: withdrawn routes, attributes of distinct types, and prefixes. -/
structure UpdateBody where
  withdrawn : List WirePrefix
  attribs : List PathAttribute
  nlri : List WirePrefix
  distinct : (attribs.map PathAttribute.code).Nodup
  fits : 4 + (withdrawn.flatMap WirePrefix.encode).length +
    (attribs.flatMap PathAttribute.encode).length + (nlri.flatMap WirePrefix.encode).length ≤ 4096
deriving DecidableEq

namespace UpdateBody

/-- The bytes of the withdrawn routes. -/
def withdrawnBytes (b : UpdateBody) : List UInt8 := b.withdrawn.flatMap WirePrefix.encode

/-- The bytes of the attributes. -/
def attribBytes (b : UpdateBody) : List UInt8 := b.attribs.flatMap PathAttribute.encode

/-- The bytes of the prefixes. -/
def nlriBytes (b : UpdateBody) : List UInt8 := b.nlri.flatMap WirePrefix.encode

def encode (b : UpdateBody) : List UInt8 :=
  beBytes 2 b.withdrawnBytes.length ++ b.withdrawnBytes ++
    beBytes 2 b.attribBytes.length ++ b.attribBytes ++ b.nlriBytes

theorem length_encode (b : UpdateBody) : b.encode.length =
    4 + b.withdrawnBytes.length + b.attribBytes.length + b.nlriBytes.length := by
  simp only [encode, List.length_append, length_beBytes]
  omega

/-- The body as it is queued. -/
def queued (b : UpdateBody) (receipt : Receipt) : QueueData :=
  ⟨b.encode, b.length_encode ▸ b.fits, receipt⟩

/-- The `bgp_nlri` of a prefix that `peer` sent. -/
def nlriOf (c : NlriContext) (p : WirePrefix) : BgpNlri :=
  { bgpId := c.bgpId
    pfx := p.network
    prefixHighest := p.highest
    prefixLength := p.length
    age := if c.flag = .update then c.now else 0
    lastWithdrawTime := if c.flag = .withdraw then c.now else 0 }

/-- The routes a body announces: one for each prefix, each with all attributes. -/
def announced (b : UpdateBody) (now : TimeT) (bgpId : UInt32) (receipt : Receipt) : List Route :=
  b.nlri.map fun p =>
    ⟨{ carried b.attribs with nlri := nlriOf ⟨.update, now, bgpId, receipt⟩ p }, receipt⟩

/-- The prefixes a body withdraws. -/
def withdrawals (b : UpdateBody) (now : TimeT) (bgpId : UInt32) (receipt : Receipt) : List Route :=
  b.withdrawn.map fun p =>
    ⟨{ nlri := nlriOf ⟨.withdraw, now, bgpId, receipt⟩ p }, receipt⟩

end UpdateBody

namespace Example

/-- 10.0.0.0/8. -/
def net10 : WirePrefix := ⟨8, [10], by decide, by decide, by decide⟩

end Example

end Log2Bgp
