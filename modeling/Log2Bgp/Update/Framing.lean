import Log2Bgp.Model.Update

/-!
# Framed UPDATE bodies

Which bytes of an UPDATE the lengths in it must leave in reach, type by type. Nothing here says
what the bytes mean.
-/

namespace Log2Bgp

open Lib

/-! ## Attributes -/

/-- A segment of an AS path: the bytes of its ASNs end within the packet. -/
def SegmentFramed (packet : List UInt8) (width start : Nat) : Prop :=
  ∃ count, packet[start + 1]? = some count ∧ start + 2 + width * count.toNat ≤ packet.length

/-- What the value of an attribute at `start` needs, by its type and its length byte. -/
def ValueFramed (packet : List UInt8) (type : BgpPathAttrib) (length : UInt8) (start : Nat) : Prop :=
  length ≠ 0 →
    match type with
    | .origin => start + 1 ≤ packet.length
    | .asPath => SegmentFramed packet 2 start
    | .nextHop => length.toNat ≤ 4 ∧ start + length.toNat ≤ packet.length
    | .multiExitDisc | .localPref => start + 4 ≤ packet.length
    | .aggregator => 2 ≤ length.toNat ∧ length.toNat ≤ 6 ∧ start + length.toNat ≤ packet.length
    | .community => 4 ≤ length.toNat ∧ start + 4 * (length.toNat / 4) ≤ packet.length
    | .as4Path => SegmentFramed packet 4 start
    | .as4Aggregator => 4 ≤ length.toNat ∧ length.toNat ≤ 8 ∧ start + length.toNat ≤ packet.length
    | _ => True

/-- How far the walk moves over a value: one byte over an ORIGIN, none over an ATOMIC_AGGREGATE. -/
def valueSize (type : BgpPathAttrib) (length : UInt8) : UInt8 :=
  match type with
  | .origin => if length = 0 then 0 else 1
  | .atomicAggregate => 0
  | _ => length

/-- Attributes from byte `4 + n` on, up to the first that ends at or behind `pathAttribLen`. -/
inductive AttribsFramed (packet : List UInt8) (pathAttribLen : Nat) : (n : Nat) → Prop where
  | stop {n : Nat} : pathAttribLen ≤ n → AttribsFramed packet pathAttribLen n
  | attrib {n : Nat} {code length : UInt8} :
      n < pathAttribLen → packet[n + 5]? = some code → packet[n + 6]? = some length →
      ValueFramed packet (.ofByte code) length (n + 7) →
      AttribsFramed packet pathAttribLen (n + 3 + (valueSize (.ofByte code) length).toNat) →
      AttribsFramed packet pathAttribLen n

/-! ## Prefixes -/

/-- Prefixes from a byte on, up to a length byte of 0. -/
inductive PrefixesFramed (packet : List UInt8) : (offset : Nat) → Prop where
  | stop {offset : Nat} : packet[offset]? = some 0 → PrefixesFramed packet offset
  | next {offset : Nat} {length : UInt8} :
      packet[offset]? = some length → length ≠ 0 → length.toNat ≤ 32 →
      offset + 1 + byteLength length ≤ packet.length →
      PrefixesFramed packet (offset + 1 + byteLength length) → PrefixesFramed packet offset

/-! ## Bodies -/

/-- Two bytes as a big-endian number. Bytes that are not there count as 0. -/
def halfAt (packet : List UInt8) (i : Nat) : UInt16 := be16 (packet.getD i 0) (packet.getD (i + 1) 0)

/-- The lengths in a body, and in the five zero bytes behind it, keep to what is there. -/
def Framed (body : List UInt8) : Prop :=
  let packet := body ++ List.replicate 5 0
  if halfAt packet 0 ≠ 0 then PrefixesFramed packet 2
  else
    AttribsFramed packet (halfAt packet 2).toNat 0 ∧
      PrefixesFramed packet ((halfAt packet 2).toNat + 4)

end Log2Bgp
