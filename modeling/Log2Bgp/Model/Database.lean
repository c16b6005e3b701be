import Log2Bgp.Lib.Lists
import Log2Bgp.Lib.Stream
import Log2Bgp.Model.Message

/-!
# The history of replaced routes

Records of updates in a file, found through an index in memory (`bgp_database.h`,
`bgp_database.cpp`).
-/

namespace Log2Bgp

open Lib
open Fstream (readPod readCounted)

/-- `dbase_attrib`. -/
inductive DbaseAttrib where
  | origin | asPath | nextHop | multiExitDisc | localPref | atomicAggregate | aggregator | community
  | originator | clusterList | mpReachNlri | mpUnreachNlri | as4Path | as4Aggregator | addrFamily
  | addrFamilyId | nlri | endOfRecord
deriving DecidableEq, Repr

def DbaseAttrib.toWord : DbaseAttrib → UInt32
  | .origin => 0xFFFFFF01
  | .asPath => 0xFFFFFF02
  | .nextHop => 0xFFFFFF03
  | .multiExitDisc => 0xFFFFFF04
  | .localPref => 0xFFFFFF05
  | .atomicAggregate => 0xFFFFFF06
  | .aggregator => 0xFFFFFF07
  | .community => 0xFFFFFF08
  | .originator => 0xFFFFFF09
  | .clusterList => 0xFFFFFF0A
  | .mpReachNlri => 0xFFFFFF0E
  | .mpUnreachNlri => 0xFFFFFF0F
  | .as4Path => 0xFFFFFF11
  | .as4Aggregator => 0xFFFFFF12
  | .addrFamily => 0xFFFFFF13
  | .addrFamilyId => 0xFFFFFF14
  | .nlri => 0xFFFFFF15
  | .endOfRecord => 0xFFFFFFFF

/-- All markers, in the order of their codes. -/
def DbaseAttrib.all : List DbaseAttrib :=
  [.origin, .asPath, .nextHop, .multiExitDisc, .localPref, .atomicAggregate, .aggregator, .community,
    .originator, .clusterList, .mpReachNlri, .mpUnreachNlri, .as4Path, .as4Aggregator, .addrFamily,
    .addrFamilyId, .nlri, .endOfRecord]

/-- The marker with a code, if there is one. -/
def DbaseAttrib.ofWord (code : UInt32) : Option DbaseAttrib :=
  DbaseAttrib.all.find? (·.toWord = code)

/-! ## Records -/

/-- A marker and what follows it. -/
def dbaseField (a : DbaseAttrib) (value : List UInt8) : List UInt8 := Pod.bytes a.toWord ++ value

/-- A field that is written only where there is a value. -/
def dbaseOption {α : Type} (a : DbaseAttrib) (enc : α → List UInt8) : Option α → List UInt8
  | none => []
  | some v => dbaseField a (enc v)

def AggregatorSegment.bytes (a : AggregatorSegment) : List UInt8 :=
  Pod.bytes a.asn ++ Pod.bytes a.origin

def AsPathSegment.bytes (s : AsPathSegment) : List UInt8 :=
  Pod.bytes s.segValue.length ++ (Pod.bytes s.segType ++ s.segValue.elems.flatMap Pod.bytes)

def CommunitySegment.bytes (c : CommunitySegment) : List UInt8 :=
  Pod.bytes c.asn ++ Pod.bytes c.value

/-- A community is written with its length in front of it. -/
def communityBytes (c : Counted CommunitySegment) : List UInt8 :=
  Pod.bytes c.length ++ c.elems.flatMap CommunitySegment.bytes

def BgpNlri.bytes (n : BgpNlri) : List UInt8 :=
  Pod.bytes n.age ++ (Pod.bytes n.bgpId ++ (Pod.bytes n.lastWithdrawTime ++ (Pod.bytes n.pfx ++
    (Pod.bytes n.prefixHighest ++ (Pod.bytes n.prefixLength ++ (Pod.bytes n.received ++
      (Pod.bytes n.subnetMask ++ Pod.bytes n.withdrawn)))))))

/-- What `db_insert` writes. A null `community` is the empty one here. -/
def record (u : BgpUpdate) : List UInt8 :=
  dbaseField .addrFamily (Pod.bytes u.addrFamily) ++
    (dbaseField .addrFamilyId (Pod.bytes u.addrFamilyId) ++
    (dbaseOption .aggregator AggregatorSegment.bytes u.aggregator ++
    (dbaseOption .as4Aggregator AggregatorSegment.bytes u.as4Aggregator ++
    (dbaseOption .as4Path AsPathSegment.bytes u.as4Path ++
    (dbaseOption .asPath AsPathSegment.bytes u.asPath ++
    ((if u.atomicAggregate then dbaseField .atomicAggregate [] else []) ++
    ((if u.community = .empty then [] else dbaseField .community (communityBytes u.community)) ++
    (dbaseField .nextHop (Pod.bytes u.ipv4NextHop) ++
    (dbaseField .localPref (Pod.bytes u.localPref) ++
    (dbaseField .multiExitDisc (Pod.bytes u.med) ++
    (dbaseField .nlri u.nlri.bytes ++
    (dbaseField .origin (Pod.bytes u.origin) ++
    dbaseField .endOfRecord []))))))))))))

/-! ## Reading a record. New segments count as zero where a read falls short. -/

def readAggregator : StateM Fstream AggregatorSegment := do
  let asn ← readPod (0 : UInt32)
  let origin ← readPod (0 : UInt32)
  pure ⟨asn, origin⟩

def readSegment : StateM Fstream AsPathSegment := do
  let length ← readPod (0 : UInt8)
  let segType ← readPod (0 : UInt8)
  let segValue ← readCounted (readPod (0 : UInt32)) length
  pure ⟨segType, segValue⟩

def readCommunitySegment : StateM Fstream CommunitySegment := do
  let asn ← readPod (0 : UInt32)
  let value ← readPod (0 : UInt32)
  pure ⟨asn, value⟩

def readCommunities (old : Counted CommunitySegment) : StateM Fstream (Counted CommunitySegment) := do
  let length ← readPod old.length
  readCounted readCommunitySegment length

def readNlri (old : BgpNlri) : StateM Fstream BgpNlri := do
  let age ← readPod old.age
  let bgpId ← readPod old.bgpId
  let lastWithdrawTime ← readPod old.lastWithdrawTime
  let pfx ← readPod old.pfx
  let prefixHighest ← readPod old.prefixHighest
  let prefixLength ← readPod old.prefixLength
  let received ← readPod old.received
  let subnetMask ← readPod old.subnetMask
  let withdrawn ← readPod old.withdrawn
  pure { bgpId, pfx, prefixHighest, subnetMask, prefixLength, withdrawn, received, age,
         lastWithdrawTime }

/-- `switch (code)` of `db_get_entries`. -/
def readDbaseField (code : UInt32) (ud : BgpUpdate) : StateM Fstream BgpUpdate :=
  match DbaseAttrib.ofWord code with
  | some .origin => do
      let origin ← readPod ud.origin
      pure { ud with origin := origin }
  | some .asPath => do
      let segment ← readSegment
      pure { ud with asPath := some segment }
  | some .nextHop => do
      let nextHop ← readPod ud.ipv4NextHop
      pure { ud with ipv4NextHop := nextHop }
  | some .multiExitDisc => do
      let med ← readPod ud.med
      pure { ud with med := med }
  | some .localPref => do
      let localPref ← readPod ud.localPref
      pure { ud with localPref := localPref }
  | some .atomicAggregate => pure { ud with atomicAggregate := true }
  | some .aggregator => do
      let aggregator ← readAggregator
      pure { ud with aggregator := some aggregator }
  | some .community => do
      let community ← readCommunities ud.community
      pure { ud with community := community }
  | some .as4Path => do
      let segment ← readSegment
      pure { ud with as4Path := some segment }
  | some .as4Aggregator => do
      let aggregator ← readAggregator
      pure { ud with as4Aggregator := some aggregator }
  | some .addrFamily => do
      let addrFamily ← readPod ud.addrFamily
      pure { ud with addrFamily := addrFamily }
  | some .addrFamilyId => do
      let addrFamilyId ← readPod ud.addrFamilyId
      pure { ud with addrFamilyId := addrFamilyId }
  | some .nlri => do
      let nlri ← readNlri ud.nlri
      pure { ud with nlri := nlri }
  | some .originator | some .clusterList | some .mpReachNlri | some .mpUnreachNlri
  | some .endOfRecord | none => pure ud

/-- `while (code != dbase_attrib::end_of_record)`, for at most `fuel` markers. `none` stands for a
loop that goes on. -/
def readRecord : (fuel : Nat) → (code : UInt32) → BgpUpdate → StateM Fstream (Option BgpUpdate)
  | 0, _, _ => pure none
  | fuel + 1, code, ud => do
      let code ← readPod code
      let ud ← readDbaseField code ud
      if code = DbaseAttrib.endOfRecord.toWord then pure (some ud) else readRecord fuel code ud

/-- The records at some positions. -/
def readRecords (fuel : Nat) : List Int32 → StateM Fstream (Option (List BgpUpdate))
  | [] => pure (some [])
  | i :: rest => do
      modify fun s => s.clear.seekg i.toInt
      let ud ← readRecord fuel 0 {}
      match ud with
      | none => pure none
      | some ud => do
          let records ← readRecords fuel rest
          pure (records.map (ud :: ·))

/-! ## The database -/

/-- `std::less` on pairs. -/
def entryLess : PrefixEntry → PrefixEntry → Ordering :=
  compareLex (compareOn Prod.fst) (compareOn Prod.snd)

instance : Std.TransCmp entryLess :=
  inferInstanceAs (Std.TransCmp (compareLex (compareOn Prod.fst) (compareOn Prod.snd)))

instance : Std.LawfulEqCmp entryLess where
  eq_of_compare {a b} h := by
    obtain ⟨hfst, hsnd⟩ := Ordering.then_eq_eq.mp h
    exact Prod.ext (Std.LawfulEqCmp.eq_of_compare hfst) (Std.LawfulEqCmp.eq_of_compare hsnd)

/-- `bgp_database`. -/
structure BgpDatabase where
  isOpen : Bool := false
  dbase : Fstream := {}
  indexMap : Std.ExtTreeMap PrefixEntry (List Int32) entryLess := ∅
  maxRecords : UInt16 := 1000

namespace BgpDatabase

/-- `db_open` on a file that opens. -/
def dbOpen (db : BgpDatabase) : BgpDatabase := { db with isOpen := true, dbase := {} }

/-- The positions of a key. No entry and an empty one are the same to every reader. -/
def indexes (db : BgpDatabase) (e : PrefixEntry) : List Int32 := (db.indexMap[e]?).getD []

/-- `db_insert`. -/
def dbInsert (db : BgpDatabase) (update : BgpUpdate) : BgpDatabase :=
  if db.isOpen then
    let positions := db.indexes update.nlri.entry ++ [Int32.ofInt db.dbase.tellp]
    { db with
      indexMap := db.indexMap.insert update.nlri.entry (keepLast db.maxRecords.toNat positions)
      dbase := db.dbase.write (record update) }
  else db

/-- `db_get_entries`, with at most `fuel` markers in a record. -/
def dbGetEntries (fuel : Nat) (db : BgpDatabase) (entry : BgpUpdate) :
    Option (List BgpUpdate × BgpDatabase) :=
  let result := readRecords fuel (db.indexes entry.nlri.entry).reverse db.dbase
  result.1.map fun records => (records, { db with dbase := result.2 })

end BgpDatabase

end Log2Bgp
