import Log2Bgp.Lib.TreeMap
import Log2Bgp.Model.Database
import Log2Bgp.Model.Update

/-!
# The instance

The RIB and the main loop of an instance (`bgp.cpp`, `bgp_adj_rib.h`, `bgp_thread-mgr.cpp`). Dumping
of updates to a log is left out: it changes nothing that is modelled.
-/

namespace Log2Bgp

open Lib

/-! ## The RIB -/

/-- `rib_sort`, as a three-way comparison. -/
def ribSort : PrefixEntry → PrefixEntry → Ordering :=
  compareLex (fun a b => memcmp a.1 b.1) (fun a b => memcmp a.2 b.2)

instance : Std.TransCmp ribSort :=
  inferInstanceAs (Std.TransCmp (compareLex (compareOn fun e : PrefixEntry => memBytes e.1)
    (compareOn fun e : PrefixEntry => memBytes e.2)))

instance : Std.LawfulEqCmp ribSort where
  eq_of_compare {a b} h := by
    obtain ⟨hfst, hsnd⟩ := Ordering.then_eq_eq.mp h
    exact Prod.ext (memBytes_inj (Std.LawfulEqCmp.eq_of_compare hfst))
      (memBytes_inj (Std.LawfulEqCmp.eq_of_compare hsnd))

/-- `bgp_adj_rib`. -/
abbrev BgpAdjRib := Std.ExtTreeMap PrefixEntry Route ribSort

/-- The key of a route. -/
def Route.entry (r : Route) : PrefixEntry := r.update.nlri.entry

/-- The identifier that a route is tagged with. -/
def Route.bgpId (r : Route) : UInt32 := r.update.nlri.bgpId

/-- `BGP`, as far as its sessions and its RIB go. The constructor opens the database. -/
structure Bgp where
  cfg : BgpConfig
  threadQ : List BgpPeer := []
  adjRibIn : BgpAdjRib := ∅
  queues : RibQueues := {}
  db : BgpDatabase := BgpDatabase.dbOpen {}
  tableVersion : Int32 := 0

namespace Bgp

/-- `get_peer_by_uint32_t_bgp_id`: the place of the first peer with an identifier. -/
def getPeerByUint32tBgpId (b : Bgp) (bgpId : UInt32) : Option Nat :=
  b.threadQ.findIdx? (·.bgpId = bgpId)

/-- Changes one peer. -/
def modifyPeer (b : Bgp) (i : Nat) (f : BgpPeer → BgpPeer) : Bgp :=
  { b with threadQ := b.threadQ.modify i f }

end Bgp

namespace BgpPeer

/-- Counts a route that overwrites one in the RIB. -/
def countOverwritten (p : BgpPeer) : BgpPeer :=
  { p with
    implicitWithdraw := { p.implicitWithdraw with rx := p.implicitWithdraw.rx + 1 }
    prefixes := { p.prefixes with rx := p.prefixes.rx + 1 } }

/-- Counts a route that is new in the RIB. -/
def countNew (p : BgpPeer) : BgpPeer :=
  { p with prefixes := { p.prefixes with
      rx := p.prefixes.rx + 1
      current := { p.prefixes.current with rx := p.prefixes.current.rx + 1 } } }

/-- Counts a route that leaves the RIB in a flush. -/
def countFlushed (p : BgpPeer) : BgpPeer :=
  { p with prefixes := { p.prefixes with
      current := { p.prefixes.current with rx := p.prefixes.current.rx - 1 } } }

/-- Counts a route that is withdrawn. -/
def countWithdrawn (p : BgpPeer) : BgpPeer :=
  { p.countFlushed with
    explicitWithdraw := { p.explicitWithdraw with rx := p.explicitWithdraw.rx + 1 } }

end BgpPeer

namespace Bgp

/-- `peer_entry`. -/
def peerEntry (b : Bgp) (r : Route) : Bgp :=
  match b.getPeerByUint32tBgpId r.bgpId with
  | none => b
  | some i =>
      match b.adjRibIn[r.entry]? with
      | some old =>
          { b.modifyPeer i BgpPeer.countOverwritten with
            db := b.db.dbInsert old.update
            adjRibIn := b.adjRibIn.insert r.entry r }
      | none =>
          { b.modifyPeer i BgpPeer.countNew with adjRibIn := b.adjRibIn.insert r.entry r }

/-- `withdraw`. -/
def withdraw (b : Bgp) (r : Route) : Checked Bgp :=
  match b.adjRibIn[r.entry]? with
  | none => .ok b
  | some _ =>
      match b.getPeerByUint32tBgpId r.bgpId with
      | none => .error .null
      | some i =>
          .ok { b.modifyPeer i BgpPeer.countWithdrawn with adjRibIn := b.adjRibIn.erase r.entry }

/-- `flush_peer`: removes the first route with an identifier, if there is one. -/
def flushPeer (b : Bgp) (bgpId : UInt32) : Option Bgp :=
  (findFirst (fun r : Route => r.bgpId = bgpId) b.adjRibIn).map fun e =>
    { b with adjRibIn := b.adjRibIn.erase e.1 }

/-- One pass of `while (flush_peer(peer->bgp_id)) --peer->prefixes.current.rx`, if the loop goes on. -/
def flushOne (b : Bgp) (i : Nat) : Option Bgp :=
  match b.threadQ[i]? with
  | none => none
  | some p => (b.flushPeer p.bgpId).map (·.modifyPeer i BgpPeer.countFlushed)

/-! ## The main loop -/

/-- `proc_in_q` for a peer of the instance. -/
def procInQ (b : Bgp) (now : TimeT) (i : Nat) : Checked Bgp :=
  match b.threadQ[i]? with
  | none => .ok b
  | some p => do
      let (p, q) ← Log2Bgp.procInQ now p b.queues
      pure { b with threadQ := b.threadQ.set i p, queues := q }

/-- `for (auto peer : this->thread_q)`. -/
def procInQs (now : TimeT) : List Nat → Bgp → Checked Bgp
  | [], b => .ok b
  | i :: rest, b => do
      let b ← b.procInQ now i
      procInQs now rest b

/-- The loop body of `proc_adj_rib_in_queue`, for the update at the front of the queue. -/
def procAdjRibInItem (b : Bgp) (r : Route) (rest : List Route) : Bgp :=
  let b := b.peerEntry r
  { b with queues := { b.queues with adjRibInQ := rest }, tableVersion := b.tableVersion + 1 }

/-- `proc_adj_rib_in_queue`. -/
def procAdjRibInQueue (b : Bgp) : Bgp := go b.queues.adjRibInQ b
where
  go : List Route → Bgp → Bgp
    | [], b => b
    | r :: rest, b => go rest (b.procAdjRibInItem r rest)

/-- The loop body of `proc_adj_rib_wdraw_queue`, for the prefix at the front of the queue. -/
def procAdjRibWdrawItem (b : Bgp) (r : Route) (rest : List Route) : Checked Bgp := do
  let b ← b.withdraw r
  pure { b with queues := { b.queues with adjRibInWdrawQ := rest }, tableVersion := b.tableVersion + 1 }

/-- `proc_adj_rib_wdraw_queue`. -/
def procAdjRibWdrawQueue (b : Bgp) : Checked Bgp := go b.queues.adjRibInWdrawQ b
where
  go : List Route → Bgp → Checked Bgp
    | [], b => .ok b
    | r :: rest, b => do
        let b ← b.procAdjRibWdrawItem r rest
        go rest b

/-- The body of the main loop of `init_BGP`. -/
def mainLoop (b : Bgp) (now : TimeT) : Checked Bgp := do
  let b ← procInQs now (List.range b.threadQ.length) b
  b.procAdjRibInQueue.procAdjRibWdrawQueue

/-- A message that a peer's thread reads while its session is up. -/
def receive (b : Bgp) (now : TimeT) (i conn : Nat) (type : BgpMsgType) (payload uninit : List UInt8) :
    Checked Bgp :=
  match b.threadQ[i]? with
  | none => .ok b
  | some p => do
      let p ← dispatch b.cfg now ⟨i, conn, p.state⟩ type (payload ++ uninit) payload.length (p.readAt now)
      pure { b with threadQ := b.threadQ.set i p }

end Bgp

end Log2Bgp
