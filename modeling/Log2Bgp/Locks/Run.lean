import Log2Bgp.Lib.Locks
import Log2Bgp.Model.Report
import Log2Bgp.Pipeline.Run

/-!
# The locks of the daemon

What each function does with the mutexes of the instance, of its peers and of the database, where its calls return:
a query of the database that hangs holds the mutex of the database for good.
-/

namespace Log2Bgp

open Lib

/-- The mutexes: of the instance, of the RIB and its two queues, of a peer, of its queue and of its stream, and of the
database. -/
inductive Mutex where
  | bgp | adjRibIn | adjRibInQ | adjRibInWdrawQ
  | peer (i : Nat)
  | inQueue (i : Nat)
  | write (i : Nat)
  | db
deriving DecidableEq, Repr

/-- The mutex of the RIB is taken before one of a peer, and that before the one of the database. No other is taken
within another. -/
def Mutex.rank : Mutex → Nat
  | .adjRibIn => 0
  | .peer _ => 1
  | .db => 2
  | _ => 3

abbrev Locking := List (LockOp Mutex)

/-- Takes a mutex and gives it back. -/
def guarded (m : Mutex) : Locking := holding m []

/-! ## Sessions -/

section Sessions

variable (cfg : BgpConfig) (i : Nat)

/-- `send_packet`: each of the four writes takes the mutex of the stream where that is connected, and flushing
takes it in any case. -/
def sendPacketLocks (p : BgpPeer) (msgType : BgpMsgType) : Locking :=
  if p.state = .idle ∨ msgType = .update then []
  else (if p.connected then (List.replicate 4 (guarded (.write i))).flatten else []) ++ guarded (.write i)

/-- `decode_open` after the fields are read. -/
def acceptOpenLocks (p : BgpPeer) (hdr : BgpOpen) : Locking :=
  if hdr.version ≠ cfg.version then sendPacketLocks i p .notification
  else guarded (.peer i) ++
    if hdr.AS ≠ p.AS then sendPacketLocks i p .notification
    else guarded (.peer i) ++ (guarded (.peer i) ++ (guarded (.peer i) ++
      sendPacketLocks i { p with state := .openconfirm } .keepalive))

/-- The message cases of `peer_established`. -/
def dispatchLocks (type : BgpMsgType) (buffer : List UInt8) (p : BgpPeer) : Locking :=
  match type with
  | .openMsg =>
      match readOpen buffer with
      | .ok hdr => acceptOpenLocks cfg i p hdr
      | .error _ => []
  | .keepalive => sendPacketLocks i p .keepalive
  | .update => guarded (.inQueue i)
  | _ => []

/-- `hold_timer_expired`. -/
def holdTimerExpiredLocks (p : BgpPeer) (now : TimeT) : Locking :=
  if p.state ≠ .established then []
  else if now.toInt - p.lastIo.lastRead.toInt ≥ p.holdTime.toNat then sendPacketLocks i p .notification
  else if now.toInt - p.keepaliv.lastTx.toInt ≥ p.keepAlive.toNat then sendPacketLocks i p .keepalive
  else []

/-- One message of `proc_in_q`: it is taken from the queue of the peer, and each of its routes is pushed. -/
def procMessageLocks (now : TimeT) (bgpId : UInt32) (data : QueueData) : Locking :=
  guarded (.inQueue i) ++ ((routesOf now bgpId data).adjRibInQ.flatMap (fun _ => guarded .adjRibInQ) ++
    (routesOf now bgpId data).adjRibInWdrawQ.flatMap fun _ => guarded .adjRibInWdrawQ)

/-- `proc_in_q`. -/
def procInQLocks (now : TimeT) (p : BgpPeer) : Locking :=
  holdTimerExpiredLocks i p now ++
    if (holdTimerExpired p now).1 then [] else p.inQueue.flatMap (procMessageLocks i now p.bgpId)

end Sessions

/-! ## The RIB -/

namespace Bgp

/-- `peer_entry`: a route that is overwritten goes into the database while the mutexes of the RIB and of its peer
are held. -/
def peerEntryLocks (b : Bgp) (r : Route) : Locking :=
  holding .adjRibIn
    (match b.getPeerByUint32tBgpId r.bgpId with
    | none => []
    | some i => holding (.peer i) (if (b.adjRibIn[r.entry]?).isSome ∧ b.db.isOpen then guarded .db else []))

/-- `withdraw`. -/
def withdrawLocks (b : Bgp) (r : Route) : Locking :=
  holding .adjRibIn
    (match b.adjRibIn[r.entry]?, b.getPeerByUint32tBgpId r.bgpId with
    | some _, some i => guarded (.peer i)
    | _, _ => [])

/-- `proc_adj_rib_in_queue`. -/
def procAdjRibInLocks : List Route → Bgp → Locking
  | [], _ => []
  | r :: rest, b => b.peerEntryLocks r ++ (guarded .adjRibInQ ++ procAdjRibInLocks rest (b.procAdjRibInItem r rest))

/-- `proc_adj_rib_wdraw_queue`. -/
def procAdjRibWdrawLocks : List Route → Bgp → Locking
  | [], _ => []
  | r :: rest, b =>
      match b.procAdjRibWdrawItem r rest with
      | .ok b' => b.withdrawLocks r ++ (guarded .adjRibInWdrawQ ++ procAdjRibWdrawLocks rest b')
      | .error _ => []

end Bgp

/-! ## Commands -/

/-- `write_configs`. -/
def writeConfigsLocks (b : BgpCli) : Locking := (List.range b.threadQ.length).flatMap fun i => guarded (.peer i)

/-- `show_bgp_prefix` and `api_get_prefix`: the histories are read after the RIB. -/
def prefixLocks (b : BgpCli) (addr : UInt32) (dumpHistory : Bool) : Locking :=
  guarded .adjRibIn ++ if dumpHistory then (b.prefixMatches addr).flatMap fun _ => guarded .db else []

/-! ## Calls -/

/-- What the calls of the functions that use mutexes do with them. -/
inductive Locks : Locking → Prop where
  | sendOpen (i : Nat) (p : BgpPeer) : Locks (sendPacketLocks i p .openMsg)
  | dispatch (cfg : BgpConfig) (i : Nat) (type : BgpMsgType) (buffer : List UInt8) (p : BgpPeer) :
      Locks (dispatchLocks cfg i type buffer p)
  | flushPeer : Locks (guarded .adjRibIn)
  | emptyInQueue (i : Nat) : Locks (guarded (.inQueue i))
  | procInQ (i : Nat) (now : TimeT) (p : BgpPeer) : Locks (procInQLocks i now p)
  | procAdjRibInQueue (b : Bgp) : Locks (b.procAdjRibInLocks b.queues.adjRibInQ)
  | procAdjRibWdrawQueue (b : Bgp) : Locks (b.procAdjRibWdrawLocks b.queues.adjRibInWdrawQ)
  | setId : Locks (guarded .bgp)
  | setTranslation (i : Nat) : Locks (guarded (.peer i))
  | writeConfigs (b : BgpCli) : Locks (writeConfigsLocks b)
  | showBgpAdjRibIn : Locks (guarded .adjRibIn)
  | originQuery : Locks (guarded .adjRibIn)
  | prefixQuery (b : BgpCli) (addr : UInt32) (dumpHistory : Bool) : Locks (prefixLocks b addr dumpHistory)

end Log2Bgp
