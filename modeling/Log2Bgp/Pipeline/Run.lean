import Log2Bgp.Daemon.Lemmas.Depth
import Log2Bgp.Lib.Fifo

/-!
# The way of an UPDATE

From the thread that reads it through the queue of its peer, and from there, route by route, through one of
the two queues of the instance.
-/

namespace Log2Bgp

open Lib

/-- What happens to a message of a peer, or to a route. -/
inductive PipeEvent where
  | receive (peer : Nat) (data : QueueData)
  | handle (peer : Nat) (now : TimeT) (bgpId : UInt32) (data : QueueData)
  | drop (peer : Nat) (data : QueueData)
  | enter (route : Route)
  | withdraw (route : Route)
deriving DecidableEq, Repr

/-- The routes of a message, as `proc_in_q` reads them. -/
def routesOf (now : TimeT) (bgpId : UInt32) (data : QueueData) : RibQueues :=
  (procMessage now bgpId data {}).toOption.getD {}

namespace PipeEvent

/-- The messages of peer `i` that are received. -/
def received (i : Nat) : PipeEvent → List QueueData
  | .receive j data => if j = i then [data] else []
  | _ => []

/-- Those that `proc_in_q` handles. -/
def handled (i : Nat) : PipeEvent → List QueueData
  | .handle j _ _ data => if j = i then [data] else []
  | _ => []

/-- Those that a cleanup throws away. -/
def dropped (i : Nat) : PipeEvent → List QueueData
  | .drop j data => if j = i then [data] else []
  | _ => []

/-- The routes announced in messages that are handled. -/
def announced : PipeEvent → List Route
  | .handle _ now bgpId data => (routesOf now bgpId data).adjRibInQ
  | _ => []

/-- The routes withdrawn in messages that are handled. -/
def retracted : PipeEvent → List Route
  | .handle _ now bgpId data => (routesOf now bgpId data).adjRibInWdrawQ
  | _ => []

/-- The routes that `peer_entry` is called with. -/
def entered : PipeEvent → List Route
  | .enter r => [r]
  | _ => []

/-- The routes that `withdraw` is called with. -/
def withdrawn : PipeEvent → List Route
  | .withdraw r => [r]
  | _ => []

end PipeEvent

namespace Daemon

/-- What the step that an action stands for does to messages and routes. -/
def pipeEvents (s : Daemon) : DaemonAction → List PipeEvent
  | .thread i (.receive _ .update payload _) =>
      match s.bgp.threadQ[i]? with
      | none => []
      | some p =>
          if h : payload.length ≤ 4096 then [.receive i ⟨payload, h, ⟨i, (s.threads i).conn, p.state⟩⟩] else []
  | .thread i .empty =>
      match s.bgp.threadQ[i]? with
      | none => []
      | some p => p.inQueue.map (.drop i)
  | .procInQ i now =>
      match s.bgp.threadQ[i]? with
      | none => []
      | some p => if (holdTimerExpired p now).1 then [] else p.inQueue.map (.handle i now p.bgpId)
  | .procAdjRibIn => s.bgp.queues.adjRibInQ.head?.toList.map .enter
  | .procAdjRibWdraw => s.bgp.queues.adjRibInWdrawQ.head?.toList.map .withdraw
  | _ => []

/-- The log of a run. -/
def pipeLog (s : Daemon) (as : List DaemonAction) : List PipeEvent := trace Daemon.step pipeEvents as s

/-- The queue of peer `i`. -/
def inQueueOf (i : Nat) (s : Daemon) : List QueueData :=
  match s.bgp.threadQ[i]? with
  | none => []
  | some p => p.inQueue

end Daemon

end Log2Bgp
