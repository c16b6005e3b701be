import Log2Bgp.Lib.Run
import Log2Bgp.Model.Bgp

/-!
# The daemon

The threads of the peers (`init_peer`, with `init_peer_states` and `peer_established`) next to the main
thread (`init_BGP`), as steps that are taken in any order. A step of the main thread is `proc_in_q` for
a peer, or one item of one of the two queues. Each step is atomic: what one thread does while another is
within a step is left out, such as a cleanup between the copy that `proc_in_q` makes of the first message
and its `pop`.
-/

namespace Log2Bgp

open Lib

/-! ## The thread of a peer -/

/-- Where the thread stands: in `init_peer_states`, in the loop of `peer_established`, or at one of the
steps of the cleanup behind it. `down` is the end of the cleanup, where `init_peer` begins again. -/
inductive PeerPhase where
  | down | connecting | reading | flushing | closing | emptying
deriving DecidableEq, Repr

/-- A thread: where it stands and the number of its connections. `clean` is bookkeeping: a cleanup has
finished, and no UPDATE has come since. -/
structure PeerThread where
  phase : PeerPhase := .down
  conn : Nat := 0
  clean : Bool := false
deriving DecidableEq, Repr

/-- A step of a thread that concerns its peer alone. -/
inductive ThreadAction where
  | restart
  | connect (now : TimeT) (attempt : ConnectAttempt)
  | receive (now : TimeT) (type : BgpMsgType) (payload uninit : List UInt8)
  | eof (now : TimeT) (header : Bool)
  | leave
  | close
  | empty
deriving DecidableEq, Repr

/-- `while (peer->connected() && peer->state != bgp_peer_state::idle)`. -/
def BgpPeer.reads (p : BgpPeer) : Bool := p.connected && p.state ≠ .idle

/-- One step of the thread of peer `i`, where it can be taken and does not fault. -/
def threadStep (cfg : BgpConfig) (i : Nat) (t : PeerThread) (p : BgpPeer) :
    ThreadAction → Option (BgpPeer × PeerThread)
  | .restart =>
      if t.phase = .down then some ({ p with state := .idle }, { t with phase := .connecting }) else none
  | .connect now attempt =>
      if t.phase = .connecting then
        (initPeerStates cfg now attempt p).toOption.map fun p' =>
          (p', if p'.state = .idle then t else { t with phase := .reading, conn := t.conn + 1 })
      else none
  | .receive now type payload uninit =>
      if t.phase = .reading ∧ p.reads then
        (dispatch cfg now ⟨i, t.conn, p.state⟩ type (payload ++ uninit) payload.length
          (p.readAt now)).toOption.map fun p' => (p', { t with clean := t.clean && type ≠ .update })
      else none
  | .eof now header =>
      if t.phase = .reading ∧ p.reads then
        some ((if header then p.readAt now else p).readEof, t)
      else none
  | .leave =>
      if t.phase = .reading ∧ ¬ p.reads then some (p, { t with phase := .flushing }) else none
  | .close =>
      if t.phase = .closing then some ({ p.disconnect with upSince := 0 }, { t with phase := .emptying })
      else none
  | .empty =>
      if t.phase = .emptying then some ({ p with inQueue := [] }, { t with phase := .down, clean := true })
      else none

/-! ## All threads -/

structure Daemon where
  bgp : Bgp
  threads : Nat → PeerThread := fun _ => {}

inductive DaemonAction where
  | thread (peer : Nat) (action : ThreadAction)
  | flush (peer : Nat)
  | procInQ (peer : Nat) (now : TimeT)
  | procAdjRibIn
  | procAdjRibWdraw
deriving DecidableEq, Repr

namespace Daemon

/-- Changes the thread of a peer. -/
def setThread (s : Daemon) (i : Nat) (t : PeerThread) : Nat → PeerThread :=
  fun j => if j = i then t else s.threads j

/-- A step of the daemon, where it can be taken and does not fault. -/
def step (s : Daemon) : DaemonAction → Option Daemon
  | .thread i a =>
      match s.bgp.threadQ[i]? with
      | none => none
      | some p => (threadStep s.bgp.cfg i (s.threads i) p a).map fun (p', t') =>
          { bgp := { s.bgp with threadQ := s.bgp.threadQ.set i p' }, threads := s.setThread i t' }
  | .flush i =>
      -- one test of `while (flush_peer(peer->bgp_id))`, which ends the loop when nothing is found
      if (s.threads i).phase = .flushing ∧ i < s.bgp.threadQ.length then
        match s.bgp.flushOne i with
        | some b => some { s with bgp := b }
        | none => some { s with threads := s.setThread i { s.threads i with phase := .closing } }
      else none
  | .procInQ i now => (s.bgp.procInQ now i).toOption.map fun b => { s with bgp := b }
  | .procAdjRibIn =>
      match s.bgp.queues.adjRibInQ with
      | [] => none
      | r :: rest => some { s with bgp := s.bgp.procAdjRibInItem r rest }
  | .procAdjRibWdraw =>
      match s.bgp.queues.adjRibInWdrawQ with
      | [] => none
      | r :: rest => (s.bgp.procAdjRibWdrawItem r rest).toOption.map fun b => { s with bgp := b }

/-- An instance that has its peers configured, and nothing else. -/
def Start (s : Daemon) : Prop :=
  s.bgp.adjRibIn = ∅ ∧ s.bgp.queues = {} ∧ (∀ i, s.threads i = {}) ∧
    ∀ p ∈ s.bgp.threadQ, p.bgpId = 0 ∧ p.state = .idle ∧ p.inQueue = []

end Daemon

end Log2Bgp
