import Log2Bgp.Lib.Run
import Log2Bgp.Model.Daemon

/-!
# The state machine of one peer

The thread of a peer next to the checks of its hold timer, with the messages that the current connection
has delivered. That list is bookkeeping: no function of the code reads it.
-/

namespace Log2Bgp

open Lib

/-- The configuration of an instance, with the version and the hold time of its constructor. -/
def constructedConfig (AS : UInt16) (bgpId : UInt32) : BgpConfig := { AS := AS, bgpId := bgpId }

structure PeerRun where
  peer : BgpPeer
  thread : PeerThread := {}
  heard : List (BgpMsgType × List UInt8) := []

/-- A step of the thread, the end of its flush loop, or a check of the hold timer by the main loop. -/
inductive PeerAction where
  | thread (action : ThreadAction)
  | flushed
  | holdTimer (now : TimeT)
deriving DecidableEq, Repr

namespace PeerRun

/-- A connection begins with nothing heard, and a message is heard with the bytes behind it. -/
def hear (heard : List (BgpMsgType × List UInt8)) : ThreadAction → List (BgpMsgType × List UInt8)
  | .connect _ _ => []
  | .receive _ type payload uninit => heard ++ [(type, payload ++ uninit)]
  | _ => heard

def step (cfg : BgpConfig) (i : Nat) (s : PeerRun) : PeerAction → Option PeerRun
  | .thread a => (threadStep cfg i s.thread s.peer a).map fun (p, t) =>
      { peer := p, thread := t, heard := hear s.heard a }
  | .flushed =>
      if s.thread.phase = .flushing then some { s with thread := { s.thread with phase := .closing } }
      else none
  | .holdTimer now => some { s with peer := (holdTimerExpired s.peer now).2 }

/-- A peer with its remote AS configured, before its thread has done anything. -/
def Start (AS : UInt16) (s : PeerRun) : Prop :=
  s.peer.AS = AS ∧ s.peer.state = .idle ∧ s.thread = {} ∧ s.heard = []

end PeerRun

/-! ## What an OPEN settles -/

/-- The OPEN is of version 4 and from the configured AS. -/
def BgpOpen.Accepted (hdr : BgpOpen) (AS : UInt16) : Prop := hdr.version = 4 ∧ hdr.AS = AS

instance (hdr : BgpOpen) (AS : UInt16) : Decidable (hdr.Accepted AS) := inferInstanceAs (Decidable (_ ∧ _))

/-- The peer has the values of an OPEN. -/
structure BgpPeer.Took (p : BgpPeer) (hdr : BgpOpen) : Prop where
  bgpId : p.bgpId = hdr.bgpId
  holdTime : p.holdTime = hdr.holdTime
  keepAlive : p.keepAlive = hdr.holdTime / 3
  optParamLen : p.optParamLen = hdr.optParamLen

/-- The last OPEN of the connection is one that was accepted, and the peer has its values. -/
structure PeerRun.OpenedBy (s : PeerRun) (AS : UInt16) (packet : List UInt8) (hdr : BgpOpen)
    (after : List (BgpMsgType × List UInt8)) : Prop where
  heard : ∃ before, s.heard = before ++ (.openMsg, packet) :: after
  last : ∀ m ∈ after, m.1 ≠ .openMsg
  read : readOpen packet = .ok hdr
  accepted : hdr.Accepted AS
  took : s.peer.Took hdr

/-- What a rejected OPEN does: its NOTIFICATION is written, and the connection closed. -/
structure BgpPeer.Rejected (p p' : BgpPeer) : Prop where
  AS : p'.AS = p.AS
  bgpId : p'.bgpId = p.bgpId
  holdTime : p'.holdTime = p.holdTime
  keepAlive : p'.keepAlive = p.keepAlive
  sent : ∃ sub : BgpOpenErrorSubcode, p'.tcp.sent = p.tcp.sent ++ List.replicate 16 0xff ++
    [0, 21, BgpMsgType.notification.toByte, BgpErrorCode.openMsgErr.toByte, sub.toByte]
  state : p'.state = .idle
  connected : p'.connected = false

end Log2Bgp
