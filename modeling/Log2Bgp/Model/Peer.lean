import Log2Bgp.Model.Message

/-!
# Peers

`bgp_peer` with its TCP stream, and the sending of messages (`bgp_peer.h`, `tcp_client.cpp`,
`bgp_send.cpp`). Locks are left out: a function runs as one step.
-/

namespace Log2Bgp

open Lib

/-- `counter`. -/
abbrev Counter := UInt32

/-- `byte_tx_rx_current`. -/
structure ByteTxRxCurrent where
  tx : Counter := 0
  rx : Counter := 0
deriving DecidableEq, Repr

/-- `bytes_tx_rx`. -/
structure BytesTxRx where
  tx : Counter := 0
  rx : Counter := 0
  current : ByteTxRxCurrent := {}
  lastRx : TimeT := 0
  lastTx : TimeT := 0
deriving DecidableEq, Repr

/-- `read_write`. -/
structure ReadWrite where
  lastRead : TimeT := 0
  lastWrite : TimeT := 0
deriving DecidableEq, Repr

/-- `tcp_client`: whether its two streams are open, whether the end of the input has been met,
and the bytes written on this connection. -/
structure TcpClient where
  isOpen : Bool := false
  eof : Bool := false
  sent : List UInt8 := []
deriving DecidableEq, Repr

namespace TcpClient

def connected (c : TcpClient) : Bool := c.isOpen && !c.eof

def disconnect (c : TcpClient) : TcpClient := { c with isOpen := false, eof := false }

/-- `connect` opens fresh streams. -/
def connect (_ : TcpClient) : TcpClient := { isOpen := true }

/-- `write` and `write_formated`. -/
def write (c : TcpClient) (bytes : List UInt8) : TcpClient :=
  if c.connected then { c with sent := c.sent ++ bytes } else c

end TcpClient

/-- `bgp_peer`. The defaults are those of its constructor. -/
structure BgpPeer where
  bgpId : UInt32 := 0
  version : UInt16 := 4
  holdTime : UInt16 := 180
  keepAlive : UInt16 := 60
  AS : UInt16 := 0
  optParamLen : UInt32 := 0
  inQ : UInt16 := 0
  upSince : TimeT := 0
  bIp : String := ""
  opens : BytesTxRx := {}
  notify : BytesTxRx := {}
  update : BytesTxRx := {}
  keepaliv : BytesTxRx := {}
  routeref : BytesTxRx := {}
  prefixes : BytesTxRx := {}
  txRx : BytesTxRx := {}
  implicitWithdraw : ByteTxRxCurrent := {}
  explicitWithdraw : ByteTxRxCurrent := {}
  state : BgpPeerState := .idle
  lastIo : ReadWrite := {}
  inQueue : List QueueData := []
  tcp : TcpClient := {}
deriving DecidableEq, Repr

namespace BgpPeer

def connected (p : BgpPeer) : Bool := p.tcp.connected

def disconnect (p : BgpPeer) : BgpPeer := { p with tcp := p.tcp.disconnect }

/-- Adjusts the counter of sent messages of one type. -/
def countTx (p : BgpPeer) (now : TimeT) : BgpMsgType → BgpPeer
  | .openMsg => { p with opens := { p.opens with tx := p.opens.tx + 1, lastTx := now } }
  | .update => { p with update := { p.update with tx := p.update.tx + 1, lastTx := now } }
  | .notification => { p with notify := { p.notify with tx := p.notify.tx + 1, lastTx := now } }
  | .keepalive => { p with keepaliv := { p.keepaliv with tx := p.keepaliv.tx + 1, lastTx := now } }
  | .routerefresh => { p with routeref := { p.routeref with tx := p.routeref.tx + 1, lastTx := now } }
  | .other _ => p

/-- `send_packet`. -/
def sendPacket (p : BgpPeer) (now : TimeT) (payload : List UInt8) (msgType : BgpMsgType) : BgpPeer :=
  if p.state = .idle then p
  else if msgType = .update then p
  else
    let len : UInt16 := UInt16.ofNat (payload.length + 19)
    let tcp := ((((p.tcp.write (List.replicate 16 0xff)).write
      [(len >>> 8).toUInt8, (len &&& 0xff).toUInt8]).write [msgType.toByte]).write payload)
    let p := { p with
      tcp := tcp
      txRx := { p.txRx with tx := p.txRx.tx + len.toUInt32 }
      lastIo := { p.lastIo with lastWrite := now } }
    p.countTx now msgType

/-- `BGP::notification`. -/
def notification (p : BgpPeer) (now : TimeT) (errCode : BgpErrorCode) (errSubcode : UInt8) : BgpPeer :=
  p.sendPacket now [errCode.toByte, errSubcode] .notification

end BgpPeer

/-! ## What sending leaves alone -/

/-- What the handling of routes reads and writes of a peer: its identifier, its queue of
messages and its prefix counters. -/
structure BgpPeer.SameRoutes (p q : BgpPeer) : Prop where
  bgpId : q.bgpId = p.bgpId
  inQueue : q.inQueue = p.inQueue
  prefixes : q.prefixes = p.prefixes
  implicitWithdraw : q.implicitWithdraw = p.implicitWithdraw
  explicitWithdraw : q.explicitWithdraw = p.explicitWithdraw

namespace BgpPeer

theorem SameRoutes.refl (p : BgpPeer) : SameRoutes p p := ⟨rfl, rfl, rfl, rfl, rfl⟩

theorem SameRoutes.trans {p q r : BgpPeer} (h : SameRoutes p q) (h' : SameRoutes q r) :
    SameRoutes p r where
  bgpId := h'.bgpId.trans h.bgpId
  inQueue := h'.inQueue.trans h.inQueue
  prefixes := h'.prefixes.trans h.prefixes
  implicitWithdraw := h'.implicitWithdraw.trans h.implicitWithdraw
  explicitWithdraw := h'.explicitWithdraw.trans h.explicitWithdraw

theorem sendPacket_same (p : BgpPeer) (now : TimeT) (payload : List UInt8) (t : BgpMsgType) :
    SameRoutes p (p.sendPacket now payload t) := by
  unfold sendPacket
  split
  · exact SameRoutes.refl p
  · split
    · exact SameRoutes.refl p
    · cases t <;> exact ⟨rfl, rfl, rfl, rfl, rfl⟩

@[simp] theorem sendPacket_state (p : BgpPeer) (now : TimeT) (payload : List UInt8) (t : BgpMsgType) :
    (p.sendPacket now payload t).state = p.state := by
  unfold sendPacket
  split
  · rfl
  · split
    · rfl
    · cases t <;> rfl

end BgpPeer

end Log2Bgp
