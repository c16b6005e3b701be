import Log2Bgp.Model.Peer

/-!
# Sessions

The state machine of one peer: connecting, reading and dispatching messages, the hold timer
(`bgp.cpp`, `bgp_open.cpp`, `bgp_notification.cpp`).
-/

namespace Log2Bgp

open Lib

/-- What the instance itself is configured with, as far as its sessions read it. -/
structure BgpConfig where
  version : UInt8 := 4
  holdTime : UInt16 := 180
  AS : UInt16
  bgpId : UInt32 := 0
deriving DecidableEq, Repr

/-- `inet_ntoa`, which always returns its buffer. -/
def inetNtoa (addr : UInt32) : Option String :=
  some (".".intercalate ((memBytes addr).map fun b => toString b.toNat))

/-! ## OPEN -/

/-- `send_open`. -/
def sendOpen (cfg : BgpConfig) (p : BgpPeer) (now : TimeT) : BgpPeer :=
  let openMessage : List UInt8 :=
    [cfg.version, (cfg.AS >>> 8).toUInt8, (cfg.AS &&& 0xff).toUInt8,
      (cfg.holdTime >>> 8).toUInt8, (cfg.holdTime &&& 0xff).toUInt8,
      (cfg.bgpId &&& 0xff).toUInt8, (cfg.bgpId >>> 8).toUInt8, (cfg.bgpId >>> 16).toUInt8,
      (cfg.bgpId >>> 24).toUInt8, 0]
  { p.sendPacket now openMessage .openMsg with state := .opensent }

/-- `bgp_open`. -/
structure BgpOpen where
  version : UInt8
  AS : UInt16
  holdTime : UInt16
  bgpId : UInt32
  optParamLen : UInt32
deriving DecidableEq, Repr

/-- The fields `decode_open` takes from the packet. -/
def readOpen (packet : List UInt8) : Checked BgpOpen := do
  let version ← readByte packet 0
  let asHigh ← readByte packet 1
  let asLow ← readByte packet 2
  let holdLow ← readByte packet 4
  let holdHigh ← readByte packet 3
  let id0 ← readByte packet 5
  let id1 ← readByte packet 6
  let id2 ← readByte packet 7
  let id3 ← readByte packet 8
  let optParamLen ← readByte packet 9
  pure {
    version := version
    AS := be16 asHigh asLow
    holdTime := holdLow.toUInt16 + holdHigh.toUInt16
    bgpId := be32 id3 id2 id1 id0
    optParamLen := optParamLen.toUInt32 }

/-- Notifies the peer of an error in its OPEN and closes the session. -/
def rejectOpen (p : BgpPeer) (now : TimeT) (sub : BgpOpenErrorSubcode) : BgpPeer :=
  { p.notification now .openMsgErr sub.toByte with state := .idle }.disconnect

/-- `decode_open` after the fields are read. -/
def acceptOpen (cfg : BgpConfig) (p : BgpPeer) (now : TimeT) (hdr : BgpOpen) : BgpPeer :=
  if hdr.version ≠ cfg.version then rejectOpen p now .unsupVerNum
  else
    -- one byte is copied over the two of `version`
    let p := { p with version := (p.version &&& 0xff00) ||| hdr.version.toUInt16 }
    if hdr.AS ≠ p.AS then rejectOpen p now .badPeerAs
    else
      let p := { p with AS := hdr.AS }
      match inetNtoa hdr.bgpId with
      | none => rejectOpen p now .badBgpId
      | some bIp =>
          let p := { p with
            bgpId := hdr.bgpId
            bIp := bIp
            holdTime := hdr.holdTime
            keepAlive := hdr.holdTime / 3
            optParamLen := hdr.optParamLen
            state := .openconfirm }
          p.sendPacket now [] .keepalive

/-- `decode_open`. -/
def decodeOpen (cfg : BgpConfig) (p : BgpPeer) (now : TimeT) (packet : List UInt8) :
    Checked BgpPeer := do
  let hdr ← readOpen packet
  pure (acceptOpen cfg p now hdr)

/-! ## NOTIFICATION -/

/-- The text at an index of a table, as a `std::string`. -/
def textAt (table : List (Option String)) (i : UInt8) : Checked String :=
  match table[i.toNat]? with
  | none => .error (.lookup i.toNat)
  | some none => .error .null
  | some (some text) => .ok text

/-- `decode_notification`: the two texts it logs. -/
def decodeNotification (packet : List UInt8) : Checked (Option (String × String)) := do
  let errorCode ← readByte packet 0
  let errorSubcode ← readByte packet 1
  let _data ← copyBytes packet 2 6 6
  match BgpErrorCode.ofByte errorCode with
  | .msgHeadErr => do
      let code ← textAt bgpErrorCodes errorCode
      let sub ← textAt bgpErrorSubHeader errorSubcode
      pure (some (code, sub))
  | .openMsgErr => do
      let code ← textAt bgpErrorCodes errorCode
      let sub ← textAt bgpErrorSubOpen errorSubcode
      pure (some (code, sub))
  | .updateMsgErr => do
      let code ← textAt bgpErrorCodes errorCode
      let sub ← textAt bgpErrorSubUpdate errorSubcode
      pure (some (code, sub))
  | .holdTimeExpired | .finiteStateMachErr | .cease => do
      let code ← textAt bgpErrorCodes errorCode
      pure (some (code, ""))
  | .other _ => pure none

/-! ## Reading messages -/

/-- The message cases of `peer_established`. `buffer` is the memory the handlers can reach and
`length` the size of the payload at its start. -/
def dispatch (cfg : BgpConfig) (now : TimeT) (receipt : Receipt) (type : BgpMsgType)
    (buffer : List UInt8) (length : Nat) (p : BgpPeer) : Checked BgpPeer :=
  match type with
  | .openMsg =>
      decodeOpen cfg { p with opens := { p.opens with rx := p.opens.rx + 1, lastRx := now } } now buffer
  | .keepalive =>
      let p := { p with keepaliv := { p.keepaliv with rx := p.keepaliv.rx + 1, lastRx := now } }
      let p := if p.state = .openconfirm then { p with state := .established, upSince := now } else p
      .ok (p.sendPacket now [] .keepalive)
  | .notification => do
      let _ ← decodeNotification buffer
      pure { p with notify := { p.notify with rx := p.notify.rx + 1, lastRx := now } }
  | .update =>
      let p := { p with update := { p.update with rx := p.update.rx + 1, lastRx := now } }
      if h : (buffer.take length).length ≤ 4096 then
        .ok { p with
          inQueue := p.inQueue ++ [⟨buffer.take length, h, receipt⟩]
          inQ := p.inQ + 1 }
      else .error (.copy length 4096)
  | .routerefresh =>
      .ok { p with routeref := { p.routeref with rx := p.routeref.rx + 1, lastRx := now } }
  | .other _ => .ok p

/-- The end of the input: the short read sets the flag that `connected` tests. -/
def BgpPeer.readEof (p : BgpPeer) : BgpPeer := { p with tcp := { p.tcp with eof := true } }

/-- The time of the last read is set as soon as a header is there. -/
def BgpPeer.readAt (p : BgpPeer) (now : TimeT) : BgpPeer :=
  { p with lastIo := { p.lastIo with lastRead := now } }

/-- The loop body of `peer_established`. `rx` is what the peer still sends before it closes the
connection, `uninit` the content of the part of the buffer that the payload does not fill. -/
def readMessage (cfg : BgpConfig) (now : TimeT) (receipt : Receipt) (uninit : List UInt8)
    (p : BgpPeer) (rx : List UInt8) : Checked (BgpPeer × List UInt8) :=
  match rx.drop 16 with
  | lenHigh :: lenLow :: type :: rest =>
      let p := p.readAt now
      let len := be16 lenHigh lenLow
      let count : Int := len.toNat - 19
      if 0 ≤ count ∧ count ≤ len.toNat then
        if rest.length < count.toNat then .ok (p.readEof, [])
        else do
          let buffer := rest.take count.toNat ++ uninit
          let p ← dispatch cfg now receipt (.ofByte type) buffer count.toNat p
          pure (p, rest.drop count.toNat)
      else .error (.request count len.toNat)
  | _ => .ok (p.readEof, [])

/-- The loop of `peer_established`, as far as it gets in one pass for each of the given times. -/
def readMessages (cfg : BgpConfig) (receipt : Receipt) (uninit : List UInt8) :
    (times : List TimeT) → BgpPeer → List UInt8 → Checked (BgpPeer × List UInt8)
  | [], p, rx => .ok (p, rx)
  | now :: times, p, rx =>
      if p.connected ∧ p.state ≠ .idle then do
        let (p, rx) ← readMessage cfg now receipt uninit p rx
        readMessages cfg receipt uninit times p rx
      else .ok (p, rx)

/-! ## Timers and connecting -/

/-- `hold_timer_expired`. -/
def holdTimerExpired (p : BgpPeer) (now : TimeT) : Bool × BgpPeer :=
  if p.state ≠ .established then (true, p)
  else if now.toInt - p.lastIo.lastRead.toInt ≥ p.holdTime.toNat then
    (true, { p.notification now .holdTimeExpired 0 with state := .idle }.disconnect)
  else if now.toInt - p.keepaliv.lastTx.toInt ≥ p.keepAlive.toNat then
    (false, p.sendPacket now [] .keepalive)
  else (false, p)

/-- How one attempt to connect goes: the connection, and the four changes of buffer sizes. -/
structure ConnectAttempt where
  connect : Bool
  bgpRx : Bool := true
  bgpTx : Bool := true
  tcpRx : Bool := true
  tcpTx : Bool := true
deriving DecidableEq, Repr

/-- Gives up an attempt. -/
def BgpPeer.dropToIdle (p : BgpPeer) : BgpPeer := { p.disconnect with state := .idle }

/-- `set_bgp_rx_buffer_size` and `set_bgp_tx_buffer_size` call `setvbuf` on an open stream. -/
def resizeStream (ok : Bool) (p : BgpPeer) : Checked BgpPeer :=
  if p.tcp.isOpen then .ok (if ok then p else p.dropToIdle) else .error .null

/-- `set_tcp_rx_buffer_size` and `set_tcp_tx_buffer_size`. -/
def resizeSocket (ok : Bool) (p : BgpPeer) : BgpPeer := if ok then p else p.dropToIdle

/-- One pass of the loop of `init_peer_states`, and `send_open` when the loop ends. -/
def initPeerStates (cfg : BgpConfig) (now : TimeT) (attempt : ConnectAttempt) (p : BgpPeer) :
    Checked BgpPeer :=
  if attempt.connect then do
    let p := { p with tcp := p.tcp.connect, state := .connect }
    let p ← resizeStream attempt.bgpRx p
    let p ← resizeStream attempt.bgpTx p
    let p := resizeSocket attempt.tcpTx (resizeSocket attempt.tcpRx p)
    pure (if p.state = .idle then p else sendOpen cfg p now)
  else .ok { p.disconnect with state := .idle }

end Log2Bgp
