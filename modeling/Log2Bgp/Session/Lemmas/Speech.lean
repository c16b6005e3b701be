import Log2Bgp.Session.Exchange

/-!
# What a session says

The messages that a step of a session writes, and what the counters of sent messages make of them.
-/

namespace Log2Bgp

open Lib

/-! ## Messages on the wire -/

structure WireMessage where
  type : BgpMsgType
  payload : List UInt8
deriving DecidableEq, Repr

/-- The bytes of a message: the marker, the length, the type and the payload. -/
def WireMessage.frame (m : WireMessage) : List UInt8 :=
  List.replicate 16 0xff ++ BgpPeer.lengthBytes m.payload ++ [m.type.toByte] ++ m.payload

/-- The bytes of messages one after another. -/
def wire (ms : List WireMessage) : List UInt8 := ms.flatMap WireMessage.frame

def WireMessage.keepalive : WireMessage := ⟨.keepalive, []⟩

def WireMessage.opened (cfg : BgpConfig) : WireMessage := ⟨.openMsg, openPayload cfg⟩

/-- A NOTIFICATION of an OPEN that is rejected, or of a hold time that is over. -/
inductive WireMessage.Final : WireMessage → Prop where
  | rejected (sub : BgpOpenErrorSubcode) : Final ⟨.notification, [BgpErrorCode.openMsgErr.toByte, sub.toByte]⟩
  | expired : Final ⟨.notification, [BgpErrorCode.holdTimeExpired.toByte, 0]⟩

@[simp] theorem wire_append (ms ms' : List WireMessage) : wire (ms ++ ms') = wire ms ++ wire ms' :=
  List.flatMap_append

@[simp] theorem wire_singleton (m : WireMessage) : wire [m] = m.frame := by
  simp [wire]

theorem WireMessage.length_frame (m : WireMessage) : m.frame.length = m.payload.length + 19 := by
  simp [frame, BgpPeer.lengthBytes]

/-! ## The counters of sent messages -/

/-- The members `tx` of a peer that `send_packet` counts in. -/
@[ext] structure TxCounters where
  opens : Counter := 0
  update : Counter := 0
  notify : Counter := 0
  keepaliv : Counter := 0
  routeref : Counter := 0
  bytes : Counter := 0
deriving DecidableEq, Repr

def BgpPeer.txCounters (p : BgpPeer) : TxCounters where
  opens := p.opens.tx
  update := p.update.tx
  notify := p.notify.tx
  keepaliv := p.keepaliv.tx
  routeref := p.routeref.tx
  bytes := p.txRx.tx

/-- How many of some messages are of a type. -/
def ofType (t : BgpMsgType) (ms : List WireMessage) : Counter := UInt32.ofNat (ms.countP (·.type = t))

/-- The number of messages of each type, and of all bytes. -/
def TxCounters.of (ms : List WireMessage) : TxCounters where
  opens := ofType .openMsg ms
  update := ofType .update ms
  notify := ofType .notification ms
  keepaliv := ofType .keepalive ms
  routeref := ofType .routerefresh ms
  bytes := UInt32.ofNat (wire ms).length

/-- What `send_packet` adds for a message. -/
def TxCounters.add (c : TxCounters) (m : WireMessage) : TxCounters where
  opens := if m.type = .openMsg then c.opens + 1 else c.opens
  update := if m.type = .update then c.update + 1 else c.update
  notify := if m.type = .notification then c.notify + 1 else c.notify
  keepaliv := if m.type = .keepalive then c.keepaliv + 1 else c.keepaliv
  routeref := if m.type = .routerefresh then c.routeref + 1 else c.routeref
  bytes := c.bytes + (UInt16.ofNat (m.payload.length + 19)).toUInt32

theorem ofType_snoc (t : BgpMsgType) (ms : List WireMessage) (m : WireMessage) :
    ofType t (ms ++ [m]) = if m.type = t then ofType t ms + 1 else ofType t ms := by
  simp only [ofType, List.countP_append, List.countP_singleton, decide_eq_true_eq]
  split
  · rw [UInt32.ofNat_add]
    rfl
  · rfl

/-- Messages of ordinary length are counted one by one. -/
theorem TxCounters.of_snoc (ms : List WireMessage) {m : WireMessage} (h : m.payload.length + 19 < 65536) :
    TxCounters.of (ms ++ [m]) = (TxCounters.of ms).add m := by
  have hlen : (UInt16.ofNat (m.payload.length + 19)).toUInt32 = UInt32.ofNat (m.payload.length + 19) := by
    apply UInt32.toNat_inj.mp
    simp only [UInt16.toNat_toUInt32, UInt16.toNat_ofNat', UInt32.toNat_ofNat']
    omega
  simp only [TxCounters.of, TxCounters.add, ofType_snoc, wire_append, wire_singleton, List.length_append,
    UInt32.ofNat_add, m.length_frame, hlen]

/-- A message is never counted as nothing. -/
theorem TxCounters.add_bytes_ne (c : TxCounters) {m : WireMessage} (h : m.payload.length + 19 < 65536) :
    (c.add m).bytes ≠ c.bytes := by
  intro heq
  have hnat := congrArg UInt32.toNat heq
  have hc := c.bytes.toNat_lt
  simp only [add, UInt32.toNat_add, UInt16.toNat_toUInt32, UInt16.toNat_ofNat'] at hnat
  omega

/-! ## Sending -/

variable {cfg : BgpConfig} {now : TimeT} {p p' q : BgpPeer}

namespace BgpPeer

theorem sendPacket_txCounters {payload : List UInt8} {t : BgpMsgType} (hstate : p.state ≠ .idle)
    (ht : t ≠ .update) : (p.sendPacket now payload t).txCounters = p.txCounters.add ⟨t, payload⟩ := by
  unfold sendPacket
  rw [if_neg hstate, if_neg ht]
  cases t with
  | update => exact absurd rfl ht
  | _ => rfl

theorem sendPacket_frame {payload : List UInt8} {t : BgpMsgType} (hstate : p.state ≠ .idle)
    (ht : t ≠ .update) (hconnected : p.connected = true) :
    (p.sendPacket now payload t).tcp.sent = p.tcp.sent ++ WireMessage.frame ⟨t, payload⟩ := by
  rw [sendPacket_sent hstate ht hconnected, WireMessage.frame]
  simp only [List.append_assoc]

theorem sendPacket_unsent (now : TimeT) (payload : List UInt8) (t : BgpMsgType) (hconnected : p.connected = false) :
    (p.sendPacket now payload t).tcp = p.tcp := by
  have hclosed : p.tcp.connected = false := hconnected
  by_cases hstate : p.state = .idle
  · rw [sendPacket, if_pos hstate]
  · by_cases ht : t = .update
    · rw [sendPacket, if_neg hstate, if_pos ht]
    · simp [sendPacket_tcp hstate ht, writePacket, TcpClient.write, hclosed]

end BgpPeer

/-! ## What a step says -/

/-- What a step makes of what has been written on a connection, and of the counters. -/
inductive Speech (cfg : BgpConfig) (p p' : BgpPeer) : Prop where
  | silent : p'.tcp.sent = p.tcp.sent → p'.txCounters = p.txCounters →
      (p'.connected = true → p.connected = true) → Speech cfg p p'
  | keepalive : p.connected = true → p'.tcp.sent = p.tcp.sent ++ WireMessage.keepalive.frame →
      p'.txCounters = p.txCounters.add .keepalive → Speech cfg p p'
  | final (m : WireMessage) : m.Final → p.connected = true → p'.tcp.sent = p.tcp.sent ++ m.frame →
      p'.txCounters = p.txCounters.add m → p'.connected = false → Speech cfg p p'

/-- What `init_peer_states` says: its OPEN, or nothing. -/
inductive OpeningSpeech (cfg : BgpConfig) (attempt : ConnectAttempt) (p p' : BgpPeer) : Prop where
  | refused : attempt.connect = false → p'.tcp.sent = p.tcp.sent → p'.txCounters = p.txCounters →
      p'.connected = false → OpeningSpeech cfg attempt p p'
  | dropped : attempt.connect = true → p'.tcp.sent = [] → p'.txCounters = p.txCounters →
      p'.connected = false → OpeningSpeech cfg attempt p p'
  | opened : attempt.connect = true → p'.tcp.sent = (WireMessage.opened cfg).frame →
      p'.txCounters = p.txCounters.add (.opened cfg) → OpeningSpeech cfg attempt p p'

/-- A check of the hold timer finds the connection open, or nothing that is due. -/
def BgpPeer.Live (p : BgpPeer) (now : TimeT) : Prop :=
  p.state = .established → p.connected = false →
    now.toInt - p.lastIo.lastRead.toInt < p.holdTime.toNat ∧ now.toInt - p.keepaliv.lastTx.toInt < p.keepAlive.toNat

instance (p : BgpPeer) (now : TimeT) : Decidable (p.Live now) := inferInstanceAs (Decidable (_ → _))

/-- The connection has ended, and a message is counted that is not written. -/
structure Muted (p p' : BgpPeer) : Prop where
  sent : p'.tcp.sent = p.tcp.sent
  connected : p'.connected = false
  counted : ∃ m : WireMessage, m.payload.length ≤ 2 ∧ p'.txCounters = p.txCounters.add m

/-! ### OPEN -/

theorem rejectOpen_speech (now : TimeT) (sub : BgpOpenErrorSubcode) (hstate : p.state ≠ .idle)
    (hconnected : p.connected = true) : Speech cfg p (rejectOpen p now sub) := by
  refine .final _ (.rejected sub) hconnected ?_ ?_ rfl
  · exact BgpPeer.sendPacket_frame hstate (by simp) hconnected
  · exact BgpPeer.sendPacket_txCounters hstate (by simp)

theorem decodeOpen_speech {packet : List UInt8} (hstate : p.state ≠ .idle) (hconnected : p.connected = true)
    (h : decodeOpen cfg p now packet = .ok p') : Speech cfg p p' := by
  simp only [decodeOpen, Checked.bind_eq_ok, Checked.pure_eq_ok, Except.ok.injEq] at h
  obtain ⟨hdr, -, rfl⟩ := h
  unfold acceptOpen
  split
  · exact rejectOpen_speech now .unsupVerNum hstate hconnected
  · simp only
    split
    · -- the version that is copied first is neither counted nor written
      have hrejected : Speech cfg { p with version := (p.version &&& 0xff00) ||| hdr.version.toUInt16 } _ :=
        rejectOpen_speech now .badPeerAs hstate hconnected
      cases hrejected with
      | silent hsent hcount hconn => exact .silent hsent hcount hconn
      | keepalive hconn hsent hcount => exact .keepalive hconn hsent hcount
      | final m hm hconn hsent hcount hclosed => exact .final m hm hconn hsent hcount hclosed
    · apply Speech.keepalive hconnected
      · exact BgpPeer.sendPacket_frame (by simp) (by simp) hconnected
      · exact BgpPeer.sendPacket_txCounters (by simp) (by simp)

/-! ### Messages -/

theorem dispatch_speech {receipt : Receipt} {type : BgpMsgType} {buffer : List UInt8} {length : Nat}
    (hstate : p.state ≠ .idle) (hconnected : p.connected = true)
    (h : dispatch cfg now receipt type buffer length p = .ok p') : Speech cfg p p' := by
  cases type with
  | openMsg =>
      have hdecode := decodeOpen_speech
        (p := { p with opens := { p.opens with rx := p.opens.rx + 1, lastRx := now } }) hstate hconnected h
      cases hdecode with
      | silent hsent hcount hconn => exact .silent hsent hcount hconn
      | keepalive hconn hsent hcount => exact .keepalive hconn hsent hcount
      | final m hm hconn hsent hcount hclosed => exact .final m hm hconn hsent hcount hclosed
  | keepalive =>
      simp only [dispatch, Except.ok.injEq] at h
      subst h
      split
      · apply Speech.keepalive hconnected
        · exact BgpPeer.sendPacket_frame (by simp) (by simp) hconnected
        · exact BgpPeer.sendPacket_txCounters (by simp) (by simp)
      · apply Speech.keepalive hconnected
        · exact BgpPeer.sendPacket_frame hstate (by simp) hconnected
        · exact BgpPeer.sendPacket_txCounters hstate (by simp)
  | notification =>
      simp only [dispatch, Checked.bind_eq_ok, Checked.pure_eq_ok, Except.ok.injEq] at h
      obtain ⟨_, _, rfl⟩ := h
      exact .silent rfl rfl id
  | update =>
      simp only [dispatch] at h
      split at h
      · cases h
        exact .silent rfl rfl id
      · cases h
  | routerefresh =>
      cases h
      exact .silent rfl rfl id
  | other code =>
      cases h
      exact .silent rfl rfl id

/-! ### The hold timer -/

theorem holdTimerExpired_speech (cfg : BgpConfig) (p : BgpPeer) (now : TimeT) :
    (p.Live now ∧ Speech cfg p (holdTimerExpired p now).2) ∨ (¬ p.Live now ∧ Muted p (holdTimerExpired p now).2) := by
  unfold holdTimerExpired
  split
  · rename_i hdown
    exact Or.inl ⟨fun hup => absurd hup hdown, .silent rfl rfl id⟩
  · rename_i hup
    have hup : p.state = .established := not_not.mp hup
    have hstate : p.state ≠ .idle := by simp [hup]
    cases hconnected : p.connected with
    | true =>
        have hlive : p.Live now := by
          intro _ hclosed
          rw [hconnected] at hclosed
          cases hclosed
        refine Or.inl ⟨hlive, ?_⟩
        split
        · apply Speech.final _ .expired hconnected
          · exact BgpPeer.sendPacket_frame hstate (by simp) hconnected
          · exact BgpPeer.sendPacket_txCounters hstate (by simp)
          · rfl
        · split
          · apply Speech.keepalive hconnected
            · exact BgpPeer.sendPacket_frame hstate (by simp) hconnected
            · exact BgpPeer.sendPacket_txCounters hstate (by simp)
          · exact .silent rfl rfl id
    | false =>
        split
        · rename_i hexpired
          have hunsent := congrArg TcpClient.sent (BgpPeer.sendPacket_unsent now
            [BgpErrorCode.holdTimeExpired.toByte, 0] .notification hconnected)
          refine Or.inr ⟨?_, hunsent, rfl, ⟨.notification, [BgpErrorCode.holdTimeExpired.toByte, 0]⟩, le_refl 2,
            BgpPeer.sendPacket_txCounters hstate (by simp)⟩
          intro hlive
          exact absurd (hlive hup hconnected).1 (by omega)
        · rename_i hrunning
          split
          · rename_i hdue
            have hunsent := BgpPeer.sendPacket_unsent now [] .keepalive hconnected
            refine Or.inr ⟨?_, congrArg TcpClient.sent hunsent,
              (congrArg TcpClient.connected hunsent).trans hconnected, .keepalive, Nat.zero_le 2,
              BgpPeer.sendPacket_txCounters hstate (by simp)⟩
            intro hlive
            exact absurd (hlive hup hconnected).2 (by omega)
          · rename_i hearly
            exact Or.inl ⟨fun _ _ => ⟨by omega, by omega⟩, .silent rfl rfl id⟩

/-! ### Connecting -/

/-- An attempt whose connection is kept has changed nothing but it, and one that is dropped has written
nothing. -/
structure Fresh (p p' : BgpPeer) : Prop where
  sent : p'.tcp.sent = []
  counters : p'.txCounters = p.txCounters
  open_iff : p'.connected = true ↔ p'.state ≠ .idle

theorem resizeStream_fresh {ok : Bool} (hq : Fresh p q) (h : resizeStream ok q = .ok p') : Fresh p p' := by
  unfold resizeStream at h
  split at h
  · cases h
    cases ok with
    | true => exact hq
    | false => exact ⟨hq.sent, hq.counters, by simp [BgpPeer.dropToIdle, BgpPeer.disconnect, BgpPeer.connected,
        TcpClient.disconnect, TcpClient.connected]⟩
  · cases h

theorem resizeSocket_fresh (ok : Bool) (hq : Fresh p q) : Fresh p (resizeSocket ok q) := by
  cases ok with
  | true => exact hq
  | false => exact ⟨hq.sent, hq.counters, by simp [resizeSocket, BgpPeer.dropToIdle, BgpPeer.disconnect,
      BgpPeer.connected, TcpClient.disconnect, TcpClient.connected]⟩

theorem initPeerStates_speech {attempt : ConnectAttempt} (h : initPeerStates cfg now attempt p = .ok p') :
    OpeningSpeech cfg attempt p p' := by
  unfold initPeerStates at h
  split at h
  · rename_i hattempt
    simp only [Checked.bind_eq_ok, Checked.pure_eq_ok, Except.ok.injEq] at h
    obtain ⟨p₁, h₁, p₂, h₂, rfl⟩ := h
    have hconnect : Fresh p { p with tcp := p.tcp.connect, state := .connect } :=
      ⟨rfl, rfl, by simp [BgpPeer.connected, TcpClient.connect, TcpClient.connected]⟩
    have hfresh := resizeSocket_fresh attempt.tcpTx
      (resizeSocket_fresh attempt.tcpRx (resizeStream_fresh (resizeStream_fresh hconnect h₁) h₂))
    split
    · rename_i hidle
      refine .dropped hattempt hfresh.sent hfresh.counters ?_
      cases hconnected : BgpPeer.connected _ with
      | true => exact absurd hidle (hfresh.open_iff.mp hconnected)
      | false => rfl
    · rename_i hkept
      apply OpeningSpeech.opened hattempt
      · have hsent : (BgpPeer.sendPacket _ now (openPayload cfg) .openMsg).tcp.sent = _ :=
          BgpPeer.sendPacket_frame hkept (by simp) (hfresh.open_iff.mpr hkept)
        rw [hfresh.sent, List.nil_append] at hsent
        exact hsent
      · have hcount : (BgpPeer.sendPacket _ now (openPayload cfg) .openMsg).txCounters = _ :=
          BgpPeer.sendPacket_txCounters hkept (by simp)
        rw [hfresh.counters] at hcount
        exact hcount
  · rename_i hattempt
    cases h
    exact .refused (by simpa using hattempt) rfl rfl rfl

end Log2Bgp
