import Log2Bgp.Session.Run

/-!
# What messages settle for a peer
-/

namespace Log2Bgp

open Lib

variable {cfg : BgpConfig} {now : TimeT} {p p' q : BgpPeer} {hdr : BgpOpen}

/-! ## Sending -/

namespace TcpClient

@[simp] theorem write_connected (c : TcpClient) (bytes : List UInt8) :
    (c.write bytes).connected = c.connected := by
  unfold write
  split
  · rfl
  · rfl

theorem write_sent {c : TcpClient} (h : c.connected = true) (bytes : List UInt8) :
    (c.write bytes).sent = c.sent ++ bytes := by
  rw [write, if_pos h]

end TcpClient

namespace BgpPeer

/-- What sending leaves alone: the values of the session and the connection. -/
structure SameSession (p q : BgpPeer) : Prop where
  AS : q.AS = p.AS
  bgpId : q.bgpId = p.bgpId
  holdTime : q.holdTime = p.holdTime
  keepAlive : q.keepAlive = p.keepAlive
  optParamLen : q.optParamLen = p.optParamLen
  connected : q.connected = p.connected

theorem SameSession.refl (p : BgpPeer) : SameSession p p := ⟨rfl, rfl, rfl, rfl, rfl, rfl⟩

theorem SameSession.took (h : SameSession p q) (ht : p.Took hdr) : q.Took hdr where
  bgpId := h.bgpId.trans ht.bgpId
  holdTime := h.holdTime.trans ht.holdTime
  keepAlive := h.keepAlive.trans ht.keepAlive
  optParamLen := h.optParamLen.trans ht.optParamLen

/-- The two bytes of a packet's length. -/
def lengthBytes (payload : List UInt8) : List UInt8 :=
  [((UInt16.ofNat (payload.length + 19)) >>> 8).toUInt8, ((UInt16.ofNat (payload.length + 19)) &&& 0xff).toUInt8]

theorem lengthBytes_pair (a b : UInt8) : lengthBytes [a, b] = [0, 21] := by
  show ([((UInt16.ofNat 21) >>> 8).toUInt8, ((UInt16.ofNat 21) &&& 0xff).toUInt8] : List UInt8) = [0, 21]
  decide

/-- The stream after a packet has been written to it. -/
def writePacket (c : TcpClient) (payload : List UInt8) (t : BgpMsgType) : TcpClient :=
  (((c.write (List.replicate 16 0xff)).write (lengthBytes payload)).write [t.toByte]).write payload

theorem sendPacket_tcp {payload : List UInt8} {t : BgpMsgType} (hstate : p.state ≠ .idle)
    (ht : t ≠ .update) : (p.sendPacket now payload t).tcp = writePacket p.tcp payload t := by
  unfold sendPacket
  rw [if_neg hstate, if_neg ht]
  cases t <;> rfl

theorem sendPacket_sameSession (p : BgpPeer) (now : TimeT) (payload : List UInt8) (t : BgpMsgType) :
    SameSession p (p.sendPacket now payload t) := by
  by_cases hstate : p.state = .idle
  · rw [sendPacket, if_pos hstate]
    exact SameSession.refl p
  · by_cases ht : t = .update
    · rw [sendPacket, if_neg hstate, if_pos ht]
      exact SameSession.refl p
    · have hconnected : (p.sendPacket now payload t).connected = p.connected := by
        rw [connected, sendPacket_tcp hstate ht]
        simp [writePacket, connected]
      refine ⟨?_, ?_, ?_, ?_, ?_, hconnected⟩
      all_goals
        rw [sendPacket, if_neg hstate, if_neg ht]
        cases t <;> rfl

theorem sendPacket_sent {payload : List UInt8} {t : BgpMsgType} (hstate : p.state ≠ .idle)
    (ht : t ≠ .update) (hconnected : p.connected = true) :
    (p.sendPacket now payload t).tcp.sent =
      p.tcp.sent ++ List.replicate 16 0xff ++ lengthBytes payload ++ [t.toByte] ++ payload := by
  have hopen : p.tcp.connected = true := hconnected
  rw [sendPacket_tcp hstate ht, writePacket, TcpClient.write_sent (by simp [hopen]),
    TcpClient.write_sent (by simp [hopen]), TcpClient.write_sent (by simp [hopen]), TcpClient.write_sent hopen]

end BgpPeer

open BgpPeer (SameSession)

/-! ## OPEN -/

theorem rejectOpen_rejected (now : TimeT) (sub : BgpOpenErrorSubcode) (hstate : p.state ≠ .idle)
    (hconnected : p.connected = true) : p.Rejected (rejectOpen p now sub) := by
  have hsame := BgpPeer.sendPacket_sameSession p now [BgpErrorCode.openMsgErr.toByte, sub.toByte] .notification
  refine ⟨hsame.AS, hsame.bgpId, hsame.holdTime, hsame.keepAlive, ⟨sub, ?_⟩, rfl, rfl⟩
  show (p.sendPacket now [BgpErrorCode.openMsgErr.toByte, sub.toByte] .notification).tcp.sent = _
  rw [BgpPeer.sendPacket_sent hstate (by simp) hconnected, BgpPeer.lengthBytes_pair]
  simp only [List.append_assoc, List.cons_append, List.nil_append]

/-- An OPEN is accepted, and settles the values of the session, or it is rejected. -/
theorem decodeOpen_settles {packet : List UInt8} (hversion : cfg.version = 4) (hstate : p.state ≠ .idle)
    (hconnected : p.connected = true) (h : decodeOpen cfg p now packet = .ok p') :
    ∃ hdr, readOpen packet = .ok hdr ∧
      ((hdr.Accepted p.AS ∧ p'.Took hdr ∧ p'.AS = p.AS ∧ p'.state = .openconfirm) ∨
        (¬ hdr.Accepted p.AS ∧ p.Rejected p')) := by
  simp only [decodeOpen, Checked.bind_eq_ok, Checked.pure_eq_ok, Except.ok.injEq] at h
  obtain ⟨hdr, hread, rfl⟩ := h
  refine ⟨hdr, hread, ?_⟩
  unfold acceptOpen
  rw [hversion]
  split
  · rename_i hv
    exact Or.inr ⟨fun hacc => hv hacc.1, rejectOpen_rejected now .unsupVerNum hstate hconnected⟩
  · rename_i hv
    simp only
    split
    · rename_i hAS
      refine Or.inr ⟨fun hacc => hAS hacc.2, ?_⟩
      -- the version that is copied first plays no part in what follows
      have hrejected := rejectOpen_rejected
        (p := { p with version := (p.version &&& 0xff00) ||| hdr.version.toUInt16 }) now .badPeerAs hstate hconnected
      exact ⟨hrejected.AS, hrejected.bgpId, hrejected.holdTime, hrejected.keepAlive, hrejected.sent,
        hrejected.state, hrejected.connected⟩
    · rename_i hAS
      have hsame := fun q => BgpPeer.sendPacket_sameSession q now [] .keepalive
      exact Or.inl ⟨⟨not_not.mp hv, not_not.mp hAS⟩,
        ⟨(hsame _).bgpId, (hsame _).holdTime, (hsame _).keepAlive, (hsame _).optParamLen⟩,
        (hsame _).AS.trans (not_not.mp hAS), BgpPeer.sendPacket_state ..⟩

/-! ## Other messages, the hold timer and connecting -/

theorem dispatch_keeps {receipt : Receipt} {type : BgpMsgType} {buffer : List UInt8} {length : Nat}
    (htype : type ≠ .openMsg) (h : dispatch cfg now receipt type buffer length p = .ok p') :
    SameSession p p' ∧
      (p'.state = p.state ∨ (type = .keepalive ∧ p.state = .openconfirm ∧ p'.state = .established)) := by
  cases type with
  | openMsg => exact absurd rfl htype
  | keepalive =>
      simp only [dispatch, Except.ok.injEq] at h
      have hsend := fun q => BgpPeer.sendPacket_sameSession q now [] .keepalive
      split at h
      · rename_i hstate
        cases h
        have hkept := hsend { p with
          keepaliv := { p.keepaliv with rx := p.keepaliv.rx + 1, lastRx := now }
          state := .established
          upSince := now }
        exact ⟨⟨hkept.AS, hkept.bgpId, hkept.holdTime, hkept.keepAlive, hkept.optParamLen, hkept.connected⟩,
          Or.inr ⟨rfl, hstate, BgpPeer.sendPacket_state ..⟩⟩
      · cases h
        have hkept := hsend { p with keepaliv := { p.keepaliv with rx := p.keepaliv.rx + 1, lastRx := now } }
        exact ⟨⟨hkept.AS, hkept.bgpId, hkept.holdTime, hkept.keepAlive, hkept.optParamLen, hkept.connected⟩,
          Or.inl (BgpPeer.sendPacket_state ..)⟩
  | notification =>
      simp only [dispatch, Checked.bind_eq_ok, Checked.pure_eq_ok, Except.ok.injEq] at h
      obtain ⟨_, _, rfl⟩ := h
      exact ⟨⟨rfl, rfl, rfl, rfl, rfl, rfl⟩, Or.inl rfl⟩
  | update =>
      simp only [dispatch] at h
      split at h
      · cases h
        exact ⟨⟨rfl, rfl, rfl, rfl, rfl, rfl⟩, Or.inl rfl⟩
      · cases h
  | routerefresh =>
      cases h
      exact ⟨⟨rfl, rfl, rfl, rfl, rfl, rfl⟩, Or.inl rfl⟩
  | other code =>
      cases h
      exact ⟨SameSession.refl _, Or.inl rfl⟩

theorem holdTimerExpired_keeps (p : BgpPeer) (now : TimeT) :
    (SameSession p (holdTimerExpired p now).2 ∧ (holdTimerExpired p now).2.state = p.state) ∨
      ((holdTimerExpired p now).2.AS = p.AS ∧ (holdTimerExpired p now).2.state = .idle) := by
  unfold holdTimerExpired
  split
  · exact Or.inl ⟨SameSession.refl p, rfl⟩
  · split
    · exact Or.inr ⟨(BgpPeer.sendPacket_sameSession p now _ .notification).AS, rfl⟩
    · split
      · exact Or.inl ⟨BgpPeer.sendPacket_sameSession p now [] .keepalive, BgpPeer.sendPacket_state ..⟩
      · exact Or.inl ⟨SameSession.refl p, rfl⟩

theorem resizeStream_AS {ok : Bool} (h : resizeStream ok p = .ok p') : p'.AS = p.AS := by
  unfold resizeStream at h
  split at h
  · cases h
    split
    · rfl
    · rfl
  · cases h

theorem resizeSocket_AS (ok : Bool) (p : BgpPeer) : (resizeSocket ok p).AS = p.AS := by
  unfold resizeSocket
  split
  · rfl
  · rfl

theorem initPeerStates_AS {attempt : ConnectAttempt} (h : initPeerStates cfg now attempt p = .ok p') :
    p'.AS = p.AS := by
  unfold initPeerStates at h
  split at h
  · simp only [Checked.bind_eq_ok, Checked.pure_eq_ok, Except.ok.injEq] at h
    obtain ⟨p₁, h₁, p₂, h₂, rfl⟩ := h
    have hsocket : (resizeSocket attempt.tcpTx (resizeSocket attempt.tcpRx p₂)).AS = p.AS := by
      rw [resizeSocket_AS, resizeSocket_AS, resizeStream_AS h₂, resizeStream_AS h₁]
    split
    · exact hsocket
    · exact (BgpPeer.sendPacket_sameSession _ now _ .openMsg).AS.trans hsocket
  · cases h
    rfl

end Log2Bgp
