import Log2Bgp.Session.Theorems

/-!
# An OPEN between two instances
-/

namespace Log2Bgp

open Lib

variable {sender receiver : BgpConfig} {p q : BgpPeer} {now later : TimeT} {receipt : Receipt}
variable {uninit : List UInt8}

/-- The payload of `send_open`. -/
def openPayload (cfg : BgpConfig) : List UInt8 :=
  [cfg.version, (cfg.AS >>> 8).toUInt8, (cfg.AS &&& 0xff).toUInt8,
    (cfg.holdTime >>> 8).toUInt8, (cfg.holdTime &&& 0xff).toUInt8,
    (cfg.bgpId &&& 0xff).toUInt8, (cfg.bgpId >>> 8).toUInt8, (cfg.bgpId >>> 16).toUInt8,
    (cfg.bgpId >>> 24).toUInt8, 0]

/-- The bytes that `send_open` writes: the marker, a length of 29, the type and the payload. -/
def openBytes (cfg : BgpConfig) : List UInt8 := List.replicate 16 0xff ++ 0 :: 29 :: 1 :: openPayload cfg

theorem sendOpen_sent (hstate : p.state ≠ .idle) (hconnected : p.connected = true) :
    (sendOpen sender p now).tcp.sent = p.tcp.sent ++ openBytes sender := by
  have hlength : BgpPeer.lengthBytes (openPayload sender) = [0, 29] := by
    show ([((UInt16.ofNat 29) >>> 8).toUInt8, ((UInt16.ofNat 29) &&& 0xff).toUInt8] : List UInt8) = [0, 29]
    decide
  show (p.sendPacket now (openPayload sender) .openMsg).tcp.sent = _
  rw [BgpPeer.sendPacket_sent hstate (by simp) hconnected, hlength, openBytes]
  simp [BgpMsgType.toByte]

/-- What the other side reads out of an OPEN: of the hold time, the sum of its two bytes. -/
def readBack (cfg : BgpConfig) : BgpOpen :=
  { version := cfg.version
    AS := cfg.AS
    holdTime := (cfg.holdTime &&& 0xff).toUInt8.toUInt16 + (cfg.holdTime >>> 8).toUInt8.toUInt16
    bgpId := cfg.bgpId
    optParamLen := 0 }

theorem readOpen_cons (version as₁ as₀ hold₁ hold₀ id₀ id₁ id₂ id₃ params : UInt8) (rest : List UInt8) :
    readOpen (version :: as₁ :: as₀ :: hold₁ :: hold₀ :: id₀ :: id₁ :: id₂ :: id₃ :: params :: rest) = .ok
      { version := version
        AS := be16 as₁ as₀
        holdTime := hold₀.toUInt16 + hold₁.toUInt16
        bgpId := be32 id₃ id₂ id₁ id₀
        optParamLen := params.toUInt32 } := rfl

theorem readOpen_openPayload : readOpen (openPayload sender ++ uninit) = .ok (readBack sender) := by
  simp only [openPayload, List.cons_append, readOpen_cons, be16_shift, be32_shift, readBack]
  rfl

/-- The sum of the two bytes is the number that they spell just in case the high one is zero. -/
theorem holdTime_sum (v : UInt16) :
    (v &&& 0xff).toUInt8.toUInt16 + (v >>> 8).toUInt8.toUInt16 = v ↔ v.toNat ≤ 255 := by
  have hv := v.toNat_lt
  have hlow := (v &&& 0xff).toUInt8.toNat_lt
  have hhigh := (v >>> 8).toUInt8.toNat_lt
  have hspell := congrArg UInt16.toNat (be16_shift v)
  rw [toNat_be16] at hspell
  rw [← UInt16.toNat_inj, UInt16.toNat_add, UInt8.toNat_toUInt16, UInt8.toNat_toUInt16]
  omega

theorem acceptOpen_took (q : BgpPeer) (now : TimeT) {hdr : BgpOpen} (hversion : hdr.version = receiver.version) (hAS : hdr.AS = q.AS) :
    (acceptOpen receiver q now hdr).Took hdr ∧ (acceptOpen receiver q now hdr).state = .openconfirm ∧
      (acceptOpen receiver q now hdr).connected = q.connected ∧ (acceptOpen receiver q now hdr).opens = q.opens := by
  have hopens : ∀ p : BgpPeer, (p.sendPacket now [] .keepalive).opens = p.opens := by
    intro p
    unfold BgpPeer.sendPacket
    split
    · rfl
    · rfl
  have hsame := fun p => BgpPeer.sendPacket_sameSession p now [] .keepalive
  unfold acceptOpen
  simp only [hversion, ne_eq, not_true_eq_false, ↓reduceIte, hAS]
  exact ⟨⟨(hsame _).bgpId, (hsame _).holdTime, (hsame _).keepAlive, (hsame _).optParamLen⟩,
    BgpPeer.sendPacket_state .., (hsame _).connected, hopens _⟩

theorem readMessage_openBytes (later : TimeT) (receipt : Receipt) (uninit : List UInt8)
    (hversion : receiver.version = sender.version) (hAS : q.AS = sender.AS) (rest : List UInt8) :
    ∃ q', readMessage receiver later receipt uninit q (openBytes sender ++ rest) = .ok (q', rest) ∧
      q'.opens.rx = q.opens.rx + 1 ∧ q'.state = .openconfirm ∧ q'.Took (readBack sender) := by
  have hdrop : (openBytes sender ++ rest).drop 16 = 0 :: 29 :: 1 :: (openPayload sender ++ rest) := by
    simp [openBytes]
  have hlong : ¬ (openPayload sender ++ rest).length < 10 := by simp [openPayload]
  have htake : (openPayload sender ++ rest).take 10 = openPayload sender := List.take_left' rfl
  have hleft : (openPayload sender ++ rest).drop 10 = rest := List.drop_left' rfl
  have hread : readOpen (openPayload sender ++ uninit) = .ok (readBack sender) := readOpen_openPayload
  have hversion' : (readBack sender).version = receiver.version := hversion.symm
  have hAS' : (readBack sender).AS = q.AS := hAS.symm
  obtain ⟨htook, hstate, -, hopens⟩ := acceptOpen_took
    { q.readAt later with opens := { q.opens with rx := q.opens.rx + 1, lastRx := later } } later hversion' hAS'
  rw [readMessage_of_long hdrop (n := 10) (by decide), if_neg hlong, htake, hleft]
  simp only [BgpMsgType.ofByte, dispatch, decodeOpen, hread, Checked.ok_bind, Checked.pure_eq_ok]
  exact ⟨_, rfl, congrArg BytesTxRx.rx hopens, hstate, htook⟩

/-! ## The other side -/

/-- The other side reads the bytes as one OPEN, accepts it and has its values. -/
def Understood (sender receiver : BgpConfig) (later : TimeT) (receipt : Receipt) (uninit : List UInt8)
    (q : BgpPeer) (bytes : List UInt8) : Prop :=
  ∀ rest, ∃ q', readMessage receiver later receipt uninit q (bytes ++ rest) = .ok (q', rest) ∧
    q'.opens.rx = q.opens.rx + 1 ∧ q'.state = .openconfirm ∧
    q'.holdTime = sender.holdTime ∧ q'.bgpId = sender.bgpId ∧ q'.keepAlive = sender.holdTime / 3

theorem understood_iff (hversion : receiver.version = sender.version) (hAS : q.AS = sender.AS) :
    Understood sender receiver later receipt uninit q (openBytes sender) ↔ sender.holdTime.toNat ≤ 255 := by
  rw [← holdTime_sum]
  constructor
  · intro h
    obtain ⟨q', hread, -, -, hhold, -, -⟩ := h []
    obtain ⟨q₁, hread', -, -, htook⟩ := readMessage_openBytes later receipt uninit hversion hAS []
    cases hread.symm.trans hread'
    exact htook.holdTime.symm.trans hhold
  · intro hsum rest
    obtain ⟨q', hread, hrx, hstate, htook⟩ := readMessage_openBytes later receipt uninit hversion hAS rest
    have hhold : (readBack sender).holdTime = sender.holdTime := hsum
    exact ⟨q', hread, hrx, hstate, htook.holdTime.trans hhold, htook.bgpId, hhold ▸ htook.keepAlive⟩

namespace Example

/-- A peer of AS 2 that is connected. -/
def opening : BgpPeer := { AS := 2, state := .connect, tcp := { isOpen := true } }

/-- An instance of AS 2 with a hold time of 300 seconds. -/
def slow : BgpConfig := { constructedConfig 2 7 with holdTime := 300 }

end Example

/-- A hold time of 300 seconds is read as one of 45. -/
theorem open_misread : ∃ bytes,
    (sendOpen Example.slow Example.opening 0).tcp.sent = Example.opening.tcp.sent ++ bytes ∧
      ¬ Understood Example.slow (constructedConfig 1 9) 5 ⟨0, 0, .opensent⟩ [] Example.opening bytes := by
  refine ⟨_, sendOpen_sent (by decide) rfl, fun h => ?_⟩
  have hiff : Understood Example.slow (constructedConfig 1 9) 5 ⟨0, 0, .opensent⟩ [] Example.opening
      (openBytes Example.slow) ↔ Example.slow.holdTime.toNat ≤ 255 := understood_iff rfl rfl
  exact absurd (hiff.mp h) (by decide)

/-- What `send_open` writes is understood on the other side just when its hold time fits one byte. -/
theorem open_understood_iff (AS myAS : UInt16) (holdTime myHoldTime : UInt16) (bgpId myId : UInt32)
    {p q : BgpPeer} (hstate : p.state ≠ .idle) (hconnected : p.connected = true) (hAS : q.AS = AS)
    (now later : TimeT) (receipt : Receipt) (uninit : List UInt8) :
    ∃ bytes, (sendOpen { constructedConfig AS bgpId with holdTime } p now).tcp.sent = p.tcp.sent ++ bytes ∧
      (Understood { constructedConfig AS bgpId with holdTime }
        { constructedConfig myAS myId with holdTime := myHoldTime } later receipt uninit q bytes ↔
          holdTime.toNat ≤ 255) :=
  ⟨_, sendOpen_sent hstate hconnected, understood_iff rfl hAS⟩

theorem open_understood_default : ∃ bytes,
    (sendOpen { constructedConfig 2 7 with holdTime := 180 } Example.opening 0).tcp.sent =
        Example.opening.tcp.sent ++ bytes ∧
      (Understood { constructedConfig 2 7 with holdTime := 180 } { constructedConfig 1 9 with holdTime := 180 } 5
        ⟨0, 0, .opensent⟩ [] Example.opening bytes ↔ (180 : UInt16).toNat ≤ 255) :=
  open_understood_iff 2 1 180 180 7 9 (by decide) rfl rfl 0 5 ⟨0, 0, .opensent⟩ []

end Log2Bgp
