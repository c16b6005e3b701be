import Log2Bgp.Daemon.Lemmas.Messages

/-!
# What a thread does to its peer
-/

namespace Log2Bgp

open Lib

/-- The counters of a peer's routes. -/
def BgpPeer.counters (p : BgpPeer) : BytesTxRx × ByteTxRxCurrent × ByteTxRxCurrent :=
  (p.prefixes, p.implicitWithdraw, p.explicitWithdraw)

/-- An OPEN has been accepted on the connection. -/
def BgpPeer.Confirmed (p : BgpPeer) : Prop := p.state = .openconfirm ∨ p.state = .established

/-- The identifier of an OPEN that `decode_open` accepts: it is of the right version and AS. -/
def acceptedId (cfg : BgpConfig) (p : BgpPeer) (packet : List UInt8) : Option UInt32 :=
  match readOpen packet with
  | .ok hdr => if hdr.version = cfg.version ∧ hdr.AS = p.AS then some hdr.bgpId else none
  | .error _ => none

/-- The identifier that a step of a thread gives to its peer. -/
def ThreadAction.acceptedId (cfg : BgpConfig) (p : BgpPeer) : ThreadAction → Option UInt32
  | .receive _ .openMsg payload uninit => Log2Bgp.acceptedId cfg p (payload ++ uninit)
  | _ => none

variable {cfg : BgpConfig} {now : TimeT} {p p' q : BgpPeer}

namespace BgpPeer

theorem SameRoutes.counters (h : SameRoutes p q) : q.counters = p.counters := by
  rw [BgpPeer.counters, h.prefixes, h.implicitWithdraw, h.explicitWithdraw]
  rfl

theorem not_confirmed_of_idle (h : p.state = .idle) : ¬ p.Confirmed := by
  rintro (h' | h')
  · rw [h] at h'
    cases h'
  · rw [h] at h'
    cases h'

theorem not_confirmed_of_opensent (h : p.state = .opensent) : ¬ p.Confirmed := by
  rintro (h' | h')
  · rw [h] at h'
    cases h'
  · rw [h] at h'
    cases h'

theorem confirmed_of_state (h : q.state = p.state) (hconfirmed : q.Confirmed) : p.Confirmed := by
  rw [Confirmed, h] at hconfirmed
  exact hconfirmed

end BgpPeer

open BgpPeer (SameRoutes)

/-! ## OPEN -/

theorem rejectOpen_cases (p : BgpPeer) (now : TimeT) (sub : BgpOpenErrorSubcode) :
    SameRoutes p (rejectOpen p now sub) ∧ (rejectOpen p now sub).state = .idle := by
  have hsame := BgpPeer.sendPacket_same p now [BgpErrorCode.openMsgErr.toByte, sub.toByte] .notification
  exact ⟨⟨hsame.bgpId, hsame.inQueue, hsame.prefixes, hsame.implicitWithdraw, hsame.explicitWithdraw⟩, rfl⟩

theorem decodeOpen_cases {packet : List UInt8} (h : decodeOpen cfg p now packet = .ok p') :
    p'.inQueue = p.inQueue ∧ p'.counters = p.counters ∧
      ((p'.bgpId = p.bgpId ∧ p'.state = .idle) ∨ acceptedId cfg p packet = some p'.bgpId) := by
  simp only [decodeOpen, Checked.bind_eq_ok, Checked.pure_eq_ok, Except.ok.injEq] at h
  obtain ⟨hdr, hread, rfl⟩ := h
  unfold acceptOpen
  split
  · obtain ⟨hsame, hidle⟩ := rejectOpen_cases p now .unsupVerNum
    exact ⟨hsame.inQueue, hsame.counters, Or.inl ⟨hsame.bgpId, hidle⟩⟩
  · rename_i hversion
    simp only
    split
    · obtain ⟨hsame, hidle⟩ := rejectOpen_cases
        { p with version := (p.version &&& 0xff00) ||| hdr.version.toUInt16 } now .badPeerAs
      exact ⟨hsame.inQueue, hsame.counters, Or.inl ⟨hsame.bgpId, hidle⟩⟩
    · rename_i hAS
      have hsame := fun q => BgpPeer.sendPacket_same q now [] .keepalive
      refine ⟨(hsame _).inQueue, (hsame _).counters, Or.inr ?_⟩
      have haccepted : acceptedId cfg p packet = some hdr.bgpId := by
        rw [acceptedId, hread]
        simp only [not_not.mp hversion, not_not.mp hAS, and_self, ↓reduceIte]
      show acceptedId cfg p packet = some (BgpPeer.sendPacket _ now [] .keepalive).bgpId
      rw [haccepted, (hsame _).bgpId]

/-! ## Messages -/

/-- What a message does to its peer: an UPDATE is queued, an OPEN may be accepted, and nothing else
concerns its routes. -/
theorem dispatch_cases {receipt : Receipt} {type : BgpMsgType} {buffer : List UInt8} {length : Nat}
    (h : dispatch cfg now receipt type buffer length p = .ok p') :
    p'.counters = p.counters ∧
      ((p'.bgpId = p.bgpId ∧ (p'.Confirmed → p.Confirmed)) ∨
        (type = .openMsg ∧ acceptedId cfg p buffer = some p'.bgpId)) ∧
      ((type ≠ .update ∧ p'.inQueue = p.inQueue) ∨
        (type = .update ∧ ∃ d, d.receipt = receipt ∧ p'.inQueue = p.inQueue ++ [d])) := by
  cases type with
  | openMsg =>
      obtain ⟨hqueue, hcounters, hcases⟩ := decodeOpen_cases h
      refine ⟨hcounters, ?_, Or.inl ⟨BgpMsgType.noConfusion, hqueue⟩⟩
      rcases hcases with ⟨hid, hidle⟩ | haccepted
      · exact Or.inl ⟨hid, fun hconfirmed => absurd hconfirmed (BgpPeer.not_confirmed_of_idle hidle)⟩
      · exact Or.inr ⟨rfl, haccepted⟩
  | keepalive =>
      simp only [dispatch, Except.ok.injEq] at h
      split at h
      · rename_i hstate
        cases h
        have hsame := fun q => BgpPeer.sendPacket_same q now [] .keepalive
        exact ⟨(hsame _).counters, Or.inl ⟨(hsame _).bgpId, fun _ => Or.inl hstate⟩,
          Or.inl ⟨BgpMsgType.noConfusion, (hsame _).inQueue⟩⟩
      · cases h
        have hsame := fun q => BgpPeer.sendPacket_same q now [] .keepalive
        refine ⟨(hsame _).counters, Or.inl ⟨(hsame _).bgpId, ?_⟩,
          Or.inl ⟨BgpMsgType.noConfusion, (hsame _).inQueue⟩⟩
        intro hconfirmed
        rw [BgpPeer.Confirmed, BgpPeer.sendPacket_state] at hconfirmed
        exact hconfirmed
  | notification =>
      simp only [dispatch, Checked.bind_eq_ok, Checked.pure_eq_ok, Except.ok.injEq] at h
      obtain ⟨_, _, rfl⟩ := h
      exact ⟨rfl, Or.inl ⟨rfl, id⟩, Or.inl ⟨BgpMsgType.noConfusion, rfl⟩⟩
  | update =>
      simp only [dispatch] at h
      split at h
      · cases h
        exact ⟨rfl, Or.inl ⟨rfl, id⟩, Or.inr ⟨rfl, _, rfl, rfl⟩⟩
      · cases h
  | routerefresh =>
      simp only [dispatch, Except.ok.injEq] at h
      cases h
      exact ⟨rfl, Or.inl ⟨rfl, id⟩, Or.inl ⟨BgpMsgType.noConfusion, rfl⟩⟩
  | other code =>
      cases h
      exact ⟨rfl, Or.inl ⟨rfl, id⟩, Or.inl ⟨BgpMsgType.noConfusion, rfl⟩⟩

/-! ## Connecting -/

theorem resizeStream_cases {ok : Bool} (h : resizeStream ok p = .ok p') :
    SameRoutes p p' ∧ (p'.state = p.state ∨ p'.state = .idle) := by
  unfold resizeStream at h
  split at h
  · cases h
    split
    · exact ⟨SameRoutes.refl p, Or.inl rfl⟩
    · exact ⟨⟨rfl, rfl, rfl, rfl, rfl⟩, Or.inr rfl⟩
  · cases h

theorem resizeSocket_cases (ok : Bool) (p : BgpPeer) :
    SameRoutes p (resizeSocket ok p) ∧ ((resizeSocket ok p).state = p.state ∨ (resizeSocket ok p).state = .idle) := by
  unfold resizeSocket
  split
  · exact ⟨SameRoutes.refl p, Or.inl rfl⟩
  · exact ⟨⟨rfl, rfl, rfl, rfl, rfl⟩, Or.inr rfl⟩

theorem initPeerStates_cases {attempt : ConnectAttempt} (h : initPeerStates cfg now attempt p = .ok p') :
    SameRoutes p p' ∧ (p'.state = .idle ∨ p'.state = .opensent) := by
  unfold initPeerStates at h
  split at h
  · simp only [Checked.bind_eq_ok, Checked.pure_eq_ok, Except.ok.injEq] at h
    obtain ⟨p₁, h₁, p₂, h₂, rfl⟩ := h
    have hconnect : SameRoutes p { p with tcp := p.tcp.connect, state := .connect } :=
      ⟨rfl, rfl, rfl, rfl, rfl⟩
    have hsame := (hconnect.trans (resizeStream_cases h₁).1).trans (resizeStream_cases h₂).1
    have hsocket := (resizeSocket_cases attempt.tcpRx p₂).1.trans
      (resizeSocket_cases attempt.tcpTx (resizeSocket attempt.tcpRx p₂)).1
    split
    · rename_i hidle
      exact ⟨hsame.trans hsocket, Or.inl hidle⟩
    · have hopen := BgpPeer.sendPacket_same (resizeSocket attempt.tcpTx (resizeSocket attempt.tcpRx p₂)) now
      exact ⟨(hsame.trans hsocket).trans ⟨(hopen _ _).bgpId, (hopen _ _).inQueue, (hopen _ _).prefixes,
        (hopen _ _).implicitWithdraw, (hopen _ _).explicitWithdraw⟩, Or.inr rfl⟩
  · cases h
    exact ⟨⟨rfl, rfl, rfl, rfl, rfl⟩, Or.inl rfl⟩

/-! ## Steps of a thread -/

/-- The steps of a thread, with what holds where they are taken. -/
inductive ThreadStep (cfg : BgpConfig) (i : Nat) (t : PeerThread) (p : BgpPeer) :
    ThreadAction → BgpPeer → PeerThread → Prop where
  | restart : t.phase = .down →
      ThreadStep cfg i t p .restart { p with state := .idle } { t with phase := .connecting }
  | connect {now : TimeT} {attempt : ConnectAttempt} {q : BgpPeer} : t.phase = .connecting →
      initPeerStates cfg now attempt p = .ok q →
      ThreadStep cfg i t p (.connect now attempt) q
        (if q.state = .idle then t else { t with phase := .reading, conn := t.conn + 1 })
  | receive {now : TimeT} {type : BgpMsgType} {payload uninit : List UInt8} {q : BgpPeer} :
      t.phase = .reading → p.connected = true → p.state ≠ .idle →
      dispatch cfg now ⟨i, t.conn, p.state⟩ type (payload ++ uninit) payload.length (p.readAt now) = .ok q →
      ThreadStep cfg i t p (.receive now type payload uninit) q { t with clean := t.clean && type ≠ .update }
  | eof {now : TimeT} {header : Bool} : t.phase = .reading →
      ThreadStep cfg i t p (.eof now header) (if header then p.readAt now else p).readEof t
  | leave : ThreadStep cfg i t p .leave p { t with phase := .flushing }
  | close : t.phase = .closing →
      ThreadStep cfg i t p .close { p.disconnect with upSince := 0 } { t with phase := .emptying }
  | empty : t.phase = .emptying →
      ThreadStep cfg i t p .empty { p with inQueue := [] } { t with phase := .down, clean := true }

theorem threadStep_eq_some {i : Nat} {t t' : PeerThread} {a : ThreadAction}
    (h : threadStep cfg i t p a = some (p', t')) : ThreadStep cfg i t p a p' t' := by
  cases a with
  | restart =>
      simp only [threadStep, Option.ite_none_right_eq_some, Option.some.injEq, Prod.mk.injEq] at h
      obtain ⟨hphase, rfl, rfl⟩ := h
      exact .restart hphase
  | connect now attempt =>
      simp only [threadStep, Option.ite_none_right_eq_some, Option.map_eq_some_iff, Prod.mk.injEq] at h
      obtain ⟨hphase, q, hq, rfl, rfl⟩ := h
      exact .connect hphase (Checked.toOption_eq_some.mp hq)
  | receive now type payload uninit =>
      simp only [threadStep, BgpPeer.reads, Bool.and_eq_true, decide_eq_true_eq,
        Option.ite_none_right_eq_some, Option.map_eq_some_iff, Prod.mk.injEq] at h
      obtain ⟨⟨hphase, hconnected, hstate⟩, q, hq, rfl, rfl⟩ := h
      exact .receive hphase hconnected hstate (Checked.toOption_eq_some.mp hq)
  | eof now header =>
      simp only [threadStep, Option.ite_none_right_eq_some, Option.some.injEq, Prod.mk.injEq] at h
      obtain ⟨⟨hphase, -⟩, rfl, rfl⟩ := h
      exact .eof hphase
  | leave =>
      simp only [threadStep, Option.ite_none_right_eq_some, Option.some.injEq, Prod.mk.injEq] at h
      obtain ⟨-, rfl, rfl⟩ := h
      exact .leave
  | close =>
      simp only [threadStep, Option.ite_none_right_eq_some, Option.some.injEq, Prod.mk.injEq] at h
      obtain ⟨hphase, rfl, rfl⟩ := h
      exact .close hphase
  | empty =>
      simp only [threadStep, Option.ite_none_right_eq_some, Option.some.injEq, Prod.mk.injEq] at h
      obtain ⟨hphase, rfl, rfl⟩ := h
      exact .empty hphase

/-- What a step does to the queue of the peer, and to what is known of its cleanup. -/
inductive QueueStep (i : Nat) (p p' : BgpPeer) (t t' : PeerThread) : Prop where
  | kept : p'.inQueue = p.inQueue → t'.clean = t.clean →
      (t'.phase = .emptying → t.phase = .closing) → t'.phase ≠ .closing → QueueStep i p p' t t'
  | received (d : QueueData) : d.receipt.peer = i → p'.inQueue = p.inQueue ++ [d] →
      t'.clean = false → t'.phase = .reading → QueueStep i p p' t t'
  | emptied : t.phase = .emptying → p'.inQueue = [] → t'.phase = .down → QueueStep i p p' t t'

theorem threadStep_cases {i : Nat} {t t' : PeerThread} {a : ThreadAction}
    (h : threadStep cfg i t p a = some (p', t')) :
    p'.counters = p.counters ∧
      ((p'.bgpId = p.bgpId ∧ (p'.Confirmed → p.Confirmed)) ∨ a.acceptedId cfg p = some p'.bgpId) ∧
      QueueStep i p p' t t' := by
  cases threadStep_eq_some h with
  | restart _ =>
      exact ⟨rfl, Or.inl ⟨rfl, fun hc => absurd hc (BgpPeer.not_confirmed_of_idle rfl)⟩,
        .kept rfl rfl PeerPhase.noConfusion PeerPhase.noConfusion⟩
  | connect hphase hinit =>
      obtain ⟨hsame, hstate⟩ := initPeerStates_cases hinit
      have hnot : ¬ p'.Confirmed := by
        rcases hstate with hidle | hopensent
        · exact BgpPeer.not_confirmed_of_idle hidle
        · exact BgpPeer.not_confirmed_of_opensent hopensent
      refine ⟨hsame.counters, Or.inl ⟨hsame.bgpId, fun hc => absurd hc hnot⟩, ?_⟩
      split
      · refine .kept hsame.inQueue rfl ?_ ?_
        · rw [hphase]
          exact PeerPhase.noConfusion
        · rw [hphase]
          exact PeerPhase.noConfusion
      · exact .kept hsame.inQueue rfl PeerPhase.noConfusion PeerPhase.noConfusion
  | receive hphase _ _ hdispatch =>
      obtain ⟨hcounters, hid, hqueue⟩ := dispatch_cases hdispatch
      refine ⟨hcounters, ?_, ?_⟩
      · rcases hid with hkept | ⟨rfl, haccepted⟩
        · exact Or.inl hkept
        · exact Or.inr haccepted
      · rcases hqueue with ⟨hne, hkept⟩ | ⟨rfl, d, hreceipt, happended⟩
        · refine .kept hkept ?_ ?_ ?_
          · simp [hne]
          · rw [hphase]
            exact PeerPhase.noConfusion
          · rw [hphase]
            exact PeerPhase.noConfusion
        · exact .received d (congrArg Receipt.peer hreceipt) happended (by simp) hphase
  | @eof _ header hphase =>
      have hnext : t.phase ≠ .closing := by
        rw [hphase]
        exact PeerPhase.noConfusion
      have hnext' : t.phase = .emptying → t.phase = .closing := by
        rw [hphase]
        exact PeerPhase.noConfusion
      cases header with
      | true => exact ⟨rfl, Or.inl ⟨rfl, id⟩, .kept rfl rfl hnext' hnext⟩
      | false => exact ⟨rfl, Or.inl ⟨rfl, id⟩, .kept rfl rfl hnext' hnext⟩
  | leave => exact ⟨rfl, Or.inl ⟨rfl, id⟩, .kept rfl rfl PeerPhase.noConfusion PeerPhase.noConfusion⟩
  | close hphase => exact ⟨rfl, Or.inl ⟨rfl, id⟩, .kept rfl rfl (fun _ => hphase) PeerPhase.noConfusion⟩
  | empty hphase => exact ⟨rfl, Or.inl ⟨rfl, id⟩, .emptied hphase rfl rfl⟩

theorem decodeOpen_accepted {packet : List UInt8} {bgpId : UInt32}
    (hid : acceptedId cfg p packet = some bgpId) (h : decodeOpen cfg p now packet = .ok p') :
    p'.bgpId = bgpId := by
  simp only [decodeOpen, Checked.bind_eq_ok, Checked.pure_eq_ok, Except.ok.injEq] at h
  obtain ⟨hdr, hread, rfl⟩ := h
  simp only [acceptedId, hread, Option.ite_none_right_eq_some, Option.some.injEq] at hid
  obtain ⟨⟨hversion, hAS⟩, rfl⟩ := hid
  unfold acceptOpen
  rw [if_neg (not_not.mpr hversion)]
  simp only
  rw [if_neg (not_not.mpr hAS)]
  exact (BgpPeer.sendPacket_same _ now [] .keepalive).bgpId

theorem threadStep_accepted {i : Nat} {t t' : PeerThread} {a : ThreadAction} {bgpId : UInt32}
    (hid : a.acceptedId cfg p = some bgpId) (h : threadStep cfg i t p a = some (p', t')) :
    p'.bgpId = bgpId := by
  cases threadStep_eq_some h with
  | @receive _ type _ _ _ _ _ _ hdispatch =>
      cases type with
      | openMsg =>
          simp only [dispatch] at hdispatch
          refine decodeOpen_accepted ?_ hdispatch
          exact hid
      | _ => cases hid
  | _ => cases hid

end Log2Bgp
