import Log2Bgp.Daemon.Lemmas.Threads
import Log2Bgp.Session.Lemmas.Negotiation

/-!
# What a session that is up has heard
-/

namespace Log2Bgp

open Lib

namespace PeerRun

variable {cfg : BgpConfig} {i : Nat} {AS : UInt16} {s s' : PeerRun} {a : PeerAction}

/-- The configured AS stays, and a connection on which an OPEN has been accepted has not heard another
one since; a session that is up has heard a KEEPALIVE after it. -/
structure Sound (AS : UInt16) (s : PeerRun) : Prop where
  configured : s.peer.AS = AS
  opened : s.peer.connected = true → s.peer.Confirmed → ∃ packet hdr after, s.OpenedBy AS packet hdr after ∧
    (s.peer.state = .established → ∃ bytes, (BgpMsgType.keepalive, bytes) ∈ after)

theorem Start.sound (h : s.Start AS) : s.Sound AS :=
  ⟨h.1, fun _ hconfirmed => absurd hconfirmed (BgpPeer.not_confirmed_of_idle h.2.1)⟩

theorem sound_of_down (hAS : s.peer.AS = AS) (h : s.peer.connected = false ∨ ¬ s.peer.Confirmed) :
    s.Sound AS := by
  refine ⟨hAS, fun hconnected hconfirmed => ?_⟩
  rcases h with hdown | hnot
  · rw [hdown] at hconnected
    cases hconnected
  · exact absurd hconfirmed hnot

theorem Sound.keep (h : s.Sound AS) (hsame : BgpPeer.SameSession s.peer s'.peer)
    (hstate : s'.peer.state = s.peer.state) (hheard : s'.heard = s.heard) : s'.Sound AS := by
  refine ⟨hsame.AS.trans h.configured, fun hconnected hconfirmed => ?_⟩
  rw [BgpPeer.Confirmed, hstate] at hconfirmed
  obtain ⟨packet, hdr, after, hopened, hkeep⟩ := h.opened (hsame.connected.symm.trans hconnected) hconfirmed
  refine ⟨packet, hdr, after, ⟨?_, hopened.last, hopened.read, hopened.accepted, hsame.took hopened.took⟩, ?_⟩
  · rw [hheard]
    exact hopened.heard
  · rw [hstate]
    exact hkeep

theorem Sound.hear (h : s.Sound AS) {type : BgpMsgType} {bytes : List UInt8} (htype : type ≠ .openMsg)
    (hsame : BgpPeer.SameSession s.peer s'.peer)
    (hstate : s'.peer.state = s.peer.state ∨
      (type = .keepalive ∧ s.peer.state = .openconfirm ∧ s'.peer.state = .established))
    (hheard : s'.heard = s.heard ++ [(type, bytes)]) : s'.Sound AS := by
  refine ⟨hsame.AS.trans h.configured, fun hconnected hconfirmed => ?_⟩
  have hbefore : s.peer.Confirmed := by
    rcases hstate with hkept | ⟨_, hstate, _⟩
    · rw [BgpPeer.Confirmed, hkept] at hconfirmed
      exact hconfirmed
    · exact Or.inl hstate
  obtain ⟨packet, hdr, after, hopened, hkeep⟩ := h.opened (hsame.connected.symm.trans hconnected) hbefore
  obtain ⟨before, hsplit⟩ := hopened.heard
  refine ⟨packet, hdr, after ++ [(type, bytes)],
    ⟨⟨before, ?_⟩, ?_, hopened.read, hopened.accepted, hsame.took hopened.took⟩, ?_⟩
  · rw [hheard, hsplit]
    simp
  · intro m hm
    rcases List.mem_append.mp hm with hm | hm
    · exact hopened.last m hm
    · cases List.mem_singleton.mp hm
      exact htype
  · intro hup
    rcases hstate with hkept | ⟨rfl, _, _⟩
    · obtain ⟨bytes', hmem⟩ := hkeep (hkept.symm.trans hup)
      exact ⟨bytes', List.mem_append_left _ hmem⟩
    · exact ⟨bytes, List.mem_append_right _ (List.mem_singleton_self _)⟩

theorem Sound.hearOpen (h : s.Sound AS) (hversion : cfg.version = 4) {now : TimeT} {p : BgpPeer}
    {packet : List UInt8} (hAS : p.AS = s.peer.AS) (hstate : p.state ≠ .idle) (hconnected : p.connected = true)
    (hdecode : decodeOpen cfg p now packet = .ok s'.peer)
    (hheard : s'.heard = s.heard ++ [(.openMsg, packet)]) : s'.Sound AS := by
  obtain ⟨hdr, hread, ⟨haccepted, htook, hkept, hconfirm⟩ | ⟨_, hrejected⟩⟩ :=
    decodeOpen_settles hversion hstate hconnected hdecode
  · have hconfigured : p.AS = AS := hAS.trans h.configured
    refine ⟨hkept.trans hconfigured, fun _ _ => ⟨packet, hdr, [], ⟨⟨s.heard, hheard⟩, ?_, hread, ?_, htook⟩, ?_⟩⟩
    · intro m hm
      cases hm
    · exact hconfigured ▸ haccepted
    · intro hup
      rw [hconfirm] at hup
      cases hup
  · exact sound_of_down (hrejected.AS.trans (hAS.trans h.configured)) (Or.inl hrejected.connected)

theorem Sound.thread (h : s.Sound AS) (hversion : cfg.version = 4) {a : ThreadAction}
    (hs : (threadStep cfg i s.thread s.peer a).map (fun (p, t) =>
      { peer := p, thread := t, heard := PeerRun.hear s.heard a : PeerRun }) = some s') : s'.Sound AS := by
  obtain ⟨⟨p, t⟩, hstep, rfl⟩ := Option.map_eq_some_iff.mp hs
  cases threadStep_eq_some hstep with
  | restart _ => exact sound_of_down h.configured (Or.inr (BgpPeer.not_confirmed_of_idle rfl))
  | connect _ hinit =>
      refine sound_of_down ((initPeerStates_AS hinit).trans h.configured) (Or.inr ?_)
      rcases (initPeerStates_cases hinit).2 with hidle | hopensent
      · exact BgpPeer.not_confirmed_of_idle hidle
      · exact BgpPeer.not_confirmed_of_opensent hopensent
  | @receive now type _ _ _ _ hconnected hstate hdispatch =>
      by_cases htype : type = .openMsg
      · subst htype
        exact h.hearOpen (p := { s.peer.readAt now with
          opens := { (s.peer.readAt now).opens with rx := (s.peer.readAt now).opens.rx + 1, lastRx := now } })
          hversion rfl hstate hconnected hdispatch rfl
      · obtain ⟨hsame, hkept⟩ := dispatch_keeps htype hdispatch
        exact h.hear htype ⟨hsame.AS, hsame.bgpId, hsame.holdTime, hsame.keepAlive, hsame.optParamLen,
          hsame.connected⟩ hkept rfl
  | @eof _ header _ =>
      refine sound_of_down ?_ (Or.inl ?_)
      · cases header with
        | true => exact h.configured
        | false => exact h.configured
      · simp [BgpPeer.readEof, BgpPeer.connected, TcpClient.connected]
  | leave => exact h.keep (BgpPeer.SameSession.refl _) rfl rfl
  | close _ => exact sound_of_down h.configured (Or.inl rfl)
  | empty _ => exact h.keep ⟨rfl, rfl, rfl, rfl, rfl, rfl⟩ rfl rfl

theorem Sound.step (h : s.Sound AS) (hversion : cfg.version = 4) (hs : s.step cfg i a = some s') :
    s'.Sound AS := by
  cases a with
  | thread a => exact h.thread hversion hs
  | flushed =>
      simp only [PeerRun.step, Option.ite_none_right_eq_some, Option.some.injEq] at hs
      obtain ⟨_, rfl⟩ := hs
      exact h.keep (BgpPeer.SameSession.refl _) rfl rfl
  | holdTimer now =>
      cases hs
      rcases holdTimerExpired_keeps s.peer now with ⟨hsame, hstate⟩ | ⟨hAS, hidle⟩
      · exact h.keep hsame hstate rfl
      · exact sound_of_down (hAS.trans h.configured) (Or.inr (BgpPeer.not_confirmed_of_idle hidle))

theorem step_rejected (hversion : cfg.version = 4) {now : TimeT} {payload uninit : List UInt8} {hdr : BgpOpen}
    (hs : s.step cfg i (.thread (.receive now .openMsg payload uninit)) = some s')
    (hread : readOpen (payload ++ uninit) = .ok hdr) (hnot : ¬ hdr.Accepted s.peer.AS) :
    s.peer.Rejected s'.peer := by
  obtain ⟨⟨p, t⟩, hstep, rfl⟩ := Option.map_eq_some_iff.mp hs
  cases threadStep_eq_some hstep with
  | receive _ hconnected hstate hdispatch =>
      simp only [dispatch] at hdispatch
      obtain ⟨hdr', hread', ⟨haccepted, _⟩ | ⟨_, hrejected⟩⟩ :=
        decodeOpen_settles hversion (p := { s.peer.readAt now with
          opens := { (s.peer.readAt now).opens with rx := (s.peer.readAt now).opens.rx + 1, lastRx := now } })
          hstate hconnected hdispatch
      · cases hread.symm.trans hread'
        exact absurd haccepted hnot
      · exact ⟨hrejected.AS, hrejected.bgpId, hrejected.holdTime, hrejected.keepAlive, hrejected.sent,
          hrejected.state, hrejected.connected⟩

end PeerRun

end Log2Bgp
