import Log2Bgp.Session.Conversation
import Log2Bgp.Session.Timed

/-!
# How the other side hears a session

When something was last written on the connection of a peer, along timed runs in which the main loop comes to the peer
often enough. The times are bookkeeping: no function of the code reads them.
-/

namespace Log2Bgp

open Lib

/-- A timed run, with the time of the last write on the connection, and that of the last check of the hold timer since
the session came up. -/
structure SpokenRun where
  timed : TimedRun
  spoke : TimeT
  checked : TimeT

namespace SpokenRun

def peer (s : SpokenRun) : BgpPeer := s.timed.run.peer

/-- What is written down about an action behind it. -/
def record (s : SpokenRun) (t : TimedRun) (a : PeerAction) : SpokenRun where
  timed := t
  spoke := if WireRun.writes s.peer t.run.peer a = [] then s.spoke else t.clock
  checked :=
    match a with
    | .holdTimer _ => t.clock
    | _ => if s.peer.state ≠ .established ∧ t.run.peer.state = .established then t.clock else s.checked

def step (cfg : BgpConfig) (i : Nat) (s : SpokenRun) (a : PeerAction) : Option SpokenRun :=
  (s.timed.step cfg i a).map fun t => s.record t a

/-- No OPEN is accepted with another hold time. -/
def Opens (cfg : BgpConfig) (i : Nat) (holds : Nat → Prop) (s : SpokenRun) : PeerAction → Prop
  | .thread (.receive now .openMsg payload uninit) =>
      ∀ s' ∈ s.step cfg i (.thread (.receive now .openMsg payload uninit)), s'.peer.state = .openconfirm →
        holds (encodedHold (payload ++ uninit))
  | _ => True

/-- The clock does not go back, and no more than `d` seconds pass without a check while the session is up. -/
def Admits (cfg : BgpConfig) (i : Nat) (holds : Nat → Prop) (d : Nat) (s : SpokenRun) (a : PeerAction) : Prop :=
  (∀ now ∈ a.time, s.timed.clock.toInt ≤ now.toInt ∧
    (s.peer.state = .established → now.toInt - s.checked.toInt ≤ d)) ∧ s.Opens cfg i holds a

instance (cfg : BgpConfig) (i : Nat) (holds : Nat → Prop) [DecidablePred holds] (s : SpokenRun) :
    DecidablePred (s.Opens cfg i holds)
  | .thread (.receive now .openMsg payload uninit) =>
      inferInstanceAs (Decidable (∀ s' ∈ s.step cfg i (.thread (.receive now .openMsg payload uninit)),
        s'.peer.state = .openconfirm → holds (encodedHold (payload ++ uninit))))
  | .thread (.receive _ .update _ _) | .thread (.receive _ .notification _ _) | .thread (.receive _ .keepalive _ _)
  | .thread (.receive _ .routerefresh _ _) | .thread (.receive _ (.other _) _ _) | .thread .restart
  | .thread (.connect _ _) | .thread (.eof _ _) | .thread .leave | .thread .close | .thread .empty | .flushed
  | .holdTimer _ => isTrue trivial

instance (cfg : BgpConfig) (i : Nat) (holds : Nat → Prop) [DecidablePred holds] (d : Nat) (s : SpokenRun) :
    DecidablePred (s.Admits cfg i holds d) := fun a =>
  have _ : Decidable (∀ now ∈ a.time, s.timed.clock.toInt ≤ now.toInt ∧
      (s.peer.state = .established → now.toInt - s.checked.toInt ≤ d)) := Option.decidableForallMem a.time
  instDecidableAnd

/-- A peer that is configured, at any time. -/
def Start (AS : UInt16) (s : SpokenRun) : Prop :=
  s.timed.Start AS ∧ s.spoke = s.timed.clock ∧ s.checked = s.timed.clock

/-! ## The KEEPALIVEs of a step -/

variable {cfg : BgpConfig} {i : Nat} {holds : Nat → Prop} {d : Nat} {s s' : SpokenRun} {a : PeerAction}
variable {now : TimeT} {p p' : BgpPeer}

theorem sendPacket_lastTx (hstate : p.state ≠ .idle) : (p.sendPacket now [] .keepalive).keepaliv.lastTx = now := by
  rw [BgpPeer.sendPacket, if_neg hstate, if_neg (by simp)]
  rfl

theorem dispatch_lastTx {receipt : Receipt} {type : BgpMsgType} {buffer : List UInt8} {length : Nat}
    (hstate : p.state ≠ .idle) (htype : type ≠ .openMsg) (h : dispatch cfg now receipt type buffer length p = .ok p') :
    if type = .keepalive then p'.keepaliv.lastTx = now else p'.keepaliv.lastTx = p.keepaliv.lastTx := by
  cases type with
  | openMsg => exact absurd rfl htype
  | keepalive =>
      simp only [dispatch, Except.ok.injEq] at h
      subst h
      apply sendPacket_lastTx
      split
      · simp
      · exact hstate
  | notification =>
      simp only [dispatch, Checked.bind_eq_ok, Checked.pure_eq_ok, Except.ok.injEq] at h
      obtain ⟨_, _, rfl⟩ := h
      rfl
  | update =>
      simp only [dispatch] at h
      split at h
      · cases h
        rfl
      · cases h
  | routerefresh =>
      cases h
      rfl
  | other code =>
      cases h
      rfl

theorem dispatch_keepalive_sent {receipt : Receipt} {buffer : List UInt8} {length : Nat} (hstate : p.state ≠ .idle)
    (hconnected : p.connected = true) (h : dispatch cfg now receipt .keepalive buffer length p = .ok p') :
    p'.tcp.sent = p.tcp.sent ++ WireMessage.keepalive.frame := by
  simp only [dispatch, Except.ok.injEq] at h
  subst h
  split
  · exact BgpPeer.sendPacket_frame (by simp) (by simp) hconnected
  · exact BgpPeer.sendPacket_frame hstate (by simp) hconnected

/-! ## What holds along a run -/

/-- The hold time and the interval of a confirmed session are what its OPEN makes of them. While a session is up, the
last KEEPALIVE is on the connection, and none was due at the last check. -/
structure Prompt (holds : Nat → Prop) (d : Nat) (s : SpokenRun) : Prop where
  spoke : s.spoke.toInt ≤ s.timed.clock.toInt
  checked : s.checked.toInt ≤ s.timed.clock.toInt
  hold : s.peer.Confirmed → holds s.timed.hold ∧ ∃ high low : UInt8,
    s.timed.hold = 256 * high.toNat + low.toNat ∧ s.peer.keepAlive = (low.toUInt16 + high.toUInt16) / 3
  within : s.peer.state = .established → s.timed.clock.toInt - s.checked.toInt ≤ d
  sent : s.peer.state = .established → s.peer.connected = true →
    s.peer.keepaliv.lastTx.toInt ≤ s.spoke.toInt ∧ s.checked.toInt - s.spoke.toInt < max 1 s.peer.keepAlive.toNat

variable {t : TimedRun}

theorem record_spoke (s : SpokenRun) (t : TimedRun) (a : PeerAction) :
    (s.record t a).spoke = s.spoke ∨ (s.record t a).spoke = t.clock := by
  simp only [record]
  split
  · exact Or.inl rfl
  · exact Or.inr rfl

theorem record_checked (s : SpokenRun) (t : TimedRun) (a : PeerAction) :
    (s.record t a).checked = s.checked ∨ (s.record t a).checked = t.clock := by
  cases a with
  | holdTimer => exact Or.inr rfl
  | _ =>
      simp only [record]
      split
      · exact Or.inr rfl
      · exact Or.inl rfl

theorem record_checked_same (ha : ∀ now, a ≠ .holdTimer now) (hstate : t.run.peer.state = s.peer.state) :
    (s.record t a).checked = s.checked := by
  have hnot : ¬ (s.peer.state ≠ .established ∧ t.run.peer.state = .established) := by
    rw [hstate]
    exact fun h => h.1 h.2
  cases a with
  | holdTimer now => exact absurd rfl (ha now)
  | thread _ => exact if_neg hnot
  | flushed => exact if_neg hnot

theorem record_checked_up (hbefore : s.peer.state ≠ .established) (hup : t.run.peer.state = .established) :
    (s.record t a).checked = t.clock := by
  cases a with
  | holdTimer => rfl
  | thread _ => exact if_pos ⟨hbefore, hup⟩
  | flushed => exact if_pos ⟨hbefore, hup⟩

/-- A message that is written is heard at once. -/
theorem record_spoke_of_frame {m : WireMessage} (ha : ∀ now attempt, a ≠ .thread (.connect now attempt))
    (hsent : t.run.peer.tcp.sent = s.peer.tcp.sent ++ m.frame) : (s.record t a).spoke = t.clock := by
  have hwrites : WireRun.writes s.peer t.run.peer a = m.frame := by
    have hdrop : t.run.peer.tcp.sent.drop s.peer.tcp.sent.length = m.frame := by rw [hsent, List.drop_left]
    cases a with
    | thread a =>
        cases a with
        | connect now attempt => exact absurd rfl (ha now attempt)
        | _ => exact hdrop
    | flushed => exact hdrop
    | holdTimer => exact hdrop
  simp [record, hwrites, WireMessage.frame]

theorem Start.prompt {AS : UInt16} (h : s.Start AS) : s.Prompt holds d := by
  obtain ⟨⟨⟨_, hidle, _⟩, _⟩, hspoke, hchecked⟩ := h
  have hnot : ¬ s.peer.Confirmed := BgpPeer.not_confirmed_of_idle hidle
  have hdown : s.peer.state ≠ .established := fun hup => hnot (Or.inr hup)
  exact ⟨by simp [hspoke], by simp [hchecked], fun hup => absurd hup hnot, fun hup => absurd hup hdown,
    fun hup => absurd hup hdown⟩

theorem Prompt.times (h : s.Prompt holds d) (hclock : s.timed.clock.toInt ≤ t.clock.toInt) (a : PeerAction) :
    (s.record t a).spoke.toInt ≤ t.clock.toInt ∧ (s.record t a).checked.toInt ≤ t.clock.toInt ∧
      s.spoke.toInt ≤ (s.record t a).spoke.toInt := by
  have hspoke := Int.le_trans h.spoke hclock
  have hchecked := Int.le_trans h.checked hclock
  refine ⟨?_, ?_, ?_⟩
  · rcases record_spoke s t a with heq | heq
    · rwa [heq]
    · simp [heq]
  · rcases record_checked s t a with heq | heq
    · rwa [heq]
    · simp [heq]
  · rcases record_spoke s t a with heq | heq
    · simp [heq]
    · rwa [heq]

/-- A step behind which the session is not confirmed. -/
theorem Prompt.down (h : s.Prompt holds d) (hclock : s.timed.clock.toInt ≤ t.clock.toInt)
    (hnot : ¬ t.run.peer.Confirmed) : (s.record t a).Prompt holds d := by
  have hdown : t.run.peer.state ≠ .established := fun hup => hnot (Or.inr hup)
  obtain ⟨hspoke, hchecked, _⟩ := h.times hclock a
  exact ⟨hspoke, hchecked, fun hup => absurd hup hnot, fun hup => absurd hup hdown, fun hup => absurd hup hdown⟩

/-- A step keeps the hold time and the interval of a session that was confirmed before it. -/
theorem Prompt.interval (h : s.Prompt holds d) (hconfirmed : s.peer.Confirmed)
    (hkeep : t.run.peer.keepAlive = s.peer.keepAlive) (hhold : t.hold = s.timed.hold) :
    holds t.hold ∧ ∃ high low : UInt8,
      t.hold = 256 * high.toNat + low.toNat ∧ t.run.peer.keepAlive = (low.toUInt16 + high.toUInt16) / 3 := by
  obtain ⟨hholds, high, low, hencoded, hinterval⟩ := h.hold hconfirmed
  exact ⟨hhold ▸ hholds, high, low, hhold.trans hencoded, hkeep.trans hinterval⟩

/-- A step that leaves the session as it is. -/
theorem Prompt.keep (h : s.Prompt holds d) (hclock : s.timed.clock.toInt ≤ t.clock.toInt)
    (ha : ∀ now, a ≠ .holdTimer now)
    (hwithin : s.peer.state = .established → t.clock.toInt - s.checked.toInt ≤ d)
    (hstate : t.run.peer.state = s.peer.state) (hconnected : t.run.peer.connected = true → s.peer.connected = true)
    (hkeep : t.run.peer.keepAlive = s.peer.keepAlive)
    (hlast : t.run.peer.keepaliv.lastTx = s.peer.keepaliv.lastTx) (hhold : t.hold = s.timed.hold) :
    (s.record t a).Prompt holds d := by
  have hchecked : (s.record t a).checked = s.checked := record_checked_same ha hstate
  obtain ⟨hspoke, hchecked', hlater⟩ := h.times hclock a
  refine ⟨hspoke, hchecked', ?_, ?_, ?_⟩
  · intro hup
    exact h.interval (BgpPeer.confirmed_of_state hstate hup) hkeep hhold
  · intro hup
    rw [hchecked]
    exact hwithin (hstate.symm.trans hup)
  · intro hup hconn
    obtain ⟨hlastTx, hdue⟩ := h.sent (hstate.symm.trans hup) (hconnected hconn)
    have hlast' : (s.record t a).peer.keepaliv.lastTx = s.peer.keepaliv.lastTx := hlast
    have hkeep' : (s.record t a).peer.keepAlive = s.peer.keepAlive := hkeep
    rw [hlast', hkeep', hchecked]
    exact ⟨by omega, by omega⟩

/-- A KEEPALIVE that comes in is answered, and brings up a session that is confirmed. -/
theorem Prompt.answered (h : s.Prompt holds d) (hclock : s.timed.clock.toInt ≤ t.clock.toInt)
    (ha : ∀ now, a ≠ .holdTimer now) (ha' : ∀ now attempt, a ≠ .thread (.connect now attempt))
    (hwithin : s.peer.state = .established → t.clock.toInt - s.checked.toInt ≤ d)
    (hbefore : t.run.peer.Confirmed → s.peer.Confirmed) (hkeep : t.run.peer.keepAlive = s.peer.keepAlive)
    (hlast : t.run.peer.keepaliv.lastTx = t.clock)
    (hsent : t.run.peer.tcp.sent = s.peer.tcp.sent ++ WireMessage.keepalive.frame) (hhold : t.hold = s.timed.hold) :
    (s.record t a).Prompt holds d := by
  have hheard : (s.record t a).spoke = t.clock := record_spoke_of_frame ha' hsent
  obtain ⟨hspoke, hchecked, _⟩ := h.times hclock a
  refine ⟨hspoke, hchecked, fun hup => h.interval (hbefore hup) hkeep hhold, ?_, ?_⟩
  · intro hup
    by_cases hstate : s.peer.state = .established
    · have hkeeps : (s.record t a).checked = s.checked := record_checked_same ha (hup.trans hstate.symm)
      rw [hkeeps]
      exact hwithin hstate
    · have hcame : (s.record t a).checked = t.clock := record_checked_up hstate hup
      have hzero : (s.record t a).timed.clock.toInt - t.clock.toInt = 0 := Int.sub_self _
      rw [hcame, hzero]
      exact Int.natCast_nonneg d
  · intro _ _
    have hlast' : (s.record t a).peer.keepaliv.lastTx = t.clock := hlast
    rw [hheard, hlast']
    exact ⟨Int.le_refl _, by omega⟩

theorem Prompt.receive (h : s.Prompt holds d) (hversion : cfg.version = 4) {type : BgpMsgType}
    {payload uninit : List UInt8} (ha : a = .thread (.receive now type payload uninit))
    (ht : t = s.timed.record t.run a) (hs : s.step cfg i a = some (s.record t a)) (hadm : s.Admits cfg i holds d a)
    (hstate : s.peer.state ≠ .idle) (hconnected : s.peer.connected = true)
    (hdispatch : dispatch cfg now ⟨i, s.timed.run.thread.conn, s.peer.state⟩ type (payload ++ uninit) payload.length
      (s.peer.readAt now) = .ok t.run.peer) : (s.record t a).Prompt holds d := by
  have hnow : t.clock = now := by
    rw [ht, ha]
    rfl
  have hhold : t.hold = if type = .openMsg ∧ t.run.peer.state = .openconfirm then encodedHold (payload ++ uninit)
      else s.timed.hold := by
    rw [ht, ha]
    rfl
  obtain ⟨hclock, hwithin⟩ := hadm.1 now (by rw [ha]; rfl)
  rw [← hnow] at hclock hwithin
  have htimer : ∀ now, a ≠ .holdTimer now := by simp [ha]
  obtain ⟨hspoke, hchecked, _⟩ := h.times hclock a
  by_cases htype : type = .openMsg
  · subst htype
    obtain ⟨hdr, hhdr, ⟨_, htook, _, hconfirm⟩ | ⟨_, hrejected⟩⟩ := decodeOpen_settles
      (p := { s.peer.readAt now with
        opens := { (s.peer.readAt now).opens with rx := (s.peer.readAt now).opens.rx + 1, lastRx := now } })
      hversion hstate hconnected hdispatch
    · have hdown : t.run.peer.state ≠ .established := by simp [hconfirm]
      refine ⟨hspoke, hchecked, fun _ => ?_, fun hup => absurd hup hdown, fun hup => absurd hup hdown⟩
      rw [if_pos ⟨rfl, hconfirm⟩] at hhold
      have hopens := hadm.2
      rw [ha] at hopens hs
      refine ⟨hhold ▸ hopens _ hs (by rw [← ha]; exact hconfirm), _, _, hhold, ?_⟩
      exact htook.keepAlive.trans (congrArg (· / 3) (readOpen_holdTime hhdr))
    · exact h.down hclock (BgpPeer.not_confirmed_of_idle hrejected.state)
  · rw [if_neg fun hopen => htype hopen.1] at hhold
    obtain ⟨hsame, hkept⟩ := dispatch_keeps htype hdispatch
    have hlast := dispatch_lastTx (p := s.peer.readAt now) hstate htype hdispatch
    by_cases halive : type = .keepalive
    · subst halive
      rw [if_pos rfl, ← hnow] at hlast
      have hsent := dispatch_keepalive_sent (p := s.peer.readAt now) hstate hconnected hdispatch
      refine h.answered hclock htimer (by simp [ha]) hwithin ?_ hsame.keepAlive hlast hsent hhold
      intro hup
      rcases hkept with hstate' | ⟨_, hconfirm, _⟩
      · exact BgpPeer.confirmed_of_state hstate' hup
      · exact Or.inl hconfirm
    · rw [if_neg halive] at hlast
      have hstate' : t.run.peer.state = s.peer.state := hkept.resolve_right fun hup => halive hup.1
      exact h.keep hclock htimer hwithin hstate' (fun _ => hconnected) hsame.keepAlive hlast hhold

theorem Prompt.thread (h : s.Prompt holds d) (hversion : cfg.version = 4) {a : ThreadAction}
    (hadm : s.Admits cfg i holds d (.thread a)) (hs : s.step cfg i (.thread a) = some s') : s'.Prompt holds d := by
  have hstep := hs
  simp only [step, TimedRun.step, PeerRun.step, Option.map_map, Option.map_eq_some_iff] at hstep
  obtain ⟨⟨p, t⟩, hstep, rfl⟩ := hstep
  cases threadStep_eq_some hstep with
  | restart _ =>
      exact h.down (Int.le_refl _) (BgpPeer.not_confirmed_of_idle rfl)
  | connect _ hinit =>
      refine h.down (hadm.1 _ rfl).1 ?_
      rcases (initPeerStates_cases hinit).2 with hidle | hopensent
      · exact BgpPeer.not_confirmed_of_idle hidle
      · exact BgpPeer.not_confirmed_of_opensent hopensent
  | receive _ hconnected hstate hdispatch => exact h.receive hversion rfl rfl hs hadm hstate hconnected hdispatch
  | @eof now header _ =>
      obtain ⟨hclock, hwithin⟩ := hadm.1 now rfl
      have heof : ∀ q : BgpPeer, q.readEof.connected = true → s.peer.connected = true := by
        intro q hconn
        simp [BgpPeer.readEof, BgpPeer.connected, TcpClient.connected] at hconn
      cases header with
      | true => exact h.keep hclock (by simp) hwithin rfl (heof _) rfl rfl rfl
      | false => exact h.keep hclock (by simp) hwithin rfl (heof _) rfl rfl rfl
  | leave => exact h.keep (Int.le_refl _) (by simp) h.within rfl id rfl rfl rfl
  | close _ =>
      refine h.keep (Int.le_refl _) (by simp) h.within rfl ?_ rfl rfl rfl
      intro hconn
      cases hconn
  | empty _ => exact h.keep (Int.le_refl _) (by simp) h.within rfl id rfl rfl rfl

/-- A check of the hold timer sends the KEEPALIVE that is due. -/
theorem Prompt.holdTimer (h : s.Prompt holds d) (hclock : s.timed.clock.toInt ≤ t.clock.toInt)
    (hp : t.run.peer = (holdTimerExpired s.peer t.clock).2) (hhold : t.hold = s.timed.hold) (now : TimeT) :
    (s.record t (.holdTimer now)).Prompt holds d := by
  obtain ⟨hspoke, hchecked, hlater⟩ := h.times hclock (.holdTimer now)
  have hwithin : t.clock.toInt - t.clock.toInt ≤ d := by
    rw [Int.sub_self]
    exact Int.natCast_nonneg d
  have hkeeps : s.peer.SameSession t.run.peer → t.run.peer.state = s.peer.state →
      (s.record t (.holdTimer now)).peer.Confirmed → holds t.hold ∧ ∃ high low : UInt8,
        t.hold = 256 * high.toNat + low.toNat ∧ t.run.peer.keepAlive = (low.toUInt16 + high.toUInt16) / 3 :=
    fun hsame hstate hup => h.interval (BgpPeer.confirmed_of_state hstate hup) hsame.keepAlive hhold
  unfold holdTimerExpired at hp
  split at hp
  · rename_i hdown
    have hsame : t.run.peer = s.peer := hp
    refine ⟨hspoke, hchecked, hkeeps (hsame ▸ .refl _) (hsame ▸ rfl), fun hup => ?_, fun hup => ?_⟩
    · exact absurd (hsame ▸ hup) hdown
    · exact absurd (hsame ▸ hup) hdown
  · rename_i hestablished
    have hup : s.peer.state = .established := not_not.mp hestablished
    split at hp
    · exact h.down hclock (BgpPeer.not_confirmed_of_idle (by rw [hp]; rfl))
    · split at hp
      · have hstate : s.peer.state ≠ .idle := by simp [hup]
        have hp : t.run.peer = s.peer.sendPacket t.clock [] .keepalive := hp
        have hsame : s.peer.SameSession t.run.peer := hp ▸ BgpPeer.sendPacket_sameSession s.peer t.clock [] .keepalive
        have hlast : t.run.peer.keepaliv.lastTx = t.clock := hp ▸ sendPacket_lastTx hstate
        refine ⟨hspoke, hchecked, hkeeps hsame (hp ▸ BgpPeer.sendPacket_state ..), fun _ => hwithin, fun _ hconn => ?_⟩
        have hconnected : s.peer.connected = true := hsame.connected.symm.trans hconn
        have hsent : t.run.peer.tcp.sent = s.peer.tcp.sent ++ WireMessage.keepalive.frame :=
          hp ▸ BgpPeer.sendPacket_frame hstate (by simp) hconnected
        have hheard : (s.record t (.holdTimer now)).spoke = t.clock := record_spoke_of_frame (by simp) hsent
        have hlast' : (s.record t (.holdTimer now)).peer.keepaliv.lastTx = t.clock := hlast
        rw [hheard, hlast']
        exact ⟨Int.le_refl _, by omega⟩
      · rename_i hearly
        have hsame : t.run.peer = s.peer := hp
        refine ⟨hspoke, hchecked, hkeeps (hsame ▸ .refl _) (hsame ▸ rfl), fun _ => hwithin, fun _ hconn => ?_⟩
        have hlast := (h.sent hup (hsame ▸ hconn)).1
        have hpeer : (s.record t (.holdTimer now)).peer = s.peer := hsame
        have hnow : (s.record t (.holdTimer now)).checked = t.clock := rfl
        rw [hpeer, hnow]
        exact ⟨by omega, by omega⟩

theorem Prompt.step (h : s.Prompt holds d) (hversion : cfg.version = 4) (hadm : s.Admits cfg i holds d a)
    (hs : s.step cfg i a = some s') : s'.Prompt holds d := by
  cases a with
  | thread a => exact h.thread hversion hadm hs
  | flushed =>
      simp only [SpokenRun.step, TimedRun.step, PeerRun.step, Option.map_eq_some_iff, Option.ite_none_right_eq_some,
        Option.some.injEq] at hs
      obtain ⟨_, ⟨_, ⟨_, rfl⟩, rfl⟩, rfl⟩ := hs
      exact h.keep (Int.le_refl _) (by simp) h.within rfl id rfl rfl rfl
  | holdTimer now =>
      cases hs
      let t := s.timed.record { s.timed.run with peer := (holdTimerExpired s.peer now).2 } (.holdTimer now)
      exact Prompt.holdTimer (t := t) h (hadm.1 now rfl).1 rfl rfl now

end SpokenRun

/-! ## Results -/

open SpokenRun

namespace Example

/-- A session comes up, and is checked one second before a KEEPALIVE is due. -/
def earlyCheck : List PeerAction :=
  [.thread .restart, .thread (.connect 0 ⟨true, true, true, true, true⟩),
    .thread (.receive 0 .openMsg [4, 0, 2, 0, 180, 10, 0, 0, 1, 0] []), .thread (.receive 0 .keepalive [] []),
    .holdTimer 59, .thread (.receive 100 .routerefresh [0, 1, 0, 1] [])]

def silentPeer : SpokenRun := ⟨⟨{ peer := { AS := 2 } }, 0, 0, 0⟩, 0, 0⟩

end Example

/-- While a session is up and its connection open, the other side has heard from it less than a hold time ago, whatever
that is, where the main loop comes to the peer so often that the interval of the KEEPALIVEs leaves time for it: the hold
time of the other side is the lesser one of the two OPENs. -/
theorem keepalives_in_time (myAS : UInt16) (myId : UInt32) (i : Nat) (AS : UInt16) (holds : Nat → Prop) (d : Nat)
    (hholds : ∀ high low : UInt8, holds (256 * high.toNat + low.toNat) →
      max 1 ((low.toNat + high.toNat) / 3) + d ≤ min 180 (256 * high.toNat + low.toNat))
    {s : SpokenRun} (h : Reaches (SpokenRun.step (constructedConfig myAS myId) i)
      (Admits (constructedConfig myAS myId) i holds d) (Start AS) s)
    (hup : s.peer.state = .established) (hconnected : s.peer.connected = true) :
    s.timed.clock.toInt - s.spoke.toInt < min 180 s.timed.hold := by
  have hprompt : s.Prompt holds d :=
    Reaches.invariant (fun _ hs => Start.prompt hs) (fun _ _ _ hs hadm hstep => hs.step rfl hadm hstep) h
  obtain ⟨hhold, high, low, hencoded, hinterval⟩ := hprompt.hold (Or.inr hup)
  have hdue := (hprompt.sent hup hconnected).2
  have hwithin := hprompt.within hup
  rw [hencoded] at hhold ⊢
  have hbound := hholds high low hhold
  have hhigh := high.toNat_lt
  have hlow := low.toNat_lt
  have hkeep : s.peer.keepAlive.toNat = (low.toNat + high.toNat) / 3 := by
    have hthree : (3 : UInt16).toNat = 3 := rfl
    rw [hinterval, UInt16.toNat_div, UInt16.toNat_add, UInt8.toNat_toUInt16, UInt8.toNat_toUInt16, hthree]
    omega
  omega

theorem keepalives_in_time_checked : ∃ s, runAll (SpokenRun.step (constructedConfig 1 0) 0) Example.earlyCheck
      Example.silentPeer = some s ∧ s.timed.clock.toInt - s.spoke.toInt = 100 ∧
    s.timed.clock.toInt - s.spoke.toInt < min 180 s.timed.hold := by
  have hview : (runAll (SpokenRun.step (constructedConfig 1 0) 0) Example.earlyCheck Example.silentPeer).map
      (fun s => (s.timed.clock.toInt - s.spoke.toInt, s.peer.state, s.peer.connected)) =
        some (100, .established, true) := by
    decide
  obtain ⟨s, hs, heq⟩ := Option.map_eq_some_iff.mp hview
  obtain ⟨hgap, hup, hconnected⟩ : _ ∧ _ ∧ _ := by simpa using heq
  have hreach : Reaches (SpokenRun.step (constructedConfig 1 0) 0) (Admits (constructedConfig 1 0) 0 (· = 180) 60)
      (Start 2) s :=
    Reaches.runAll (.init ⟨⟨⟨rfl, rfl, rfl, rfl⟩, rfl⟩, rfl, rfl⟩) (by decide +kernel) hs
  refine ⟨s, hs, hgap, keepalives_in_time 1 0 0 2 (· = 180) 60 ?_ hreach hup hconnected⟩
  intro high low hhold
  omega

end Log2Bgp
