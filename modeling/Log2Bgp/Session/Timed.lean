import Log2Bgp.Session.Exchange

/-!
# The hold timer along timed runs

The state machine of one peer with a clock that never goes back. The times of the messages and the hold
times that their OPENs encode are bookkeeping: no function of the code reads them.
-/

namespace Log2Bgp

open Lib

/-! ## Timed runs -/

/-- The hold time that the bytes of an OPEN encode. -/
def encodedHold (packet : List UInt8) : Nat :=
  256 * (packet.getD 3 0).toNat + (packet.getD 4 0).toNat

/-- When an action is taken, where it asks for the time. -/
def PeerAction.time : PeerAction → Option TimeT
  | .thread (.connect now _) => some now
  | .thread (.receive now _ _ _) => some now
  | .thread (.eof now _) => some now
  | .holdTimer now => some now
  | _ => none

structure TimedRun where
  run : PeerRun
  clock : TimeT
  arrived : TimeT
  hold : Nat

namespace TimedRun

/-- What is written down about an action behind it. -/
def record (s : TimedRun) (r : PeerRun) : PeerAction → TimedRun
  | .thread (.receive now type payload uninit) =>
      { run := r
        clock := now
        arrived := now
        hold := if type = .openMsg ∧ r.peer.state = .openconfirm then encodedHold (payload ++ uninit) else s.hold }
  | a => { s with run := r, clock := a.time.getD s.clock }

def step (cfg : BgpConfig) (i : Nat) (s : TimedRun) (a : PeerAction) : Option TimedRun :=
  (s.run.step cfg i a).map fun r => s.record r a

/-- The clock does not go back, and while an OPEN is in force, its hold time has not passed since the
last message came, if it is not zero. -/
def InTime (s : TimedRun) (a : PeerAction) : Prop :=
  ∀ now, a.time = some now → s.clock.toInt ≤ now.toInt ∧
    (s.run.peer.Confirmed → 0 < s.hold → now.toInt - s.arrived.toInt < s.hold)

/-- An action that is in time, and that no OPEN is accepted by with another hold time. -/
def Admits (cfg : BgpConfig) (i : Nat) (holds : Nat → Prop) (s : TimedRun) (a : PeerAction) : Prop :=
  s.InTime a ∧ ∀ now payload uninit, a = .thread (.receive now .openMsg payload uninit) →
    ∀ s', s.step cfg i a = some s' → s'.run.peer.state = .openconfirm → holds (encodedHold (payload ++ uninit))

/-- A peer that is configured, at any time. -/
def Start (AS : UInt16) (s : TimedRun) : Prop := s.run.Start AS ∧ s.arrived = s.clock

end TimedRun

/-! ## The time of the last read -/

section LastRead

variable {cfg : BgpConfig} {now : TimeT} {p p' : BgpPeer}

theorem sendPacket_lastRead (p : BgpPeer) (now : TimeT) (payload : List UInt8) (t : BgpMsgType) :
    (p.sendPacket now payload t).lastIo.lastRead = p.lastIo.lastRead := by
  unfold BgpPeer.sendPacket
  split
  · rfl
  · split
    · rfl
    · cases t <;> rfl

theorem acceptOpen_lastRead (p : BgpPeer) (now : TimeT) (hdr : BgpOpen) :
    (acceptOpen cfg p now hdr).lastIo.lastRead = p.lastIo.lastRead := by
  unfold acceptOpen
  split
  · exact sendPacket_lastRead p now _ .notification
  · simp only
    split
    · exact sendPacket_lastRead { p with version := _ } now _ .notification
    · exact sendPacket_lastRead ..

theorem dispatch_lastRead {receipt : Receipt} {type : BgpMsgType} {buffer : List UInt8} {length : Nat}
    (h : dispatch cfg now receipt type buffer length p = .ok p') : p'.lastIo.lastRead = p.lastIo.lastRead := by
  cases type with
  | openMsg =>
      simp only [dispatch, decodeOpen, Checked.bind_eq_ok, Checked.pure_eq_ok, Except.ok.injEq] at h
      obtain ⟨hdr, -, rfl⟩ := h
      exact acceptOpen_lastRead ..
  | keepalive =>
      simp only [dispatch, Except.ok.injEq] at h
      subst h
      rw [sendPacket_lastRead]
      split
      · rfl
      · rfl
  | notification =>
      simp only [dispatch, Checked.bind_eq_ok, Checked.pure_eq_ok, Except.ok.injEq] at h
      obtain ⟨_, _, rfl⟩ := h
      rfl
  | update =>
      simp only [dispatch] at h
      split at h
      · cases h
        rfl
      · cases h
  | routerefresh =>
      cases h
      rfl
  | other code =>
      cases h
      rfl

theorem holdTimerExpired_established (hup : p.state = .established) :
    (holdTimerExpired p now).2.state = .established ↔
      now.toInt - p.lastIo.lastRead.toInt < p.holdTime.toNat := by
  unfold holdTimerExpired
  rw [if_neg (by simp [hup])]
  split
  · rename_i hexpired
    exact iff_of_false (by simp [BgpPeer.disconnect]) (Int.not_lt.mpr hexpired)
  · rename_i hrunning
    refine iff_of_true ?_ (Int.not_le.mp hrunning)
    split
    · simpa using hup
    · exact hup

theorem holdTimerExpired_lastRead (p : BgpPeer) (now : TimeT) :
    (holdTimerExpired p now).2.lastIo.lastRead = p.lastIo.lastRead := by
  unfold holdTimerExpired
  split
  · rfl
  · split
    · exact sendPacket_lastRead p now _ .notification
    · split
      · exact sendPacket_lastRead p now [] .keepalive
      · rfl

end LastRead

/-! ## What holds along a timed run -/

theorem readOpen_holdTime {packet : List UInt8} {hdr : BgpOpen} (h : readOpen packet = .ok hdr) :
    hdr.holdTime = (packet.getD 4 0).toUInt16 + (packet.getD 3 0).toUInt16 := by
  simp only [readOpen, Checked.bind_eq_ok, Checked.pure_eq_ok, Except.ok.injEq, readByte_eq_ok] at h
  obtain ⟨_, _, _, _, _, _, low, hlow, high, hhigh, _, _, _, _, _, _, _, _, _, _, rfl⟩ := h
  simp only [List.getD_eq_getElem?_getD, hlow, hhigh, Option.getD_some]

namespace TimedRun

variable {cfg : BgpConfig} {i : Nat} {holds : Nat → Prop} {s s' : TimedRun} {a : PeerAction}

/-- The time of the last read is not before the last message, and the hold time of a confirmed session is
what its OPEN makes of an admitted one. -/
structure Settled (holds : Nat → Prop) (s : TimedRun) : Prop where
  clock : s.arrived.toInt ≤ s.clock.toInt
  read : s.run.peer.Confirmed → s.arrived.toInt ≤ s.run.peer.lastIo.lastRead.toInt
  hold : s.run.peer.Confirmed → holds s.hold ∧ ∃ high low : UInt8,
    s.hold = 256 * high.toNat + low.toNat ∧ s.run.peer.holdTime = low.toUInt16 + high.toUInt16

theorem Start.settled {AS : UInt16} (h : s.Start AS) : s.Settled holds :=
  ⟨Int.le_of_eq (congrArg Int64.toInt h.2), fun hconfirmed => absurd hconfirmed (BgpPeer.not_confirmed_of_idle h.1.2.1),
    fun hconfirmed => absurd hconfirmed (BgpPeer.not_confirmed_of_idle h.1.2.1)⟩

theorem settled_of_down (hclock : s.arrived.toInt ≤ s.clock.toInt) (h : ¬ s.run.peer.Confirmed) :
    s.Settled holds :=
  ⟨hclock, fun hconfirmed => absurd hconfirmed h, fun hconfirmed => absurd hconfirmed h⟩

theorem Settled.keep (h : s.Settled holds) (hclock : s'.arrived.toInt ≤ s'.clock.toInt)
    (hconfirmed : s'.run.peer.Confirmed → s.run.peer.Confirmed)
    (hread : s'.run.peer.Confirmed → s'.arrived.toInt ≤ s'.run.peer.lastIo.lastRead.toInt)
    (hhold : s'.hold = s.hold) (hholdTime : s'.run.peer.holdTime = s.run.peer.holdTime) : s'.Settled holds := by
  refine ⟨hclock, hread, fun hup => ?_⟩
  rw [hhold, hholdTime]
  exact h.hold (hconfirmed hup)

theorem Settled.thread (h : s.Settled holds) (hversion : cfg.version = 4) {a : ThreadAction}
    (hadm : s.Admits cfg i holds (.thread a)) (hs : s.step cfg i (.thread a) = some s') : s'.Settled holds := by
  have hstep := hs
  simp only [step, PeerRun.step, Option.map_map, Option.map_eq_some_iff] at hstep
  obtain ⟨⟨p, t⟩, hstep, rfl⟩ := hstep
  cases threadStep_eq_some hstep with
  | restart _ => exact settled_of_down h.clock (BgpPeer.not_confirmed_of_idle rfl)
  | connect _ hinit =>
      refine settled_of_down (Int.le_trans h.clock (hadm.1 _ rfl).1) ?_
      rcases (initPeerStates_cases hinit).2 with hidle | hopensent
      · exact BgpPeer.not_confirmed_of_idle hidle
      · exact BgpPeer.not_confirmed_of_opensent hopensent
  | @receive now type payload uninit _ _ hconnected hstate hdispatch =>
      have hread := dispatch_lastRead hdispatch
      by_cases htype : type = .openMsg
      · subst htype
        obtain ⟨hdr, hhdr, ⟨-, htook, -, hconfirm⟩ | ⟨-, hrejected⟩⟩ := decodeOpen_settles
          (p := { s.run.peer.readAt now with
            opens := { (s.run.peer.readAt now).opens with
              rx := (s.run.peer.readAt now).opens.rx + 1, lastRx := now } })
          hversion hstate hconnected hdispatch
        · refine ⟨Int.le_refl _, fun _ => Int.le_of_eq (congrArg Int64.toInt hread.symm), fun _ => ?_⟩
          have hhold := hadm.2 now payload uninit rfl _ hs hconfirm
          have hrecorded : (if BgpMsgType.openMsg = .openMsg ∧ p.state = .openconfirm then
              encodedHold (payload ++ uninit) else s.hold) = encodedHold (payload ++ uninit) :=
            if_pos ⟨rfl, hconfirm⟩
          exact ⟨(congrArg holds hrecorded).mpr hhold, _, _, hrecorded, htook.holdTime.trans (readOpen_holdTime hhdr)⟩
        · exact settled_of_down (Int.le_refl _) (BgpPeer.not_confirmed_of_idle hrejected.state)
      · obtain ⟨hsame, hkept⟩ := dispatch_keeps htype hdispatch
        refine h.keep (Int.le_refl _) ?_ (fun _ => Int.le_of_eq (congrArg Int64.toInt hread.symm))
          (if_neg fun hopen => htype hopen.1) hsame.holdTime
        intro hconfirmed
        rcases hkept with hkept | ⟨-, hconfirm, -⟩
        · have hkept' : p.state = s.run.peer.state := hkept
          rw [BgpPeer.Confirmed, ← hkept']
          exact hconfirmed
        · exact Or.inl hconfirm
  | @eof now header _ =>
      have hclock := Int.le_trans h.clock (hadm.1 now rfl).1
      cases header with
      | true => exact h.keep hclock id (fun _ => hclock) rfl rfl
      | false => exact h.keep hclock id h.read rfl rfl
  | leave => exact h.keep h.clock id h.read rfl rfl
  | close _ => exact h.keep h.clock id h.read rfl rfl
  | empty _ => exact h.keep h.clock id h.read rfl rfl

theorem Settled.step (h : s.Settled holds) (hversion : cfg.version = 4) (hadm : s.Admits cfg i holds a)
    (hs : s.step cfg i a = some s') : s'.Settled holds := by
  cases a with
  | thread a => exact h.thread hversion hadm hs
  | flushed =>
      simp only [TimedRun.step, PeerRun.step, Option.map_eq_some_iff, Option.ite_none_right_eq_some,
        Option.some.injEq] at hs
      obtain ⟨r, ⟨-, rfl⟩, rfl⟩ := hs
      exact h.keep h.clock id h.read rfl rfl
  | holdTimer now =>
      cases hs
      have hclock := Int.le_trans h.clock (hadm.1 now rfl).1
      rcases holdTimerExpired_keeps s.run.peer now with ⟨hsame, hstate⟩ | ⟨-, hidle⟩
      · have hconfirmed : (holdTimerExpired s.run.peer now).2.Confirmed → s.run.peer.Confirmed := by
          rw [BgpPeer.Confirmed, BgpPeer.Confirmed, hstate]
          exact id
        refine h.keep hclock hconfirmed (fun hup => ?_) rfl hsame.holdTime
        have hread := h.read (hconfirmed hup)
        rw [← holdTimerExpired_lastRead s.run.peer now] at hread
        exact hread
      · exact settled_of_down hclock (BgpPeer.not_confirmed_of_idle hidle)

/-- A check that is in time keeps an established session, if the hold time is between 1 and 255. -/
theorem Settled.stays (h : s.Settled holds) (hholds : ∀ n, holds n → n ≤ 65535 → 1 ≤ n ∧ n ≤ 255) {now : TimeT}
    (hin : s.InTime (.holdTimer now)) (hup : s.run.peer.state = .established) :
    (holdTimerExpired s.run.peer now).2.state = .established := by
  have hconfirmed : s.run.peer.Confirmed := Or.inr hup
  obtain ⟨hhold, high, low, hencoded, hholdTime⟩ := h.hold hconfirmed
  have hhigh := high.toNat_lt
  have hlow := low.toNat_lt
  obtain ⟨hpos, hsmall⟩ := hholds _ hhold (by omega)
  have hread := h.read hconfirmed
  have hgap := (hin now rfl).2 hconfirmed hpos
  rw [holdTimerExpired_established hup, hholdTime, UInt16.toNat_add, UInt8.toNat_toUInt16, UInt8.toNat_toUInt16]
  omega

/-! ## A run for each hold time -/

theorem step_receive {p : BgpPeer} {now : TimeT} {type : BgpMsgType} {payload : List UInt8}
    (hphase : s.run.thread.phase = .reading) (hreads : s.run.peer.reads = true)
    (hdispatch : dispatch cfg now ⟨i, s.run.thread.conn, s.run.peer.state⟩ type (payload ++ []) payload.length
      (s.run.peer.readAt now) = .ok p) :
    ∃ s', s.step cfg i (.thread (.receive now type payload [])) = some s' ∧ s'.run.peer = p ∧
      s'.run.thread.phase = .reading ∧ s'.clock = now ∧ s'.arrived = now ∧
      s'.hold = if type = .openMsg ∧ p.state = .openconfirm then encodedHold (payload ++ []) else s.hold := by
  let r : PeerRun :=
    { peer := p
      thread := { s.run.thread with clean := s.run.thread.clean && type ≠ .update }
      heard := s.run.heard ++ [(type, payload ++ [])] }
  have hrun : s.run.step cfg i (.thread (.receive now type payload [])) = some r := by
    rw [PeerRun.step, threadStep, if_pos ⟨hphase, hreads⟩, hdispatch]
    rfl
  exact ⟨s.record r (.thread (.receive now type payload [])), Option.map_eq_some_iff.mpr ⟨r, hrun, rfl⟩, rfl,
    hphase, rfl, rfl, rfl⟩

theorem encodedHold_openPayload (sender : BgpConfig) :
    encodedHold (openPayload sender ++ []) = sender.holdTime.toNat := by
  have hspell := congrArg UInt16.toNat (be16_shift sender.holdTime)
  rw [toNat_be16] at hspell
  exact hspell

theorem inTime_zero (hclock : s.clock = 0) (harrived : s.arrived = 0)
    (htime : ∀ now, a.time = some now → now = 0) : s.InTime a := by
  intro now hnow
  rw [htime now hnow, hclock, harrived]
  exact ⟨Int.le_refl _, fun _ hpos => by simpa using hpos⟩

/-- A state at time zero in which messages are read. -/
structure Reading (cfg : BgpConfig) (i : Nat) (holds : Nat → Prop) (AS : UInt16) (s : TimedRun) : Prop where
  reached : Reaches (step cfg i) (Admits cfg i holds) (Start AS) s
  clock : s.clock = 0
  arrived : s.arrived = 0
  phase : s.run.thread.phase = .reading
  reads : s.run.peer.reads = true

theorem reading_connected (cfg : BgpConfig) (i : Nat) (holds : Nat → Prop) (AS : UInt16) :
    ∃ s, Reading cfg i holds AS s ∧ s.run.peer.AS = AS := by
  let p : BgpPeer := { AS := AS, tcp := { isOpen := true }, state := .connect }
  let s₀ : TimedRun := ⟨{ peer := { AS := AS } }, 0, 0, 0⟩
  let s₁ : TimedRun := ⟨{ peer := { AS := AS }, thread := { phase := .connecting } }, 0, 0, 0⟩
  let s₂ : TimedRun := ⟨{ peer := sendOpen cfg p 0, thread := { phase := .reading, conn := 1 } }, 0, 0, 0⟩
  have hs₁ : s₀.step cfg i (.thread .restart) = some s₁ := rfl
  have hs₂ : s₁.step cfg i (.thread (.connect 0 ⟨true, true, true, true, true⟩)) = some s₂ := rfl
  have hsame := BgpPeer.sendPacket_sameSession p 0 (openPayload cfg) .openMsg
  have hconnected : (sendOpen cfg p 0).connected = true := hsame.connected
  have hstate : (sendOpen cfg p 0).state = .opensent := rfl
  refine ⟨s₂, ⟨?_, rfl, rfl, rfl, ?_⟩, hsame.AS⟩
  · refine .step (.step (.init ⟨⟨rfl, rfl, rfl, rfl⟩, rfl⟩) ⟨?_, ?_⟩ hs₁) ⟨?_, ?_⟩ hs₂
    · exact inTime_zero rfl rfl fun now hnow => nomatch hnow
    · exact fun _ _ _ h => nomatch h
    · exact inTime_zero rfl rfl fun now hnow => (Option.some.inj hnow).symm
    · exact fun _ _ _ h => nomatch h
  · simp [BgpPeer.reads, s₂, hconnected, hstate]

theorem Reading.confirm {AS : UInt16} (h : Reading cfg i holds AS s) (hversion : cfg.version = 4)
    (hAS : s.run.peer.AS = AS) (holdTime : UInt16) (hholds : holds holdTime.toNat) :
    ∃ s', Reading cfg i holds AS s' ∧ s'.run.peer.state = .openconfirm ∧ s'.hold = holdTime.toNat := by
  let sender : BgpConfig := { constructedConfig AS 0 with holdTime := holdTime }
  let q : BgpPeer := { s.run.peer.readAt 0 with
    opens := { s.run.peer.opens with rx := s.run.peer.opens.rx + 1, lastRx := 0 } }
  have hqAS : (readBack sender).AS = q.AS := hAS.symm
  have hqversion : (readBack sender).version = cfg.version := hversion.symm
  obtain ⟨-, hconfirm, hconnected, -⟩ := acceptOpen_took q 0 hqversion hqAS
  have hread : readOpen (openPayload sender ++ []) = .ok (readBack sender) := readOpen_openPayload
  have hopen : dispatch cfg 0 ⟨i, s.run.thread.conn, s.run.peer.state⟩ .openMsg (openPayload sender ++ [])
      (openPayload sender).length (s.run.peer.readAt 0) = .ok (acceptOpen cfg q 0 (readBack sender)) := by
    simp only [dispatch, decodeOpen, hread, Checked.ok_bind, Checked.pure_eq_ok]
    rfl
  obtain ⟨s', hs', hpeer, hphase, hclock, harrived, hhold⟩ := step_receive h.phase h.reads hopen
  rw [if_pos ⟨rfl, hconfirm⟩, encodedHold_openPayload] at hhold
  refine ⟨s', ⟨.step h.reached ⟨?_, ?_⟩ hs', hclock, harrived, hphase, ?_⟩, ?_, hhold⟩
  · exact inTime_zero h.clock h.arrived fun now hnow => (Option.some.inj hnow).symm
  · intro now payload uninit ha _ _ _
    cases ha
    rw [encodedHold_openPayload]
    exact hholds
  · have hreads := h.reads
    simp only [BgpPeer.reads, Bool.and_eq_true] at hreads
    have hstill : q.connected = true := hreads.1
    simp [BgpPeer.reads, hpeer, hconfirm, hconnected, hstill]
  · rw [hpeer]
    exact hconfirm

theorem Reading.establish {AS : UInt16} (h : Reading cfg i holds AS s) (hconfirm : s.run.peer.state = .openconfirm) :
    ∃ s', Reaches (step cfg i) (Admits cfg i holds) (Start AS) s' ∧ s'.run.peer.state = .established ∧
      s'.hold = s.hold ∧ s'.clock = 0 ∧ s'.arrived = 0 ∧ s'.run.peer.lastIo.lastRead = 0 := by
  obtain ⟨p, hp, hup⟩ : ∃ p, dispatch cfg 0 ⟨i, s.run.thread.conn, s.run.peer.state⟩ .keepalive ([] ++ []) 0
      (s.run.peer.readAt 0) = .ok p ∧ p.state = .established := by
    have hconfirm' : (s.run.peer.readAt 0).state = .openconfirm := hconfirm
    refine ⟨_, rfl, ?_⟩
    rw [BgpPeer.sendPacket_state, if_pos hconfirm']
  have hread : p.lastIo.lastRead = 0 := dispatch_lastRead hp
  obtain ⟨s', hs', hpeer, -, hclock, harrived, hhold⟩ := step_receive h.phase h.reads hp
  refine ⟨s', .step h.reached ⟨?_, fun _ _ _ ha => by cases ha⟩ hs', ?_, hhold, hclock, harrived, ?_⟩
  · exact inTime_zero h.clock h.arrived fun now hnow => (Option.some.inj hnow).symm
  · rw [hpeer]
    exact hup
  · rw [hpeer]
    exact hread

theorem reaches_settled {AS : UInt16} (hversion : cfg.version = 4)
    (h : Reaches (step cfg i) (Admits cfg i holds) (Start AS) s) : s.Settled holds :=
  Reaches.invariant (fun _ hs => Start.settled hs) (fun _ _ _ hs hadm hstep => hs.step hversion hadm hstep) h

/-- A check in time ends a session whose OPEN encodes 0, or more than one byte. -/
theorem ends_of_hold (cfg : BgpConfig) (hversion : cfg.version = 4) (i : Nat) (AS : UInt16)
    (holds : Nat → Prop) {n : Nat} (hn : holds n)
    (hword : n ≤ 65535) (hbad : n = 0 ∨ 255 < n) :
    ∃ s now, Reaches (step cfg i) (Admits cfg i holds) (Start AS) s ∧ s.InTime (.holdTimer now) ∧
      s.run.peer.state = .established ∧ (holdTimerExpired s.run.peer now).2.state ≠ .established := by
  have hvalue : (UInt16.ofNat n).toNat = n := by
    rw [UInt16.toNat_ofNat']
    omega
  obtain ⟨s₀, hreading, hAS⟩ := reading_connected cfg i holds AS
  obtain ⟨s₁, hreading₁, hconfirm, hhold₁⟩ := hreading.confirm hversion hAS (UInt16.ofNat n) (hvalue.symm ▸ hn)
  obtain ⟨s, hreach, hup, hhold, hclock, harrived, hread⟩ := hreading₁.establish hconfirm
  rw [hhold₁, hvalue] at hhold
  obtain ⟨-, high, low, hencoded, hholdTime⟩ := (reaches_settled hversion hreach).hold (Or.inr hup)
  have hhigh := high.toNat_lt
  have hlow := low.toNat_lt
  have hzero : (0 : Int64).toInt = 0 := rfl
  have hstored : s.run.peer.holdTime.toNat = low.toNat + high.toNat := by
    rw [hholdTime, UInt16.toNat_add, UInt8.toNat_toUInt16, UInt8.toNat_toUInt16]
    omega
  -- the check comes when the stored hold time has passed
  have hnow : (Int64.ofNat (low.toNat + high.toNat)).toInt = ((low.toNat + high.toNat : Nat) : Int) :=
    Int64.toInt_ofNat_of_lt (by omega)
  refine ⟨s, Int64.ofNat (low.toNat + high.toNat), hreach, ?_, hup, ?_⟩
  · intro now hnow'
    cases hnow'
    rw [hclock, harrived, hnow, hhold]
    exact ⟨by omega, fun _ hpos => by omega⟩
  · rw [ne_eq, holdTimerExpired_established hup, hread, hnow, hstored]
    omega

theorem not_kept_of_hold (cfg : BgpConfig) (hversion : cfg.version = 4) (i : Nat) (AS : UInt16)
    (holds : Nat → Prop) {n : Nat} (hn : holds n) (hword : n ≤ 65535) (hbad : n = 0 ∨ 255 < n) :
    ¬ ∀ s, Reaches (step cfg i) (Admits cfg i holds) (Start AS) s →
      ∀ now, s.InTime (.holdTimer now) → s.run.peer.state = .established →
        (holdTimerExpired s.run.peer now).2.state = .established := by
  intro h
  obtain ⟨s, now, hreach, hin, hup, hends⟩ := ends_of_hold cfg hversion i AS holds hn hword hbad
  exact hends (h s hreach now hin hup)

end TimedRun

/-! ## Results -/

open TimedRun

/-- With a hold time of zero, which turns the timer off, a check ends the session at once, and with one
of 300 seconds it does so after 45. -/
theorem hold_timer_ends :
    (¬ ∀ s, Reaches (TimedRun.step (constructedConfig 1 7) 0) (Admits (constructedConfig 1 7) 0 (· = 0)) (Start 2) s →
      ∀ now, s.InTime (.holdTimer now) → s.run.peer.state = .established →
        (holdTimerExpired s.run.peer now).2.state = .established) ∧
    ¬ ∀ s, Reaches (TimedRun.step (constructedConfig 1 7) 0) (Admits (constructedConfig 1 7) 0 (· = 300)) (Start 2) s →
      ∀ now, s.InTime (.holdTimer now) → s.run.peer.state = .established →
        (holdTimerExpired s.run.peer now).2.state = .established := by
  constructor
  · exact not_kept_of_hold (constructedConfig 1 7) rfl 0 2 (· = 0) rfl (by omega) (by omega)
  · exact not_kept_of_hold (constructedConfig 1 7) rfl 0 2 (· = 300) rfl (by omega) (by omega)

/-- In the timed runs whose accepted OPENs have admitted hold times, no check of the timer ends an
established session just when all admitted hold times are between 1 and 255. -/
theorem hold_timer_keeps_iff (myAS : UInt16) (myId : UInt32) (i : Nat) (AS : UInt16) (holds : Nat → Prop) :
    (∀ s, Reaches (TimedRun.step (constructedConfig myAS myId) i) (Admits (constructedConfig myAS myId) i holds)
        (Start AS) s → ∀ now, s.InTime (.holdTimer now) → s.run.peer.state = .established →
        (holdTimerExpired s.run.peer now).2.state = .established) ↔
      ∀ n, holds n → n ≤ 65535 → 1 ≤ n ∧ n ≤ 255 := by
  constructor
  · intro h n hn hword
    by_contra hbad
    exact not_kept_of_hold (constructedConfig myAS myId) rfl i AS holds hn hword (by omega) h
  · intro hholds s hreach now hin hup
    exact (reaches_settled rfl hreach).stays hholds hin hup

end Log2Bgp
