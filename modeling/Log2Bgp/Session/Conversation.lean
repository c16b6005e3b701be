import Log2Bgp.Session.Lemmas.Speech

/-!
# Conversations

What has been written on a connection, how another instance reads it, and whether it is what the counters
of sent messages say.
-/

namespace Log2Bgp

open Lib

/-! ## One side of a conversation -/

/-- An OPEN, then KEEPALIVEs, and at the end a NOTIFICATION, behind which nothing is said. -/
inductive Said (cfg : BgpConfig) : (closed : Bool) → List WireMessage → Prop where
  | opened : Said cfg false [.opened cfg]
  | keepalive {ms : List WireMessage} : Said cfg false ms → Said cfg false (ms ++ [.keepalive])
  | final {ms : List WireMessage} {m : WireMessage} : Said cfg false ms → m.Final → Said cfg true (ms ++ [m])

/-- Nothing has been written on a connection, which is then closed, or one side of a conversation has. -/
def BgpPeer.Spoken (cfg : BgpConfig) (p : BgpPeer) : Prop :=
  (p.tcp.sent = [] ∧ p.connected = false) ∨
    ∃ closed ms, Said cfg closed ms ∧ p.tcp.sent = wire ms ∧ (closed = true → p.connected = false)

variable {cfg other : BgpConfig} {now : TimeT} {p p' q : BgpPeer} {receipt : Receipt} {uninit : List UInt8}

theorem Speech.spoken (h : Speech cfg p p') (hp : p.Spoken cfg) : p'.Spoken cfg := by
  have hclosed : ∀ {b : Bool}, (p'.connected = true → p.connected = true) → (b = true → p.connected = false) →
      b = true → p'.connected = false := by
    intro b hback hb hclosed
    cases hconnected : p'.connected with
    | true => exact absurd (hback hconnected) (by simp [hb hclosed])
    | false => rfl
  have hsaying : p.connected = true → ∃ ms, Said cfg false ms ∧ p.tcp.sent = wire ms := by
    intro hconnected
    rcases hp with ⟨_, hnot⟩ | ⟨closed, ms, hsaid, hsent, hnot⟩
    · rw [hconnected] at hnot
      cases hnot
    · cases closed with
      | true => exact absurd (hnot rfl) (by simp [hconnected])
      | false => exact ⟨ms, hsaid, hsent⟩
  cases h with
  | silent hsent _ hback =>
      rcases hp with ⟨hnone, hnot⟩ | ⟨closed, ms, hsaid, hms, hnot⟩
      · exact Or.inl ⟨hsent.trans hnone, hclosed (b := true) hback (fun _ => hnot) rfl⟩
      · exact Or.inr ⟨closed, ms, hsaid, hsent.trans hms, hclosed hback hnot⟩
  | keepalive hconnected hsent _ =>
      obtain ⟨ms, hsaid, hms⟩ := hsaying hconnected
      refine Or.inr ⟨false, ms ++ [.keepalive], .keepalive hsaid, ?_, fun h => nomatch h⟩
      rw [hsent, hms, wire_append, wire_singleton]
  | final m hm hconnected hsent _ hnot =>
      obtain ⟨ms, hsaid, hms⟩ := hsaying hconnected
      refine Or.inr ⟨true, ms ++ [m], .final hsaid hm, ?_, fun _ => hnot⟩
      rw [hsent, hms, wire_append, wire_singleton]

theorem OpeningSpeech.spoken {attempt : ConnectAttempt} (h : OpeningSpeech cfg attempt p p') (hp : p.Spoken cfg) :
    p'.Spoken cfg := by
  cases h with
  | refused _ hsent _ hnot =>
      rcases hp with ⟨hnone, _⟩ | ⟨closed, ms, hsaid, hms, _⟩
      · exact Or.inl ⟨hsent.trans hnone, hnot⟩
      · exact Or.inr ⟨closed, ms, hsaid, hsent.trans hms, fun _ => hnot⟩
  | dropped _ hsent _ hnot => exact Or.inl ⟨hsent, hnot⟩
  | opened _ hsent _ =>
      refine Or.inr ⟨false, [.opened cfg], .opened, ?_, fun h => nomatch h⟩
      rw [hsent, wire_singleton]

theorem Muted.spoken (h : Muted p p') (hp : p.Spoken cfg) : p'.Spoken cfg := by
  rcases hp with ⟨hnone, _⟩ | ⟨closed, ms, hsaid, hms, _⟩
  · exact Or.inl ⟨h.sent.trans hnone, h.connected⟩
  · exact Or.inr ⟨closed, ms, hsaid, h.sent.trans hms, fun _ => h.connected⟩

/-! ## The steps of a session -/

namespace PeerRun

variable {i : Nat} {AS : UInt16} {s s' : PeerRun}

/-- What a step says: a thread that connects says its OPEN, and only the hold timer is ever muted. -/
inductive Says (cfg : BgpConfig) (s s' : PeerRun) : PeerAction → Prop where
  | connect {now : TimeT} {attempt : ConnectAttempt} : OpeningSpeech cfg attempt s.peer s'.peer →
      Says cfg s s' (.thread (.connect now attempt))
  | thread {a : ThreadAction} : (∀ now attempt, a ≠ .connect now attempt) → Speech cfg s.peer s'.peer →
      Says cfg s s' (.thread a)
  | flushed : Speech cfg s.peer s'.peer → Says cfg s s' .flushed
  | holdTimer {now : TimeT} : s.peer.Live now → Speech cfg s.peer s'.peer → Says cfg s s' (.holdTimer now)
  | muted {now : TimeT} : ¬ s.peer.Live now → Muted s.peer s'.peer → Says cfg s s' (.holdTimer now)

theorem step_says {a : PeerAction} (h : s.step cfg i a = some s') : Says cfg s s' a := by
  cases a with
  | thread a =>
      obtain ⟨⟨p, t⟩, hstep, rfl⟩ := Option.map_eq_some_iff.mp h
      cases threadStep_eq_some hstep with
      | restart _ => exact .thread (by simp) (.silent rfl rfl id)
      | connect _ hinit => exact .connect (initPeerStates_speech hinit)
      | @receive now _ _ _ _ _ hconnected hstate hdispatch =>
          have hspeech : Speech cfg (s.peer.readAt now) _ := dispatch_speech hstate hconnected hdispatch
          refine .thread (by simp) ?_
          cases hspeech with
          | silent hsent hcount hback => exact .silent hsent hcount hback
          | keepalive hconn hsent hcount => exact .keepalive hconn hsent hcount
          | final m hm hconn hsent hcount hnot => exact .final m hm hconn hsent hcount hnot
      | @eof _ header _ =>
          refine .thread (by simp) (.silent ?_ ?_ ?_)
          · cases header <;> rfl
          · cases header <;> rfl
          · simp [BgpPeer.readEof, BgpPeer.connected, TcpClient.connected]
      | leave => exact .thread (by simp) (.silent rfl rfl id)
      | close _ =>
          refine .thread (by simp) (.silent rfl rfl ?_)
          intro h
          cases h
      | empty _ => exact .thread (by simp) (.silent rfl rfl id)
  | flushed =>
      simp only [PeerRun.step, Option.ite_none_right_eq_some, Option.some.injEq] at h
      obtain ⟨_, rfl⟩ := h
      exact .flushed (.silent rfl rfl id)
  | holdTimer now =>
      cases h
      rcases holdTimerExpired_speech cfg s.peer now with ⟨hlive, hspeech⟩ | ⟨hdead, hmuted⟩
      · exact .holdTimer hlive hspeech
      · exact .muted hdead hmuted

theorem Says.spoken {a : PeerAction} (h : Says cfg s s' a) (hs : s.peer.Spoken cfg) : s'.peer.Spoken cfg := by
  cases h with
  | connect hspeech => exact hspeech.spoken hs
  | thread _ hspeech => exact hspeech.spoken hs
  | flushed hspeech => exact hspeech.spoken hs
  | holdTimer _ hspeech => exact hspeech.spoken hs
  | muted _ hmuted => exact hmuted.spoken hs

end PeerRun

/-! ## The other side -/

theorem openPayload_length (cfg : BgpConfig) : (openPayload cfg).length = 10 := rfl

/-- Where a frame is at the start of a stream, it is read as its message. -/
theorem readMessage_frame (q : BgpPeer) {m : WireMessage} (hlen : m.payload.length + 19 < 65536) (rest : List UInt8) :
    readMessage other now receipt uninit q (m.frame ++ rest) =
      (do
        let q ← dispatch other now receipt (.ofByte m.type.toByte) (m.payload ++ uninit) m.payload.length (q.readAt now)
        pure (q, rest)) := by
  have hword : (be16 ((UInt16.ofNat (m.payload.length + 19)) >>> 8).toUInt8
      ((UInt16.ofNat (m.payload.length + 19)) &&& 0xff).toUInt8).toNat = m.payload.length + 19 := by
    rw [be16_shift, UInt16.toNat_ofNat']
    omega
  have hdrop : (m.frame ++ rest).drop 16 = ((UInt16.ofNat (m.payload.length + 19)) >>> 8).toUInt8 ::
      ((UInt16.ofNat (m.payload.length + 19)) &&& 0xff).toUInt8 :: m.type.toByte :: (m.payload ++ rest) := by
    simp [WireMessage.frame, BgpPeer.lengthBytes]
  rw [readMessage_of_long hdrop hword, if_neg (by simp), List.take_left, List.drop_left]

/-- Every message of a conversation is one that can be handled, where the buffer is as long as the
header says. -/
structure WireMessage.Plain (m : WireMessage) : Prop where
  short : m.payload.length ≤ 10
  type : .ofByte m.type.toByte = m.type
  handled : ∀ (other : BgpConfig) (now : TimeT) (receipt : Receipt) (uninit : List UInt8) (q : BgpPeer),
    19 ≤ uninit.length → Safe (dispatch other now receipt m.type (m.payload ++ uninit) m.payload.length q)

theorem WireMessage.plain_opened (cfg : BgpConfig) : (WireMessage.opened cfg).Plain where
  short := le_refl 10
  type := rfl
  handled other now receipt uninit q _ := by
    have hlen : 10 ≤ (openPayload cfg ++ uninit).length := by simp [openPayload_length]
    exact safe_decodeOpen.mpr hlen

theorem WireMessage.plain_keepalive : WireMessage.keepalive.Plain where
  short := Nat.zero_le 10
  type := rfl
  handled _ _ _ _ _ _ := safe_ok _

theorem WireMessage.Final.plain {m : WireMessage} (h : m.Final) : m.Plain := by
  have hhandled : ∀ (code sub : UInt8), KnownSubcode code sub → ∀ (other : BgpConfig) (now : TimeT)
      (receipt : Receipt) (uninit : List UInt8) (q : BgpPeer), 19 ≤ uninit.length →
        Safe (dispatch other now receipt .notification ([code, sub] ++ uninit) 2 q) := by
    intro code sub hknown other now receipt uninit q huninit
    have hdecode : Safe (decodeNotification ([code, sub] ++ uninit)) := by
      refine safe_decodeNotification.mpr ⟨?_, ?_⟩
      · simp only [List.length_append, List.length_cons, List.length_nil]
        omega
      · intro code' sub' hcode hsub
        cases hcode
        cases hsub
        exact hknown
    obtain ⟨texts, htexts⟩ := hdecode
    simp only [dispatch, htexts, Checked.ok_bind, Checked.pure_eq_ok, safe_ok]
  cases h with
  | rejected sub =>
      refine ⟨by simp, rfl, ?_⟩
      apply hhandled
      cases sub <;> decide
  | expired =>
      refine ⟨by simp, rfl, ?_⟩
      apply hhandled
      decide

theorem Said.plain {closed : Bool} {ms : List WireMessage} (h : Said cfg closed ms) : ∀ m ∈ ms, m.Plain := by
  induction h with
  | opened =>
      intro m hm
      cases List.mem_singleton.mp hm
      exact WireMessage.plain_opened cfg
  | keepalive _ ih =>
      intro m hm
      rcases List.mem_append.mp hm with hm | hm
      · exact ih m hm
      · cases List.mem_singleton.mp hm
        exact WireMessage.plain_keepalive
  | final _ hfinal ih =>
      intro m hm
      rcases List.mem_append.mp hm with hm | hm
      · exact ih m hm
      · cases List.mem_singleton.mp hm
        exact hfinal.plain

/-- Another instance reads the bytes of these messages one message after the other, whatever its state and
whatever follows them, and none of them is a fault. -/
def ReadBack (ms : List WireMessage) : Prop :=
  ∀ before m after, ms = before ++ m :: after → ∀ (other : BgpConfig) (now : TimeT) (receipt : Receipt)
    (uninit rest : List UInt8) (q : BgpPeer), 19 ≤ uninit.length →
      ∃ q', dispatch other now receipt m.type (m.payload ++ uninit) m.payload.length (q.readAt now) = .ok q' ∧
        readMessage other now receipt uninit q (wire (m :: after) ++ rest) = .ok (q', wire after ++ rest)

theorem Said.readBack {closed : Bool} {ms : List WireMessage} (h : Said cfg closed ms) : ReadBack ms := by
  intro before m after hms other now receipt uninit rest q huninit
  have hplain : m.Plain := h.plain m (by rw [hms]; simp)
  obtain ⟨q', hq'⟩ := hplain.handled other now receipt uninit (q.readAt now) huninit
  refine ⟨q', hq', ?_⟩
  have hshort := hplain.short
  have hwire : wire (m :: after) ++ rest = m.frame ++ (wire after ++ rest) := by simp [wire]
  rw [hwire, readMessage_frame q (by omega), hplain.type, hq']
  rfl

/-! ## Results -/

namespace Example

/-- A peer connects, and is refused for its AS. -/
def wrongOpen : List PeerAction :=
  [.thread .restart, .thread (.connect 1 ⟨true, true, true, true, true⟩),
    .thread (.receive 1 .openMsg [4, 0, 3, 0, 180, 10, 0, 0, 1, 0] [])]

end Example

/-- In every state of a session, what has been written on its connection is an OPEN with the values of the
instance, then KEEPALIVEs and at most one NOTIFICATION, behind which the connection is closed; and another
instance reads just these messages out of it. -/
theorem conversation_said {AS : UInt16} {i : Nat} {s : PeerRun}
    (h : Reaches (PeerRun.step cfg i) (fun _ _ => True)
      (fun s => s.Start AS ∧ s.peer.tcp = {}) s) :
    (s.peer.tcp.sent = [] ∧ s.peer.connected = false) ∨
      ∃ closed ms, Said cfg closed ms ∧ s.peer.tcp.sent = wire ms ∧
        (closed = true → s.peer.connected = false) ∧ ReadBack ms := by
  have hinit : ∀ s : PeerRun, s.Start AS ∧ s.peer.tcp = {} → s.peer.Spoken cfg := by
    rintro s ⟨_, htcp⟩
    refine Or.inl ⟨?_, ?_⟩
    · rw [htcp]
    · rw [BgpPeer.connected, htcp]
      rfl
  have hspoken : (fun s : PeerRun => s.peer.Spoken cfg) s :=
    Reaches.invariant hinit (fun _ _ _ hs _ hstep => (PeerRun.step_says hstep).spoken hs) h
  rcases hspoken with hnone | ⟨closed, ms, hsaid, hsent, hclosed⟩
  · exact Or.inl hnone
  · exact Or.inr ⟨closed, ms, hsaid, hsent, hclosed, hsaid.readBack⟩

theorem conversation_said_rejected : ∃ s, runAll (PeerRun.step (constructedConfig 1 0) 0) Example.wrongOpen
      Example.newPeer = some s ∧ s.peer.tcp.sent.length = 50 ∧
    ((s.peer.tcp.sent = [] ∧ s.peer.connected = false) ∨
      ∃ closed ms, Said (constructedConfig 1 0) closed ms ∧ s.peer.tcp.sent = wire ms ∧
        (closed = true → s.peer.connected = false) ∧ ReadBack ms) := by
  have hview : (runAll (PeerRun.step (constructedConfig 1 0) 0) Example.wrongOpen Example.newPeer).map
      (fun s => s.peer.tcp.sent.length) = some 50 := by
    decide
  obtain ⟨s, hs, hlength⟩ := Option.map_eq_some_iff.mp hview
  have hreach : Reaches (PeerRun.step (constructedConfig 1 0) 0) (fun _ _ => True)
      (fun s => s.Start 2 ∧ s.peer.tcp = {}) s :=
    Reaches.runAll (.init ⟨⟨rfl, rfl, rfl, rfl⟩, rfl⟩) (by decide) hs
  exact ⟨s, hs, hlength, conversation_said hreach⟩

/-! ## The counters of sent messages -/

/-- A session with all the bytes that have been written on its connections. They are bookkeeping: no
function of the code reads them. -/
structure WireRun where
  run : PeerRun
  written : List UInt8 := []

namespace WireRun

/-- What a step writes: a connection that is made begins with nothing. -/
def writes (p p' : BgpPeer) : PeerAction → List UInt8
  | .thread (.connect _ attempt) => if attempt.connect then p'.tcp.sent else []
  | _ => p'.tcp.sent.drop p.tcp.sent.length

def step (cfg : BgpConfig) (i : Nat) (s : WireRun) (a : PeerAction) : Option WireRun :=
  (s.run.step cfg i a).map fun r => { run := r, written := s.written ++ writes s.run.peer r.peer a }

/-- A peer that is configured, with its counters at zero. -/
def Start (AS : UInt16) (s : WireRun) : Prop :=
  s.run.Start AS ∧ s.run.peer.txCounters = {} ∧ s.written = []

/-- The counters are those of the messages that have been written. -/
def Counted (s : WireRun) : Prop :=
  ∃ ms, s.written = wire ms ∧ s.run.peer.txCounters = .of ms

/-- Where the hold timer is checked, the connection is open, or nothing is due. -/
def Live (s : WireRun) : PeerAction → Prop
  | .holdTimer now => s.run.peer.Live now
  | _ => True

instance (s : WireRun) : DecidablePred s.Live
  | .holdTimer now => inferInstanceAs (Decidable (s.run.peer.Live now))
  | .thread _ | .flushed => isTrue trivial

variable {AS : UInt16} {s : WireRun} {r : PeerRun}

theorem Start.counted (h : s.Start AS) : s.Counted := by
  obtain ⟨_, hcounters, hwritten⟩ := h
  exact ⟨[], hwritten, hcounters⟩

theorem WireMessage.Final.short {m : WireMessage} (h : m.Final) : m.payload.length ≤ 2 := by
  cases h <;> simp

/-- What is said on a connection is written and counted. -/
theorem Counted.speech (hs : s.Counted) (h : Speech cfg s.run.peer r.peer) :
    Counted { run := r, written := s.written ++ r.peer.tcp.sent.drop s.run.peer.tcp.sent.length } := by
  obtain ⟨ms, hwritten, hcounters⟩ := hs
  have hsays : ∀ {m : WireMessage}, m.payload.length ≤ 10 →
      r.peer.tcp.sent = s.run.peer.tcp.sent ++ m.frame → r.peer.txCounters = s.run.peer.txCounters.add m →
      Counted { run := r, written := s.written ++ r.peer.tcp.sent.drop s.run.peer.tcp.sent.length } := by
    intro m hshort hsent hcount
    refine ⟨ms ++ [m], ?_, ?_⟩
    · simp only [hsent, List.drop_left, hwritten, wire_append, wire_singleton]
    · simp only [hcount, hcounters, TxCounters.of_snoc ms (show m.payload.length + 19 < 65536 by omega)]
  cases h with
  | silent hsent hcount _ =>
      refine ⟨ms, ?_, hcount.trans hcounters⟩
      simp only [hsent, List.drop_length, List.append_nil, hwritten]
  | keepalive _ hsent hcount => exact hsays (m := .keepalive) (Nat.zero_le 10) hsent hcount
  | final m hm _ hsent hcount _ => exact hsays (Nat.le_trans (WireMessage.Final.short hm) (by decide)) hsent hcount

theorem Counted.opening (hs : s.Counted) {attempt : ConnectAttempt}
    (h : OpeningSpeech cfg attempt s.run.peer r.peer) :
    Counted { run := r, written := s.written ++ if attempt.connect then r.peer.tcp.sent else [] } := by
  obtain ⟨ms, hwritten, hcounters⟩ := hs
  cases h with
  | refused hattempt _ hcount _ =>
      refine ⟨ms, ?_, hcount.trans hcounters⟩
      simp [hattempt, hwritten]
  | dropped _ hsent hcount _ =>
      refine ⟨ms, ?_, hcount.trans hcounters⟩
      simp [hsent, hwritten]
  | opened hattempt hsent hcount =>
      refine ⟨ms ++ [.opened cfg], ?_, ?_⟩
      · simp [hattempt, hsent, hwritten]
      · simp only [hcount, hcounters]
        exact (TxCounters.of_snoc ms (m := .opened cfg) (show 29 < 65536 by decide)).symm

/-- A message that is not written makes the number of bytes too large. -/
theorem Counted.muted (hs : s.Counted) (h : Muted s.run.peer r.peer) :
    ¬ Counted { run := r, written := s.written ++ r.peer.tcp.sent.drop s.run.peer.tcp.sent.length } := by
  obtain ⟨ms, hwritten, hcounters⟩ := hs
  obtain ⟨m, hshort, hcount⟩ := h.counted
  rintro ⟨ms', hwritten', hcounters'⟩
  simp only [h.sent, List.drop_length, List.append_nil] at hwritten'
  have hsame : (TxCounters.of ms').bytes = (TxCounters.of ms).bytes := by
    simp only [TxCounters.of, ← hwritten, ← hwritten']
  rw [← hcounters', ← hcounters] at hsame
  simp only [hcount] at hsame
  exact TxCounters.add_bytes_ne _ (by omega) hsame

theorem Counted.step_iff {i : Nat} {s' : WireRun} (hs : s.Counted) {a : PeerAction}
    (h : s.step cfg i a = some s') : s'.Counted ↔ s.Live a := by
  simp only [step, Option.map_eq_some_iff] at h
  obtain ⟨r, hr, rfl⟩ := h
  cases PeerRun.step_says hr with
  | connect hspeech => exact iff_of_true (hs.opening hspeech) trivial
  | @thread a hnot hspeech =>
      refine iff_of_true ?_ trivial
      cases a with
      | connect now attempt => exact absurd rfl (hnot now attempt)
      | _ => exact hs.speech hspeech
  | flushed hspeech => exact iff_of_true (hs.speech hspeech) trivial
  | holdTimer hlive hspeech => exact iff_of_true (hs.speech hspeech) hlive
  | muted hdead hmuted => exact iff_of_false (hs.muted hmuted) hdead

end WireRun

/-- The counters of sent messages and bytes are those of what has been written, all along a run, just
where no check of the hold timer finds a session that is up on a connection that has ended and has a
message due. -/
theorem tx_counters_iff {AS : UInt16} {i : Nat} {s : WireRun} (hs : s.Start AS) (as : List PeerAction) :
    Always (WireRun.step cfg i) WireRun.Counted as s ↔ AllAdmissible (WireRun.step cfg i) WireRun.Live as s := by
  refine always_iff_of_stuck (fun _ => True) (fun _ _ _ _ _ _ => trivial)
    (fun _ _ _ _ hcounted hstep => hcounted.step_iff hstep) ?_ trivial hs.counted as
  intro s a _ _ hstuck
  cases a with
  | holdTimer now => simp [WireRun.step, PeerRun.step] at hstuck
  | thread _ => trivial
  | flushed => trivial

theorem Example.newPeer_start : WireRun.Start 2 { run := Example.newPeer } :=
  ⟨⟨rfl, rfl, rfl, rfl⟩, rfl, rfl⟩

theorem tx_counters_iff_up :
    Always (WireRun.step (constructedConfig 1 0) 0) WireRun.Counted Example.twoOpens { run := Example.newPeer } :=
  (tx_counters_iff Example.newPeer_start Example.twoOpens).mpr (by decide)

end Log2Bgp
