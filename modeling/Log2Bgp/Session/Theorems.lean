import Log2Bgp.Session.Lemmas.Dispatch
import Log2Bgp.Session.Lemmas.Opened

/-!
# Reading messages from a peer
-/

namespace Log2Bgp

open Lib

section Read

variable {cfg : BgpConfig} {now : TimeT} {receipt : Receipt} {uninit : List UInt8} {p : BgpPeer}
variable {rx rest : List UInt8} {lenHigh lenLow type : UInt8}

/-! ## The loop body, case by case -/

theorem readMessage_of_long (hrx : rx.drop 16 = lenHigh :: lenLow :: type :: rest) {n : Nat}
    (hn : (be16 lenHigh lenLow).toNat = n + 19) :
    readMessage cfg now receipt uninit p rx =
      if rest.length < n then .ok ((p.readAt now).readEof, [])
      else (do
        let p ← dispatch cfg now receipt (.ofByte type) (rest.take n ++ uninit) n (p.readAt now)
        pure (p, rest.drop n)) := by
  have hcount : (((n + 19 : Nat) : Int) - 19).toNat = n := by omega
  have hrange : 0 ≤ ((n + 19 : Nat) : Int) - 19 ∧ ((n + 19 : Nat) : Int) - 19 ≤ (n + 19 : Nat) := by
    omega
  unfold readMessage
  simp only [hrx, hn, hcount, if_pos hrange]

theorem readMessage_of_short (hrx : rx.drop 16 = lenHigh :: lenLow :: type :: rest)
    (hn : (be16 lenHigh lenLow).toNat < 19) : ¬ Safe (readMessage cfg now receipt uninit p rx) := by
  have hrange : ¬ (0 ≤ ((be16 lenHigh lenLow).toNat : Int) - 19 ∧
      ((be16 lenHigh lenLow).toNat : Int) - 19 ≤ (be16 lenHigh lenLow).toNat) := by omega
  unfold readMessage
  simp only [hrx, if_neg hrange]
  exact not_safe_error _

theorem readMessage_of_eof (hrx : ∀ h l t r, rx.drop 16 ≠ h :: l :: t :: r) :
    readMessage cfg now receipt uninit p rx = .ok (p.readEof, []) := by
  unfold readMessage
  split
  · rename_i h
    exact absurd h (hrx _ _ _ _)
  · rfl

/-! ## One message -/

/-- The length in the header at the start of a stream counts the header, and the payload, once it is
there, fits its handler. -/
def ReadableMessage (rx : List UInt8) : Prop :=
  ∀ lenHigh lenLow type rest, rx.drop 16 = lenHigh :: lenLow :: type :: rest →
    19 ≤ (be16 lenHigh lenLow).toNat ∧
      ((be16 lenHigh lenLow).toNat - 19 ≤ rest.length →
        PayloadFits (.ofByte type) (rest.take ((be16 lenHigh lenLow).toNat - 19)))

theorem safe_readMessage : Safe (readMessage cfg now receipt [] p rx) ↔ ReadableMessage rx := by
  by_cases hrx : ∃ h l t r, rx.drop 16 = h :: l :: t :: r
  · obtain ⟨lenHigh, lenLow, type, rest, hrx⟩ := hrx
    have hone : ReadableMessage rx ↔ 19 ≤ (be16 lenHigh lenLow).toNat ∧
        ((be16 lenHigh lenLow).toNat - 19 ≤ rest.length →
          PayloadFits (.ofByte type) (rest.take ((be16 lenHigh lenLow).toNat - 19))) := by
      constructor
      · intro h
        exact h _ _ _ _ hrx
      · intro h h' l t r heq
        rw [hrx] at heq
        cases heq
        exact h
    rcases Nat.lt_or_ge (be16 lenHigh lenLow).toNat 19 with hlt | hge
    · exact iff_of_false (readMessage_of_short hrx hlt) fun h => absurd (hone.mp h).1 (by omega)
    · obtain ⟨n, hn⟩ : ∃ n, (be16 lenHigh lenLow).toNat = n + 19 := ⟨_, (Nat.sub_add_cancel hge).symm⟩
      rw [hone, hn, readMessage_of_long hrx hn, Nat.add_sub_cancel, and_iff_right (by omega)]
      split
      · rename_i hshort
        exact iff_of_true (safe_ok _) fun h => absurd h (by omega)
      · rename_i hlong
        have hle : n ≤ rest.length := by omega
        have hlength : (rest.take n).length = n := by
          rw [List.length_take]
          omega
        have hdispatch : Safe (dispatch cfg now receipt (.ofByte type) (rest.take n)
            (rest.take n).length (p.readAt now)) ↔ PayloadFits (.ofByte type) (rest.take n) :=
          safe_dispatch
        rw [hlength] at hdispatch
        rw [List.append_nil, safe_bind_iff (p := True) (by simp), and_true, hdispatch]
        exact ⟨fun h _ => h, fun h => h hle⟩
  · have hnone : ∀ h l t r, rx.drop 16 ≠ h :: l :: t :: r :=
      fun h l t r heq => hrx ⟨h, l, t, r, heq⟩
    rw [readMessage_of_eof hnone]
    exact iff_of_true (safe_ok _) fun h l t r heq => absurd heq (hnone h l t r)

/-! ## All messages of a stream -/

/-- What is left of a stream behind each of its messages. -/
inductive Boundary (rx : List UInt8) : List UInt8 → Prop where
  | start : Boundary rx rx
  | next {s rest : List UInt8} {lenHigh lenLow type : UInt8} : Boundary rx s →
      s.drop 16 = lenHigh :: lenLow :: type :: rest → 19 ≤ (be16 lenHigh lenLow).toNat →
      Boundary rx (rest.drop ((be16 lenHigh lenLow).toNat - 19))

/-- Reading a message leads to the next boundary, or to the end of the stream. -/
theorem readMessage_boundary {s s' : List UInt8} {p' : BgpPeer} (hs : Boundary rx s)
    (h : readMessage cfg now receipt uninit p s = .ok (p', s')) :
    Boundary rx s' ∨ p'.connected = false := by
  by_cases hrx : ∃ h l t r, s.drop 16 = h :: l :: t :: r
  · obtain ⟨lenHigh, lenLow, type, rest, hrx⟩ := hrx
    rcases Nat.lt_or_ge (be16 lenHigh lenLow).toNat 19 with hlt | hge
    · exact absurd (.of_eq h) (readMessage_of_short hrx hlt)
    · obtain ⟨n, hn⟩ : ∃ n, (be16 lenHigh lenLow).toNat = n + 19 := ⟨_, (Nat.sub_add_cancel hge).symm⟩
      have hnext := Boundary.next hs hrx hge
      rw [hn, Nat.add_sub_cancel] at hnext
      rw [readMessage_of_long hrx hn] at h
      split at h
      · cases h
        exact Or.inr (by simp [BgpPeer.connected, BgpPeer.readEof, TcpClient.connected])
      · obtain ⟨q, _, hq⟩ := Checked.bind_eq_ok.mp h
        cases hq
        exact Or.inl hnext
  · rw [readMessage_of_eof fun h l t r heq => hrx ⟨h, l, t, r, heq⟩] at h
    cases h
    exact Or.inr (by simp [BgpPeer.connected, BgpPeer.readEof, TcpClient.connected])

/-- A stream of readable messages is read without a fault, however far the loop gets. -/
theorem safe_readMessages (times : List TimeT) {s : List UInt8} (hs : Boundary rx s ∨ p.connected = false)
    (hall : ∀ s, Boundary rx s → ReadableMessage s) :
    Safe (readMessages cfg receipt [] times p s) := by
  induction times generalizing p s with
  | nil => exact safe_ok _
  | cons now times ih =>
      unfold readMessages
      split
      · rename_i hguard
        rcases hs with hs | hclosed
        · obtain ⟨⟨p', s'⟩, hread⟩ := safe_readMessage.mpr (hall s hs)
          rw [hread, Checked.ok_bind]
          exact ih (readMessage_boundary hs hread)
        · rw [hclosed] at hguard
          exact absurd hguard.1 Bool.false_ne_true
      · exact safe_ok _

end Read

/-! ## Results -/

/-- A NOTIFICATION of an unacceptable OPEN whose subcode has no text. -/
theorem notification_unsafe : ¬ ∀ rx : List UInt8,
    Safe (readMessage { AS := 1 } 5 ⟨0, 0, .opensent⟩ [] { tcp := { isOpen := true } } rx) := by
  intro h
  exact absurd (h (List.replicate 16 0xff ++ [0, 27, 3] ++ [2, 5, 0, 0, 0, 0, 0, 0])) (by decide)

/-- Each message is read and handled safely exactly when it is readable, and a stream whose messages
are all readable is read safely to its end. -/
theorem readMessage_safe_iff (cfg : BgpConfig) (receipt : Receipt) (p : BgpPeer) (rx : List UInt8) :
    (∀ now, Safe (readMessage cfg now receipt [] p rx) ↔ ReadableMessage rx) ∧
      ((∀ s, Boundary rx s → ReadableMessage s) →
        ∀ times, Safe (readMessages cfg receipt [] times p rx)) :=
  ⟨fun _ => safe_readMessage, fun hall times => safe_readMessages times (Or.inl .start) hall⟩

namespace Example

def header (length : UInt8) (type : UInt8) : List UInt8 := List.replicate 16 0xff ++ [0, length, type]

/-- An update that takes a prefix back and announces another one, and behind it a NOTIFICATION. -/
def afterOpen : List UInt8 :=
  header 45 2 ++ [0, 2, 8, 11, 0, 18, 64, 1, 1, 0, 64, 2, 4, 2, 1, 0, 2, 64, 3, 4, 10, 0, 0, 1, 8, 12] ++
    (header 27 3 ++ [6, 2, 0, 0, 0, 0, 0, 0])

/-- What a peer sends from its OPEN on. -/
def fromOpen : List UInt8 := header 29 1 ++ [4, 0, 2, 0, 180, 10, 0, 0, 1, 0] ++ (header 19 4 ++ afterOpen)

theorem boundary_fromOpen {s : List UInt8} (h : Boundary fromOpen s) :
    s ∈ [fromOpen, header 19 4 ++ afterOpen, afterOpen, header 27 3 ++ [6, 2, 0, 0, 0, 0, 0, 0], []] := by
  induction h with
  | start => exact List.mem_cons_self
  | next _ hdrop _ ih =>
      simp only [List.mem_cons, List.not_mem_nil, or_false] at ih
      obtain rfl | rfl | rfl | rfl | rfl := ih
      · cases hdrop
        decide
      · cases hdrop
        decide
      · cases hdrop
        decide
      · cases hdrop
        decide
      · cases hdrop

end Example

/-- The peer of AS 2 that is waiting for it. -/
def Example.waiting : BgpPeer := { tcp := { isOpen := true }, AS := 2, state := .opensent }

theorem readMessage_safe_iff_fromOpen :
    Safe (readMessages { AS := 1 } ⟨0, 0, .opensent⟩ [] [5, 6, 7, 8] Example.waiting Example.fromOpen) := by
  have hall : ∀ s, Boundary Example.fromOpen s → ReadableMessage s := by
    intro s hs lenHigh lenLow type rest hdrop
    have hmem := Example.boundary_fromOpen hs
    simp only [List.mem_cons, List.not_mem_nil, or_false] at hmem
    obtain rfl | rfl | rfl | rfl | rfl := hmem
    · cases hdrop
      exact ⟨by decide, fun _ => show 10 ≤ List.length _ by decide⟩
    · cases hdrop
      exact ⟨by decide, fun _ => trivial⟩
    · cases hdrop
      exact ⟨by decide, fun _ => show List.length _ ≤ 4096 by decide⟩
    · cases hdrop
      refine ⟨by decide, fun _ => ⟨by decide, ?_⟩⟩
      rintro code sub ⟨⟩ ⟨⟩
      decide
    · cases hdrop
  exact (readMessage_safe_iff { AS := 1 } ⟨0, 0, .opensent⟩ Example.waiting Example.fromOpen).2 hall [5, 6, 7, 8]

/-! ## Sessions that are up -/

/-- A session that is up has accepted an OPEN on its connection, heard a KEEPALIVE after it and no other
OPEN since, and has the values of that OPEN; and an OPEN that is not accepted is rejected. -/
theorem established_opened {myAS : UInt16} {myId : UInt32} {i : Nat} {AS : UInt16} {s : PeerRun}
    (h : Reaches (PeerRun.step (constructedConfig myAS myId) i) (fun _ _ => True) (PeerRun.Start AS) s) :
    (s.peer.connected = true → s.peer.state = .established →
        ∃ packet hdr after bytes, s.OpenedBy AS packet hdr after ∧ (BgpMsgType.keepalive, bytes) ∈ after) ∧
      ∀ (now : TimeT) (payload uninit : List UInt8) (hdr : BgpOpen) (s' : PeerRun),
        s.step (constructedConfig myAS myId) i (.thread (.receive now .openMsg payload uninit)) = some s' →
        readOpen (payload ++ uninit) = .ok hdr → ¬ hdr.Accepted AS → s.peer.Rejected s'.peer := by
  have hsound : s.Sound AS := Reaches.invariant (fun _ hs => PeerRun.Start.sound hs)
    (fun _ _ _ hs _ hstep => hs.step rfl hstep) h
  constructor
  · intro hconnected hup
    obtain ⟨packet, hdr, after, hopened, hkeep⟩ := hsound.opened hconnected (Or.inr hup)
    obtain ⟨bytes, hbytes⟩ := hkeep hup
    exact ⟨packet, hdr, after, bytes, hopened, hbytes⟩
  · intro now payload uninit hdr s' hstep hread hnot
    exact PeerRun.step_rejected rfl hstep hread (hsound.configured ▸ hnot)

namespace Example

/-- A peer of AS 2. -/
def newPeer : PeerRun := { peer := { AS := 2 } }

/-- It connects, its session comes up, and a second OPEN begins another one. -/
def twoOpens : List PeerAction :=
  [.thread .restart, .thread (.connect 1 ⟨true, true, true, true, true⟩),
    .thread (.receive 1 .openMsg [4, 0, 2, 0, 180, 10, 0, 0, 1, 0] []), .thread (.receive 1 .keepalive [] []),
    .holdTimer 2, .thread (.receive 2 .openMsg [4, 0, 2, 0, 90, 10, 0, 0, 1, 0] []),
    .thread (.receive 3 .keepalive [] [])]

end Example

theorem established_opened_again : ∃ s, runAll (PeerRun.step (constructedConfig 1 0) 0) Example.twoOpens
      Example.newPeer = some s ∧ s.peer.holdTime = 90 ∧
    ∃ packet hdr after bytes, s.OpenedBy 2 packet hdr after ∧ (BgpMsgType.keepalive, bytes) ∈ after := by
  have hview : (runAll (PeerRun.step (constructedConfig 1 0) 0) Example.twoOpens Example.newPeer).map
      (fun s => (s.peer.connected, s.peer.state, s.peer.holdTime)) = some (true, .established, 90) := by
    decide +kernel
  obtain ⟨s, hs, hview⟩ := Option.map_eq_some_iff.mp hview
  simp only [Prod.mk.injEq] at hview
  obtain ⟨hconnected, hup, hhold⟩ := hview
  have hreach : Reaches (PeerRun.step (constructedConfig 1 0) 0) (fun _ _ => True) (PeerRun.Start 2) s :=
    Reaches.runAll (.init ⟨rfl, rfl, rfl, rfl⟩) (by decide +kernel) hs
  exact ⟨s, hs, hhold, (established_opened hreach).1 hconnected hup⟩

end Log2Bgp
