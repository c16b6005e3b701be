import Log2Bgp.Lib.Interleaving
import Log2Bgp.Session.Conversation
import Mathlib.Data.List.Perm.Basic

/-!
# Messages of several threads

`send_packet` takes the lock of the stream for each of its writes, and not for the message. The thread of the peer sends
with it, and so does the main loop, for the hold timer.
-/

namespace Log2Bgp

open Lib

/-- What `send_packet` writes, one call of `write` or `write_formated` after another. -/
def packetBlocks (m : WireMessage) : List (List UInt8) :=
  [List.replicate 16 0xff, BgpPeer.lengthBytes m.payload, [m.type.toByte], m.payload]

/-- A connection, and the threads that are in `send_packet` or call it later. -/
structure Senders where
  tcp : TcpClient
  threads : List (Writer UInt8)
deriving DecidableEq, Repr

/-- Thread `i` writes once. -/
def Senders.step (s : Senders) (i : Nat) : Option Senders :=
  s.threads[i]?.bind fun w => w.next.map fun n => ⟨s.tcp.write n.1, s.threads.set i n.2⟩

/-- The threads are about to send their messages on a new connection. -/
def Senders.start (c : TcpClient) (sends : List (List WireMessage)) : Senders :=
  ⟨c.connect, sends.map fun ms => ⟨[], ms.map packetBlocks⟩⟩

/-- The stream of a connection. -/
def Senders.stream (s : Senders) : Writing UInt8 := ⟨s.threads, s.tcp.sent⟩

/-- No thread that `i` writes beside is in the middle of a message. -/
def SendsAlone (s : Senders) (i : Nat) : Prop := Alone s.stream i

instance (s : Senders) : DecidablePred (SendsAlone s) := fun i => inferInstanceAs (Decidable (Alone s.stream i))

/-- A message that is sent at all: an OPEN, a KEEPALIVE, or a NOTIFICATION of an OPEN that is rejected or of a hold time
that is over. -/
inductive Sendable (cfg : BgpConfig) : WireMessage → Prop where
  | opened : Sendable cfg (.opened cfg)
  | keepalive : Sendable cfg .keepalive
  | final {m : WireMessage} : m.Final → Sendable cfg m

variable {cfg : BgpConfig} {s s' : Senders} {m m' : WireMessage}

/-! ## The writes of a message -/

@[simp] theorem flatten_packetBlocks (m : WireMessage) : (packetBlocks m).flatten = m.frame := by
  simp [packetBlocks, WireMessage.frame]

/-- `send_packet` by itself makes these writes. -/
theorem sendPacket_writes {p : BgpPeer} {now : TimeT} (hstate : p.state ≠ .idle) (ht : m.type ≠ .update) :
    (p.sendPacket now m.payload m.type).tcp = (packetBlocks m).foldl TcpClient.write p.tcp := by
  rw [BgpPeer.sendPacket_tcp hstate ht]
  rfl

theorem written_packetBlocks (ms : List WireMessage) : written (ms.map packetBlocks) = wire ms := by
  simp [written, wire, List.flatMap_map]

/-- The marker is in no other place of a message. -/
structure WireMessage.Marked (m : WireMessage) : Prop where
  short : m.payload.length ≤ 10
  type : m.type.toByte ≠ 0xff
  payload : 0xff ∉ m.payload.head?

theorem Sendable.marked (h : Sendable cfg m) (hversion : cfg.version ≠ 0xff) : m.Marked := by
  cases h with
  | opened => exact ⟨le_refl 10, by simp [WireMessage.opened, BgpMsgType.toByte],
      by simpa [WireMessage.opened, openPayload] using hversion⟩
  | keepalive => exact ⟨Nat.zero_le 10, by decide, by simp [WireMessage.keepalive]⟩
  | final h =>
      cases h with
      | rejected sub => exact ⟨by simp, by simp [BgpMsgType.toByte], by simp [BgpErrorCode.toByte]⟩
      | expired => exact ⟨by simp, by decide, by simp [BgpErrorCode.toByte]⟩

theorem lengthBytes_short {payload : List UInt8} (h : payload.length ≤ 10) :
    BgpPeer.lengthBytes payload = [0, UInt8.ofNat (payload.length + 19)] := by
  have hall : ∀ n ≤ 10, ((UInt16.ofNat (n + 19)) >>> 8).toUInt8 = 0 ∧
      ((UInt16.ofNat (n + 19)) &&& 0xff).toUInt8 = UInt8.ofNat (n + 19) := by decide
  obtain ⟨hhigh, hlow⟩ := hall _ h
  rw [BgpPeer.lengthBytes, hhigh, hlow]

theorem lengthByte_inj {n n' : Nat} (h : n ≤ 10) (h' : n' ≤ 10) (heq : UInt8.ofNat (n + 19) = UInt8.ofNat (n' + 19)) :
    n = n' := by
  have hnat := congrArg UInt8.toNat heq
  simp only [UInt8.toNat_ofNat'] at hnat
  omega

theorem WireMessage.Marked.frame (h : m.Marked) : m.frame =
    List.replicate 16 0xff ++ 0 :: UInt8.ofNat (m.payload.length + 19) :: m.type.toByte :: m.payload := by
  simp [WireMessage.frame, lengthBytes_short h.short]

/-- A message that goes on like another is the same. -/
theorem WireMessage.Marked.apart (h : m.Marked) (h' : m'.Marked) (hbegins : m.frame <+: m'.frame) :
    m.frame = m'.frame := by
  apply hbegins.eq_of_length
  rw [h.frame, h'.frame, List.prefix_append_right_inj] at hbegins
  simp only [List.cons_prefix_cons] at hbegins
  rw [m.length_frame, m'.length_frame, lengthByte_inj h.short h'.short hbegins.2.1]

/-- A message that is torn does not go on like another: with a marker in the place of what is left of it. -/
theorem WireMessage.Marked.torn (h : m.Marked) (h' : m'.Marked) {pre rest : List (List UInt8)}
    (heq : pre ++ rest = packetBlocks m) (hpre : pre ≠ []) (hrest : rest.flatten ≠ []) :
    ¬ pre.flatten ++ List.replicate 16 0xff <+: m'.frame ∧ ¬ m'.frame <+: pre.flatten ++ List.replicate 16 0xff := by
  have htype := h'.type
  have hpayload := h'.payload
  rw [h'.frame]
  rw [packetBlocks, lengthBytes_short h.short] at heq
  rcases pre with _ | ⟨_, _ | ⟨_, _ | ⟨_, _ | ⟨_, pre⟩⟩⟩⟩
  · exact absurd rfl hpre
  · simp only [List.cons_append, List.nil_append, List.cons.injEq] at heq
    obtain ⟨rfl, _⟩ := heq
    simp [List.replicate]
  · simp only [List.cons_append, List.nil_append, List.cons.injEq] at heq
    obtain ⟨rfl, rfl, _⟩ := heq
    simp [List.replicate, htype, htype.symm]
  · simp only [List.cons_append, List.nil_append, List.cons.injEq] at heq
    obtain ⟨rfl, rfl, rfl, rfl⟩ := heq
    cases hm' : m'.payload with
    | nil =>
        have hbyte : UInt8.ofNat (0 + 19) ≠ UInt8.ofNat (m.payload.length + 19) := by
          intro hbyte
          have hlen := lengthByte_inj (Nat.zero_le 10) h.short hbyte
          simp [List.length_eq_zero_iff.mp hlen.symm] at hrest
        constructor
        · intro hbegins
          have hlen := hbegins.length_le
          simp at hlen
        · rw [List.flatten_cons, List.append_assoc, List.prefix_append_right_inj]
          simp only [List.flatten_cons, List.cons_append, List.nil_append, List.cons_prefix_cons, List.length_nil]
          exact fun hbegins => hbyte hbegins.2.1
    | cons b payload =>
        rw [hm'] at hpayload
        have hb : b ≠ 0xff := by simpa using hpayload
        simp [List.replicate, hb, hb.symm]
  · simp only [List.cons_append, List.cons.injEq, List.append_eq_nil_iff] at heq
    obtain ⟨_, _, _, _, _, rfl⟩ := heq
    exact absurd rfl hrest

/-- The messages that are sent, as they are written. -/
def SentAs (cfg : BgpConfig) (blocks : List (List UInt8)) : Prop := ∃ m, Sendable cfg m ∧ packetBlocks m = blocks

theorem code_packets (hversion : cfg.version ≠ 0xff) : Code (SentAs cfg) where
  starts := by
    rintro _ ⟨m, _, rfl⟩
    exact ⟨_, _, rfl, by simp⟩
  apart := by
    rintro _ _ ⟨m, hm, rfl⟩ ⟨m', hm', rfl⟩ hbegins
    rw [flatten_packetBlocks, flatten_packetBlocks] at hbegins ⊢
    exact (hm.marked hversion).apart (hm'.marked hversion) hbegins
  torn := by
    rintro pre rest b rest' _ ⟨m, hm, heq⟩ hpre hrest ⟨_, _, hb⟩ ⟨m', hm', rfl⟩
    cases hb
    rw [flatten_packetBlocks]
    exact (hm.marked hversion).torn (hm'.marked hversion) heq.symm hpre hrest

/-! ## Runs -/

@[simp] theorem write_connected (c : TcpClient) (bytes : List UInt8) : (c.write bytes).connected = c.connected := by
  unfold TcpClient.write
  split
  · rfl
  · rfl

/-- On a connection that is up, the threads write to one stream. -/
theorem step_stream {i : Nat} (hconnected : s.tcp.connected) (h : s.step i = some s') :
    writeStep s.stream i = some s'.stream ∧ s'.tcp.connected := by
  obtain ⟨w, hw, h⟩ := Option.bind_eq_some_iff.mp h
  obtain ⟨n, hn, rfl⟩ := Option.map_eq_some_iff.mp h
  refine ⟨?_, by simpa using hconnected⟩
  simp [writeStep, Senders.stream, hw, hn, TcpClient.write, hconnected]

theorem run_stream {is : List Nat} (hconnected : s.tcp.connected) (h : runAll Senders.step is s = some s') :
    runAll writeStep is s.stream = some s'.stream ∧
      (AllAdmissible writeStep Alone is s.stream ↔ AllAdmissible Senders.step SendsAlone is s) := by
  induction is generalizing s with
  | nil =>
      cases h
      exact ⟨rfl, Iff.rfl⟩
  | cons i is ih =>
      obtain ⟨s₁, hs₁, h⟩ := Option.bind_eq_some_iff.mp h
      obtain ⟨hstep, hconnected₁⟩ := step_stream hconnected hs₁
      obtain ⟨hrun, hiff⟩ := ih hconnected₁ h
      exact ⟨by simpa [runAll, hstep] using hrun, by simp [AllAdmissible, hstep, hs₁, hiff, SendsAlone]⟩

/-! ## Results -/

namespace Example

/-- The main loop sends a KEEPALIVE for the timer of a peer while its thread answers one. -/
def keepalives : Senders := .start {} [[.keepalive], [.keepalive]]

end Example

/-- However many threads send messages that the code makes on a connection, with a version that is no byte of the
marker, what is written there is the start of all these messages in some order just where no thread ever writes while
another is in the middle of a message. -/
theorem whole_messages_iff (hversion : cfg.version ≠ 0xff) {sends : List (List WireMessage)}
    (hsends : ∀ m ∈ sends.flatten, Sendable cfg m) {c : TcpClient} {is : List Nat}
    (hrun : runAll Senders.step is (.start c sends) = some s') :
    (∃ ms, ms.Perm sends.flatten ∧ s'.tcp.sent <+: wire ms) ↔
      AllAdmissible Senders.step SendsAlone is (.start c sends) := by
  obtain ⟨hstream, hiff⟩ := run_stream rfl hrun
  have hstart : (Senders.start c sends).stream = .start (sends.map (List.map packetBlocks)) := by
    simp [Senders.stream, Senders.start, Writing.start, TcpClient.connect]
  have htotal : (sends.map (List.map packetBlocks)).flatten = sends.flatten.map packetBlocks := by
    rw [List.map_flatten]
  have hcoherent : Coherent (SentAs cfg) (sends.flatten.map packetBlocks) (Senders.start c sends).stream := by
    rw [hstart, ← htotal]
    apply coherent_start
    rw [htotal]
    intro blocks hblocks
    obtain ⟨m, hm, rfl⟩ := List.mem_map.mp hblocks
    exact ⟨m, hsends m hm, rfl⟩
  rw [← hiff, ← whole_iff (code_packets hversion) hcoherent hstream]
  constructor
  · rintro ⟨ms, hperm, hbegins⟩
    refine ⟨ms.map packetBlocks, hperm.map packetBlocks, ?_⟩
    rwa [written_packetBlocks]
  · rintro ⟨blocks, hperm, hbegins⟩
    obtain ⟨ms, rfl, hms⟩ :=
      Eq.mpr (congrFun₂ (List.eq_map_comp_perm packetBlocks) blocks sends.flatten) hperm
    rw [written_packetBlocks] at hbegins
    exact ⟨ms, hms, hbegins⟩

/-- Both markers go out before either length. -/
theorem whole_messages_iff_keepalives : ∃ s', runAll Senders.step [0, 1, 0, 0, 0, 1, 1, 1] Example.keepalives = some s' ∧
    s'.tcp.sent = List.replicate 32 0xff ++ [0, 19, 4, 0, 19, 4] ∧
    ¬ ∃ ms, ms.Perm [.keepalive, .keepalive] ∧ s'.tcp.sent <+: wire ms := by
  refine ⟨_, rfl, by decide, ?_⟩
  intro hwhole
  have hsends : ∀ m ∈ [[WireMessage.keepalive], [.keepalive]].flatten, Sendable { AS := 64512 } m := by
    intro m hm
    have heq : m = .keepalive := by simpa using hm
    exact heq ▸ .keepalive
  have hrun : runAll Senders.step [0, 1, 0, 0, 0, 1, 1, 1] Example.keepalives = some _ := rfl
  have hall := (whole_messages_iff (by decide) hsends hrun).mp hwhole
  revert hall
  decide

end Log2Bgp
