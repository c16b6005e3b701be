import Log2Bgp.Cli.Ports
import Log2Bgp.Lib.Bytes
import Log2Bgp.Lib.Frames

/-!
# What a client of the command line reads

A client writes commands, each with its length in a byte, and may stop at any point. It reads answers, each with its
length in four bytes.
-/

namespace Log2Bgp

open Lib

/-- `fgetc`, and what stands in front of a command. -/
def commandFraming : Framing where
  width := 1
  encode n := [UInt8.ofNat n]
  decode bytes := (bytes.headD 0).toNat
  width_pos := Nat.one_pos
  length_encode _ := rfl
  decode_le n := by
    simp only [List.headD_cons, UInt8.toNat_ofNat']
    exact Nat.mod_le n _

/-- `fprintf(c_tx, "%c%c%c%c", len >> 24, len >> 16, len >> 8, len & 0xff)`, for a length in 32 bits. -/
def lengthBytes (len : UInt32) : List UInt8 :=
  [(len >>> 24).toUInt8, (len >>> 16).toUInt8, (len >>> 8).toUInt8, (len &&& 0xff).toUInt8]

/-- The word that four bytes spell. -/
def lengthWord : List UInt8 → UInt32
  | [a, b, c, d] => be32 a b c d
  | _ => 0

theorem lengthWord_lengthBytes (len : UInt32) : lengthWord (lengthBytes len) = len := be32_shift len

def answerFraming : Framing where
  width := 4
  encode n := lengthBytes (UInt32.ofNat n)
  decode bytes := (lengthWord bytes).toNat
  width_pos := by decide
  length_encode _ := rfl
  decode_le n := by
    rw [lengthWord_lengthBytes, UInt32.toNat_ofNat']
    exact Nat.mod_le n _

/-- What `connection_loop` writes for what it reads. The layout of the answers is given. -/
def connection (env : CliEnv) (layout : Reply → List UInt8) (input : List UInt8) (b : BgpCli) :
    Cli (BgpCli × List UInt8) := do
  let (b', replies) ← connectionLoop env input b
  pure (b', answerFraming.frames (replies.map layout))

/-- The commands that are run of those that a client sends, if it stops behind `n` bytes. -/
def commandsRun (cmds : List (List UInt8)) (n : Nat) : List (List UInt8) :=
  (commandFraming.sent cmds n).filter (· ≠ [])

/-! ## Commands -/

theorem commandFraming_cut {c : List UInt8} (h : c.length < 255) : commandFraming.cut c = c := by
  apply List.take_of_length_le
  simp only [commandFraming, List.headD_cons, UInt8.toNat_ofNat', Nat.reducePow]
  omega

theorem read_command (len : UInt8) (input : List UInt8) : commandFraming.read (len :: input) =
    input.take len.toNat :: commandFraming.read (input.drop len.toNat) := by
  have hencode : commandFraming.encode len.toNat = [len] := by simp [commandFraming]
  have hread := Framing.read_encode (f := commandFraming) len.toNat input
  rw [hencode] at hread
  exact hread

/-- The lines of a stream are those of the commands that a reader takes from it. -/
theorem sentLines_eq (input : List UInt8) :
    sentLines input = ((commandFraming.read input).filter (· ≠ [])).map bytesText := by
  fun_induction sentLines input with
  | case1 =>
      rw [Framing.read_of_short (by decide)]
      rfl
  | case2 len input hnone ih => rw [read_command, List.filter_cons_of_neg (by rw [hnone]; decide), ih]
  | case3 len input hsome ih =>
      rw [read_command, List.filter_cons_of_pos (by simpa using hsome), List.map_cons, ih]

theorem allReceived_take {cmds : List (List UInt8)} (h : ∀ c ∈ cmds, c.length < 255) (n : Nat) :
    AllReceived ((commandFraming.frames cmds).take n) := by
  induction cmds generalizing n with
  | nil =>
      rw [Framing.frames_nil, List.take_nil, AllReceived]
      trivial
  | cons c cmds ih =>
      rw [List.forall_mem_cons] at h
      have hlen : (UInt8.ofNat c.length).toNat = c.length := by
        rw [UInt8.toNat_ofNat']
        omega
      have hframes : commandFraming.frames (c :: cmds) = UInt8.ofNat c.length :: (c ++ commandFraming.frames cmds) := by
        rw [Framing.frames_cons, commandFraming_cut h.1]
        rfl
      rw [hframes]
      cases n with
      | zero =>
          rw [List.take_zero, AllReceived]
          trivial
      | succ n =>
          rw [List.take_succ_cons, AllReceived, hlen, List.drop_take, List.drop_left]
          refine ⟨(commandReceived_iff _ _).mpr (Or.inl ?_), ih h.2 _⟩
          rw [UInt8.lt_iff_toNat_lt, hlen]
          exact h.1

/-! ## Answers -/

/-- As many bytes of an answer as a length in 32 bits says. -/
theorem answerFraming_cut (d : List UInt8) : answerFraming.cut d = d.take (d.length % 2 ^ 32) := by
  rw [Framing.cut]
  simp only [answerFraming, lengthWord_lengthBytes, UInt32.toNat_ofNat']

/-- The lines that are run are those of the commands. -/
theorem connectionLoop_commands {cmds : List (List UInt8)} (h : ∀ c ∈ cmds, c.length < 255) (env : CliEnv) (b : BgpCli)
    (n : Nat) : connectionLoop env ((commandFraming.frames cmds).take n) b =
      executeLines env ((commandsRun cmds n).map bytesText) b := by
  rw [connectionLoop_eq (allReceived_take h n), sentLines_eq, Framing.read_take, commandsRun]

/-- Lines have one answer each, if the instance does not stop. -/
theorem executeLines_length {env : CliEnv} {lines : List Text} {b b' : BgpCli} {replies : List Reply}
    (h : executeLines env lines b = .ok (b', replies)) (hgoing : b'.stopAndExitInstance = false) :
    replies.length = lines.length := by
  induction lines generalizing b replies with
  | nil =>
      cases h
      rfl
  | cons line lines ih =>
      rw [executeLines] at h
      by_cases hstop : b.stopAndExitInstance = true
      · rw [if_pos hstop] at h
        cases h
        exact absurd hstop (by simp [hgoing])
      · rw [if_neg hstop] at h
        obtain ⟨⟨b₁, reply⟩, _, h⟩ := Checked.bind_eq_ok.mp h
        obtain ⟨⟨b₂, rest⟩, hrest, h⟩ := Checked.bind_eq_ok.mp h
        cases h
        rw [List.length_cons, List.length_cons, ih hrest]

/-! ## Results -/

/-- Wherever a client stops, its commands are run as if it had called `ExecuteLine` with each itself, and the answers are
read back one by one, cut off only where their lengths are. Each command has one, unless the instance stops. What is run
is the commands from the first on just where the client does not stop in the middle of one. -/
theorem commands_answered {cmds : List (List UInt8)} (hcmds : ∀ c ∈ cmds, c ≠ [] ∧ c.length < 255) (env : CliEnv)
    (layout : Reply → List UInt8) (b : BgpCli) (n : Nat) :
    ((connection env layout ((commandFraming.frames cmds).take n) b).map fun r => (r.1, answerFraming.read r.2)) =
      ((executeLines env ((commandsRun cmds n).map bytesText) b).map fun r =>
        (r.1, r.2.map fun reply => (layout reply).take ((layout reply).length % 2 ^ 32))) ∧
    (∀ b' replies, executeLines env ((commandsRun cmds n).map bytesText) b = .ok (b', replies) →
      b'.stopAndExitInstance = false → replies.length = (commandsRun cmds n).length) ∧
    (commandsRun cmds n <+: cmds ↔ ¬ commandFraming.Torn cmds n) := by
  have hshort : ∀ c ∈ cmds, c.length < 255 := fun c hc => (hcmds c hc).2
  have hcut : ∀ c ∈ cmds, commandFraming.cut c = c := fun c hc => commandFraming_cut (hshort c hc)
  refine ⟨?_, ?_, ?_⟩
  · rw [connection, connectionLoop_commands hshort]
    cases executeLines env ((commandsRun cmds n).map bytesText) b with
    | error e => rfl
    | ok r =>
        have hread : answerFraming.read (answerFraming.frames (r.2.map layout)) =
            r.2.map fun reply => (layout reply).take ((layout reply).length % 2 ^ 32) := by
          rw [Framing.read_frames, List.map_map]
          apply List.map_congr_left
          intro reply _
          exact answerFraming_cut (layout reply)
        exact congrArg (fun read => Except.ok (r.1, read)) hread
  · intro b' replies hrun hgoing
    rw [executeLines_length hrun hgoing, List.length_map]
  · have hmap : cmds.map commandFraming.cut = cmds := (List.map_congr_left hcut).trans (List.map_id cmds)
    have hsome : ∀ c ∈ cmds, commandFraming.cut c ≠ [] := fun c hc => (hcut c hc).symm ▸ (hcmds c hc).1
    have hiff := Framing.sent_prefix_iff (f := commandFraming) (n := n) hsome
    rwa [hmap] at hiff

/-- A client sets the identifier. -/
def Example.identify : List UInt8 := "bgp-id 10.0.0.12".toList.map fun c => UInt8.ofNat c.toNat

/-- The client stops in front of the last digit, and the identifier is another one. -/
theorem commands_answered_torn : ∃ r,
    connection { std := .stable } (fun _ => []) ((commandFraming.frames [Example.identify]).take 16) (.initBgp 65000) =
      .ok r ∧ r.1.bIp = "10.0.0.1".toList ∧ ¬ commandsRun [Example.identify] 16 <+: [Example.identify] := by
  have hcmds : ∀ c ∈ [Example.identify], c ≠ [] ∧ c.length < 255 := by decide
  obtain ⟨hanswers, _, hiff⟩ := commands_answered hcmds { std := .stable } (fun _ => []) (.initBgp 65000) 16
  have hrun : ((executeLines { std := .stable } ((commandsRun [Example.identify] 16).map bytesText)
      (.initBgp 65000)).toOption.map fun r => r.1.bIp) = some "10.0.0.1".toList := by
    decide +kernel
  revert hanswers hrun
  cases executeLines { std := .stable } ((commandsRun [Example.identify] 16).map bytesText) (.initBgp 65000) with
  | error e => exact fun _ hrun => nomatch hrun
  | ok r =>
      cases connection { std := .stable } (fun _ => []) ((commandFraming.frames [Example.identify]).take 16)
        (.initBgp 65000) with
      | error e => exact fun hanswers _ => nomatch hanswers
      | ok r' =>
          intro hanswers hrun
          have hsame : r'.1 = r.1 := congrArg Prod.fst (Except.ok.inj hanswers)
          refine ⟨r', rfl, ?_, ?_⟩
          · rw [hsame]
            exact Option.some.inj hrun
          · rw [hiff, not_not]
            decide

end Log2Bgp
