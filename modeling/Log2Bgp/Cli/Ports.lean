import Log2Bgp.Model.Cli

/-!
# What the ports receive

A client sends a length and that many bytes behind it. Next to what the two ports hand on stands what a client means:
its bytes, up to the first null character.
-/

namespace Log2Bgp

open Lib

/-! ## The bytes of a command -/

/-- The text of bytes, up to the first null character. -/
def bytesText (bytes : List UInt8) : Text := (bytes.takeWhile (· ≠ 0)).map fun c => Char.ofNat c.toNat

/-- The bytes of a command have room for a terminator, and the line that is handed on is the text of them. -/
def CommandReceived (len : UInt8) (input : List UInt8) : Prop :=
  (input.take len.toNat).length + 1 ≤ 255 ∧ commandText (input.take len.toNat) = .ok (bytesText (input.take len.toNat))

theorem takeWhile_append_zeros (bytes : List UInt8) (n : Nat) :
    (bytes ++ List.replicate n 0).takeWhile (· ≠ 0) = bytes.takeWhile (· ≠ 0) := by
  induction bytes with
  | nil =>
      cases n with
      | zero => rfl
      | succ n => rfl
  | cons c bytes ih =>
      rw [List.cons_append, List.takeWhile_cons, List.takeWhile_cons, ih]

theorem commandText_eq {bytes : List UInt8} (h : bytes.length < 255) : commandText bytes = .ok (bytesText bytes) := by
  have hzero : (0 : UInt8) ∈ bytes ++ List.replicate (255 - bytes.length) 0 :=
    List.mem_append_right _ (List.mem_replicate.mpr ⟨by omega, rfl⟩)
  unfold commandText
  rw [if_pos hzero, takeWhile_append_zeros, bytesText]

theorem commandReceived_iff (len : UInt8) (input : List UInt8) :
    CommandReceived len input ↔ len < 255 ∨ input.length < 255 := by
  have hlen : len < 255 ↔ len.toNat < 255 := UInt8.lt_iff_toNat_lt
  have hlength : (input.take len.toNat).length = min len.toNat input.length := List.length_take
  rw [hlen]
  constructor
  · rintro ⟨hroom, -⟩
    omega
  · intro h
    have hroom : (input.take len.toNat).length < 255 := by omega
    exact ⟨hroom, commandText_eq hroom⟩

/-! ## A connection -/

/-- The lines that a client sends over a connection. -/
def sentLines : List UInt8 → List Text
  | [] => []
  | len :: input =>
      if input.take len.toNat = [] then sentLines (input.drop len.toNat)
      else bytesText (input.take len.toNat) :: sentLines (input.drop len.toNat)
termination_by input => input.length
decreasing_by all_goals (simp only [List.length_drop, List.length_cons]; omega)

/-- Every command of a connection is received. -/
def AllReceived : List UInt8 → Prop
  | [] => True
  | len :: input => CommandReceived len input ∧ AllReceived (input.drop len.toNat)
termination_by input => input.length
decreasing_by all_goals (simp only [List.length_drop, List.length_cons]; omega)

/-- Lines one after the other, until the instance stops. -/
def executeLines (env : CliEnv) : List Text → BgpCli → Cli (BgpCli × List Reply)
  | [], b => pure (b, [])
  | line :: lines, b =>
      if b.stopAndExitInstance then pure (b, [])
      else do
        let (b', reply) ← executeLine env b line
        let (b'', replies) ← executeLines env lines b'
        pure (b'', reply :: replies)

theorem executeLines_of_stop {env : CliEnv} {b : BgpCli} (h : b.stopAndExitInstance = true) (lines : List Text) :
    executeLines env lines b = .ok (b, []) := by
  cases lines with
  | nil => rfl
  | cons line lines => rw [executeLines, if_pos h]; rfl

/-- A connection runs the lines that its client sends, in order. -/
theorem connectionLoop_eq {env : CliEnv} {input : List UInt8} {b : BgpCli} (h : AllReceived input) :
    connectionLoop env input b = executeLines env (sentLines input) b := by
  fun_induction connectionLoop env input b with
  | case1 b => rw [sentLines]; rfl
  | case2 len input b hstop => rw [executeLines_of_stop hstop]; rfl
  | case3 len input b hstop bytes hnone ih =>
      rw [AllReceived] at h
      rw [ih h.2, sentLines, if_pos hnone]
  | case4 len input b hstop bytes hsome ih =>
      rw [AllReceived] at h
      rw [sentLines, if_neg hsome, executeLines, if_neg hstop, h.1.2, Checked.ok_bind]
      congr 1
      funext r
      obtain ⟨b', reply⟩ := r
      simp only [ih b' h.2]

/-! ## The bytes of a request -/

/-- The bytes that a request is read from: as many as its length says, and none behind a newline. -/
def requestBytes : (n : Nat) → List UInt8 → List UInt8
  | 0, _ => []
  | _, [] => []
  | n + 1, c :: input => if c = 10 then [c] else c :: requestBytes n input

/-- What is stored of a request has room for a terminator, and the lines that are handed on, to `is_api_call` and from
there to `ExecuteLine`, have just its bytes up to the first null character, whatever the buffer held. Behind a length
that is no character nothing is handed on. -/
def RequestReceived (len : UInt8) (input : List UInt8) : Prop :=
  ∀ n ∈ wideChar len, ∀ stale, (takeLine n.toNat input).1.length + 1 ≤ 255 ∧
    ∃ wbuffer, readRequest n.toNat input stale = .ok wbuffer ∧
      (toNarrowStr wbuffer).map Char.toNat = ((requestBytes n.toNat input).takeWhile (· ≠ 0)).map UInt8.toNat ∧
      cStr (toNarrowStr wbuffer) = toNarrowStr wbuffer

theorem length_takeLine_le (n : Nat) (input : List UInt8) : (takeLine n input).1.length ≤ n := by
  induction n generalizing input with
  | zero => simp [takeLine]
  | succ n ih =>
      cases input with
      | nil => simp [takeLine]
      | cons c input =>
          rw [takeLine]
          cases wideChar c with
          | none => simp
          | some w =>
              dsimp only
              split
              · simp
              · simpa using ih input

/-- Where all its bytes are characters, a request is read whole; otherwise the read fails. -/
theorem takeLine_cases (n : Nat) (input : List UInt8) :
    ((∀ c ∈ requestBytes n input, c < 0x80) ∧ takeLine n input = ((requestBytes n input).map UInt8.toUInt32, false)) ∨
      ((¬ ∀ c ∈ requestBytes n input, c < 0x80) ∧ (takeLine n input).2 = true) := by
  induction n generalizing input with
  | zero => simp [takeLine, requestBytes]
  | succ n ih =>
      cases input with
      | nil => simp [takeLine, requestBytes]
      | cons c input =>
          rw [takeLine, requestBytes]
          by_cases hc : c < 0x80
          · rw [wideChar, if_pos hc]
            have hline : c.toUInt32 = 10 ↔ c = 10 := by
              rw [← UInt32.toNat_inj, ← UInt8.toNat_inj, UInt8.toNat_toUInt32]
              rfl
            simp only [hline]
            by_cases hten : c = 10
            · simp [hten]
            · simp only [if_neg hten, List.forall_mem_cons, hc, true_and]
              rcases ih input with ⟨hall, hread⟩ | ⟨hnot, hfailed⟩
              · exact .inl ⟨hall, by rw [hread, List.map_cons]⟩
              · exact .inr ⟨hnot, hfailed⟩
          · rw [wideChar, if_neg hc]
            refine .inr ⟨fun hall => hc (hall c ?_), rfl⟩
            split <;> simp

theorem requestBytes_eq_nil {n : Nat} {input : List UInt8} : requestBytes n input = [] ↔ n = 0 ∨ input = [] := by
  cases n with
  | zero => simp [requestBytes]
  | succ n =>
      cases input with
      | nil => simp [requestBytes]
      | cons c input =>
          rw [requestBytes]
          split <;> simp

theorem wideChar_eq_some {c : UInt8} {w : UInt32} : wideChar c = some w ↔ c < 0x80 ∧ w = c.toUInt32 := by
  simp [wideChar, eq_comm]

/-- No length that is a character goes beyond the buffer. -/
theorem takeLine_fits {len : UInt8} (h : len < 0x80) (input : List UInt8) :
    (takeLine len.toNat input).1.length + 1 ≤ 255 := by
  have hlen : len.toNat < 128 := UInt8.lt_iff_toNat_lt.mp h
  have hle := length_takeLine_le len.toNat input
  omega

theorem readRequest_of_read {len : UInt8} (h : len < 0x80) {input : List UInt8} (hsome : len = 0 ∨ input ≠ [])
    (hall : ∀ c ∈ requestBytes len.toNat input, c < 0x80) (stale : List UInt32) :
    readRequest len.toNat input stale =
      .ok (((requestBytes len.toNat input).map UInt8.toUInt32).takeWhile (· ≠ 0)) := by
  have hfits := takeLine_fits h input
  obtain ⟨-, hread⟩ := (takeLine_cases len.toNat input).resolve_right fun hnot => hnot.1 hall
  rw [hread] at hfits
  have hline : ¬ ((requestBytes len.toNat input).map UInt8.toUInt32 = [] ∧ 0 < len.toNat) := by
    rw [List.map_eq_nil_iff, requestBytes_eq_nil]
    rintro ⟨hnone, hpos⟩
    rcases hsome with rfl | hsome
    · exact absurd hpos (Nat.lt_irrefl 0)
    · exact hnone.elim (fun hzero => absurd hzero (Nat.ne_of_gt hpos)) hsome
  unfold readRequest
  simp only [hread, Bool.false_eq_true, ↓reduceIte, false_or, if_neg hline]
  rw [if_neg (Nat.not_lt.mpr hfits)]

/-- A read that fails leaves the buffer as it was. -/
theorem readRequest_of_failed {len : UInt8} (h : len < 0x80) {input : List UInt8}
    (hnot : ¬ ((len = 0 ∨ input ≠ []) ∧ ∀ c ∈ requestBytes len.toNat input, c < 0x80)) (stale : List UInt32) :
    readRequest len.toNat input stale = .ok (stale.takeWhile (· ≠ 0)) := by
  have hfits := takeLine_fits h input
  have hroom : ¬ 255 < (takeLine len.toNat input).1.length + (if (takeLine len.toNat input).2 then 0 else 1) := by
    split <;> omega
  unfold readRequest
  simp only [if_neg hroom]
  rcases takeLine_cases len.toNat input with ⟨hall, hread⟩ | ⟨-, hfailed⟩
  · have hempty : len ≠ 0 ∧ input = [] := by
      by_contra hsome
      refine hnot ⟨?_, hall⟩
      by_contra hnone
      exact hsome ⟨fun hzero => hnone (.inl hzero), by_contra fun hinput => hnone (.inr hinput)⟩
    obtain ⟨hlen, rfl⟩ := hempty
    have hpos : 0 < len.toNat := toNat_pos hlen
    rw [hread, requestBytes_eq_nil.mpr (.inr rfl), if_pos (.inr ⟨rfl, hpos⟩)]
  · rw [if_pos (.inl hfailed)]

theorem toNat_narrow (w : UInt32) : (Char.ofNat (w.toNat % 256)).toNat = w.toNat % 256 := by
  have hlt : w.toNat % 256 < 256 := Nat.mod_lt _ (by omega)
  have hvalid : (w.toNat % 256).isValidChar := .inl (by omega)
  rw [Char.ofNat, dif_pos hvalid]
  rfl

/-- Bytes that were widened are narrowed to themselves. -/
theorem toNarrowStr_widened (bytes : List UInt8) :
    (toNarrowStr (bytes.map UInt8.toUInt32)).map Char.toNat = bytes.map UInt8.toNat := by
  rw [toNarrowStr, List.map_map, List.map_map, List.map_inj_left]
  intro c _
  rw [Function.comp_apply, Function.comp_apply, toNat_narrow, UInt8.toNat_toUInt32, Nat.mod_eq_of_lt c.toNat_lt]

theorem cStr_widened {bytes : List UInt8} (hzero : ∀ c ∈ bytes, c ≠ 0) :
    cStr (toNarrowStr (bytes.map UInt8.toUInt32)) = toNarrowStr (bytes.map UInt8.toUInt32) := by
  rw [cStr, List.takeWhile_eq_self_iff]
  intro t ht
  have hmem := List.mem_map_of_mem (f := Char.toNat) ht
  rw [toNarrowStr_widened] at hmem
  obtain ⟨c, hc, hnat⟩ := List.mem_map.mp hmem
  simp only [decide_eq_true_eq]
  rintro rfl
  exact hzero c hc (UInt8.toNat_inj.mp hnat)

theorem takeWhile_widened (bytes : List UInt8) :
    (bytes.map UInt8.toUInt32).takeWhile (· ≠ 0) = (bytes.takeWhile (· ≠ 0)).map UInt8.toUInt32 := by
  rw [List.takeWhile_map]
  congr 2
  funext c
  have hzero : c.toUInt32 = 0 ↔ c = 0 := by
    rw [← UInt32.toNat_inj, ← UInt8.toNat_inj, UInt8.toNat_toUInt32]
    rfl
  simp [hzero]

theorem requestReceived_iff (len : UInt8) (input : List UInt8) : RequestReceived len input ↔
    (len < 0x80 → (len = 0 ∨ input ≠ []) ∧ ∀ c ∈ requestBytes len.toNat input, c < 0x80) := by
  have hwide : RequestReceived len input ↔ (len < 0x80 → ∀ stale, (takeLine len.toNat input).1.length + 1 ≤ 255 ∧
      ∃ wbuffer, readRequest len.toNat input stale = .ok wbuffer ∧
        (toNarrowStr wbuffer).map Char.toNat = ((requestBytes len.toNat input).takeWhile (· ≠ 0)).map UInt8.toNat ∧
        cStr (toNarrowStr wbuffer) = toNarrowStr wbuffer) := by
    simp only [RequestReceived, Option.mem_def, wideChar_eq_some, and_imp]
    constructor
    · intro h hlen
      have hone := h len.toUInt32 hlen rfl
      rwa [UInt8.toNat_toUInt32] at hone
    · rintro h n hlen rfl
      rw [UInt8.toNat_toUInt32]
      exact h hlen
  rw [hwide]
  refine forall_congr' fun hlen => ?_
  constructor
  · intro h
    by_contra hnot
    -- two contents of the buffer cannot both be the bytes of the request
    obtain ⟨-, wbuffer, hread, htext, -⟩ := h [1]
    obtain ⟨-, wbuffer', hread', htext', -⟩ := h [2]
    rw [readRequest_of_failed hlen hnot] at hread hread'
    cases hread
    cases hread'
    exact absurd (htext.trans htext'.symm) (by decide)
  · rintro ⟨hsome, hall⟩ stale
    refine ⟨takeLine_fits hlen input, _, readRequest_of_read hlen hsome hall stale, ?_, ?_⟩
    · rw [takeWhile_widened, toNarrowStr_widened]
    · rw [takeWhile_widened]
      exact cStr_widened fun c hc => by simpa using List.mem_takeWhile_imp hc

/-- A request that is received is answered as its bytes up to the first null character say. -/
theorem sinatraApi_eq {env : CliEnv} {b : BgpCli} {len : UInt8} {input : List UInt8} (hlen : len < 0x80)
    (hrun : b.stopAndExitInstance = false) (h : RequestReceived len input) (stale : List UInt32) :
    sinatraApi env b (len :: input) stale = (do
      let (b', reply) ← answerRequest env b len.toNat
        (((requestBytes len.toNat input).takeWhile (· ≠ 0)).map UInt8.toUInt32)
      pure (b', some reply)) := by
  have hwide : wideChar len = some len.toUInt32 := wideChar_eq_some.mpr ⟨hlen, rfl⟩
  obtain ⟨hsome, hall⟩ := (requestReceived_iff len input).mp h hlen
  have hread := readRequest_of_read hlen hsome hall stale
  rw [takeWhile_widened] at hread
  unfold sinatraApi
  simp only [hrun, Bool.false_eq_true, ↓reduceIte, hwide, UInt8.toNat_toUInt32, hread, Checked.ok_bind]

/-! ## The two ports -/

/-- A command is received unless there are 255 bytes of it. A request is received where something stands behind
its length, and each of its bytes is a character. -/
theorem received_iff (commandLen requestLen : UInt8) (bytes chars : List UInt8) :
    (CommandReceived commandLen bytes ↔ commandLen < 255 ∨ bytes.length < 255) ∧
      (RequestReceived requestLen chars ↔ (requestLen < 0x80 →
        (requestLen = 0 ∨ chars ≠ []) ∧ ∀ c ∈ requestBytes requestLen.toNat chars, c < 0x80)) :=
  ⟨commandReceived_iff commandLen bytes, requestReceived_iff requestLen chars⟩

namespace Example

/-- `api-get prefix` and an accented letter, of two bytes. -/
def accented : List UInt8 :=
  [97, 112, 105, 45, 103, 101, 116, 32, 112, 114, 101, 102, 105, 120, 32, 0xc3, 0xa9]

end Example

/-- A command of 255 bytes leaves no room for a terminator, and of a request with a byte that is no character nothing
is left but what the buffer held. -/
theorem not_received :
    ¬ CommandReceived 255 (List.replicate 255 97) ∧ ¬ RequestReceived 17 Example.accented := by
  have hbytes : (List.replicate 255 (97 : UInt8)).length = 255 := List.length_replicate
  constructor
  · rw [commandReceived_iff, hbytes]
    decide
  · rw [requestReceived_iff]
    intro h
    have hletter : 0xc3 ∈ requestBytes (17 : UInt8).toNat Example.accented := by decide +kernel
    exact absurd ((h (by decide)).2 0xc3 hletter) (by decide)

end Log2Bgp
