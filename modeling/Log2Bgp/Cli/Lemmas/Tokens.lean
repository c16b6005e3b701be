import Log2Bgp.Model.Cli

/-!
# Reads of tokens

How many tokens of its line each function of the command tree reads. No function reads one behind
those.
-/

namespace Log2Bgp

open Lib

/-- No token is read that the line does not have. -/
def Cli.InBounds {α : Type} (x : Cli α) : Prop := ∀ i, x ≠ .error (.token i)

/-! ## Reads one after another -/

namespace Cli

variable {α β : Type} {tokens : List Text}

@[simp] theorem inBounds_ok (a : α) : InBounds (.ok a : Cli α) := fun _ h => by cases h

@[simp] theorem inBounds_memory (e : Fault) : InBounds (.error (.memory e) : Cli α) :=
  fun _ h => by cases h

@[simp] theorem not_inBounds_token (i : Nat) : ¬ InBounds (.error (.token i) : Cli α) :=
  fun h => h i rfl

theorem inBounds_ofChecked_bind {x : Checked α} {f : α → Cli β} :
    InBounds (ofChecked x >>= f) ↔ ∀ a, x = .ok a → InBounds (f a) := by
  cases x with
  | error e => simp [ofChecked]
  | ok a => simp [ofChecked]

theorem tokenAt_of_lt {i : Nat} (h : i < tokens.length) : ∃ t, tokens[i]? = some t ∧ tokenAt tokens i = .ok t := by
  refine ⟨tokens[i], List.getElem?_eq_getElem h, ?_⟩
  rw [tokenAt, List.getElem?_eq_getElem h]

theorem tokenAt_of_le {i : Nat} (h : tokens.length ≤ i) : tokenAt tokens i = .error (.token i) := by
  rw [tokenAt, List.getElem?_eq_none h]

/-- A read is in bounds when what follows it needs more tokens anyway. -/
theorem inBounds_tokenAt_bind {i n : Nat} {f : Text → Cli α} (hn : i < n)
    (h : ∀ t, tokens[i]? = some t → (InBounds (f t) ↔ n ≤ tokens.length)) :
    InBounds (tokenAt tokens i >>= f) ↔ n ≤ tokens.length := by
  by_cases hi : i < tokens.length
  · obtain ⟨t, ht, hread⟩ := tokenAt_of_lt hi
    rw [hread, Checked.ok_bind, h t ht]
  · rw [tokenAt_of_le (Nat.not_lt.mp hi), Checked.error_bind]
    exact iff_of_false (not_inBounds_token i) (by omega)

theorem inBounds_tokenAt_last {i : Nat} {f : Text → Cli α} (h : ∀ t, InBounds (f t)) :
    InBounds (tokenAt tokens i >>= f) ↔ i + 1 ≤ tokens.length := by
  by_cases hi : i < tokens.length
  · obtain ⟨t, -, hread⟩ := tokenAt_of_lt hi
    rw [hread, Checked.ok_bind]
    exact iff_of_true (h t) hi
  · rw [tokenAt_of_le (Nat.not_lt.mp hi), Checked.error_bind]
    exact iff_of_false (not_inBounds_token i) hi

end Cli

open Cli

/-! ## What the functions read -/

/-- The peer that the second token of a line names. -/
def BgpCli.namedPeer (b : BgpCli) (tokens : List Text) : Option Nat :=
  tokens[1]?.bind b.getPeerByStrIp

/-- A function for a peer reads two tokens when there is no such peer. -/
def peerTokens (b : BgpCli) (tokens : List Text) (n : Nat) : Nat :=
  match b.namedPeer tokens with
  | none => 2
  | some _ => n

/-- The number of tokens that a line must have for a function. -/
def tokensRead (env : CliEnv) (b : BgpCli) (tokens : List Text) : CmdBgpFunc → Nat
  | .setBgpId | .protoBgpToggleUpdateDump => 2
  | .showBgpPrefix => 4
  | .protoBgpNeighbor =>
      match tokens[1]?.map fun ip => peerExists b.threadQ (neighborPeer env.uninit ip) with
      | some (.ok false) => 4
      | _ => 2
  | .setPeerLogging =>
      match tokens[4]? with
      | none => peerTokens b tokens 5
      | some host => peerTokens b tokens (if stringToIp env.uninit host = 0 then 5 else 6)
  | .protoBgpPeerRcvBufferSize | .protoBgpPeerSndBufferSize => peerTokens b tokens 5
  | .protoBgpAttributeBgpIdTranslateValue => peerTokens b tokens 6
  | .protoBgpAttributeOriginTranslateValue => 2
  | .protoBgpAttributeAspathTranslateValue | .protoBgpAttributeMedTranslateValue
  | .protoBgpAttributeLocalprefTranslateValue | .protoBgpAttributeCommunityTranslateValue =>
      peerTokens b tokens 7
  | .protoBgpAttributeV4nexthopTranslateValue => peerTokens b tokens 8
  | _ => 0

section Functions

variable {env : CliEnv} {b : BgpCli} {tokens : List Text}

theorem setPeerTranslation_inBounds (i : Nat) (code : BgpPathAttrib) (value : CliPeer → UInt32)
    (label : Text) : InBounds (setPeerTranslation env b i code value label) := by
  unfold setPeerTranslation
  split
  · exact inBounds_ok _
  · exact inBounds_ofChecked_bind.mpr fun _ _ => inBounds_ok _

/-- The functions for a peer: the reads behind the second token are those of the peer's case. -/
theorem peer_inBounds {n : Nat} (hn : 2 ≤ n) {f : Text → Nat → Cli (BgpCli × Reply)}
    (h : ∀ ip i, InBounds (f ip i) ↔ n ≤ tokens.length) :
    InBounds (do
      let ip ← tokenAt tokens 1
      match b.getPeerByStrIp ip with
      | none => pure (b, noPeer ip)
      | some i => f ip i) ↔ peerTokens b tokens n ≤ tokens.length := by
  have hlow : 2 ≤ peerTokens b tokens n := by
    unfold peerTokens
    split
    · exact Nat.le_refl 2
    · exact hn
  refine inBounds_tokenAt_bind hlow ?_
  intro ip hip
  unfold peerTokens BgpCli.namedPeer
  rw [hip, Option.bind_some]
  have hlen : 2 ≤ tokens.length := (List.getElem?_eq_some_iff.mp hip).1
  cases b.getPeerByStrIp ip with
  | none => exact iff_of_true (inBounds_ok _) hlen
  | some i => exact h ip i

theorem peerBufferSize_inBounds (letters : String × String) (set : Int32 → Int32 → CliPeer → CliPeer) :
    InBounds (peerBufferSize letters set env b tokens) ↔ peerTokens b tokens 5 ≤ tokens.length := by
  refine peer_inBounds (by decide) fun ip i => ?_
  refine inBounds_tokenAt_bind (by decide) fun tcp _ => inBounds_tokenAt_last fun bgp => ?_
  dsimp only
  split
  · exact inBounds_ok _
  · split
    · split
      · exact inBounds_ok _
      · exact inBounds_ok _
    · exact inBounds_ok _

theorem attributeTranslateValue_inBounds (code : BgpPathAttrib) :
    InBounds (attributeTranslateValue code env b tokens) ↔ peerTokens b tokens 7 ≤ tokens.length := by
  refine peer_inBounds (by decide) fun ip i => ?_
  refine inBounds_tokenAt_bind (by decide) fun number _ => inBounds_tokenAt_last fun value => ?_
  exact setPeerTranslation_inBounds _ _ _ _

theorem bgpIdTranslate_inBounds :
    InBounds (protoBgpAttributeBgpIdTranslateValue env b tokens) ↔
      peerTokens b tokens 6 ≤ tokens.length := by
  refine peer_inBounds (by decide) fun ip i => inBounds_tokenAt_last fun value => ?_
  exact setPeerTranslation_inBounds _ _ _ _

theorem originTranslate_inBounds :
    InBounds (protoBgpAttributeOriginTranslateValue env b tokens) ↔ 2 ≤ tokens.length := by
  refine inBounds_tokenAt_last fun ip => ?_
  split
  · exact inBounds_ok _
  · exact setPeerTranslation_inBounds _ _ _ _

theorem v4nexthopTranslate_inBounds :
    InBounds (protoBgpAttributeV4nexthopTranslateValue env b tokens) ↔
      peerTokens b tokens 8 ≤ tokens.length := by
  refine peer_inBounds (by decide) fun ip i => ?_
  refine inBounds_tokenAt_bind (by decide) fun nextHop _ => inBounds_tokenAt_last fun value => ?_
  exact setPeerTranslation_inBounds _ _ _ _

theorem getPeerByStrIp_lt {ip : Text} {i : Nat} (h : b.getPeerByStrIp ip = some i) :
    i < b.threadQ.length := by
  unfold BgpCli.getPeerByStrIp at h
  split at h
  · cases h
  · exact (List.findIdx?_eq_some_iff_findIdx_eq.mp h).1

theorem setPeerLogging_inBounds :
    InBounds (setPeerLogging env b tokens) ↔
      tokensRead env b tokens .setPeerLogging ≤ tokens.length := by
  have hlow : 2 ≤ tokensRead env b tokens .setPeerLogging := by
    simp only [tokensRead, peerTokens]
    split
    · split <;> omega
    · split
      · omega
      · split <;> omega
  refine inBounds_tokenAt_bind hlow fun ip hip => ?_
  have hlen : 2 ≤ tokens.length := (List.getElem?_eq_some_iff.mp hip).1
  simp only [tokensRead, peerTokens, BgpCli.namedPeer, hip, Option.bind_some]
  cases hpeer : b.getPeerByStrIp ip with
  | none =>
      have htwo : (match tokens[4]? with | none => 2 | some _ => 2) = 2 := by split <;> rfl
      simp only [Option.bind_none, Checked.pure_eq_ok, inBounds_ok, htwo, hlen]
  | some i =>
      have hi := getPeerByStrIp_lt hpeer
      simp only [Option.bind_some, List.getElem?_eq_getElem hi]
      by_cases hfour : 4 < tokens.length
      · obtain ⟨host, hhost, hread⟩ := tokenAt_of_lt hfour
        rw [hread, Checked.ok_bind, hhost]
        by_cases haddr : stringToIp env.uninit host = 0
        · simp only [if_pos haddr]
          exact iff_of_true (inBounds_ok _) hfour
        · simp only [if_neg haddr]
          exact inBounds_tokenAt_last fun _ => inBounds_ok _
      · have hle := Nat.not_lt.mp hfour
        rw [tokenAt_of_le hle, List.getElem?_eq_none hle]
        exact iff_of_false (not_inBounds_token 4) (Nat.not_le.mpr (Nat.lt_succ_of_le hle))

theorem protoBgpNeighbor_inBounds :
    InBounds (protoBgpNeighbor env b tokens) ↔
      tokensRead env b tokens .protoBgpNeighbor ≤ tokens.length := by
  have hlow : 2 ≤ tokensRead env b tokens .protoBgpNeighbor := by
    simp only [tokensRead]
    split <;> omega
  refine inBounds_tokenAt_bind hlow fun ip hip => ?_
  have hlen : 2 ≤ tokens.length := (List.getElem?_eq_some_iff.mp hip).1
  simp only [tokensRead, hip, Option.map_some]
  cases peerExists b.threadQ (neighborPeer env.uninit ip) with
  | error e => exact iff_of_true (inBounds_memory e) hlen
  | ok found =>
      cases found with
      | true => exact iff_of_true (inBounds_ok _) hlen
      | false => exact inBounds_tokenAt_last fun _ => inBounds_ok _

theorem asksHistory_eq_ok (tokens : List Text) (n : Nat) :
    ∃ hist, asksHistory tokens (n + 1) = .ok hist := by
  unfold asksHistory
  split
  · rename_i hlen
    have hn : n < tokens.length := by omega
    obtain ⟨t, -, hread⟩ := tokenAt_of_lt hn
    rw [Nat.add_sub_cancel, hread]
    exact ⟨_, rfl⟩
  · exact ⟨false, rfl⟩

theorem showBgpPrefix_inBounds : InBounds (showBgpPrefix env b tokens) ↔ 4 ≤ tokens.length := by
  refine inBounds_tokenAt_last fun ip => ?_
  split
  · exact inBounds_ok _
  · obtain ⟨hist, hhist⟩ := asksHistory_eq_ok tokens 4
    rw [hhist, Checked.ok_bind]
    dsimp only
    split
    · exact inBounds_ok _
    · exact inBounds_ofChecked_bind.mpr fun _ _ => inBounds_ok _

theorem apiGetPrefix_inBounds : InBounds (apiGetPrefix env b tokens) := by
  unfold apiGetPrefix
  dsimp only
  split
  · exact inBounds_ok _
  · rename_i hlen
    refine (inBounds_tokenAt_last fun ip => ?_).mpr (by omega)
    split
    · exact inBounds_ok _
    · obtain ⟨hist, hhist⟩ := asksHistory_eq_ok tokens 3
      rw [hhist, Checked.ok_bind]
      split
      · exact inBounds_ok _
      · exact inBounds_ofChecked_bind.mpr fun _ _ => inBounds_ok _

theorem apiGetOriginAs_inBounds (query : OriginQuery) :
    InBounds (apiGetOriginAs query env b tokens) := by
  unfold apiGetOriginAs
  split
  · exact inBounds_ok _
  · rename_i hlen
    have hfour : 4 ≤ tokens.length := Nat.not_lt.mp hlen
    refine (inBounds_tokenAt_bind (by decide) fun asn _ => inBounds_tokenAt_last fun length => ?_).mpr hfour
    exact inBounds_ofChecked_bind.mpr fun _ _ => inBounds_ok _

end Functions

theorem runFunc_inBounds (f : CmdBgpFunc) (env : CliEnv) (b : BgpCli) (tokens : List Text) :
    InBounds (runFunc f env b tokens) ↔ tokensRead env b tokens f ≤ tokens.length := by
  have none : ∀ {x : Cli (BgpCli × Reply)}, InBounds x → (InBounds x ↔ 0 ≤ tokens.length) :=
    fun h => iff_of_true h (Nat.zero_le _)
  cases f with
  | apiGetPrefix => exact none apiGetPrefix_inBounds
  | apiGetAllOriginAs =>
      have h : InBounds (apiGetOriginAs .all env b tokens) := apiGetOriginAs_inBounds _
      exact none h
  | apiGetPublicOriginAs =>
      have h : InBounds (apiGetOriginAs .publicOnly env b tokens) := apiGetOriginAs_inBounds _
      exact none h
  | apiGetPrivateOriginAs =>
      have h : InBounds (apiGetOriginAs .privateOnly env b tokens) := apiGetOriginAs_inBounds _
      exact none h
  | «show» => exact none (inBounds_ok _)
  | showBgpPrefix => exact showBgpPrefix_inBounds
  | showBgpNeighbors =>
      refine none ?_
      simp only [runFunc, showBgpNeighbors]
      split
      · exact inBounds_ok _
      · exact inBounds_ok _
  | showBgpAdjRibIn => exact none (inBounds_ofChecked_bind.mpr fun _ _ => inBounds_ok _)
  | showBgpAdjRibWdrawn => exact none (inBounds_ok _)
  | writeConfigs =>
      refine none ?_
      simp only [runFunc, writeConfigs]
      split
      · exact inBounds_ok _
      · exact inBounds_ok _
  | protoBgpToggleUpdateDump =>
      refine inBounds_tokenAt_last fun t => ?_
      split
      · exact inBounds_ok _
      · split
        · exact inBounds_ok _
        · exact inBounds_ok _
  | protoBgpNeighbor => exact protoBgpNeighbor_inBounds
  | setPeerLogging => exact setPeerLogging_inBounds
  | protoBgpPeerRcvBufferSize => simp only [runFunc, protoBgpPeerRcvBufferSize, peerBufferSize_inBounds, tokensRead]
  | protoBgpPeerSndBufferSize => simp only [runFunc, protoBgpPeerSndBufferSize, peerBufferSize_inBounds, tokensRead]
  | protoBgpPeerTimers => exact none (inBounds_ok _)
  | protoBgpPeerAttribute => exact none (inBounds_ok _)
  | protoBgpAttributeBgpIdTranslateValue => exact bgpIdTranslate_inBounds
  | protoBgpAttributeOriginTranslateValue => exact originTranslate_inBounds
  | protoBgpAttributeAspathTranslateValue => exact attributeTranslateValue_inBounds _
  | protoBgpAttributeNexthopTranslateValue => exact none (inBounds_ok _)
  | protoBgpAttributeV4nexthopTranslateValue => exact v4nexthopTranslate_inBounds
  | protoBgpAttributeMedTranslateValue => exact attributeTranslateValue_inBounds _
  | protoBgpAttributeLocalprefTranslateValue => exact attributeTranslateValue_inBounds _
  | protoBgpAttributeAtomicaggrTranslateValue => exact none (inBounds_ok _)
  | protoBgpAttributeCommunityTranslateValue => exact attributeTranslateValue_inBounds _
  | setBgpId => exact inBounds_tokenAt_last fun _ => inBounds_ok _
  | killAllSignal => exact none (inBounds_ok _)

theorem executeLine_inBounds (env : CliEnv) (b : BgpCli) (line : Text) :
    InBounds (executeLine env b line) ↔
      ∀ cmd, findCommand commands (words line) = some cmd →
        tokensRead env b (words line) cmd.func ≤ (words line).length := by
  unfold executeLine
  split
  · rename_i hline
    subst hline
    exact iff_of_true (inBounds_ok _) fun _ h => by cases h
  · cases findCommand commands (words line) with
    | none => exact iff_of_true (inBounds_ok _) fun _ h => by cases h
    | some cmd =>
        simp only [runFunc_inBounds, Option.some.injEq]
        exact ⟨fun h _ hcmd => hcmd ▸ h, fun h => h cmd rfl⟩

theorem isApiCall_inBounds (buffer : Text) : InBounds (isApiCall buffer) ↔ words buffer ≠ [] := by
  rw [← List.length_pos_iff]
  exact inBounds_tokenAt_last fun _ => inBounds_ok _

end Log2Bgp
