import Log2Bgp.Model.Session

/-!
# Which messages the handlers can read
-/

namespace Log2Bgp

open Lib

variable {payload : List UInt8}

/-! ## OPEN -/

theorem safe_readOpen : Safe (readOpen payload) ↔ 10 ≤ payload.length := by
  have h : Safe (readOpen payload) ↔
      Safe (readByte payload 0) ∧ Safe (readByte payload 1) ∧ Safe (readByte payload 2) ∧
        Safe (readByte payload 4) ∧ Safe (readByte payload 3) ∧ Safe (readByte payload 5) ∧
        Safe (readByte payload 6) ∧ Safe (readByte payload 7) ∧ Safe (readByte payload 8) ∧
        Safe (readByte payload 9) ∧ True :=
    safe_bind_iff fun _ => safe_bind_iff fun _ => safe_bind_iff fun _ => safe_bind_iff fun _ =>
      safe_bind_iff fun _ => safe_bind_iff fun _ => safe_bind_iff fun _ => safe_bind_iff fun _ =>
        safe_bind_iff fun _ => safe_bind_iff fun _ => by simp
  simp only [h, safe_readByte, and_true]
  omega

theorem safe_decodeOpen {cfg : BgpConfig} {p : BgpPeer} {now : TimeT} :
    Safe (decodeOpen cfg p now payload) ↔ 10 ≤ payload.length := by
  have h : Safe (decodeOpen cfg p now payload) ↔ Safe (readOpen payload) ∧ True :=
    safe_bind_iff fun _ => by simp
  rw [h, and_true, safe_readOpen]

/-! ## NOTIFICATION -/

/-- A table has a text at an index. -/
def HasText (table : List (Option String)) (i : UInt8) : Prop := ((table[i.toNat]?).join).isSome

instance (table : List (Option String)) (i : UInt8) : Decidable (HasText table i) :=
  inferInstanceAs (Decidable (_ = true))

theorem safe_textAt {table : List (Option String)} {i : UInt8} :
    Safe (textAt table i) ↔ HasText table i := by
  unfold textAt HasText
  rcases table[i.toNat]? with _ | _ | text <;> simp

/-- The subcode has a text in the table that its code is looked up in. -/
def KnownSubcode (code sub : UInt8) : Prop :=
  match BgpErrorCode.ofByte code with
  | .msgHeadErr => HasText bgpErrorSubHeader sub
  | .openMsgErr => HasText bgpErrorSubOpen sub
  | .updateMsgErr => HasText bgpErrorSubUpdate sub
  | _ => True

instance (code sub : UInt8) : Decidable (KnownSubcode code sub) := by
  unfold KnownSubcode
  cases BgpErrorCode.ofByte code <;> infer_instance

/-- Every code that is looked up has a text of its own. -/
theorem hasText_of_code {code : UInt8} (h : ∀ c, BgpErrorCode.ofByte code ≠ .other c) :
    HasText bgpErrorCodes code := by
  unfold BgpErrorCode.ofByte at h
  split at h
  case h_7 => exact absurd rfl (h code)
  all_goals decide

theorem safe_decodeNotification : Safe (decodeNotification payload) ↔
    8 ≤ payload.length ∧ ∀ code sub, payload[0]? = some code → payload[1]? = some sub →
      KnownSubcode code sub := by
  -- the two lookups of a code with a table of its own
  have htexts : ∀ (code sub : UInt8) (table : List (Option String)), HasText bgpErrorCodes code →
      (Safe (do
        let code ← textAt bgpErrorCodes code
        let sub ← textAt table sub
        pure (some (code, sub)) : Checked (Option (String × String))) ↔ HasText table sub) := by
    intro code sub table hcode
    have h : Safe (do
        let code ← textAt bgpErrorCodes code
        let sub ← textAt table sub
        pure (some (code, sub)) : Checked (Option (String × String))) ↔
          Safe (textAt bgpErrorCodes code) ∧ Safe (textAt table sub) ∧ True :=
      safe_bind_iff fun _ => safe_bind_iff fun _ => by simp
    rw [h, safe_textAt, safe_textAt, and_true, and_iff_right hcode]
  rcases Nat.lt_or_ge payload.length 8 with hlt | hge
  · have hnot : ¬ Safe (decodeNotification payload) := by
      intro h
      obtain ⟨_, _, h⟩ := safe_bind.mp h
      obtain ⟨_, _, h⟩ := safe_bind.mp h
      obtain ⟨_, hcopy, _⟩ := safe_bind.mp h
      have hreach := (safe_copyBytes.mp (.of_eq hcopy)).2
      omega
    exact iff_of_false hnot fun h => absurd h.1 (by omega)
  · obtain ⟨code, hcode⟩ := safe_readByte.mpr (show 0 < payload.length by omega)
    obtain ⟨sub, hsub⟩ := safe_readByte.mpr (show 1 < payload.length by omega)
    have hcopied : Safe (copyBytes payload 2 6 6) := safe_copyBytes.mpr ⟨by decide, by omega⟩
    obtain ⟨data, hdata⟩ := hcopied
    have hknown : (∀ code' sub', payload[0]? = some code' → payload[1]? = some sub' →
        KnownSubcode code' sub') ↔ KnownSubcode code sub := by
      rw [readByte_eq_ok] at hcode hsub
      simp only [hcode, hsub, Option.some.injEq]
      exact ⟨fun h => h code sub rfl rfl, fun h _ _ hc hs => hc ▸ hs ▸ h⟩
    rw [hknown, and_iff_right hge]
    unfold decodeNotification KnownSubcode
    simp only [hcode, hsub, hdata, Checked.ok_bind]
    cases hkind : BgpErrorCode.ofByte code with
    | msgHeadErr | openMsgErr | updateMsgErr =>
        exact htexts code sub _ (hasText_of_code (by simp [hkind]))
    | holdTimeExpired | finiteStateMachErr | cease =>
        have htext : Safe (textAt bgpErrorCodes code) :=
          safe_textAt.mpr (hasText_of_code (by simp [hkind]))
        obtain ⟨text, htext⟩ := htext
        simp only [htext, Checked.ok_bind, Checked.pure_eq_ok, safe_ok]
    | other _ => simp only [Checked.pure_eq_ok, safe_ok]

/-! ## All messages -/

/-- The payload of a message of a type is one that its handler can take. -/
def PayloadFits (type : BgpMsgType) (payload : List UInt8) : Prop :=
  match type with
  | .openMsg => 10 ≤ payload.length
  | .update => payload.length ≤ 4096
  | .notification =>
      8 ≤ payload.length ∧
        ∀ code sub, payload[0]? = some code → payload[1]? = some sub → KnownSubcode code sub
  | _ => True

/-- A handler that can reach nothing but the payload is safe exactly when the payload fits it. -/
theorem safe_dispatch {cfg : BgpConfig} {now : TimeT} {receipt : Receipt} {type : BgpMsgType}
    {p : BgpPeer} :
    Safe (dispatch cfg now receipt type payload payload.length p) ↔ PayloadFits type payload := by
  cases type with
  | openMsg => exact safe_decodeOpen
  | update =>
      simp only [dispatch, List.take_length, PayloadFits]
      split
      · simp_all
      · simp_all
  | notification =>
      have h : Safe (dispatch cfg now receipt .notification payload payload.length p) ↔
          Safe (decodeNotification payload) ∧ True := safe_bind_iff fun _ => by simp
      rw [h, and_true, safe_decodeNotification]
      rfl
  | keepalive | routerefresh | other _ => exact iff_of_true (safe_ok _) trivial

end Log2Bgp
