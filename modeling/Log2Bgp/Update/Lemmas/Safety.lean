import Log2Bgp.Update.Framing

/-!
# Memory safety of the UPDATE parser
-/

namespace Log2Bgp

open Lib

variable {packet : List UInt8}

/-! ## Words -/

theorem safe_readHalf {i : Nat} : Safe (readHalf packet i) ↔ i + 2 < packet.length := by
  have h : Safe (readHalf packet i) ↔
      Safe (readByte packet (i + 1)) ∧ Safe (readByte packet (i + 2)) ∧ True :=
    safe_bind_iff fun _ => safe_bind_iff fun _ => by simp
  rw [h, safe_readByte, safe_readByte, and_true]
  omega

theorem safe_readWord {i : Nat} : Safe (readWord packet i) ↔ i + 4 < packet.length := by
  have h : Safe (readWord packet i) ↔
      Safe (readByte packet (i + 1)) ∧ Safe (readByte packet (i + 2)) ∧
        Safe (readByte packet (i + 3)) ∧ Safe (readByte packet (i + 4)) ∧ True :=
    safe_bind_iff fun _ => safe_bind_iff fun _ => safe_bind_iff fun _ => safe_bind_iff fun _ => by simp
  simp only [h, safe_readByte, and_true]
  omega

theorem safe_readCommunity {i : Nat} : Safe (readCommunity packet i) ↔ i + 4 < packet.length := by
  have h : Safe (readCommunity packet i) ↔
      Safe (readHalf packet i) ∧ Safe (readHalf packet (i + 2)) ∧ True :=
    safe_bind_iff fun _ => safe_bind_iff fun _ => by simp
  rw [h, safe_readHalf, safe_readHalf, and_true]
  omega

/-! ## Structured values -/

theorem safe_parseSegment {width i : Nat} {asn : Nat → Checked UInt32}
    (hasn : ∀ o, Safe (asn o) ↔ o + width < packet.length) :
    Safe (parseSegment width asn i packet) ↔ SegmentFramed packet width (i + 1) := by
  have hfill : ∀ count : UInt8, Safe (fillArray width asn count (i + 2)) ↔
      count.toNat = 0 ∨ i + 2 + width * count.toNat < packet.length := by
    intro count
    rw [safe_fillArray, safe_readElems hasn]
  unfold parseSegment
  constructor
  · intro h
    obtain ⟨t, _, h⟩ := safe_bind.mp h
    obtain ⟨count, hcount, h⟩ := safe_bind.mp h
    obtain ⟨segValue, hseg, _⟩ := safe_bind.mp h
    rw [readByte_eq_ok] at hcount
    have hreach := (List.getElem?_eq_some_iff.mp hcount).1
    refine ⟨count, hcount, ?_⟩
    rcases (hfill count).mp (.of_eq hseg) with h0 | hlt
    · rw [h0, Nat.mul_zero]
      omega
    · omega
  · rintro ⟨count, hcount, hle⟩
    have hreach := (List.getElem?_eq_some_iff.mp hcount).1
    obtain ⟨t, ht⟩ := safe_readByte.mpr (show i + 1 < packet.length by omega)
    obtain ⟨segValue, hseg⟩ := (hfill count).mpr (Or.inr (by omega))
    have hcount' : readByte packet (i + 2) = .ok count := readByte_eq_ok.mpr hcount
    rw [ht, Checked.ok_bind, hcount', Checked.ok_bind, hseg]
    exact safe_ok _

theorem safe_parseAsPath {i : Nat} {u : BgpUpdate} :
    Safe (parseAsPath i u packet) ↔ SegmentFramed packet 2 (i + 1) := by
  have h : Safe (parseAsPath i u packet) ↔ Safe (parseSegment 2 (readHalf packet) i packet) ∧ True :=
    safe_bind_iff fun _ => by simp
  rw [h, and_true, safe_parseSegment fun _ => safe_readHalf]

theorem safe_parseAs4Path {i : Nat} {u : BgpUpdate} :
    Safe (parseAs4Path i u packet) ↔ SegmentFramed packet 4 (i + 1) := by
  have h : Safe (parseAs4Path i u packet) ↔ Safe (parseSegment 4 (readWord packet) i packet) ∧ True :=
    safe_bind_iff fun _ => by simp
  rw [h, and_true, safe_parseSegment fun _ => safe_readWord]

theorem safe_parseCommunity {i : Nat} {length : UInt8} {u : BgpUpdate} :
    Safe (parseCommunity i length u packet) ↔
      4 ≤ length.toNat ∧ i + 1 + 4 * (length.toNat / 4) ≤ packet.length := by
  have hdiv : (length / 4).toNat = length.toNat / 4 := UInt8.toNat_div ..
  unfold parseCommunity
  by_cases h0 : length / 4 = 0
  · have hsmall : length.toNat / 4 = 0 := by rw [← hdiv, h0]; rfl
    rw [if_pos h0]
    simp only [not_safe_error, false_iff]
    omega
  · have hlarge : (length / 4).toNat ≠ 0 := fun h => h0 (UInt8.toNat_inj.mp h)
    have h : Safe (fillArray 4 (readCommunity packet) (length / 4) i >>= fun community =>
        (pure { u with community := community } : Checked BgpUpdate)) ↔
          Safe (fillArray 4 (readCommunity packet) (length / 4) i) ∧ True :=
      safe_bind_iff fun _ => by simp
    rw [if_neg h0, h, and_true, safe_fillArray, safe_readElems fun _ => safe_readCommunity, hdiv]
    rw [hdiv] at hlarge
    omega

/-! ## One attribute -/

theorem valueSize_zero (type : BgpPathAttrib) : valueSize type 0 = 0 := by
  cases type <;> rfl

/-- A value that is handled moves the walk by its size. -/
theorem attribSwitch_moves {attrib : BgpAttribute} {w w' : Walk}
    (h : attribSwitch packet attrib w = .ok w') :
    ∃ u, w' = { w with update := u }.advance (valueSize attrib.typeCode attrib.length) := by
  obtain ⟨flags, type, length⟩ := attrib
  by_cases h0 : length = 0
  · subst h0
    have hstay : ∀ u, { w with update := u } = { w with update := u }.advance 0 := by
      simp [Walk.advance]
    rw [valueSize_zero]
    cases type with
    | bgpId | other _ => cases h; exact ⟨w.update, rfl⟩
    | _ => cases h; exact ⟨_, hstay _⟩
  · have hsize : valueSize .origin length = 1 := if_neg h0
    cases type with
    | bgpId | other _ => cases h; exact ⟨w.update, rfl⟩
    | atomicAggregate =>
        cases h
        exact ⟨_, by simp [Walk.advance, valueSize]; rfl⟩
    | originator | clusterList | mpReachNlri | mpUnreachNlri =>
        simp only [attribSwitch, h0, ↓reduceIte] at h
        cases h
        exact ⟨w.update, rfl⟩
    | origin =>
        simp only [attribSwitch, h0, ↓reduceIte, Checked.bind_eq_ok, Checked.pure_eq_ok] at h
        obtain ⟨origin, _, h⟩ := h
        cases h
        exact ⟨_, by rw [hsize]; rfl⟩
    | aggregator | as4Aggregator =>
        simp only [attribSwitch, h0, ↓reduceIte, Checked.bind_eq_ok, Checked.pure_eq_ok] at h
        obtain ⟨asn, _, bytes, _, h⟩ := h
        cases h
        exact ⟨_, rfl⟩
    | _ =>
        simp only [attribSwitch, h0, ↓reduceIte, Checked.bind_eq_ok, Checked.pure_eq_ok] at h
        obtain ⟨value, _, h⟩ := h
        cases h
        exact ⟨_, rfl⟩

theorem safe_attribSwitch {attrib : BgpAttribute} {w : Walk} :
    Safe (attribSwitch packet attrib w) ↔
      ValueFramed packet attrib.typeCode attrib.length (w.i + 1) := by
  obtain ⟨flags, type, length⟩ := attrib
  by_cases h0 : length = 0
  · subst h0
    have hframed : ValueFramed packet type 0 (w.i + 1) := fun h => absurd rfl h
    cases type <;> exact iff_of_true (safe_ok _) hframed
  · have hpos := toNat_pos h0
    -- a value that is read first and then stored
    have hread : ∀ {α : Type} (c : Checked α) (f : α → Walk),
        Safe (c >>= fun a => pure (f a)) ↔ Safe c := by
      intro α c f
      rw [safe_bind_iff (p := True) (by simp), and_true]
    have hread₂ : ∀ {α β : Type} (c : Checked α) (d : Checked β) (f : α → β → Walk),
        Safe (c >>= fun a => d >>= fun b => pure (f a b)) ↔ Safe c ∧ Safe d := by
      intro α β c d f
      exact safe_bind_iff fun a => hread d (f a)
    simp only [ValueFramed, ne_eq, h0, not_false_eq_true, true_implies]
    cases type with
    | originator | clusterList | mpReachNlri | mpUnreachNlri =>
        simp only [attribSwitch, h0, ↓reduceIte, safe_ok]
    | bgpId | other _ | atomicAggregate => simp only [attribSwitch, safe_ok]
    | origin =>
        simp only [attribSwitch, h0, ↓reduceIte, hread, safe_readByte]
        omega
    | asPath => simp only [attribSwitch, h0, ↓reduceIte, hread, safe_parseAsPath]
    | as4Path => simp only [attribSwitch, h0, ↓reduceIte, hread, safe_parseAs4Path]
    | community => simp only [attribSwitch, h0, ↓reduceIte, hread, safe_parseCommunity]
    | nextHop =>
        simp only [attribSwitch, h0, ↓reduceIte, hread, safe_copyBytes]
        omega
    | multiExitDisc | localPref =>
        simp only [attribSwitch, h0, ↓reduceIte, hread, safe_readWord]
        omega
    | aggregator =>
        simp only [attribSwitch, h0, ↓reduceIte, hread₂, safe_readHalf, safe_copyBytes]
        omega
    | as4Aggregator =>
        simp only [attribSwitch, h0, ↓reduceIte, hread₂, safe_readWord, safe_copyBytes]
        omega

/-! ## The attribute walk -/

/-- The walk of a packet of an UPDATE is safe, and ends, exactly when its attributes are framed. Each
attribute takes at least three bytes of the packet, which keeps `readLen` far below 2^16. -/
theorem safe_attribLoop {pathAttribLen : UInt16} (hlen : packet.length ≤ 4101) (fuel : Nat) (w : Walk)
    (hi : w.i = w.readLen.toNat + 3) (hpos : 0 < fuel)
    (hfuel : packet.length < w.readLen.toNat + fuel) :
    Safe (attribLoop packet pathAttribLen fuel w) ↔
      AttribsFramed packet pathAttribLen.toNat w.readLen.toNat := by
  induction fuel generalizing w with
  | zero => cases hpos
  | succ fuel ih =>
      have hnext : ∀ (u : BgpUpdate) (code length : UInt8), w.readLen.toNat + 6 < packet.length →
          let w' := { update := u, i := w.i + 3, readLen := w.readLen + 3 : Walk }.advance
            (valueSize (.ofByte code) length)
          w'.i = w'.readLen.toNat + 3 ∧
            w'.readLen.toNat = w.readLen.toNat + 3 + (valueSize (.ofByte code) length).toNat ∧
            packet.length < w'.readLen.toNat + fuel := by
        intro u code length hreach
        have hsize := (valueSize (.ofByte code) length).toNat_lt
        have h3 : (3 : UInt16).toNat = 3 := rfl
        simp only [Walk.advance, UInt16.toNat_add, UInt8.toNat_toUInt16, h3]
        omega
      by_cases hlt : w.readLen < pathAttribLen
      · have hlt' : w.readLen.toNat < pathAttribLen.toNat := UInt16.lt_iff_toNat_lt.mp hlt
        simp only [attribLoop, hlt, ↓reduceIte]
        constructor
        · intro h
          obtain ⟨flags, _, h⟩ := safe_bind.mp h
          obtain ⟨code, hcode, h⟩ := safe_bind.mp h
          obtain ⟨length, hlength, h⟩ := safe_bind.mp h
          obtain ⟨w', hw', h⟩ := safe_bind.mp h
          rw [readByte_eq_ok, hi] at hcode hlength
          obtain ⟨u, rfl⟩ := attribSwitch_moves hw'
          have hframed := safe_attribSwitch.mp (.of_eq hw')
          simp only [hi] at hframed
          have hreach := (List.getElem?_eq_some_iff.mp hlength).1
          obtain ⟨hi', hread, hfuel'⟩ := hnext u code length (by omega)
          rw [ih _ hi' (by omega) hfuel', hread] at h
          exact .attrib hlt' hcode hlength hframed h
        · intro h
          cases h with
          | stop hle => omega
          | @attrib _ code length _ hcode hlength hframed hrest =>
              have hreach := (List.getElem?_eq_some_iff.mp hlength).1
              have h2 : readByte packet (w.i + 2) = .ok code := by rw [readByte_eq_ok, hi, ← hcode]
              have h3 : readByte packet (w.i + 3) = .ok length := by
                rw [readByte_eq_ok, hi, ← hlength]
              obtain ⟨flags, h1⟩ := safe_readByte.mpr (show w.i + 1 < packet.length by omega)
              have hsafe : Safe (attribSwitch packet ⟨flags, .ofByte code, length⟩
                  { w with i := w.i + 3, readLen := w.readLen + 3 }) := by
                rw [safe_attribSwitch]
                simp only [hi]
                exact hframed
              obtain ⟨w', hw'⟩ := hsafe
              simp only [h1, h2, h3, hw', Checked.ok_bind]
              obtain ⟨u, rfl⟩ := attribSwitch_moves hw'
              obtain ⟨hi', hread, hfuel'⟩ := hnext u code length (by omega)
              rw [ih _ hi' (by omega) hfuel', hread]
              exact hrest
      · have hle : pathAttribLen.toNat ≤ w.readLen.toNat := by
          rw [UInt16.lt_iff_toNat_lt] at hlt
          omega
        simp only [attribLoop, hlt, ↓reduceIte, safe_ok, true_iff]
        exact .stop hle

/-! ## The loop over prefixes -/

theorem safe_getIpv4HighRange {pfx : UInt32} {length : UInt8} (h0 : length ≠ 0) :
    Safe (getIpv4HighRange pfx length) ↔ length.toNat ≤ 32 := by
  have hpos := toNat_pos h0
  unfold getIpv4HighRange
  rw [safe_ite]
  simp only [safe_ok, and_true]
  omega

theorem byteLength_le {length : UInt8} (h : length.toNat ≤ 32) : byteLength length ≤ 4 := by
  unfold byteLength
  split <;> omega

theorem safe_parseNlri (c : NlriContext) (update : BgpUpdate) (fuel offset : Nat) (q : RibQueues)
    (hfuel : packet.length < offset + fuel) :
    Safe (parseNlri c update packet fuel offset q) ↔ PrefixesFramed packet offset := by
  induction fuel generalizing update offset q with
  | zero =>
      have hnone : packet[offset]? = none := List.getElem?_eq_none (by omega)
      simp only [parseNlri, not_safe_error, false_iff]
      intro h
      cases h with
      | stop h0 => rw [hnone] at h0; cases h0
      | next hlength => rw [hnone] at hlength; cases hlength
  | succ fuel ih =>
      unfold parseNlri
      constructor
      · intro h
        obtain ⟨length, hlength, h⟩ := safe_bind.mp h
        rw [readByte_eq_ok] at hlength
        split at h
        · rename_i h0
          exact .stop (h0 ▸ hlength)
        · rename_i h0
          obtain ⟨bytes, hbytes, h⟩ := safe_bind.mp h
          obtain ⟨highest, hhighest, h⟩ := safe_bind.mp h
          have hcopy := safe_copyBytes.mp (.of_eq hbytes)
          have hle := (safe_getIpv4HighRange h0).mp (.of_eq hhighest)
          rw [ih _ _ _ (by omega)] at h
          exact .next hlength h0 hle hcopy.2 h
      · intro h
        cases h with
        | stop h0 =>
            have hread : readByte packet offset = .ok 0 := readByte_eq_ok.mpr h0
            simp only [hread, Checked.ok_bind, ↓reduceIte, safe_ok]
        | @next _ length hlength h0 hle hreach hrest =>
            have hread : readByte packet offset = .ok length := readByte_eq_ok.mpr hlength
            have hbytes := byteLength_le hle
            have hcopied : Safe (copyBytes packet (offset + 1) (byteLength length) 4) :=
              safe_copyBytes.mpr ⟨by omega, hreach⟩
            obtain ⟨bytes, hcopy⟩ := hcopied
            have hranged : Safe (getIpv4HighRange (overlay 0 bytes) length) :=
              (safe_getIpv4HighRange h0).mpr hle
            obtain ⟨highest, hhighest⟩ := hranged
            simp only [hread, Checked.ok_bind, h0, ↓reduceIte, hcopy, hhighest]
            exact (ih _ _ _ (by omega)).mpr hrest

/-! ## A message -/

theorem readByte_getD {i : Nat} (h : i < packet.length) :
    readByte packet i = .ok (packet.getD i 0) := by
  rw [readByte_eq_ok, List.getD_eq_getElem?_getD, List.getElem?_eq_getElem h]
  rfl

theorem safe_procMessage (now : TimeT) (bgpId : UInt32) (data : QueueData) (q : RibQueues) :
    Safe (procMessage now bgpId data q) ↔ Framed data.packet := by
  obtain ⟨body, hfits, receipt⟩ := data
  have hmin : 5 ≤ (body ++ List.replicate 5 (0 : UInt8)).length := by simp
  have hmax : (body ++ List.replicate 5 (0 : UInt8)).length ≤ 4101 := by
    rw [List.length_append, List.length_replicate]
    omega
  unfold procMessage Framed
  simp only
  generalize body ++ List.replicate 5 (0 : UInt8) = packet at hmin hmax ⊢
  have hhigh : readByte packet 0 = .ok (packet.getD 0 0) := readByte_getD (by omega)
  have hlow : readByte packet 1 = .ok (packet.getD 1 0) := readByte_getD (by omega)
  have hlenHigh : readByte packet 2 = .ok (packet.getD 2 0) := readByte_getD (by omega)
  have hlenLow : readByte packet 3 = .ok (packet.getD 3 0) := readByte_getD (by omega)
  have hunfeasable : be16 (packet.getD 0 0) (packet.getD 1 0) = halfAt packet 0 := rfl
  have hattrib : be16 (packet.getD 2 0) (packet.getD 3 0) = halfAt packet 2 := rfl
  rw [hhigh, Checked.ok_bind, hlow, Checked.ok_bind, hunfeasable]
  split
  · exact safe_parseNlri _ _ _ _ _ (by omega)
  · rw [hlenHigh, Checked.ok_bind, hlenLow, Checked.ok_bind, hattrib]
    have hwalk : Safe (attribLoop packet (halfAt packet 2) (packet.length + 1)
        { update := {}, i := 3, readLen := 0 }) ↔
          AttribsFramed packet (halfAt packet 2).toNat 0 :=
      safe_attribLoop hmax _ _ rfl (Nat.succ_pos _) (by simp)
    have hrest : ∀ w : Walk, Safe (parseNlri ⟨.update, now, bgpId, receipt⟩
        { w.update with addrFamily := afInet } packet (packet.length + 1)
        ((halfAt packet 2).toNat + 4) q) ↔ PrefixesFramed packet ((halfAt packet 2).toNat + 4) :=
      fun w => safe_parseNlri _ _ _ _ _ (by omega)
    rw [safe_bind_iff hrest, hwalk]

end Log2Bgp
