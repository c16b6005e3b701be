import Log2Bgp.Daemon.Lemmas.Messages

/-!
# What a body settles for its readers

The ORIGIN and the length of the AS_PATH of an UPDATE, read off its bytes.
-/

namespace Log2Bgp

open Lib

/-! ## Updates -/

/-- The number of ASNs in the path, 0 where there is none. -/
def BgpUpdate.asnCount (u : BgpUpdate) : UInt8 :=
  match u.asPath with
  | none => 0
  | some s => s.segValue.length

/-- An update has what its readers assume: an origin with a text and a path with an ASN. -/
def BgpUpdate.Readable (u : BgpUpdate) : Prop := u.origin < 3 ∧ u.asnCount ≠ 0

instance (u : BgpUpdate) : Decidable u.Readable := inferInstanceAs (Decidable (_ ∧ _))

/-! ## Bytes -/

/-- The origin after an attribute with its value at `start`. -/
def originAfter (packet : List UInt8) (type : BgpPathAttrib) (length : UInt8) (start : Nat) (origin : UInt8) :
    UInt8 :=
  if type = .origin ∧ length ≠ 0 then packet.getD start 0 else origin

/-- The number of ASNs after an attribute with its value at `start`. -/
def asnsAfter (packet : List UInt8) (type : BgpPathAttrib) (length : UInt8) (start : Nat) (asns : UInt8) :
    UInt8 :=
  if type = .asPath ∧ length ≠ 0 then packet.getD (start + 1) 0 else asns

/-- The attributes from byte `4 + n` on leave an origin with a text and a path with an ASN, if those so
far are the given ones. -/
inductive AttribsReadable (packet : List UInt8) (pathAttribLen : Nat) :
    (n : Nat) → (origin asns : UInt8) → Prop where
  | stop {n : Nat} {origin asns : UInt8} : pathAttribLen ≤ n → origin < 3 → asns ≠ 0 →
      AttribsReadable packet pathAttribLen n origin asns
  | attrib {n : Nat} {origin asns code length : UInt8} :
      n < pathAttribLen → packet[n + 5]? = some code → packet[n + 6]? = some length →
      AttribsReadable packet pathAttribLen (n + 3 + (valueSize (.ofByte code) length).toNat)
        (originAfter packet (.ofByte code) length (n + 7) origin)
        (asnsAfter packet (.ofByte code) length (n + 7) asns) →
      AttribsReadable packet pathAttribLen n origin asns

/-- Where a body announces anything, its attributes leave it readable. -/
def QueueData.Readable (data : QueueData) : Prop :=
  data.Announces →
    AttribsReadable (data.packet ++ List.replicate 5 0)
      (halfAt (data.packet ++ List.replicate 5 0) 2).toNat 0 0 0

/-! ## The walk -/

section Walk

variable {packet : List UInt8} {w w' : Walk}

theorem getD_of_readByte {i : Nat} {b : UInt8} (h : readByte packet i = .ok b) : packet.getD i 0 = b := by
  rw [readByte_eq_ok] at h
  rw [List.getD_eq_getElem?_getD, h, Option.getD_some]

theorem parseAsPath_count {i : Nat} {u u' : BgpUpdate} (h : parseAsPath i u packet = .ok u') :
    u'.origin = u.origin ∧ u'.asnCount = packet.getD (i + 2) 0 := by
  obtain ⟨segment, hsegment, h⟩ := Checked.bind_eq_ok.mp h
  obtain ⟨segType, -, hsegment⟩ := Checked.bind_eq_ok.mp hsegment
  obtain ⟨count, hcount, hsegment⟩ := Checked.bind_eq_ok.mp hsegment
  obtain ⟨values, hvalues, hsegment⟩ := Checked.bind_eq_ok.mp hsegment
  cases hsegment
  cases h
  exact ⟨rfl, (fillArray_length hvalues).trans (getD_of_readByte hcount).symm⟩

/-- Only ORIGIN and AS_PATH change what is settled. -/
theorem attribSwitch_settles {attrib : BgpAttribute} (h : attribSwitch packet attrib w = .ok w') :
    w'.update.origin = originAfter packet attrib.typeCode attrib.length (w.i + 1) w.update.origin ∧
      w'.update.asnCount = asnsAfter packet attrib.typeCode attrib.length (w.i + 1) w.update.asnCount := by
  obtain ⟨flags, type, length⟩ := attrib
  unfold originAfter asnsAfter
  by_cases h0 : length = 0
  · subst h0
    simp only [ne_eq, not_true_eq_false, and_false, ↓reduceIte]
    cases type <;> (cases h; exact ⟨rfl, rfl⟩)
  · simp only [ne_eq, h0, not_false_eq_true, and_true]
    cases type with
    | bgpId | other _ | atomicAggregate =>
        cases h
        exact ⟨rfl, rfl⟩
    | originator | clusterList | mpReachNlri | mpUnreachNlri =>
        simp only [attribSwitch, h0, ↓reduceIte] at h
        cases h
        exact ⟨rfl, rfl⟩
    | origin =>
        simp only [attribSwitch, h0, ↓reduceIte, Checked.bind_eq_ok, Checked.pure_eq_ok] at h
        obtain ⟨origin, horigin, h⟩ := h
        cases h
        exact ⟨(getD_of_readByte horigin).symm, rfl⟩
    | asPath =>
        simp only [attribSwitch, h0, ↓reduceIte, Checked.bind_eq_ok, Checked.pure_eq_ok] at h
        obtain ⟨u, hu, h⟩ := h
        cases h
        exact parseAsPath_count hu
    | as4Path =>
        simp only [attribSwitch, h0, ↓reduceIte, Checked.bind_eq_ok, Checked.pure_eq_ok] at h
        obtain ⟨u, hu, h⟩ := h
        cases h
        obtain ⟨segment, -, hu⟩ := Checked.bind_eq_ok.mp hu
        cases hu
        exact ⟨rfl, rfl⟩
    | community =>
        simp only [attribSwitch, h0, ↓reduceIte, Checked.bind_eq_ok, Checked.pure_eq_ok] at h
        obtain ⟨u, hu, h⟩ := h
        cases h
        unfold parseCommunity at hu
        simp only at hu
        split at hu
        · cases hu
        · obtain ⟨community, -, hu⟩ := Checked.bind_eq_ok.mp hu
          cases hu
          exact ⟨rfl, rfl⟩
    | aggregator | as4Aggregator =>
        simp only [attribSwitch, h0, ↓reduceIte, Checked.bind_eq_ok, Checked.pure_eq_ok] at h
        obtain ⟨asn, -, bytes, -, h⟩ := h
        cases h
        exact ⟨rfl, rfl⟩
    | _ =>
        simp only [attribSwitch, h0, ↓reduceIte, Checked.bind_eq_ok, Checked.pure_eq_ok] at h
        obtain ⟨value, -, h⟩ := h
        cases h
        exact ⟨rfl, rfl⟩

/-- A walk that ends leaves an update that is readable just in case its bytes say so. -/
theorem attribLoop_readable {pathAttribLen : UInt16} (hlen : packet.length ≤ 4101) {fuel : Nat}
    (hi : w.i = w.readLen.toNat + 3) (h : attribLoop packet pathAttribLen fuel w = .ok w') :
    w'.update.Readable ↔
      AttribsReadable packet pathAttribLen.toNat w.readLen.toNat w.update.origin w.update.asnCount := by
  induction fuel generalizing w with
  | zero => cases h
  | succ fuel ih =>
      unfold attribLoop at h
      split at h
      · rename_i hlt
        have hlt' := UInt16.lt_iff_toNat_lt.mp hlt
        obtain ⟨flags, -, h⟩ := Checked.bind_eq_ok.mp h
        obtain ⟨code, hcode, h⟩ := Checked.bind_eq_ok.mp h
        obtain ⟨length, hlength, h⟩ := Checked.bind_eq_ok.mp h
        obtain ⟨w₁, hw₁, h⟩ := Checked.bind_eq_ok.mp h
        rw [readByte_eq_ok, hi] at hcode hlength
        obtain ⟨horigin, hasns⟩ := attribSwitch_settles hw₁
        obtain ⟨u, rfl⟩ := attribSwitch_moves hw₁
        simp only [hi] at horigin hasns
        have horigin' : u.origin =
            originAfter packet (.ofByte code) length (w.readLen.toNat + 7) w.update.origin := horigin
        have hasns' : u.asnCount =
            asnsAfter packet (.ofByte code) length (w.readLen.toNat + 7) w.update.asnCount := hasns
        have hreach := (List.getElem?_eq_some_iff.mp hlength).1
        have hsize := (valueSize (.ofByte code) length).toNat_lt
        have hread : ({ w with update := u, i := w.i + 3, readLen := w.readLen + 3 : Walk }.advance
            (valueSize (.ofByte code) length)).readLen.toNat =
              w.readLen.toNat + 3 + (valueSize (.ofByte code) length).toNat := by
          have h3 : (3 : UInt16).toNat = 3 := rfl
          simp only [Walk.advance, UInt16.toNat_add, UInt8.toNat_toUInt16, h3]
          omega
        refine (ih (by rw [hread]; simp only [Walk.advance]; omega) h).trans ?_
        rw [hread]
        show AttribsReadable packet _ _ u.origin u.asnCount ↔ _
        rw [horigin', hasns']
        constructor
        · intro hrest
          exact .attrib hlt' hcode hlength hrest
        · intro hall
          cases hall with
          | stop hle => omega
          | attrib _ hcode' hlength' hrest =>
              cases hcode'.symm.trans hcode
              cases hlength'.symm.trans hlength
              exact hrest
      · rename_i hge
        have hle : pathAttribLen.toNat ≤ w.readLen.toNat := by
          rw [UInt16.lt_iff_toNat_lt] at hge
          omega
        cases h
        constructor
        · rintro ⟨horigin, hasns⟩
          exact .stop hle horigin hasns
        · intro hall
          cases hall with
          | stop _ horigin hasns => exact ⟨horigin, hasns⟩
          | attrib hlt => omega

end Walk

/-! ## A message -/

/-- The routes of a message are those of its peer, and are all readable or none of them, as its bytes
say. -/
theorem procMessage_settles {now : TimeT} {bgpId : UInt32} {data : QueueData} {q : RibQueues}
    (h : procMessage now bgpId data {} = .ok q) :
    (∀ r ∈ q.adjRibInQ ++ q.adjRibInWdrawQ, r.bgpId = bgpId) ∧ (q.adjRibInQ ≠ [] ↔ data.Announces) ∧
      (data.Announces → q.adjRibInWdrawQ = []) ∧
      ∀ r ∈ q.adjRibInQ, r.update.Readable ↔ data.Readable := by
  obtain ⟨body, hfits, receipt⟩ := data
  have hmin : 5 ≤ (body ++ List.replicate 5 (0 : UInt8)).length := by
    simp
  have hmax : (body ++ List.replicate 5 (0 : UInt8)).length ≤ 4101 := by
    rw [List.length_append, List.length_replicate]
    omega
  have hhigh := readByte_getD (Nat.lt_of_lt_of_le (by decide : 0 < 5) hmin)
  have hlow := readByte_getD (Nat.lt_of_lt_of_le (by decide : 1 < 5) hmin)
  have hlenHigh := readByte_getD (Nat.lt_of_lt_of_le (by decide : 2 < 5) hmin)
  have hlenLow := readByte_getD (Nat.lt_of_lt_of_le (by decide : 3 < 5) hmin)
  unfold procMessage at h
  simp only [hhigh, hlow, Checked.ok_bind] at h
  split at h
  · rename_i hwithdraw
    obtain ⟨rs, rfl, htags, -⟩ := parseNlri_first _ h
    have hsilent : ¬ QueueData.Announces ⟨body, hfits, receipt⟩ := fun hannounces => hwithdraw hannounces.1
    refine ⟨fun r hr => (htags r hr).1, iff_of_false (fun hne => hne rfl) hsilent,
      fun hannounces => absurd hannounces hsilent, ?_⟩
    intro r hr
    cases hr
  · rename_i hannounce
    have hhalf : halfAt (body ++ List.replicate 5 0) 0 = 0 := not_not.mp hannounce
    simp only [hlenHigh, hlenLow, Checked.ok_bind, Checked.bind_eq_ok] at h
    obtain ⟨w, hw, h⟩ := h
    obtain ⟨rs, rfl, htags, hfirst⟩ := parseNlri_first _ h
    have hrs : ([] ++ rs ≠ []) ↔ QueueData.Announces ⟨body, hfits, receipt⟩ := by
      rw [List.nil_append, Ne, hfirst]
      exact (and_iff_right hhalf).symm
    refine ⟨?_, hrs, fun _ => rfl, ?_⟩
    · intro r hr
      simp only [NlriContext.pushAll, List.nil_append, List.append_nil] at hr
      exact (htags r hr).1
    · intro r hr
      have hannounces := hrs.mp (List.ne_nil_of_mem hr)
      have hupdate := (htags r hr).2.2
      have hsame : r.update.Readable ↔ w.update.Readable := by
        rw [hupdate]
        exact Iff.rfl
      rw [hsame, attribLoop_readable hmax rfl hw]
      exact ⟨fun hbytes _ => hbytes, fun hbytes => hbytes hannounces⟩

end Log2Bgp
