import Log2Bgp.Update.Theorems

/-!
# Truncated prefixes and the padding

The bytes that the loop of `parse_nlri` reads in a buffer whose last prefix may be cut short.
-/

namespace Log2Bgp

open Lib

variable {packet bytes : List UInt8} {offset : Nat}

/-! ## The bytes that the loop meets -/

theorem lt_length_of_getD {i : Nat} (h : packet.getD i 0 ≠ 0) : i < packet.length := by
  rcases Nat.lt_or_ge i packet.length with hlt | hge
  · exact hlt
  · rw [List.getD_eq_getElem?_getD, List.getElem?_eq_none hge] at h
    exact absurd rfl h

/-- The non-zero length bytes that the loop meets from a byte on. -/
def metLengths (packet : List UInt8) (offset : Nat) : List UInt8 :=
  if h : packet.getD offset 0 = 0 then []
  else packet.getD offset 0 :: metLengths packet (offset + 1 + byteLength (packet.getD offset 0))
termination_by packet.length - offset
decreasing_by
  have hlt := lt_length_of_getD h
  omega

/-- The indices that the loop reads: of each length byte and of the bytes copied behind it, and of the
byte of 0 that it stops at. -/
def nlriReads (packet : List UInt8) (offset : Nat) : List Nat :=
  if _h : packet.getD offset 0 = 0 then [offset]
  else List.range' offset (1 + byteLength (packet.getD offset 0)) ++
    nlriReads packet (offset + 1 + byteLength (packet.getD offset 0))
termination_by packet.length - offset
decreasing_by
  have hlt := lt_length_of_getD _h
  omega

theorem metLengths_zero (h : packet.getD offset 0 = 0) : metLengths packet offset = [] := by
  rw [metLengths, dif_pos h]

theorem metLengths_cons {length : UInt8} (h : packet.getD offset 0 = length) (h0 : length ≠ 0) :
    metLengths packet offset = length :: metLengths packet (offset + 1 + byteLength length) := by
  rw [metLengths, dif_neg (h ▸ h0), h]

theorem parseNlri_lengths (c : NlriContext) {update : BgpUpdate} {fuel : Nat} {q q' : RibQueues}
    (h : parseNlri c update packet fuel offset q = .ok q') :
    ∃ rs : List Route, q' = c.pushAll rs q ∧
      rs.map (·.update.nlri.prefixLength) = metLengths packet offset := by
  induction fuel generalizing update offset q with
  | zero => cases h
  | succ fuel ih =>
      simp only [parseNlri, Checked.bind_eq_ok] at h
      obtain ⟨length, hlength, h⟩ := h
      rw [readByte_eq_ok] at hlength
      have hmet : packet.getD offset 0 = length := by
        rw [List.getD_eq_getElem?_getD, hlength]
        rfl
      split at h
      · rename_i hzero
        cases h
        exact ⟨[], (c.pushAll_nil _).symm, (metLengths_zero (hmet.trans hzero)).symm⟩
      · rename_i hnonzero
        simp only [Checked.bind_eq_ok] at h
        obtain ⟨copied, _, highest, _, h⟩ := h
        obtain ⟨rs, hrs, hlengths⟩ := ih h
        refine ⟨_, hrs.trans (c.pushAll_push _ rs _), ?_⟩
        rw [List.map_cons, hlengths, metLengths_cons hmet hnonzero]
        rfl

/-! ## Five bytes of padding -/

theorem lt_of_padded (h : (bytes ++ List.replicate 5 0).getD offset 0 ≠ 0) : offset < bytes.length := by
  rcases Nat.lt_or_ge offset bytes.length with hlt | hge
  · exact hlt
  · have hlt := lt_length_of_getD h
    rw [List.getD_eq_getElem?_getD, List.getElem?_append_right hge, List.getElem?_replicate] at h
    split at h <;> exact absurd rfl h

theorem getElem?_of_getD {length : UInt8} (h : packet.getD offset 0 = length) (hlt : offset < packet.length) :
    packet[offset]? = some length := by
  rw [List.getElem?_eq_getElem hlt, ← h, List.getD_eq_getElem?_getD, List.getElem?_eq_getElem hlt]
  rfl

/-- A prefix that starts within the bytes ends at most four bytes behind them, where the padding still has
a byte of 0 to stop at. -/
theorem prefixesFramed_padded (hle : ∀ n ∈ metLengths (bytes ++ List.replicate 5 0) offset, n.toNat ≤ 32)
    (hoffset : offset ≤ bytes.length + 4) :
    PrefixesFramed (bytes ++ List.replicate 5 0) offset ∧
      ∀ i ∈ nlriReads (bytes ++ List.replicate 5 0) offset, i < bytes.length + 5 := by
  have hsize : (bytes ++ List.replicate 5 (0 : UInt8)).length = bytes.length + 5 := by simp
  induction offset using nlriReads.induct (bytes ++ List.replicate 5 0) with
  | case1 offset h =>
      have hstop := getElem?_of_getD h (by omega)
      refine ⟨.stop hstop, ?_⟩
      intro i hi
      rw [nlriReads, dif_pos h, List.mem_singleton] at hi
      omega
  | case2 offset h ih =>
      have hlt := lt_of_padded h
      rw [metLengths_cons rfl h, List.forall_mem_cons] at hle
      have hbytes := byteLength_le hle.1
      have hnext := getElem?_of_getD rfl (show offset < (bytes ++ List.replicate 5 (0 : UInt8)).length by omega)
      obtain ⟨hframed, hreads⟩ := ih hle.2 (by omega)
      refine ⟨.next hnext h hle.1 (by omega) hframed, ?_⟩
      intro i hi
      rw [nlriReads, dif_neg h, List.mem_append, List.mem_range'_1] at hi
      rcases hi with hi | hi
      · omega
      · exact hreads i hi

/-- From every start within a padded buffer, if no length that the loop meets is over 32 bits, then it ends,
reads only bytes of the buffer and pushes one route for each length. -/
theorem parseNlri_padded (c : NlriContext) (update : BgpUpdate) (bytes : List UInt8) (offset : Nat) (q : RibQueues)
    (hoffset : offset ≤ bytes.length)
    (hle : ∀ n ∈ metLengths (bytes ++ List.replicate 5 0) offset, n.toNat ≤ 32) :
    let packet := bytes ++ List.replicate 5 0
    (∃ rs : List Route, parseNlri c update packet (packet.length + 1) offset q = .ok (c.pushAll rs q) ∧
        rs.map (·.update.nlri.prefixLength) = metLengths packet offset) ∧
      ∀ i ∈ nlriReads packet offset, i < bytes.length + 5 := by
  intro packet
  obtain ⟨hframed, hreads⟩ := prefixesFramed_padded hle (by omega)
  have hfuel : packet.length < offset + (packet.length + 1) := by omega
  obtain ⟨q', hq'⟩ := (safe_parseNlri c update (packet.length + 1) offset q hfuel).mpr hframed
  obtain ⟨rs, hrs, hlengths⟩ := parseNlri_lengths c hq'
  exact ⟨⟨rs, hrs ▸ hq', hlengths⟩, hreads⟩

/-- A prefix of 24 bits with one of its three bytes. -/
def Example.truncated : List UInt8 := [24, 10]

theorem parseNlri_padded_truncated :
    let packet := Example.truncated ++ List.replicate 5 0
    (∃ rs : List Route, parseNlri ⟨.update, 5, 7, Example.receipt⟩ {} packet (packet.length + 1) 0 {} =
          .ok (NlriContext.pushAll ⟨.update, 5, 7, Example.receipt⟩ rs {}) ∧
        rs.map (·.update.nlri.prefixLength) = metLengths packet 0) ∧
      ∀ i ∈ nlriReads packet 0, i < Example.truncated.length + 5 := by
  have hmet : metLengths (Example.truncated ++ List.replicate 5 0) 0 = [24] := by
    have hfirst : (Example.truncated ++ List.replicate 5 0).getD 0 0 = 24 := rfl
    have hnext : byteLength 24 = 3 := rfl
    rw [metLengths_cons hfirst (by decide), hnext, metLengths_zero rfl]
  refine parseNlri_padded ⟨.update, 5, 7, Example.receipt⟩ {} Example.truncated 0 {} (Nat.zero_le _) ?_
  rw [hmet]
  intro n hn
  rw [List.mem_singleton.mp hn]
  decide

end Log2Bgp
