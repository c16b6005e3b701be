import Log2Bgp.Update.Lemmas.Walk

/-!
# Lists of prefixes
-/

namespace Log2Bgp

open Lib

variable {packet rest : List UInt8}

/-! ## One prefix -/

theorem netMask_compl (n : Fin 32) :
    ~~~ ((0xFFFFFFFF : UInt32) <<< UInt32.ofNat n.val) = UInt32.ofNat (2 ^ n.val - 1) := by
  decide +revert

theorem getIpv4HighRange_eq (p : WirePrefix) :
    getIpv4HighRange p.network p.length = .ok p.highest := by
  have hpos := toNat_pos p.length_pos
  have hle := p.length_le
  have hmask := netMask_compl ⟨32 - p.length.toNat, by omega⟩
  have hn : ((32 : Int) - p.length.toNat).toNat = 32 - p.length.toNat := by omega
  have hmask' : ~~~ ((0xFFFFFFFF : UInt32) <<< UInt32.ofNat (32 - p.length.toNat)) =
      UInt32.ofNat (2 ^ (32 - p.length.toNat) - 1) := hmask
  have heq : getIpv4HighRange p.network p.length =
      .ok (htonl (ntohl p.network |||
        ~~~ ((0xFFFFFFFF : UInt32) <<< UInt32.ofNat ((32 : Int) - p.length.toNat).toNat))) :=
    if_pos ⟨by omega, by omega⟩
  rw [heq, hn, hmask', WirePrefix.highest]

theorem byteLength_bounds {n : UInt8} (h : n ≠ 0) (hle : n.toNat ≤ 32) :
    0 < byteLength n ∧ byteLength n ≤ 4 := by
  have hpos := toNat_pos h
  unfold byteLength
  split <;> omega

theorem WirePrefix.length_encode (p : WirePrefix) : p.encode.length = 1 + byteLength p.length := by
  rw [WirePrefix.encode, List.length_cons, p.sized, Nat.add_comm]

/-! ## Pushing routes -/

/-- The route that a prefix stands for. -/
def NlriContext.route (c : NlriContext) (update : BgpUpdate) (p : WirePrefix) : Route :=
  ⟨{ update with nlri := UpdateBody.nlriOf c p }, c.receipt⟩

/-- Appends routes to the queue that the flag names. -/
def NlriContext.pushAll (c : NlriContext) (rs : List Route) (q : RibQueues) : RibQueues :=
  match c.flag with
  | .update => { q with adjRibInQ := q.adjRibInQ ++ rs }
  | .withdraw => { q with adjRibInWdrawQ := q.adjRibInWdrawQ ++ rs }

namespace NlriContext

variable (c : NlriContext)

theorem pushAll_nil (q : RibQueues) : c.pushAll [] q = q := by
  obtain ⟨flag, _, _, _⟩ := c
  cases flag <;> simp [pushAll]

theorem pushAll_push (update : BgpUpdate) (rs : List Route) (q : RibQueues) :
    c.pushAll rs (c.push update q) = c.pushAll (⟨update, c.receipt⟩ :: rs) q := by
  obtain ⟨flag, _, _, _⟩ := c
  cases flag <;> simp [pushAll, push, RibQueues.pushAdjRibInQ, RibQueues.pushAdjRibInWdrawQ]

theorem pushAll_pushAll (rs rs' : List Route) (q : RibQueues) :
    c.pushAll rs' (c.pushAll rs q) = c.pushAll (rs ++ rs') q := by
  obtain ⟨flag, _, _, _⟩ := c
  cases flag <;> simp [pushAll]

end NlriContext

/-! ## The loop of `parse_nlri` -/

/-- The loop writes the prefix of the update anew each time, so it never reads the old one. -/
theorem parseNlri_nlri (c : NlriContext) (update : BgpUpdate) (n : BgpNlri) (fuel offset : Nat)
    (q : RibQueues) :
    parseNlri c { update with nlri := n } packet fuel offset q =
      parseNlri c update packet fuel offset q := by
  cases fuel <;> rfl

/-- A well-formed prefix is read whole, and its route is pushed. -/
theorem parseNlri_cons (c : NlriContext) (update : BgpUpdate) (p : WirePrefix) (fuel offset : Nat)
    (q : RibQueues) (h : packet.drop offset = p.encode ++ rest) :
    parseNlri c update packet (fuel + 1) offset q =
      parseNlri c update packet fuel (offset + p.encode.length)
        (c.pushAll [c.route update p] q) := by
  have hlength : readByte packet offset = .ok p.length := readByte_of_drop (k := 0) (by rw [h]; rfl)
  have hcons : packet.drop offset = [p.length] ++ (p.addr ++ rest) := h
  have hbytes : packet.drop (offset + 1) = p.addr ++ rest := drop_add_of_drop hcons
  have hbounds := byteLength_bounds p.length_pos p.length_le
  have hcopy : copyBytes packet (offset + 1) (byteLength p.length) 4 = .ok p.addr := by
    rw [← p.sized] at hbounds ⊢
    exact copyBytes_of_drop hbytes hbounds.1 hbounds.2
  have hhigh := getIpv4HighRange_eq p
  have hnlri : c.nlri p.length p.addr p.highest = UpdateBody.nlriOf c p := rfl
  have hpush : c.push { update with nlri := UpdateBody.nlriOf c p } q =
      c.pushAll [c.route update p] q := by
    rw [← c.pushAll_nil (c.push { update with nlri := UpdateBody.nlriOf c p } q), c.pushAll_push]
    rfl
  rw [WirePrefix.network] at hhigh
  simp only [parseNlri, hlength, Checked.ok_bind, p.length_pos, ↓reduceIte, hcopy, hhigh, hnlri,
    hpush, parseNlri_nlri, p.length_encode, Nat.add_assoc]

theorem parseNlri_append (c : NlriContext) (update : BgpUpdate) (ps : List WirePrefix)
    (fuel offset : Nat) (q : RibQueues)
    (h : packet.drop offset = ps.flatMap WirePrefix.encode ++ rest) :
    parseNlri c update packet (ps.length + fuel) offset q =
      parseNlri c update packet fuel (offset + (ps.flatMap WirePrefix.encode).length)
        (c.pushAll (ps.map (c.route update)) q) := by
  induction ps generalizing offset q with
  | nil => simp [c.pushAll_nil]
  | cons p ps ih =>
      rw [List.flatMap_cons, List.append_assoc] at h
      have hfuel : (p :: ps).length + fuel = ps.length + fuel + 1 := by
        rw [List.length_cons]; omega
      have hroute : c.pushAll (ps.map (c.route update)) (c.pushAll [c.route update p] q) =
          c.pushAll ((p :: ps).map (c.route update)) q := c.pushAll_pushAll _ _ q
      rw [hfuel, parseNlri_cons c update p _ offset q h, ih _ _ (drop_add_of_drop h), hroute,
        List.flatMap_cons, List.length_append, Nat.add_assoc]

theorem parseNlri_zero (c : NlriContext) (update : BgpUpdate) (fuel offset : Nat) (q : RibQueues)
    (h : packet.drop offset = 0 :: rest) :
    parseNlri c update packet (fuel + 1) offset q = .ok q := by
  have h0 : readByte packet offset = .ok 0 := readByte_of_drop (k := 0) (by rw [h]; rfl)
  simp only [parseNlri, h0, Checked.ok_bind, ↓reduceIte]

/-- Whatever the bytes, the loop only appends to its queue, and what it appends is the update that it is
called with, under its identifier and its receipt. -/
theorem parseNlri_appends (c : NlriContext) {update : BgpUpdate} {fuel offset : Nat}
    {q q' : RibQueues} (h : parseNlri c update packet fuel offset q = .ok q') :
    ∃ rs : List Route, q' = c.pushAll rs q ∧
      ∀ r ∈ rs, r.update.nlri.bgpId = c.bgpId ∧ r.receipt = c.receipt ∧
        r.update = { update with nlri := r.update.nlri } := by
  induction fuel generalizing update offset q with
  | zero => cases h
  | succ fuel ih =>
      simp only [parseNlri, Checked.bind_eq_ok] at h
      obtain ⟨length, _, h⟩ := h
      split at h
      · cases h
        refine ⟨[], (c.pushAll_nil _).symm, ?_⟩
        intro r hr
        cases hr
      · simp only [Checked.bind_eq_ok] at h
        obtain ⟨bytes, _, highest, _, h⟩ := h
        obtain ⟨rs, hrs, htags⟩ := ih h
        refine ⟨_, hrs.trans (c.pushAll_push _ rs _), ?_⟩
        intro r hr
        rcases List.mem_cons.mp hr with rfl | hr
        · exact ⟨rfl, rfl, rfl⟩
        · exact htags r hr

/-- The first length byte decides whether the loop pushes anything. -/
theorem parseNlri_first (c : NlriContext) {update : BgpUpdate} {fuel offset : Nat} {q q' : RibQueues}
    (h : parseNlri c update packet fuel offset q = .ok q') :
    ∃ rs : List Route, q' = c.pushAll rs q ∧
      (∀ r ∈ rs, r.update.nlri.bgpId = c.bgpId ∧ r.receipt = c.receipt ∧
        r.update = { update with nlri := r.update.nlri }) ∧
      (rs = [] ↔ packet.getD offset 0 = 0) := by
  cases fuel with
  | zero => cases h
  | succ fuel =>
      simp only [parseNlri, Checked.bind_eq_ok] at h
      obtain ⟨length, hlength, h⟩ := h
      rw [readByte_eq_ok] at hlength
      have hfirst : packet.getD offset 0 = length := by
        rw [List.getD_eq_getElem?_getD, hlength]
        rfl
      split at h
      · rename_i hzero
        cases h
        refine ⟨[], (c.pushAll_nil _).symm, ?_, ?_⟩
        · intro r hr
          cases hr
        · rw [hfirst, hzero]
          exact iff_of_true rfl rfl
      · rename_i hnonzero
        simp only [Checked.bind_eq_ok] at h
        obtain ⟨bytes, _, highest, _, h⟩ := h
        obtain ⟨rs, hrs, htags⟩ := parseNlri_appends c h
        refine ⟨_, hrs.trans (c.pushAll_push _ rs _), ?_, ?_⟩
        · intro r hr
          rcases List.mem_cons.mp hr with rfl | hr
          · exact ⟨rfl, rfl, rfl⟩
          · exact htags r hr
        · rw [hfirst]
          exact iff_of_false (List.cons_ne_nil _ _) hnonzero

end Log2Bgp
