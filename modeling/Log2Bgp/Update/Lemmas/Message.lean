import Log2Bgp.Update.Lemmas.Nlri

/-!
# Well-formed messages
-/

namespace Log2Bgp

open Lib

/-! ## Lengths -/

theorem length_le_flatMap {α : Type} {enc : α → List UInt8} (hpos : ∀ x, 0 < (enc x).length)
    (xs : List α) : xs.length ≤ (xs.flatMap enc).length := by
  induction xs with
  | nil => exact Nat.le_refl 0
  | cons x xs ih =>
      have := hpos x
      rw [List.length_cons, List.flatMap_cons, List.length_append]
      omega

theorem WirePrefix.encode_pos (p : WirePrefix) : 0 < p.encode.length := Nat.succ_pos _

theorem PathAttribute.encode_pos (a : PathAttribute) : 0 < a.encode.length := Nat.succ_pos _

namespace UpdateBody

variable (b : UpdateBody)

/-- The packet that `proc_in_q` allocates for a body. -/
def packet : List UInt8 := b.encode ++ List.replicate 5 0

theorem lengths : b.withdrawn.length ≤ b.withdrawnBytes.length ∧
    b.attribs.length ≤ b.attribBytes.length ∧ b.nlri.length ≤ b.nlriBytes.length ∧
    4 + b.withdrawnBytes.length + b.attribBytes.length + b.nlriBytes.length ≤ 4096 :=
  ⟨length_le_flatMap WirePrefix.encode_pos _, length_le_flatMap PathAttribute.encode_pos _,
    length_le_flatMap WirePrefix.encode_pos _, b.fits⟩

theorem length_packet : b.packet.length =
    9 + b.withdrawnBytes.length + b.attribBytes.length + b.nlriBytes.length := by
  rw [packet, List.length_append, length_encode, List.length_replicate]
  omega

/-- How a packet is laid out, and what its two lengths say. -/
theorem packet_layout : ∃ wh wl ah al, (be16 wh wl).toNat = b.withdrawnBytes.length ∧
    (be16 ah al).toNat = b.attribBytes.length ∧
    b.packet = wh :: wl :: b.withdrawnBytes ++
      (ah :: al :: b.attribBytes ++ (b.nlriBytes ++ List.replicate 5 0)) := by
  obtain ⟨_, _, _, hfits⟩ := b.lengths
  obtain ⟨wh, wl, hw, hwv⟩ := beBytes_two b.withdrawnBytes.length (by omega)
  obtain ⟨ah, al, ha, hav⟩ := beBytes_two b.attribBytes.length (by omega)
  refine ⟨wh, wl, ah, al, hwv, hav, ?_⟩
  simp [packet, encode, hw, ha]

theorem withdrawnBytes_eq_nil : b.withdrawnBytes = [] ↔ b.withdrawn = [] := by
  constructor
  · intro h
    have hle := b.lengths.1
    rw [h] at hle
    exact List.length_eq_zero_iff.mp (Nat.le_zero.mp hle)
  · intro h
    rw [withdrawnBytes, h]
    rfl

end UpdateBody

/-! ## One message -/

section Message

variable (b : UpdateBody) (now : TimeT) (bgpId : UInt32) (receipt : Receipt) (q : RibQueues)

/-- A body that withdraws nothing is announced, route by route. -/
theorem procMessage_announce (hw : b.withdrawn = []) :
    procMessage now bgpId (b.queued receipt) q =
      .ok { q with adjRibInQ := q.adjRibInQ ++ b.announced now bgpId receipt } := by
  obtain ⟨wh, wl, ah, al, hwv, hav, hp⟩ := b.packet_layout
  obtain ⟨_, hattribs, hnlri, _⟩ := b.lengths
  have hlen := b.length_packet
  have hwb : b.withdrawnBytes = [] := b.withdrawnBytes_eq_nil.mpr hw
  rw [hwb] at hwv hp
  have hzero : be16 wh wl = 0 := UInt16.toNat_inj.mp hwv
  have h0 : readByte b.packet 0 = .ok wh := by rw [hp]; rfl
  have h1 : readByte b.packet 1 = .ok wl := by rw [hp]; rfl
  have h2 : readByte b.packet 2 = .ok ah := by rw [hp]; rfl
  have h3 : readByte b.packet 3 = .ok al := by rw [hp]; rfl
  have hdropA : b.packet.drop (3 + 1) =
      b.attribs.flatMap PathAttribute.encode ++ (b.nlriBytes ++ List.replicate 5 0) := by
    rw [hp]; rfl
  have hwalk := attribLoop_eq (be16 ah al) b.attribs (b.packet.length + 1)
    { update := {}, i := 3, readLen := 0 } (by omega) (by rw [hav]; exact Nat.zero_add _) hdropA
  have hdropN : b.packet.drop ((be16 ah al).toNat + 4) =
      b.nlri.flatMap WirePrefix.encode ++ List.replicate 5 0 := by
    rw [hav, Nat.add_comm]
    exact drop_add_of_drop hdropA
  have hend := drop_add_of_drop hdropN
  obtain ⟨fuel, hfuel⟩ : ∃ fuel, b.packet.length + 1 = b.nlri.length + (fuel + 1) :=
    ⟨b.packet.length - b.nlri.length, by omega⟩
  have hcarried := applyAll_eq_carried b.distinct
  unfold procMessage
  simp only [UpdateBody.queued]
  rw [← UpdateBody.packet]
  simp only [h0, h1, h2, h3, hzero, Checked.ok_bind, ne_eq, not_true_eq_false, ↓reduceIte, hwalk,
    hcarried]
  rw [hfuel, parseNlri_append _ _ _ _ _ _ hdropN, parseNlri_zero _ _ _ _ _ hend]
  rfl

/-- A body that withdraws something is read as prefixes from its third byte on: behind the
withdrawn ones the loop goes on with the bytes that follow. -/
theorem procMessage_withdraw (hw : b.withdrawn ≠ []) :
    procMessage now bgpId (b.queued receipt) q =
      parseNlri ⟨.withdraw, now, bgpId, receipt⟩ {} b.packet
        (b.packet.length + 1 - b.withdrawn.length) (2 + b.withdrawnBytes.length)
        { q with adjRibInWdrawQ := q.adjRibInWdrawQ ++ b.withdrawals now bgpId receipt } := by
  obtain ⟨wh, wl, ah, al, hwv, _, hp⟩ := b.packet_layout
  obtain ⟨hwithdrawn, _, _, _⟩ := b.lengths
  have hlen := b.length_packet
  have hnonzero : be16 wh wl ≠ 0 := by
    intro h0
    rw [h0] at hwv
    exact hw (b.withdrawnBytes_eq_nil.mp (List.length_eq_zero_iff.mp hwv.symm))
  have h0 : readByte b.packet 0 = .ok wh := by rw [hp]; rfl
  have h1 : readByte b.packet 1 = .ok wl := by rw [hp]; rfl
  have hdrop : b.packet.drop 2 = b.withdrawn.flatMap WirePrefix.encode ++
      (ah :: al :: b.attribBytes ++ (b.nlriBytes ++ List.replicate 5 0)) := by
    rw [hp]; rfl
  obtain ⟨fuel, hfuel⟩ : ∃ fuel, b.packet.length + 1 = b.withdrawn.length + fuel :=
    ⟨b.packet.length + 1 - b.withdrawn.length, by omega⟩
  unfold procMessage
  simp only [UpdateBody.queued]
  rw [← UpdateBody.packet]
  simp only [h0, h1, hnonzero, Checked.ok_bind, ne_eq, not_false_eq_true, ↓reduceIte]
  rw [hfuel, parseNlri_append _ _ _ _ _ _ hdrop, Nat.add_sub_cancel_left]
  rfl

/-- The attributes behind withdrawn prefixes are skipped when the high byte of their length is 0. -/
theorem procMessage_withdraw_short (hw : b.withdrawn ≠ []) (hshort : b.attribBytes.length < 256) :
    procMessage now bgpId (b.queued receipt) q =
      .ok { q with adjRibInWdrawQ := q.adjRibInWdrawQ ++ b.withdrawals now bgpId receipt } := by
  obtain ⟨wh, wl, ah, al, _, hav, hp⟩ := b.packet_layout
  obtain ⟨hwithdrawn, _, _, _⟩ := b.lengths
  have hlen := b.length_packet
  have hah : ah = 0 := by
    rw [toNat_be16] at hav
    have h0 : (0 : UInt8).toNat = 0 := rfl
    exact UInt8.toNat_inj.mp (by omega)
  have hdrop : b.packet.drop (2 + b.withdrawnBytes.length) =
      0 :: (al :: b.attribBytes ++ (b.nlriBytes ++ List.replicate 5 0)) := by
    rw [hp, hah]
    exact List.drop_left' (by simp only [List.length_cons]; omega)
  obtain ⟨fuel, hfuel⟩ : ∃ fuel, b.packet.length + 1 - b.withdrawn.length = fuel + 1 :=
    ⟨b.packet.length - b.withdrawn.length, by omega⟩
  rw [procMessage_withdraw b now bgpId receipt q hw, hfuel, parseNlri_zero _ _ _ _ _ hdrop]

/-- Otherwise that byte is read as the length of one more withdrawn prefix. -/
theorem procMessage_withdraw_long (hw : b.withdrawn ≠ []) (hlong : 256 ≤ b.attribBytes.length)
    {q' : RibQueues} (h : procMessage now bgpId (b.queued receipt) q = .ok q') :
    q'.adjRibInWdrawQ ≠ q.adjRibInWdrawQ ++ b.withdrawals now bgpId receipt := by
  obtain ⟨wh, wl, ah, al, _, hav, hp⟩ := b.packet_layout
  have hah : ah ≠ 0 := by
    intro h0
    have hal := al.toNat_lt
    have h0' : (0 : UInt8).toNat = 0 := rfl
    rw [toNat_be16, h0] at hav
    omega
  have hdrop : b.packet.drop (2 + b.withdrawnBytes.length) =
      ah :: (al :: b.attribBytes ++ (b.nlriBytes ++ List.replicate 5 0)) := by
    rw [hp]
    exact List.drop_left' (by simp only [List.length_cons]; omega)
  rw [procMessage_withdraw b now bgpId receipt q hw] at h
  obtain ⟨rs, rfl, -, hfirst⟩ := parseNlri_first _ h
  have hbyte : b.packet.getD (2 + b.withdrawnBytes.length) 0 = ah := by
    rw [List.getD_eq_getElem?_getD, ← List.head?_drop, hdrop]
    rfl
  rw [hbyte] at hfirst
  intro heq
  have hlen := congrArg List.length heq
  simp only [NlriContext.pushAll, List.length_append] at hlen
  have hnone : rs = [] := List.length_eq_zero_iff.mp (by omega)
  exact hah (hfirst.mp hnone)

/-- Every message of a kind that announces or withdraws, with few attributes in the second case. -/
def UpdateBody.Handled (b : UpdateBody) : Prop :=
  b.withdrawn ≠ [] → b.nlri = [] ∧ b.attribBytes.length < 256

instance (b : UpdateBody) : Decidable b.Handled := inferInstanceAs (Decidable (_ → _))

theorem procMessage_handled (hb : b.Handled) :
    procMessage now bgpId (b.queued receipt) q =
      .ok { adjRibInQ := q.adjRibInQ ++ b.announced now bgpId receipt
            adjRibInWdrawQ := q.adjRibInWdrawQ ++ b.withdrawals now bgpId receipt } := by
  by_cases hw : b.withdrawn = []
  · rw [procMessage_announce b now bgpId receipt q hw]
    simp [UpdateBody.withdrawals, hw]
  · rw [procMessage_withdraw_short b now bgpId receipt q hw (hb hw).2]
    simp [UpdateBody.announced, (hb hw).1]

end Message

/-! ## A queue of messages -/

/-- A body together with the receipt it is queued with. -/
abbrev Received := UpdateBody × Receipt

/-- All announcements of a list of messages, in order. -/
def announcedAll (now : TimeT) (bgpId : UInt32) (ms : List Received) : List Route :=
  ms.flatMap fun m => m.1.announced now bgpId m.2

/-- All withdrawals of a list of messages, in order. -/
def withdrawalsAll (now : TimeT) (bgpId : UInt32) (ms : List Received) : List Route :=
  ms.flatMap fun m => m.1.withdrawals now bgpId m.2

theorem procMessages_handled (now : TimeT) (bgpId : UInt32) (ms : List Received) (q : RibQueues)
    (hms : ∀ m ∈ ms, m.1.Handled) :
    procMessages now bgpId (ms.map fun m => m.1.queued m.2) q =
      .ok { adjRibInQ := q.adjRibInQ ++ announcedAll now bgpId ms
            adjRibInWdrawQ := q.adjRibInWdrawQ ++ withdrawalsAll now bgpId ms } := by
  induction ms generalizing q with
  | nil => simp [procMessages, announcedAll, withdrawalsAll]
  | cons m ms ih =>
      have hm := hms m List.mem_cons_self
      have hrest : ∀ m' ∈ ms, m'.1.Handled := fun m' h => hms m' (List.mem_cons_of_mem m h)
      simp only [List.map_cons, procMessages, procMessage_handled m.1 now bgpId m.2 q hm,
        Checked.ok_bind, ih _ hrest]
      simp [announcedAll, withdrawalsAll]

/-- The peer after its queue has been processed in time. -/
def BgpPeer.drained (p : BgpPeer) (now : TimeT) : BgpPeer :=
  let p := (holdTimerExpired p now).2
  { p with inQueue := [], inQ := p.inQ - UInt16.ofNat p.inQueue.length }

/-- The hold timer of an established peer has not run out. -/
structure BgpPeer.InTime (p : BgpPeer) (now : TimeT) : Prop where
  state : p.state = .established
  fresh : now.toInt - p.lastIo.lastRead.toInt < p.holdTime.toNat

instance (p : BgpPeer) (now : TimeT) : Decidable (p.InTime now) :=
  decidable_of_iff (p.state = .established ∧
    now.toInt - p.lastIo.lastRead.toInt < p.holdTime.toNat) ⟨fun h => ⟨h.1, h.2⟩, fun h => ⟨h.1, h.2⟩⟩

/-- The timer does nothing to such a peer but send a KEEPALIVE when one is due. -/
theorem BgpPeer.InTime.holdTimerExpired {p : BgpPeer} {now : TimeT} (h : p.InTime now) :
    holdTimerExpired p now = (false, p) ∨
      Log2Bgp.holdTimerExpired p now = (false, p.sendPacket now [] .keepalive) := by
  have hstate := h.state
  have hfresh := h.fresh
  unfold Log2Bgp.holdTimerExpired
  rw [if_neg (by simp [hstate]), if_neg (by omega)]
  split
  · exact Or.inr rfl
  · exact Or.inl rfl

theorem BgpPeer.InTime.same {p : BgpPeer} {now : TimeT} (h : p.InTime now) :
    (Log2Bgp.holdTimerExpired p now).1 = false ∧
      SameRoutes p (Log2Bgp.holdTimerExpired p now).2 ∧
      (Log2Bgp.holdTimerExpired p now).2.state = .established := by
  rcases h.holdTimerExpired with heq | heq
  · rw [heq]
    exact ⟨rfl, SameRoutes.refl p, h.state⟩
  · rw [heq]
    exact ⟨rfl, sendPacket_same p now [] .keepalive, (sendPacket_state ..).trans h.state⟩

theorem procInQ_handled {p : BgpPeer} {now : TimeT} (hp : p.InTime now) (ms : List Received)
    (hqueue : p.inQueue = ms.map fun m => m.1.queued m.2) (hms : ∀ m ∈ ms, m.1.Handled)
    (q : RibQueues) :
    procInQ now p q = .ok (p.drained now,
      { adjRibInQ := q.adjRibInQ ++ announcedAll now p.bgpId ms
        adjRibInWdrawQ := q.adjRibInWdrawQ ++ withdrawalsAll now p.bgpId ms }) := by
  obtain ⟨hexp, hsame, _⟩ := hp.same
  have hall := procMessages_handled now p.bgpId ms q hms
  rw [← hqueue, ← hsame.inQueue] at hall
  have hdrain : procMessages now (holdTimerExpired p now).2.bgpId
      (holdTimerExpired p now).2.inQueue q = .ok
        { adjRibInQ := q.adjRibInQ ++ announcedAll now p.bgpId ms
          adjRibInWdrawQ := q.adjRibInWdrawQ ++ withdrawalsAll now p.bgpId ms } := by
    rw [hsame.bgpId]
    exact hall
  unfold procInQ
  simp only [hexp, Bool.false_eq_true, ↓reduceIte, hdrain, Checked.ok_bind, Checked.pure_eq_ok]
  rfl

end Log2Bgp
