import Log2Bgp.Model.Daemon
import Log2Bgp.Update.Lemmas.Message
import Log2Bgp.Update.Lemmas.Safety

/-!
# What arbitrary messages can do
-/

namespace Log2Bgp

open Lib

/-! ## Queued messages -/

/-- A body without withdrawn routes that has a byte other than zero where its prefixes begin. -/
def QueueData.Announces (data : QueueData) : Prop :=
  let packet := data.packet ++ List.replicate 5 0
  halfAt packet 0 = 0 ∧ packet.getD ((halfAt packet 2).toNat + 4) 0 ≠ 0

instance (data : QueueData) : Decidable data.Announces := inferInstanceAs (Decidable (_ ∧ _))

/-- The byte where the prefixes of a body begin: those withdrawn, or else those announced. -/
def QueueData.firstLength (data : QueueData) : UInt8 :=
  let packet := data.packet ++ List.replicate 5 0
  packet.getD (if halfAt packet 0 ≠ 0 then 2 else (halfAt packet 2).toNat + 4) 0

/-- A body that announces or withdraws a prefix. -/
def QueueData.Speaks (data : QueueData) : Prop := data.firstLength ≠ 0

instance (data : QueueData) : Decidable data.Speaks := inferInstanceAs (Decidable (_ ≠ _))

/-- Only routes of the messages of a queue are appended, under the identifier of the peer, and nothing
is announced where no message announces. -/
structure Appended (bgpId : UInt32) (data : List QueueData) (q q' : RibQueues) (ins dels : List Route) :
    Prop where
  adjRibInQ : q'.adjRibInQ = q.adjRibInQ ++ ins
  adjRibInWdrawQ : q'.adjRibInWdrawQ = q.adjRibInWdrawQ ++ dels
  tags : ∀ r ∈ ins ++ dels, r.bgpId = bgpId ∧ ∃ d ∈ data, r.receipt = d.receipt
  silent : (∀ d ∈ data, ¬ d.Announces) → ins = []

section Message

variable {now : TimeT} {bgpId : UInt32} {data : QueueData} {q q' : RibQueues}

/-- A message is parsed for its withdrawn prefixes, or for its announced ones. -/
theorem procMessage_cases (h : procMessage now bgpId data q = .ok q') :
    ∃ (flag : NlriParse) (rs : List Route),
      q' = NlriContext.pushAll ⟨flag, now, bgpId, data.receipt⟩ rs q ∧
      (∀ r ∈ rs, r.bgpId = bgpId ∧ r.receipt = data.receipt) ∧ (rs ≠ [] ↔ data.Speaks) ∧
      (flag = .update → rs ≠ [] → data.Announces) := by
  obtain ⟨body, hfits, receipt⟩ := data
  have hmin : 5 ≤ (body ++ List.replicate 5 (0 : UInt8)).length := by
    simp
  have hhigh := readByte_getD (Nat.lt_of_lt_of_le (by decide : 0 < 5) hmin)
  have hlow := readByte_getD (Nat.lt_of_lt_of_le (by decide : 1 < 5) hmin)
  have hlenHigh := readByte_getD (Nat.lt_of_lt_of_le (by decide : 2 < 5) hmin)
  have hlenLow := readByte_getD (Nat.lt_of_lt_of_le (by decide : 3 < 5) hmin)
  unfold procMessage at h
  simp only [hhigh, hlow, Checked.ok_bind] at h
  split at h
  · rename_i hwithdraw
    have hhalf : halfAt (body ++ List.replicate 5 0) 0 ≠ 0 := hwithdraw
    obtain ⟨rs, hq, htags, hfirst⟩ := parseNlri_first _ h
    refine ⟨.withdraw, rs, hq, fun r hr => ⟨(htags r hr).1, (htags r hr).2.1⟩, ?_,
      fun hflag => by cases hflag⟩
    rw [Ne, hfirst, QueueData.Speaks, QueueData.firstLength]
    simp only [if_pos hhalf, ne_eq]
  · rename_i hannounce
    have hhalf : halfAt (body ++ List.replicate 5 0) 0 = 0 := not_not.mp hannounce
    simp only [hlenHigh, hlenLow, Checked.ok_bind, Checked.bind_eq_ok] at h
    obtain ⟨w, _, h⟩ := h
    obtain ⟨rs, hq, htags, hfirst⟩ := parseNlri_first _ h
    refine ⟨.update, rs, hq, fun r hr => ⟨(htags r hr).1, (htags r hr).2.1⟩, ?_, ?_⟩
    · rw [Ne, hfirst, QueueData.Speaks, QueueData.firstLength]
      simp only [if_neg (not_not.mpr hhalf), ne_eq]
      rfl
    · intro _ hne
      exact ⟨hhalf, fun hzero => hne (hfirst.mpr hzero)⟩

theorem procMessage_appends (h : procMessage now bgpId data q = .ok q') :
    ∃ ins dels, Appended bgpId [data] q q' ins dels := by
  obtain ⟨flag, rs, rfl, htags, _, hannounces⟩ := procMessage_cases h
  cases flag with
  | withdraw =>
      refine ⟨[], rs, (List.append_nil _).symm, rfl, ?_, fun _ => rfl⟩
      intro r hr
      exact ⟨(htags r hr).1, data, List.mem_singleton_self data, (htags r hr).2⟩
  | update =>
      refine ⟨rs, [], rfl, (List.append_nil _).symm, ?_, ?_⟩
      · intro r hr
        rw [List.append_nil] at hr
        exact ⟨(htags r hr).1, data, List.mem_singleton_self data, (htags r hr).2⟩
      · intro hsilent
        by_contra hne
        exact hsilent data (List.mem_singleton_self data) (hannounces rfl hne)

theorem procMessages_appends (ds : List QueueData) {q q' : RibQueues}
    (h : procMessages now bgpId ds q = .ok q') : ∃ ins dels, Appended bgpId ds q q' ins dels := by
  induction ds generalizing q with
  | nil =>
      cases h
      refine ⟨[], [], (List.append_nil _).symm, (List.append_nil _).symm, ?_, fun _ => rfl⟩
      intro r hr
      cases hr
  | cons d ds ih =>
      simp only [procMessages, Checked.bind_eq_ok] at h
      obtain ⟨q₁, h₁, h₂⟩ := h
      obtain ⟨ins, dels, hd⟩ := procMessage_appends h₁
      obtain ⟨ins', dels', hds⟩ := ih h₂
      refine ⟨ins ++ ins', dels ++ dels', ?_, ?_, ?_, ?_⟩
      · rw [hds.adjRibInQ, hd.adjRibInQ, List.append_assoc]
      · rw [hds.adjRibInWdrawQ, hd.adjRibInWdrawQ, List.append_assoc]
      · intro r hr
        have hmem : r ∈ ins ++ dels ∨ r ∈ ins' ++ dels' := by
          simp only [List.mem_append] at hr ⊢
          tauto
        rcases hmem with hr | hr
        · obtain ⟨hid, d', hd', hreceipt⟩ := hd.tags r hr
          cases List.mem_singleton.mp hd'
          exact ⟨hid, d, List.mem_cons_self, hreceipt⟩
        · obtain ⟨hid, d', hd', hreceipt⟩ := hds.tags r hr
          exact ⟨hid, d', List.mem_cons_of_mem d hd', hreceipt⟩
      · intro hsilent
        have hfirst : ins = [] := hd.silent fun d' hd' =>
          List.mem_singleton.mp hd' ▸ hsilent d List.mem_cons_self
        have hrest : ins' = [] := hds.silent fun d' hd' => hsilent d' (List.mem_cons_of_mem d hd')
        rw [hfirst, hrest]
        rfl

end Message

/-! ## The hold timer and the queue of a peer -/

/-- The hold timer leaves an established peer up, or drops it, and changes nothing that routes depend
on. -/
theorem holdTimerExpired_cases (p : BgpPeer) (now : TimeT) :
    BgpPeer.SameRoutes p (holdTimerExpired p now).2 ∧
      ((holdTimerExpired p now).2.state = p.state ∨ (holdTimerExpired p now).2.state = .idle) ∧
      ((holdTimerExpired p now).1 = false → p.InTime now) := by
  unfold holdTimerExpired
  split
  · exact ⟨BgpPeer.SameRoutes.refl p, Or.inl rfl, fun h => by cases h⟩
  · rename_i hstate
    split
    · have hsame := BgpPeer.sendPacket_same p now [BgpErrorCode.holdTimeExpired.toByte, 0] .notification
      exact ⟨⟨hsame.bgpId, hsame.inQueue, hsame.prefixes, hsame.implicitWithdraw, hsame.explicitWithdraw⟩,
        Or.inr rfl, fun h => by cases h⟩
    · rename_i hfresh
      have hin : p.InTime now := ⟨not_not.mp hstate, Int.not_le.mp hfresh⟩
      split
      · exact ⟨BgpPeer.sendPacket_same .., Or.inl (BgpPeer.sendPacket_state ..), fun _ => hin⟩
      · exact ⟨BgpPeer.SameRoutes.refl p, Or.inl rfl, fun _ => hin⟩

/-- What a peer keeps when its queue is processed. -/
structure BgpPeer.Kept (p p' : BgpPeer) : Prop where
  bgpId : p'.bgpId = p.bgpId
  prefixes : p'.prefixes = p.prefixes
  implicitWithdraw : p'.implicitWithdraw = p.implicitWithdraw
  explicitWithdraw : p'.explicitWithdraw = p.explicitWithdraw
  state : p'.state = p.state ∨ p'.state = .idle

/-- Either nothing is processed, or the whole queue of a peer whose hold timer has not run out is. -/
theorem procInQ_cases {now : TimeT} {p p' : BgpPeer} {q q' : RibQueues}
    (h : procInQ now p q = .ok (p', q')) :
    BgpPeer.Kept p p' ∧
      ((q' = q ∧ p'.inQueue = p.inQueue) ∨
        (p.InTime now ∧ p'.inQueue = [] ∧
          ∃ ins dels, Appended p.bgpId p.inQueue q q' ins dels)) := by
  obtain ⟨hsame, hstate, hup⟩ := holdTimerExpired_cases p now
  unfold procInQ at h
  cases hexpired : (holdTimerExpired p now).1 with
  | true =>
      simp only [hexpired, ↓reduceIte] at h
      cases h
      exact ⟨⟨hsame.bgpId, hsame.prefixes, hsame.implicitWithdraw, hsame.explicitWithdraw, hstate⟩,
        Or.inl ⟨rfl, hsame.inQueue⟩⟩
  | false =>
      simp only [hexpired, Bool.false_eq_true, ↓reduceIte, Checked.bind_eq_ok, Checked.pure_eq_ok] at h
      obtain ⟨q₁, hq₁, h⟩ := h
      cases h
      rw [hsame.bgpId, hsame.inQueue] at hq₁
      exact ⟨⟨hsame.bgpId, hsame.prefixes, hsame.implicitWithdraw, hsame.explicitWithdraw, hstate⟩,
        Or.inr ⟨hup hexpired, rfl, procMessages_appends p.inQueue hq₁⟩⟩

end Log2Bgp
