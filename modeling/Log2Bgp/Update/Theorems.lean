import Log2Bgp.Update.Lemmas.Message
import Log2Bgp.Update.Lemmas.Safety

/-!
# Parsing UPDATE messages

What `proc_in_q` makes of well-formed messages, and which messages it can parse at all.
-/

namespace Log2Bgp

open Lib

/-! ## A session for concrete runs -/

namespace Example

def receipt : Receipt := ⟨0, 0, .established⟩

/-- 172.16.0.0/12. -/
def net172 : WirePrefix := ⟨12, [172, 16], by decide, by decide, by decide⟩

/-- Announces two prefixes with an ORIGIN, an AS_PATH and a NEXT_HOP. -/
def announcement : UpdateBody where
  withdrawn := []
  attribs := [⟨0x40, .asPath [(2, ⟨2, [64512, 64513], rfl⟩)], by decide⟩,
    ⟨0x40, .origin 2, by decide⟩, ⟨0x40, .nextHop 0x0100007f, by decide⟩]
  nlri := [net10, net172]
  distinct := by decide
  fits := by decide

/-- Withdraws one prefix and announces another. -/
def mixed : UpdateBody where
  withdrawn := [net10]
  attribs := []
  nlri := [net172]
  distinct := by decide
  fits := by decide

/-- An established peer with messages in its queue. -/
def peer (ms : List Received) : BgpPeer :=
  { bgpId := 0x0100000a, state := .established, inQueue := ms.map fun m => m.1.queued m.2 }

end Example

/-! ## Announcements -/

/-- Messages that withdraw nothing put one route for each prefix on `adj_rib_in_q`, in order and with
all attributes, and nothing on the queue of withdrawals. -/
theorem procInQ_announcements (p : BgpPeer) (now : TimeT) (hp : p.InTime now) (ms : List Received)
    (hqueue : p.inQueue = ms.map fun m => m.1.queued m.2) (hms : ∀ m ∈ ms, m.1.withdrawn = [])
    (q : RibQueues) :
    procInQ now p q = .ok (p.drained now,
      { q with adjRibInQ := q.adjRibInQ ++ ms.flatMap fun m => m.1.announced now p.bgpId m.2 }) := by
  have hhandled : ∀ m ∈ ms, m.1.Handled := fun m hm hw => absurd (hms m hm) hw
  have hnone : withdrawalsAll now p.bgpId ms = [] := by
    simp only [withdrawalsAll, List.flatMap_eq_nil_iff]
    intro m hm
    simp [UpdateBody.withdrawals, hms m hm]
  rw [procInQ_handled hp ms hqueue hhandled q, hnone, List.append_nil]
  rfl

theorem procInQ_announcements_two :
    procInQ 5 (Example.peer [(Example.announcement, Example.receipt)]) {} =
      .ok ((Example.peer [(Example.announcement, Example.receipt)]).drained 5,
        { adjRibInQ := Example.announcement.announced 5 0x0100000a Example.receipt }) := by
  have h := procInQ_announcements (Example.peer [(Example.announcement, Example.receipt)]) 5
    (by decide) [(Example.announcement, Example.receipt)] rfl (by decide) {}
  have hid : (Example.peer [(Example.announcement, Example.receipt)]).bgpId = 0x0100000a := rfl
  simpa [hid] using h

/-! ## Withdrawals -/

/-- A message is processed to exactly what it says: its withdrawals and its announcements. -/
def Faithful (now : TimeT) (p : BgpPeer) (b : UpdateBody) (receipt : Receipt) (q : RibQueues) : Prop :=
  ∃ p', procInQ now p q = .ok (p',
    { adjRibInQ := q.adjRibInQ ++ b.announced now p.bgpId receipt
      adjRibInWdrawQ := q.adjRibInWdrawQ ++ b.withdrawals now p.bgpId receipt })

/-- The prefixes of a message that also withdraws are lost. -/
theorem mixed_not_faithful :
    ¬ Faithful 5 (Example.peer [(Example.mixed, Example.receipt)]) Example.mixed Example.receipt {} := by
  rintro ⟨p', h⟩
  have hrun : (procInQ 5 (Example.peer [(Example.mixed, Example.receipt)]) {}).toOption.map
      (fun s => s.2.adjRibInQ.length) = some 0 := by decide
  rw [h] at hrun
  have hlen : some (Example.mixed.announced 5 0x0100000a Example.receipt).length = some 0 := hrun
  exact absurd hlen (by decide)

/-- A message that withdraws something is processed exactly when it announces nothing, and when its
attributes leave the high byte of their length 0, the byte that the withdrawals are taken to end at. -/
theorem faithful_iff_of_withdraws (p : BgpPeer) (now : TimeT) (hp : p.InTime now) (b : UpdateBody)
    (receipt : Receipt) (hqueue : p.inQueue = [b.queued receipt]) (hw : b.withdrawn ≠ [])
    (q : RibQueues) :
    Faithful now p b receipt q ↔ b.nlri = [] ∧ b.attribBytes.length < 256 := by
  constructor
  · rintro ⟨p', h⟩
    obtain ⟨hexp, hsame, _⟩ := hp.same
    unfold procInQ at h
    simp only [hexp, Bool.false_eq_true, ↓reduceIte, hsame.inQueue, hqueue, hsame.bgpId,
      procMessages, Checked.bind_eq_ok, Checked.pure_eq_ok, Except.ok.injEq, Prod.mk.injEq] at h
    obtain ⟨_, ⟨_, hq, rfl⟩, _, rfl⟩ := h
    have hshort : b.attribBytes.length < 256 := by
      rcases Nat.lt_or_ge b.attribBytes.length 256 with hlt | hge
      · exact hlt
      · exact absurd rfl (procMessage_withdraw_long b now p.bgpId receipt q hw hge hq)
    rw [procMessage_withdraw_short b now p.bgpId receipt q hw hshort] at hq
    simp only [Except.ok.injEq, RibQueues.mk.injEq, and_true] at hq
    have hnone : b.announced now p.bgpId receipt = [] := List.self_eq_append_right.mp hq
    exact ⟨List.map_eq_nil_iff.mp hnone, hshort⟩
  · intro hb
    have hhandled : ∀ m ∈ [((b, receipt) : Received)], m.1.Handled := by
      intro m hm
      rw [List.mem_singleton] at hm
      subst hm
      exact fun _ => hb
    refine ⟨p.drained now, ?_⟩
    rw [procInQ_handled hp [(b, receipt)] hqueue hhandled q]
    simp [announcedAll, withdrawalsAll]

theorem faithful_iff_of_withdraws_mixed :
    Faithful 5 (Example.peer [(Example.mixed, Example.receipt)]) Example.mixed Example.receipt {} ↔
      Example.mixed.nlri = [] ∧ Example.mixed.attribBytes.length < 256 :=
  faithful_iff_of_withdraws (Example.peer [(Example.mixed, Example.receipt)]) 5 (by decide)
    Example.mixed Example.receipt rfl (by decide) {}

/-! ## Arbitrary bytes -/

/-- A NEXT_HOP of five bytes is copied over the field behind it. -/
theorem nextHop_overflow : ¬ Safe (procMessage 5 0x0100000a
    ⟨[0, 0, 0, 8, 0x40, 3, 5, 10, 0, 0, 1, 1], by decide, Example.receipt⟩ {}) := by
  decide

/-- A message is parsed without a fault, and in finitely many steps, exactly when it is framed. -/
theorem procMessage_safe_iff (now : TimeT) (bgpId : UInt32) (data : QueueData) (q : RibQueues) :
    Safe (procMessage now bgpId data q) ↔ Framed data.packet :=
  safe_procMessage now bgpId data q

end Log2Bgp
