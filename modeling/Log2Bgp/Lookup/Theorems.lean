import Log2Bgp.Lookup.Lemmas.Ranges
import Log2Bgp.Rib.Lemmas.Changes
import Log2Bgp.Update.Theorems

/-!
# Lookups
-/

namespace Log2Bgp

open Lib

/-- What `api_get_prefix` does with the entries it has selected. -/
def apiReport (env : CliEnv) (b : BgpCli) (tokens : List Text) (found : List BgpUpdate) :
    Cli (BgpCli × Reply) := do
  let opening := ['{'] ++ "\"entries\":[".toList
  let dumpHistory ← asksHistory tokens 4
  if found = [] then
    pure (b, .text (opening ++ ['{'] ++ "\"prefix\":\"network not in table\"".toList ++ ['}'] ++
      "]".toList ++ ['}']))
  else do
    let (b', texts) ← Cli.ofChecked (jsonEntries env.uninit env.fuel dumpHistory found b)
    pure (b', .text (opening ++ joinTexts ",".toList texts ++ "]".toList ++ ['}']))

/-- What `show_bgp_prefix` does with the entries it has selected. -/
def showReport (env : CliEnv) (b : BgpCli) (tokens : List Text) (found : List BgpUpdate) :
    Cli (BgpCli × Reply) := do
  let dumpHistory ← asksHistory tokens 5
  if found = [] then pure (b, .text "% Network not in table\n".toList)
  else do
    let (b', text) ← Cli.ofChecked (showEntries env dumpHistory found b)
    pure (b', .text ("\nEntries: (".toList ++ decimal found.length ++
      " available)\n[c] = current".toList ++
      (if dumpHistory then " [h] = historical\n".toList else "\n".toList) ++ text ++ "\n".toList))

variable {env : CliEnv} {b : BgpCli} {tokens : List Text} {ip : Text} {addr : UInt32}

theorem apiGetPrefix_selected (hip : tokens[2]? = some ip) (haddr : aton ip = some addr) :
    apiGetPrefix env b tokens = apiReport env b tokens (b.prefixMatches addr) := by
  have hlen : ¬ tokens.length < 3 := Nat.not_lt.mpr (List.getElem?_eq_some_iff.mp hip).1
  have htoken : tokenAt tokens 2 = .ok ip := by rw [tokenAt, hip]
  unfold apiGetPrefix apiReport
  simp only [hlen, ↓reduceIte, htoken, Checked.ok_bind, haddr]

theorem showBgpPrefix_selected (hip : tokens[3]? = some ip) (haddr : aton ip = some addr) :
    showBgpPrefix env b tokens = showReport env b tokens (b.prefixMatches addr) := by
  have htoken : tokenAt tokens 3 = .ok ip := by rw [tokenAt, hip]
  unfold showBgpPrefix showReport
  simp only [htoken, Checked.ok_bind, haddr]

/-- Over a table of prefixes without bits past their lengths, both reports are about the entries whose
first bits are those of the address: each of them once, and by address and peer. -/
theorem lookups_select {b : BgpCli} (h : b.adjRibIn.Canonical) (addr : UInt32) :
    ∃ found : List BgpUpdate,
      (∀ e, e ∈ found ↔ e ∈ b.entries ∧
        firstBits e.nlri.prefixLength.toNat e.nlri.pfx = firstBits e.nlri.prefixLength.toNat addr) ∧
      found.Pairwise BgpUpdate.Before ∧ found.Nodup ∧
      (∀ env tokens ip, tokens[2]? = some ip → aton ip = some addr →
        apiGetPrefix env b tokens = apiReport env b tokens found) ∧
      (∀ env tokens ip, tokens[3]? = some ip → aton ip = some addr →
        showBgpPrefix env b tokens = showReport env b tokens found) := by
  have hbefore : (b.prefixMatches addr).Pairwise BgpUpdate.Before :=
    (entries_before fun k r hr => (h k r hr).1).filter _
  refine ⟨b.prefixMatches addr, ?_, hbefore, hbefore.imp ?_, ?_, ?_⟩
  · intro e
    rw [mem_prefixMatches, and_congr_right_iff]
    intro he
    obtain ⟨k, r, hr, rfl⟩ := mem_entries.mp he
    obtain ⟨-, c, ps, hparsed, hps⟩ := h k r hr
    obtain ⟨p, hp, hnlri⟩ := hparsed.nlri
    rw [hnlri]
    exact p.inRange_iff (hps p hp) addr
  · rintro e e' hlt rfl
    rcases hlt with hlt | ⟨-, hlt⟩ <;> exact Nat.lt_irrefl _ hlt
  · exact fun env tokens ip hip haddr => apiGetPrefix_selected hip haddr
  · exact fun env tokens ip hip haddr => showBgpPrefix_selected hip haddr

namespace Example

/-- An announcement of a peer. -/
def announcing : NlriContext := ⟨.update, 0, 7, ⟨0, 0, .established⟩⟩

/-- 10.1.0.0/20. -/
def net10_1 : WirePrefix := ⟨20, [10, 1, 0], by decide, by decide, by decide⟩

/-- 13.0.0.0/8. -/
def net13 : WirePrefix := ⟨8, [13], net10.length_pos, net10.length_le, by decide⟩

/-- An announcement of another peer. -/
def announcingToo : NlriContext := { announcing with bgpId := 9 }

/-- Routes as `parse_nlri` pushes them: one prefix from two peers, one within it, and one beside it. -/
def routes : List (NlriContext × WirePrefix) :=
  [(announcingToo, net10), (announcing, net10_1), (announcing, net13), (announcing, net10)]

/-- The RIB after them. -/
def routedRib (rs : List (NlriContext × WirePrefix)) : BgpAdjRib :=
  rs.foldr (fun r rib => rib.insert (r.1.route {} r.2).entry (r.1.route {} r.2)) ∅

theorem canonical_routedRib {rs : List (NlriContext × WirePrefix)} (h : ∀ r ∈ rs, r.2.Canonical) :
    (routedRib rs).Canonical := by
  induction rs with
  | nil => exact BgpAdjRib.canonical_empty
  | cons r rs ih =>
      have hrest := ih fun r' hr' => h r' (List.mem_cons_of_mem _ hr')
      exact hrest.insert (r.1.parsedFrom r.2) fun p hp => List.mem_singleton.mp hp ▸ h r List.mem_cons_self

def routed : BgpCli := { adjRibIn := routedRib routes }

end Example

/-- The routes of 10.1.2.3. -/
theorem lookups_select_routed : ∃ found : List BgpUpdate,
    (∀ e, e ∈ found ↔ e ∈ [(Example.announcing.route {} Example.net10).update,
      (Example.announcingToo.route {} Example.net10).update, (Example.announcing.route {} Example.net10_1).update]) ∧
    found.Pairwise BgpUpdate.Before ∧ found.Nodup ∧
    (∀ env tokens ip, tokens[2]? = some ip → aton ip = some 0x0302010a →
      apiGetPrefix env Example.routed tokens = apiReport env Example.routed tokens found) ∧
    (∀ env tokens ip, tokens[3]? = some ip → aton ip = some 0x0302010a →
      showBgpPrefix env Example.routed tokens = showReport env Example.routed tokens found) := by
  have hcanonical : Example.routed.adjRibIn.Canonical := Example.canonical_routedRib (by decide)
  obtain ⟨found, hmem, hfound⟩ := lookups_select hcanonical 0x0302010a
  refine ⟨found, ?_, hfound⟩
  intro e
  have hselected : Example.routed.entries.filter (fun e => firstBits e.nlri.prefixLength.toNat e.nlri.pfx =
      firstBits e.nlri.prefixLength.toNat 0x0302010a) = [(Example.announcing.route {} Example.net10).update,
        (Example.announcingToo.route {} Example.net10).update,
        (Example.announcing.route {} Example.net10_1).update] := by
    decide +kernel
  rw [hmem, ← hselected, List.mem_filter, decide_eq_true_iff]

/-! ## Networks -/

/-- A route is handled as the one network that another encoding also spells: both have one key and one
range, the other as a withdrawal removes the route, and a lookup of every address of the network
finds it. -/
structure OneNetwork (b : Bgp) (r r' : Route) : Prop where
  key : r'.entry = r.entry
  lowest : r'.update.nlri.pfx = r.update.nlri.pfx
  highest : r'.update.nlri.prefixHighest = r.update.nlri.prefixHighest
  removes : ∃ b', (b.peerEntry r).withdraw r' = .ok b' ∧ b'.adjRibIn[r.entry]? = none
  finds : ∀ cli : BgpCli, cli.adjRibIn = (b.peerEntry r).adjRibIn → ∀ addr,
    firstBits r.update.nlri.prefixLength.toNat addr =
      firstBits r.update.nlri.prefixLength.toNat r.update.nlri.pfx → r.update ∈ cli.prefixMatches addr

namespace Example

/-- A withdrawal of the same peer. -/
def withdrawing : NlriContext := ⟨.withdraw, 1, 7, ⟨0, 0, .established⟩⟩

/-- 172.16.0.0/12, with a bit behind its length. -/
def net172Odd : WirePrefix := { net172 with addr := [172, 17], sized := by decide }

/-- An instance that knows the peer. -/
def knowing : Bgp := { cfg := { AS := 1 }, threadQ := [{ bgpId := 7 }] }

end Example

/-- The low end of a range is what the packet says, with the bits behind the length. -/
theorem encodings_differ :
    (Example.announcing.route {} Example.net172).ParsedFrom Example.announcing [Example.net172] ∧
      (Example.withdrawing.route {} Example.net172Odd).ParsedFrom Example.withdrawing [Example.net172Odd] ∧
      firstBits 12 Example.net172.network = firstBits 12 Example.net172Odd.network ∧
      ¬ OneNetwork Example.knowing (Example.announcing.route {} Example.net172)
        (Example.withdrawing.route {} Example.net172Odd) := by
  refine ⟨Example.announcing.parsedFrom _, Example.withdrawing.parsedFrom _, by decide, fun h => ?_⟩
  exact absurd h.lowest (by decide)

/-- Two encodings that agree in the bits of their length are one network just when neither has bits
behind these. -/
theorem oneNetwork_iff {b : Bgp} {c c' : NlriContext} {p p' : WirePrefix} {r r' : Route}
    (hr : r.ParsedFrom c [p]) (hr' : r'.ParsedFrom c' [p']) (hid : c'.bgpId = c.bgpId)
    (hknown : b.Knows c.bgpId) (hlen : p'.length = p.length)
    (hbits : firstBits p.length.toNat p.network = firstBits p.length.toNat p'.network) :
    OneNetwork b r r' ↔ p.Canonical ∧ p'.Canonical := by
  obtain ⟨_, hmem, hnlri⟩ := hr.nlri
  cases List.mem_singleton.mp hmem
  obtain ⟨_, hmem', hnlri'⟩ := hr'.nlri
  cases List.mem_singleton.mp hmem'
  have hrid : r.bgpId = c.bgpId := congrArg BgpNlri.bgpId hnlri
  have hrid' : r'.bgpId = c.bgpId := (congrArg BgpNlri.bgpId hnlri').trans hid
  have hknown' : b.Knows r.bgpId := hrid ▸ hknown
  have hput : (b.peerEntry r).adjRibIn[r.entry]? = some r := by
    rw [Bgp.peerEntry_put hknown', lookup_apply]
    exact if_pos rfl
  constructor
  · intro h
    have hnetwork : p'.network = p.network := by
      have hlow := h.lowest
      rw [hnlri, hnlri'] at hlow
      exact hlow
    have hcanonical : p.Canonical := by
      apply p.canonical_of_inRange
      intro addr haddr
      have hfound := h.finds { adjRibIn := (b.peerEntry r).adjRibIn } rfl addr
      rw [hnlri] at hfound
      have hrange := (mem_prefixMatches.mp (hfound haddr)).2.1
      rw [hnlri] at hrange
      exact hrange
    refine ⟨hcanonical, ?_⟩
    rw [WirePrefix.Canonical, hnetwork, hlen]
    exact hcanonical
  · rintro ⟨hcanonical, hcanonical'⟩
    have hnetwork := WirePrefix.network_eq hcanonical hcanonical' hlen hbits
    have hkey : r'.entry = r.entry := by
      rw [Route.entry, Route.entry, hnlri, hnlri']
      exact Prod.ext hnetwork hid
    refine ⟨hkey, ?_, ?_, ?_, ?_⟩
    · rw [hnlri, hnlri']
      exact hnetwork
    · rw [hnlri, hnlri']
      simp only [UpdateBody.nlriOf, WirePrefix.highest, hnetwork, hlen]
    · have hstill : (b.peerEntry r).Knows r'.bgpId := by
        rw [Bgp.Knows, (Bgp.peerEntry_same b r).ids, hrid', ← hrid]
        exact hknown'
      obtain ⟨b', hwithdraw⟩ := Bgp.withdraw_safe hstill
      refine ⟨b', hwithdraw, ?_⟩
      rw [Bgp.withdraw_del hwithdraw, lookup_apply]
      exact if_pos hkey.symm
    · intro cli hcli addr haddr
      rw [mem_prefixMatches]
      refine ⟨mem_entries.mpr ⟨r.entry, r, hcli ▸ hput, rfl⟩, ?_⟩
      rw [hnlri] at haddr ⊢
      exact (p.inRange_iff hcanonical addr).mpr haddr.symm

theorem oneNetwork_iff_of_odd :
    OneNetwork Example.knowing (Example.announcing.route {} Example.net172)
      (Example.withdrawing.route {} Example.net172Odd) ↔
    Example.net172.Canonical ∧ Example.net172Odd.Canonical :=
  oneNetwork_iff (Example.announcing.parsedFrom _) (Example.withdrawing.parsedFrom _) rfl
    (List.mem_singleton.mpr rfl) rfl (by decide)

end Log2Bgp
