import Log2Bgp.Api.Lemmas.Labels
import Log2Bgp.Reports.Lemmas.Readers

/-!
# Objects of the API
-/

namespace Log2Bgp

open Lib Lib.Json

variable {u : Uninit} {b : BgpCli} {entry : BgpUpdate} {id : UInt32} {outer : List Bracket}

/-! ## Members that may be absent -/

/-- A text that adds whole members to an object. -/
def AddsMembers (t : Text) : Prop :=
  ∀ outer u, EndsValue u → EndsValue (t ++ u) ∧
    run ⟨.after, .object :: outer⟩ (t ++ u) = run ⟨.after, .object :: outer⟩ u

theorem addsMembers_nil : AddsMembers [] := fun _ _ hu => ⟨hu, rfl⟩

theorem AddsMembers.optionText {α : Type} {text : α → Text} {a : Option α}
    (h : ∀ x ∈ a, AddsMembers (text x)) : AddsMembers (optionText a text) := by
  cases a with
  | none => exact addsMembers_nil
  | some x => exact h x rfl

theorem addsMembers_asPath {s : AsPathSegment} (hs : ∀ asn ∈ s.asns, StringText (b.translateAsPath id asn)) :
    AddsMembers (jsonAsPath b id s) := by
  intro outer u hu
  unfold jsonAsPath
  simp only [List.append_assoc]
  refine ⟨Or.inl rfl, ?_⟩
  refine (run_chunk ⟨.value, .object :: outer⟩ rfl _).trans ?_
  refine (run_decimal _ (by exact Or.inl rfl)).trans ?_
  refine (run_chunk ⟨.first, .array :: .object :: outer⟩ rfl _).trans ?_
  refine run_joinTexts ?_ u
  intro t ht
  obtain ⟨asn, hasn, rfl⟩ := List.mem_map.mp ht
  exact elementRun_string (hs asn hasn)

theorem addsMembers_aggregator {a : AggregatorSegment} (horigin : StringText (b.translateAggregator id a.origin))
    (hasn : StringText (b.translateAsPath id a.asn)) : AddsMembers (jsonAggregator b id a) := by
  intro outer u hu
  unfold jsonAggregator
  simp only [List.append_assoc]
  refine ⟨Or.inl rfl, ?_⟩
  refine (run_chunk ⟨.string false .chars, .object :: outer⟩ rfl _).trans ?_
  refine (horigin.run _).trans ?_
  refine (run_chunk ⟨.key, .object :: outer⟩ rfl _).trans ?_
  refine (run_chunk ⟨.value, .object :: outer⟩ rfl _).trans ?_
  refine (run_decimal _ (by exact Or.inl rfl)).trans ?_
  refine (run_chunk ⟨.key, .object :: outer⟩ rfl _).trans ?_
  refine (run_chunk ⟨.string false .chars, .object :: outer⟩ rfl _).trans ?_
  refine (hasn.run _).trans ?_
  refine (run_chunk ⟨.key, .object :: outer⟩ rfl _).trans ?_
  refine (run_chunk ⟨.value, .object :: outer⟩ rfl _).trans ?_
  exact run_decimal _ hu

theorem addsMembers_as4Aggregator {aggregator : Option AggregatorSegment} {a : AggregatorSegment} {t : Text}
    (horigin : StringText (b.translateAggregator id a.origin)) (hasn : StringText (b.translateAsPath id a.asn))
    (h : jsonAs4Aggregator b id aggregator a = .ok t) : AddsMembers t := by
  intro outer u hu
  obtain ⟨other, -, h⟩ := Checked.bind_eq_ok.mp h
  cases h
  simp only [List.append_assoc]
  refine ⟨Or.inl rfl, ?_⟩
  refine (run_chunk ⟨.string false .chars, .object :: outer⟩ rfl _).trans ?_
  refine (horigin.run _).trans ?_
  refine (run_chunk ⟨.key, .object :: outer⟩ rfl _).trans ?_
  refine (run_chunk ⟨.value, .object :: outer⟩ rfl _).trans ?_
  refine (run_decimal _ (by exact Or.inl rfl)).trans ?_
  refine (run_chunk ⟨.key, .object :: outer⟩ rfl _).trans ?_
  refine (run_chunk ⟨.string false .chars, .object :: outer⟩ rfl _).trans ?_
  refine (hasn.run _).trans ?_
  refine (run_chunk ⟨.key, .object :: outer⟩ rfl _).trans ?_
  refine (run_chunk ⟨.value, .object :: outer⟩ rfl _).trans ?_
  exact run_decimal _ hu

theorem addsMembers_community {cs : Counted CommunitySegment}
    (hcs : ∀ c ∈ cs.elems, StringText (b.translateAsPath id c.asn) ∧
      StringText (b.translateCommunityValue u id c.value.toUInt16)) : AddsMembers (jsonCommunity u b id cs) := by
  intro outer v hv
  unfold jsonCommunity
  split
  · simp only [List.append_assoc]
    refine ⟨Or.inl rfl, ?_⟩
    refine (run_chunk ⟨.value, .object :: outer⟩ rfl _).trans ?_
    refine (run_decimal _ (by exact Or.inl rfl)).trans ?_
    refine (run_chunk ⟨.first, .array :: .object :: outer⟩ rfl _).trans ?_
    refine run_joinTexts ?_ v
    intro t ht
    obtain ⟨c, hc, rfl⟩ := List.mem_map.mp ht
    obtain ⟨hasn, hvalue⟩ := hcs c hc
    refine elementRun_of_string ?_
    refine (hasn.run _).trans ?_
    refine (run_chunk ⟨.string false .chars, .array :: .object :: outer⟩ rfl _).trans ?_
    exact hvalue.run _
  · exact ⟨hv, rfl⟩

/-! ## The AS4 path -/

theorem addsMembers_as4Path {s : AsPathSegment} (hs : s.segValue.length = 0) :
    AddsMembers (jsonAs4Path b id s) := by
  have hnone : s.asns = [] := by
    refine List.eq_nil_of_length_eq_zero ?_
    rw [AsPathSegment.asns, s.segValue.sized, hs]
    rfl
  intro outer u hu
  unfold jsonAs4Path
  rw [hnone]
  simp only [List.append_assoc]
  refine ⟨Or.inl rfl, ?_⟩
  refine (run_chunk ⟨.value, .object :: outer⟩ rfl _).trans ?_
  refine (run_decimal _ (by exact Or.inl rfl)).trans ?_
  rfl

theorem run_translateAsPath_stuck {asn : UInt32} (u : Text) :
    run ⟨.after, .array :: outer⟩ (b.translateAsPath id asn ++ u) = none := by
  obtain ⟨c, t, ht, hdigit⟩ := exists_decimal_eq_cons asn.toNat
  obtain ⟨-, -, -, -, -, -, -, -, hws⟩ := not_digit_of hdigit
  have hcomma : c ≠ ',' := by
    rintro rfl
    cases hdigit
  have hbracket : c ≠ ']' := by
    rintro rfl
    cases hdigit
  unfold BgpCli.translateAsPath
  rw [ht]
  simp [run, step, stepAfter, hws, hcomma, hbracket]

/-- The quote of the next element ends the first string, and a digit comes behind it. -/
theorem run_as4Path_stuck {s : AsPathSegment}
    (hs : ∀ asn ∈ s.asns, StringText (b.translateAsPath id asn)) (hlen : s.segValue.length ≠ 0) (u : Text) :
    run ⟨.after, .object :: outer⟩ (jsonAs4Path b id s ++ (",\"origin\":\"".toList ++ u)) = none := by
  unfold jsonAs4Path
  simp only [List.append_assoc]
  refine (run_chunk ⟨.value, .object :: outer⟩ rfl _).trans ?_
  refine (run_decimal _ (by exact Or.inl rfl)).trans ?_
  refine (run_chunk ⟨.first, .array :: .object :: outer⟩ rfl _).trans ?_
  cases hasns : s.asns with
  | nil =>
      have hzero : s.segValue.length.toNat = 0 := by rw [← s.segValue.sized, ← AsPathSegment.asns, hasns]; rfl
      exact absurd (UInt8.toNat_inj.mp hzero) hlen
  | cons asn asns =>
      have hasn : StringText (b.translateAsPath id asn) := hs asn (by simp [hasns])
      cases asns with
      | nil =>
          simp only [List.map_cons, List.map_nil, joinTexts, List.append_assoc]
          refine (run_chunk ⟨.string false .chars, .array :: .object :: outer⟩ rfl _).trans ?_
          refine (hasn.run _).trans ?_
          refine (run_chunk ⟨.string false .chars, .array :: .object :: outer⟩ rfl _).trans ?_
          exact run_stuck rfl _
      | cons asn' asns =>
          obtain ⟨v, hv⟩ := exists_joinTexts ",".toList ("\"".toList ++ b.translateAsPath id asn')
            (asns.map fun asn => "\"".toList ++ b.translateAsPath id asn)
          simp only [List.map_cons, joinTexts, hv, List.append_assoc]
          refine (run_chunk ⟨.string false .chars, .array :: .object :: outer⟩ rfl _).trans ?_
          refine (hasn.run _).trans ?_
          refine (run_chunk ⟨.string false .chars, .array :: .object :: outer⟩ rfl _).trans ?_
          refine (run_chunk ⟨.after, .array :: .object :: outer⟩ rfl _).trans ?_
          exact run_translateAsPath_stuck _

/-! ## `jsonify_entry` -/

/-- What `jsonify_entry` needs of an entry: a date for its age, an origin with a text, no ASN in an AS4 path, whose strings
it does not close, and the aggregator that it reads where there is an AS4 aggregator. -/
structure BgpUpdate.Printable (entry : BgpUpdate) : Prop where
  age : (gmtime entry.nlri.age.toInt).isSome
  origin : entry.origin < 3
  as4Path : ∀ s ∈ entry.as4Path, s.segValue.length = 0
  as4Aggregator : entry.as4Aggregator.isSome → entry.aggregator.isSome

/-- A text that makes up all the members of an object. -/
def IsMembers (t : Text) : Prop :=
  ∀ outer u, EndsValue u → run ⟨.firstKey, .object :: outer⟩ (t ++ u) = run ⟨.after, .object :: outer⟩ u

theorem exists_as4Aggregator {as4 aggregator : Option AggregatorSegment} {rest : Text → Checked Text} {t : Text}
    (h : (match as4 with
      | none => do
          let text ← pure []
          rest text
      | some a => do
          let text ← jsonAs4Aggregator b id aggregator a
          rest text) = .ok t) :
    ∃ text, rest text = .ok t ∧ (as4.isSome → aggregator.isSome) ∧
      ((∀ a ∈ as4, StringText (b.translateAggregator id a.origin) ∧ StringText (b.translateAsPath id a.asn)) →
        AddsMembers text) := by
  cases as4 with
  | none => exact ⟨[], h, fun hsome => (by simp at hsome), fun _ => addsMembers_nil⟩
  | some a =>
      obtain ⟨text, htext, h⟩ := Checked.bind_eq_ok.mp h
      refine ⟨text, h, fun _ => ?_, fun hlabels => ?_⟩
      · obtain ⟨other, hother, -⟩ := Checked.bind_eq_ok.mp htext
        cases aggregator with
        | none => cases hother
        | some other => rfl
      · obtain ⟨horigin, hasn⟩ := hlabels a rfl
        exact addsMembers_as4Aggregator horigin hasn htext

/-- The members in front of the AS4 path, and the ones behind it. -/
theorem run_jsonifyEntry (hq : entry.Quotable u b) {t : Text} (h : jsonifyEntry u b entry = .ok t) {v : Text}
    (hv : EndsValue v) :
    ∃ rest, run ⟨.firstKey, .object :: outer⟩ (t ++ v) = run ⟨.after, .object :: outer⟩
        (optionText entry.as4Path (jsonAs4Path b entry.nlri.bgpId) ++ (",\"origin\":\"".toList ++ rest)) ∧
      run ⟨.string false .chars, .object :: outer⟩ rest = run ⟨.after, .object :: outer⟩ v := by
  unfold jsonifyEntry at h
  obtain ⟨tm, -, h⟩ := Checked.bind_eq_ok.mp h
  obtain ⟨origin, horigin, h⟩ := Checked.bind_eq_ok.mp h
  obtain ⟨as4, h, -, has4⟩ := exists_as4Aggregator h
  rw [← Except.ok.inj h]
  simp only [List.append_assoc]
  have hpath : AddsMembers (optionText entry.asPath (jsonAsPath b entry.nlri.bgpId)) :=
    .optionText fun s hs => addsMembers_asPath (hq.asPath s hs)
  have haggregator : AddsMembers (optionText entry.aggregator (jsonAggregator b entry.nlri.bgpId)) :=
    .optionText fun a ha => addsMembers_aggregator (hq.aggregator a (.inl ha)).1 (hq.aggregator a (.inl ha)).2
  have has4 : AddsMembers as4 := has4 fun a ha => hq.aggregator a (.inr ha)
  have hcommunity : AddsMembers (jsonCommunity u b entry.nlri.bgpId entry.community) :=
    addsMembers_community hq.community
  have hends : ∀ w : Text, EndsValue (optionText entry.as4Path (jsonAs4Path b entry.nlri.bgpId) ++
      (",\"origin\":\"".toList ++ w)) := by
    intro w
    cases entry.as4Path with
    | none => exact Or.inl rfl
    | some s => exact Or.inl rfl
  refine ⟨?rest, ?front, ?behind⟩
  case front =>
    refine (run_chunk ⟨.string false .chars, .object :: outer⟩ rfl _).trans ?_
    refine (run_plain (plainText_iso _) _).trans ?_
    refine (run_chunk ⟨.after, .object :: outer⟩ rfl _).trans ?_
    refine (run_chunk ⟨.value, .object :: outer⟩ rfl _).trans ?_
    refine (run_decimalInt _ (hpath outer _ (hends _)).1).trans ?_
    exact (hpath outer _ (hends _)).2
  case behind =>
    obtain ⟨hends, hcommunity⟩ := hcommunity outer v hv
    obtain ⟨hends, has4⟩ := has4 outer _ hends
    obtain ⟨hends, haggregator⟩ := haggregator outer _ hends
    refine (run_plain (plainText_originText horigin) _).trans ?_
    refine (run_chunk ⟨.key, .object :: outer⟩ rfl _).trans ?_
    refine (run_chunk ⟨.string false .chars, .object :: outer⟩ rfl _).trans ?_
    refine (run_plain (plainText_ntoa _) _).trans ?_
    refine (run_chunk ⟨.key, .object :: outer⟩ rfl _).trans ?_
    refine (run_chunk ⟨.string false .chars, .object :: outer⟩ rfl _).trans ?_
    refine (hq.nextHop.run _).trans ?_
    refine (run_chunk ⟨.key, .object :: outer⟩ rfl _).trans ?_
    refine (run_chunk ⟨.value, .object :: outer⟩ rfl _).trans ?_
    refine (run_decimal _ (by exact Or.inl rfl)).trans ?_
    refine (run_chunk ⟨.key, .object :: outer⟩ rfl _).trans ?_
    refine (run_chunk ⟨.value, .object :: outer⟩ rfl _).trans ?_
    refine (run_decimal _ (by exact Or.inl rfl)).trans ?_
    refine (run_chunk ⟨.key, .object :: outer⟩ rfl _).trans ?_
    refine (run_chunk ⟨.value, .object :: outer⟩ rfl _).trans ?_
    cases entry.atomicAggregate with
    | true =>
        refine (run_decimal _ (by exact Or.inl rfl)).trans ?_
        refine (run_chunk ⟨.after, .object :: outer⟩ rfl _).trans ?_
        exact haggregator.trans (has4.trans hcommunity)
    | false =>
        refine (run_decimal _ (by exact Or.inl rfl)).trans ?_
        refine (run_chunk ⟨.after, .object :: outer⟩ rfl _).trans ?_
        exact haggregator.trans (has4.trans hcommunity)

theorem jsonifyEntry_isMembers (hq : entry.Quotable u b) (hp : entry.Printable) {t : Text}
    (h : jsonifyEntry u b entry = .ok t) : IsMembers t := by
  intro outer v hv
  obtain ⟨rest, hfront, hbehind⟩ := run_jsonifyEntry hq h hv
  have has4 : AddsMembers (optionText entry.as4Path (jsonAs4Path b entry.nlri.bgpId)) :=
    .optionText fun s hs => addsMembers_as4Path (hp.as4Path s hs)
  refine hfront.trans ((has4 outer _ (by exact Or.inl rfl)).2.trans ?_)
  exact (run_chunk ⟨.string false .chars, .object :: outer⟩ rfl _).trans hbehind

theorem jsonifyEntry_stuck (hq : entry.Quotable u b) {s : AsPathSegment} (hs : entry.as4Path = some s)
    (hlen : s.segValue.length ≠ 0) {t : Text} (h : jsonifyEntry u b entry = .ok t) {v : Text}
    (hv : EndsValue v) : run ⟨.firstKey, .object :: outer⟩ (t ++ v) = none := by
  obtain ⟨rest, hfront, -⟩ := run_jsonifyEntry hq h hv
  rw [hfront, hs]
  exact run_as4Path_stuck (hq.as4Path s hs) hlen rest

theorem safe_deref {α : Type} {p : Option α} : Safe (deref p) ↔ p.isSome := by
  cases p with
  | none => exact iff_of_false (not_safe_error _) (by simp)
  | some a => exact iff_of_true (safe_ok a) rfl

theorem safe_jsonifyEntry : Safe (jsonifyEntry u b entry) ↔ (gmtime entry.nlri.age.toInt).isSome ∧
    entry.origin < 3 ∧ (entry.as4Aggregator.isSome → entry.aggregator.isSome) := by
  constructor
  · rintro ⟨t, h⟩
    unfold jsonifyEntry at h
    obtain ⟨tm, htm, h⟩ := Checked.bind_eq_ok.mp h
    obtain ⟨origin, horigin, h⟩ := Checked.bind_eq_ok.mp h
    obtain ⟨as4, -, has4, -⟩ := exists_as4Aggregator h
    exact ⟨safe_deref.mp ⟨tm, htm⟩, safe_originText.mp ⟨origin, horigin⟩, has4⟩
  · rintro ⟨hage, horigin, has4⟩
    obtain ⟨tm, htm⟩ := safe_deref.mpr hage
    obtain ⟨origin, horigin⟩ := safe_originText.mpr horigin
    unfold jsonifyEntry
    rw [htm, Checked.ok_bind, horigin, Checked.ok_bind]
    cases h4 : entry.as4Aggregator with
    | none => exact ⟨_, rfl⟩
    | some a =>
        obtain ⟨other, hother⟩ := Option.isSome_iff_exists.mp (has4 (by simp [h4]))
        rw [hother]
        exact ⟨_, rfl⟩

theorem jsonifyEntry_members_or_stuck (hq : entry.Quotable u b) {t : Text} (h : jsonifyEntry u b entry = .ok t) :
    (entry.Printable ∧ IsMembers t) ∨
      (¬ entry.Printable ∧ ∀ outer v, EndsValue v → run ⟨.firstKey, .object :: outer⟩ (t ++ v) = none) := by
  obtain ⟨hage, horigin, has4⟩ := safe_jsonifyEntry.mp ⟨t, h⟩
  by_cases hpath : ∀ s ∈ entry.as4Path, s.segValue.length = 0
  · have hp : entry.Printable := ⟨hage, horigin, hpath, has4⟩
    exact .inl ⟨hp, jsonifyEntry_isMembers hq hp h⟩
  · refine .inr ⟨fun hp => hpath hp.as4Path, ?_⟩
    push Not at hpath
    obtain ⟨s, hs, hlen⟩ := hpath
    exact fun _ _ hv => jsonifyEntry_stuck hq hs hlen h hv

theorem BgpUpdate.Printable.safe (h : entry.Printable) : Safe (jsonifyEntry u b entry) :=
  safe_jsonifyEntry.mpr ⟨h.age, h.origin, h.as4Aggregator⟩

/-! ## Histories -/

theorem elementRun_object {t : Text} (ht : IsMembers t) :
    ElementRun outer (['{'] ++ t ++ ['}']) (some ⟨.after, .array :: outer⟩) := by
  intro mode hmode
  rw [List.append_assoc]
  obtain rfl | rfl := hmode
  · refine (run_chunk ⟨.firstKey, .object :: .array :: outer⟩ rfl _).trans ?_
    exact ht _ _ (Or.inr (Or.inr rfl))
  · refine (run_chunk ⟨.firstKey, .object :: .array :: outer⟩ rfl _).trans ?_
    exact ht _ _ (Or.inr (Or.inr rfl))

theorem elementRun_object_stuck {t : Text}
    (ht : ∀ outer v, EndsValue v → run ⟨.firstKey, .object :: outer⟩ (t ++ v) = none) :
    ElementRun outer (['{'] ++ t ++ ['}']) none := by
  intro mode hmode
  rw [List.append_assoc]
  obtain rfl | rfl := hmode
  · refine (run_chunk ⟨.firstKey, .object :: .array :: outer⟩ rfl _).trans ?_
    exact ht _ _ (Or.inr (Or.inr rfl))
  · refine (run_chunk ⟨.firstKey, .object :: .array :: outer⟩ rfl _).trans ?_
    exact ht _ _ (Or.inr (Or.inr rfl))

theorem safe_jsonHistory {records : List BgpUpdate} :
    Safe (jsonHistory u b records) ↔ ∀ r ∈ records, Safe (jsonifyEntry u b r) := by
  unfold jsonHistory
  rw [safe_bind_iff (p := True) (by simp), and_true, safe_mapM]
  refine forall₂_congr fun r _ => ?_
  rw [safe_bind_iff (p := True) (by simp), and_true]

/-- The history goes on behind a member of an object, or spoils it. -/
theorem run_jsonHistory {records : List BgpUpdate} (hq : ∀ r ∈ records, r.Quotable u b) {t : Text}
    (h : jsonHistory u b records = .ok t) (v : Text) :
    ((∀ r ∈ records, r.Printable) ∧ run ⟨.after, .object :: outer⟩ (t ++ v) = run ⟨.after, .object :: outer⟩ v) ∨
      ((∃ r ∈ records, ¬ r.Printable) ∧ run ⟨.after, .object :: outer⟩ (t ++ v) = none) := by
  unfold jsonHistory at h
  obtain ⟨texts, htexts, h⟩ := Checked.bind_eq_ok.mp h
  rw [← Except.ok.inj h]
  have heach : List.Forall₂ (fun r t =>
      (r.Printable ∧ ElementRun (.object :: outer) t (some ⟨.after, .array :: .object :: outer⟩)) ∨
      (¬ r.Printable ∧ ElementRun (.object :: outer) t none)) records texts := by
    refine ((List.forall₂_and_left _ _).mpr ⟨hq, mapM_eq_ok.mp htexts⟩).imp ?_
    rintro r t ⟨hq, ht⟩
    obtain ⟨text, htext, ht⟩ := Checked.bind_eq_ok.mp ht
    rw [← Except.ok.inj ht]
    obtain ⟨hp, hmembers⟩ | ⟨hp, hstuck⟩ := jsonifyEntry_members_or_stuck hq htext
    · exact .inl ⟨hp, elementRun_object hmembers⟩
    · exact .inr ⟨hp, elementRun_object_stuck hstuck⟩
  have hfront : ∀ w, run ⟨.after, .object :: outer⟩ (",\"history_length\":".toList ++ (decimal records.length ++
      (",\"history\":[".toList ++ w))) = run ⟨.first, .array :: .object :: outer⟩ w := by
    intro w
    refine (run_chunk ⟨.value, .object :: outer⟩ rfl _).trans ?_
    refine (run_decimal _ (by exact Or.inl rfl)).trans ?_
    exact run_chunk ⟨.first, .array :: .object :: outer⟩ rfl _
  simp only [List.append_assoc, hfront]
  obtain ⟨hall, hrun⟩ | ⟨hbad, hrun⟩ := run_array heach v
  · exact .inl ⟨hall, hrun⟩
  · exact .inr ⟨hbad, hrun⟩

end Log2Bgp
