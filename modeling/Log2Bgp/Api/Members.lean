import Log2Bgp.Api.Lemmas.Objects

/-!
# The members of an entry

What an object about an entry is for, member by member, next to what `jsonify_entry` writes.
-/

namespace Log2Bgp

open Lib

/-! ## Objects -/

/-- The values that members of an entry have. -/
inductive JsonValue where
  | string (t : Text)
  | number (n : Int)
  | bool (v : Bool)
  | strings (ts : List Text)
deriving DecidableEq, Repr

def JsonValue.render : JsonValue → Text
  | string t => "\"".toList ++ t ++ "\"".toList
  | number n => decimalInt n
  | bool v => if v then "true".toList else "false".toList
  | strings ts => "[".toList ++ joinTexts ",".toList (ts.map fun t => "\"".toList ++ t ++ "\"".toList) ++ "]".toList

structure JsonMember where
  name : String
  value : JsonValue
deriving DecidableEq, Repr

def JsonMember.render (m : JsonMember) : Text := "\"".toList ++ m.name.toList ++ "\":".toList ++ m.value.render

/-- The members of an object, without its braces. -/
def renderMembers (ms : List JsonMember) : Text := joinTexts ",".toList (ms.map JsonMember.render)

/-- A path: the number of its ASNs, and the ASNs in order. -/
def pathMembers (name : String) (b : BgpCli) (id : UInt32) (s : AsPathSegment) : List JsonMember :=
  [⟨name ++ "_length", .number s.asns.length⟩, ⟨name, .strings (s.asns.map (b.translateAsPath id))⟩]

def aggregatorMembers (name : String) (b : BgpCli) (id : UInt32) (a : AggregatorSegment) : List JsonMember :=
  [⟨name ++ "_str", .string (b.translateAggregator id a.origin)⟩, ⟨name ++ "_bin", .number a.origin.toNat⟩,
    ⟨name ++ "_as_str", .string (b.translateAsPath id a.asn)⟩, ⟨name ++ "_as_bin", .number a.asn.toNat⟩]

def communityMembers (u : Uninit) (b : BgpCli) (id : UInt32) (cs : List CommunitySegment) : List JsonMember :=
  if cs = [] then []
  else [⟨"community_length", .number cs.length⟩, ⟨"community", .strings (cs.map fun c =>
    b.translateAsPath id c.asn ++ ":".toList ++ b.translateCommunityValue u id c.value.toUInt16)⟩]

namespace BgpUpdate

/-- The members that every entry has between its paths and its aggregators. -/
def plainMembers (b : BgpCli) (e : BgpUpdate) : List JsonMember :=
  [⟨"origin", .string (bgpOriginCodeText.getD e.origin.toNat "").toList⟩,
    ⟨"next_hop_str", .string (ntoa e.ipv4NextHop)⟩,
    ⟨"next_hop_name", .string (b.translateIpv4NextHop e.nlri.bgpId e.ipv4NextHop)⟩,
    ⟨"next_hop_bin", .number e.ipv4NextHop.toNat⟩, ⟨"med", .number e.med.toNat⟩,
    ⟨"local_pref", .number e.localPref.toNat⟩, ⟨"atomic_aggregate", .bool e.atomicAggregate⟩]

/-- The members of the object about an entry: those of the attributes that it has. -/
def members (u : Uninit) (b : BgpCli) (e : BgpUpdate) : List JsonMember :=
  ⟨"time_str", .string (calendarTime e.nlri.age.toInt).iso⟩ :: ⟨"time_epoch", .number e.nlri.age.toInt⟩ ::
    (e.asPath.toList.flatMap (pathMembers "as_path" b e.nlri.bgpId) ++
      e.as4Path.toList.flatMap (pathMembers "as4_path" b e.nlri.bgpId) ++ e.plainMembers b ++
      e.aggregator.toList.flatMap (aggregatorMembers "aggregator" b e.nlri.bgpId) ++
      e.as4Aggregator.toList.flatMap (aggregatorMembers "as4_aggregator" b e.nlri.bgpId) ++
      communityMembers u b e.nlri.bgpId e.community.elems)

end BgpUpdate

/-! ## Members behind others -/

/-- Each member with the comma in front of it. -/
def addMembers (ms : List JsonMember) : Text := ms.flatMap fun m => ",".toList ++ m.render

theorem addMembers_nil : addMembers [] = [] := rfl

theorem addMembers_cons (m : JsonMember) (ms : List JsonMember) :
    addMembers (m :: ms) = ",".toList ++ (m.render ++ addMembers ms) := by
  rw [addMembers, List.flatMap_cons, List.append_assoc]
  rfl

theorem addMembers_append (ms ms' : List JsonMember) : addMembers (ms ++ ms') = addMembers ms ++ addMembers ms' :=
  List.flatMap_append

theorem joinTexts_cons (sep t : Text) (ts : List Text) : joinTexts sep (t :: ts) = t ++ ts.flatMap (sep ++ ·) := by
  induction ts generalizing t with
  | nil => simp [joinTexts]
  | cons t' ts ih => rw [joinTexts, ih, List.flatMap_cons, List.append_assoc]; exact List.cons_ne_nil _ _

theorem renderMembers_cons (m : JsonMember) (ms : List JsonMember) :
    renderMembers (m :: ms) = m.render ++ addMembers ms := by
  rw [renderMembers, List.map_cons, joinTexts_cons, List.flatMap_map, addMembers]

@[simp] theorem decimalInt_natCast (n : Nat) : decimalInt (n : Int) = decimal n := by
  rw [decimalInt, if_neg (by omega), Int.natAbs_natCast]

theorem decimal_inj {n m : Nat} (h : decimal n = decimal m) : n = m := by
  have hn := strtoul_decimal n (.inl rfl)
  have hm := strtoul_decimal m (.inl rfl)
  rw [List.append_nil] at hn hm
  rw [h, hm] at hn
  exact (congrArg Prod.fst hn).symm

variable {u : Uninit} {b : BgpCli} {id : UInt32} {e : BgpUpdate}

theorem length_asns (s : AsPathSegment) : s.segValue.length.toNat = s.asns.length := s.segValue.sized.symm

theorem jsonAsPath_eq (s : AsPathSegment) : jsonAsPath b id s = addMembers (pathMembers "as_path" b id s) := by
  unfold jsonAsPath
  simp only [addMembers, pathMembers, List.flatMap_cons, List.flatMap_nil, JsonMember.render, JsonValue.render,
    decimalInt_natCast, length_asns, List.map_map, Function.comp_def, String.toList_append, String.reduceToList,
    List.append_assoc, List.cons_append, List.nil_append, List.append_nil]

theorem jsonAggregator_eq (a : AggregatorSegment) :
    jsonAggregator b id a = addMembers (aggregatorMembers "aggregator" b id a) := by
  unfold jsonAggregator
  simp only [addMembers, aggregatorMembers, List.flatMap_cons, List.flatMap_nil, JsonMember.render, JsonValue.render,
    decimalInt_natCast, String.toList_append, String.reduceToList, List.append_assoc, List.cons_append,
    List.nil_append, List.append_nil]

theorem jsonCommunity_eq (cs : Counted CommunitySegment) :
    jsonCommunity u b id cs = addMembers (communityMembers u b id cs.elems) := by
  have hlength : cs.length.toNat = cs.elems.length := cs.sized.symm
  have hsome : cs.length > 0 ↔ cs.elems ≠ [] := by
    rw [gt_iff_lt, UInt8.lt_iff_toNat_lt, hlength, UInt8.toNat_zero, List.length_pos_iff]
  unfold jsonCommunity communityMembers
  by_cases hnone : cs.elems = []
  · rw [if_neg (by simp [hsome, hnone]), if_pos hnone]
    rfl
  · rw [if_pos (hsome.mpr hnone), if_neg hnone]
    simp only [addMembers, List.flatMap_cons, List.flatMap_nil, JsonMember.render, JsonValue.render,
      decimalInt_natCast, hlength, List.map_map, Function.comp_def, String.reduceToList, List.append_assoc,
      List.cons_append, List.nil_append, List.append_nil]

theorem optionText_eq {α : Type} {a : Option α} {text : α → Text} {ms : α → List JsonMember}
    (h : ∀ x, a = some x → text x = addMembers (ms x)) : optionText a text = addMembers (a.toList.flatMap ms) := by
  cases a with
  | none => rfl
  | some x => simpa [optionText] using h x rfl

/-! ## `jsonify_entry` -/

theorem originText_getD {origin : UInt8} (h : origin < 3) :
    originText origin = .ok (bgpOriginCodeText.getD origin.toNat "").toList := by
  have hlt : origin.toNat < bgpOriginCodeText.length := UInt8.lt_iff_toNat_lt.mp h
  rw [originText, List.getD_eq_getElem?_getD, List.getElem?_eq_getElem hlt]
  rfl

theorem deref_gmtime {t : Int} (h : (gmtime t).isSome) : deref (gmtime t) = .ok (calendarTime t) := by
  obtain ⟨tm, htm⟩ := Option.isSome_iff_exists.mp h
  rw [htm, gmtime_eq_some htm]
  rfl

namespace BgpUpdate

/-- What stands in front of the AS4 path. -/
def frontText (b : BgpCli) (e : BgpUpdate) : Text :=
  JsonMember.render ⟨"time_str", .string (calendarTime e.nlri.age.toInt).iso⟩ ++
    (addMembers [⟨"time_epoch", .number e.nlri.age.toInt⟩] ++
      addMembers (e.asPath.toList.flatMap (pathMembers "as_path" b e.nlri.bgpId)))

/-- What stands between the AS4 path and the AS4 aggregator. -/
def middleText (b : BgpCli) (e : BgpUpdate) : Text :=
  addMembers (e.plainMembers b) ++
    addMembers (e.aggregator.toList.flatMap (aggregatorMembers "aggregator" b e.nlri.bgpId))

/-- What `jsonify_entry` writes of the AS4 aggregator. -/
def as4AggregatorText (b : BgpCli) (e : BgpUpdate) : Checked Text :=
  match e.as4Aggregator with
  | none => .ok []
  | some a => jsonAs4Aggregator b e.nlri.bgpId e.aggregator a

end BgpUpdate

theorem renderMembers_members : renderMembers (e.members u b) = e.frontText b ++
    (addMembers (e.as4Path.toList.flatMap (pathMembers "as4_path" b e.nlri.bgpId)) ++ (e.middleText b ++
      (addMembers (e.as4Aggregator.toList.flatMap (aggregatorMembers "as4_aggregator" b e.nlri.bgpId)) ++
        addMembers (communityMembers u b e.nlri.bgpId e.community.elems)))) := by
  have hepoch : ∀ ms, addMembers (⟨"time_epoch", .number e.nlri.age.toInt⟩ :: ms) =
      addMembers [⟨"time_epoch", .number e.nlri.age.toInt⟩] ++ addMembers ms := fun ms => addMembers_append [_] ms
  rw [BgpUpdate.members, renderMembers_cons, hepoch]
  simp only [addMembers_append, BgpUpdate.frontText, BgpUpdate.middleText, List.append_assoc]

/-- The AS4 path and the AS4 aggregator are written by blocks of their own. -/
theorem jsonifyEntry_eq (hage : (gmtime e.nlri.age.toInt).isSome) (horigin : e.origin < 3) {t : Text}
    (ht : e.as4AggregatorText b = .ok t) :
    jsonifyEntry u b e = .ok (e.frontText b ++ (optionText e.as4Path (jsonAs4Path b e.nlri.bgpId) ++
      (e.middleText b ++ (t ++ addMembers (communityMembers u b e.nlri.bgpId e.community.elems))))) := by
  have hpath : optionText e.asPath (jsonAsPath b e.nlri.bgpId) = _ := optionText_eq fun s _ => jsonAsPath_eq s
  have haggregator : optionText e.aggregator (jsonAggregator b e.nlri.bgpId) = _ :=
    optionText_eq fun a _ => jsonAggregator_eq a
  have hatomic : (if e.atomicAggregate then ",\"atomic_aggregate\":true".toList
      else ",\"atomic_aggregate\":false".toList) = addMembers [⟨"atomic_aggregate", .bool e.atomicAggregate⟩] := by
    cases e.atomicAggregate with
    | true => rfl
    | false => rfl
  unfold jsonifyEntry
  rw [deref_gmtime hage, Checked.ok_bind, originText_getD horigin, Checked.ok_bind]
  unfold BgpUpdate.as4AggregatorText at ht
  unfold BgpUpdate.frontText BgpUpdate.middleText BgpUpdate.plainMembers
  simp only [hpath, haggregator, jsonCommunity_eq, hatomic]
  cases hsome : e.as4Aggregator with
  | none =>
      rw [hsome] at ht
      cases ht
      simp only [addMembers_cons, addMembers_nil, JsonMember.render, JsonValue.render, decimalInt_natCast,
        String.reduceToList, List.append_assoc, List.cons_append, List.nil_append, List.append_nil, Checked.pure_eq_ok,
        Checked.ok_bind]
  | some a =>
      rw [hsome] at ht
      simp only [ht, addMembers_cons, addMembers_nil, JsonMember.render, JsonValue.render, decimalInt_natCast,
        String.reduceToList, List.append_assoc, List.cons_append, List.nil_append, List.append_nil, Checked.pure_eq_ok,
        Checked.ok_bind]

/-! ## The two blocks -/

theorem jsonAs4Path_empty {s : AsPathSegment} (hs : s.asns = []) :
    jsonAs4Path b id s = addMembers (pathMembers "as4_path" b id s) := by
  unfold jsonAs4Path
  simp only [addMembers_cons, addMembers_nil, pathMembers, JsonMember.render, JsonValue.render, decimalInt_natCast,
    length_asns, hs, List.map_nil, String.toList_append, String.reduceToList, List.append_assoc, List.cons_append,
    List.nil_append, List.append_nil]

/-- Behind the first ASN there is no quote. -/
theorem jsonAs4Path_ne {s : AsPathSegment} (hs : s.asns ≠ []) (x y : Text) :
    jsonAs4Path b id s ++ x ≠ addMembers (pathMembers "as4_path" b id s) ++ y := by
  intro h
  obtain ⟨asn, asns, hasns⟩ := List.exists_cons_of_ne_nil hs
  unfold jsonAs4Path at h
  simp only [addMembers_cons, addMembers_nil, pathMembers, JsonMember.render, JsonValue.render, decimalInt_natCast,
    length_asns, hasns, List.map_cons, joinTexts_cons, String.toList_append, String.reduceToList, List.append_assoc,
    List.cons_append, List.nil_append, List.append_nil, List.cons.injEq, true_and, List.append_cancel_left_eq] at h
  cases asns with
  | nil => simp at h
  | cons asn' asns => simp at h

/-- The number of the AS is right where both aggregators have it. -/
theorem jsonAs4Aggregator_iff {a other : AggregatorSegment} {t : Text}
    (ht : jsonAs4Aggregator b id (some other) a = .ok t) (x : Text) :
    t ++ x = addMembers (aggregatorMembers "as4_aggregator" b id a) ++ x ↔ other.asn = a.asn := by
  cases ht
  unfold aggregatorMembers
  simp only [addMembers_cons, addMembers_nil, JsonMember.render, JsonValue.render, decimalInt_natCast,
    String.toList_append, String.reduceToList, List.append_assoc, List.cons_append, List.nil_append, List.append_nil,
    List.cons.injEq, true_and, List.append_cancel_left_eq, List.append_cancel_right_eq]
  exact ⟨fun h => UInt32.toNat_inj.mp (decimal_inj h), fun h => by rw [h]⟩

theorem exists_as4AggregatorText (h : e.as4Aggregator.isSome → e.aggregator.isSome) :
    ∃ t, e.as4AggregatorText b = .ok t := by
  unfold BgpUpdate.as4AggregatorText
  cases h4 : e.as4Aggregator with
  | none => exact ⟨[], rfl⟩
  | some a =>
      obtain ⟨other, hother⟩ := Option.isSome_iff_exists.mp (h (by simp [h4]))
      rw [hother]
      exact ⟨_, rfl⟩

/-- With an AS4 path of no ASNs, only the AS4 aggregator can be wrong. -/
theorem renders_iff_as4Aggregator (hage : (gmtime e.nlri.age.toInt).isSome) (horigin : e.origin < 3)
    (hpath : ∀ s, e.as4Path = some s → s.asns = []) {t : Text} (ht : e.as4AggregatorText b = .ok t) :
    jsonifyEntry u b e = .ok (renderMembers (e.members u b)) ↔
      ∀ a, e.as4Aggregator = some a → ∃ other, e.aggregator = some other ∧ other.asn = a.asn := by
  have hsame : optionText e.as4Path (jsonAs4Path b e.nlri.bgpId) = _ :=
    optionText_eq fun s hs => jsonAs4Path_empty (hpath s hs)
  rw [jsonifyEntry_eq hage horigin ht, renderMembers_members, hsame, Except.ok.injEq, List.append_cancel_left_eq,
    List.append_cancel_left_eq, List.append_cancel_left_eq]
  unfold BgpUpdate.as4AggregatorText at ht
  cases h4 : e.as4Aggregator with
  | none =>
      rw [h4] at ht
      cases ht
      exact iff_of_true rfl (by simp)
  | some a =>
      rw [h4] at ht
      cases hother : e.aggregator with
      | none =>
          rw [hother] at ht
          cases ht
      | some other =>
          rw [hother] at ht
          have hasn := jsonAs4Aggregator_iff ht (addMembers (communityMembers u b e.nlri.bgpId e.community.elems))
          simpa using hasn

/-- What `jsonify_entry` writes is the object about its entry, just where the entry has an age with a date and an ORIGIN
that there is, no ASN in an AS4 path, and with an AS4 aggregator also an aggregator of the same AS. -/
theorem renders_iff (u : Uninit) (b : BgpCli) (e : BgpUpdate) :
    jsonifyEntry u b e = .ok (renderMembers (e.members u b)) ↔
      (gmtime e.nlri.age.toInt).isSome ∧ e.origin < 3 ∧ (∀ s, e.as4Path = some s → s.asns = []) ∧
        ∀ a, e.as4Aggregator = some a → ∃ other, e.aggregator = some other ∧ other.asn = a.asn := by
  constructor
  · intro h
    obtain ⟨hage, horigin, has4⟩ := safe_jsonifyEntry.mp ⟨_, h⟩
    obtain ⟨t, ht⟩ := exists_as4AggregatorText (b := b) has4
    have hpath : ∀ s, e.as4Path = some s → s.asns = [] := by
      intro s hs
      by_contra hne
      rw [jsonifyEntry_eq hage horigin ht, renderMembers_members, hs, Except.ok.injEq, List.append_cancel_left_eq] at h
      exact jsonAs4Path_ne hne _ _ (by simpa [optionText] using h)
    exact ⟨hage, horigin, hpath, (renders_iff_as4Aggregator hage horigin hpath ht).mp h⟩
  · rintro ⟨hage, horigin, hpath, haggregator⟩
    have has4 : e.as4Aggregator.isSome → e.aggregator.isSome := by
      intro hsome
      obtain ⟨a, ha⟩ := Option.isSome_iff_exists.mp hsome
      obtain ⟨other, hother, -⟩ := haggregator a ha
      rw [hother]
      rfl
    obtain ⟨t, ht⟩ := exists_as4AggregatorText (b := b) has4
    exact (renders_iff_as4Aggregator hage horigin hpath ht).mpr haggregator

namespace Example

/-- An entry that two speakers aggregated, with different ASs. -/
def aggregated : BgpUpdate := { aggregator := some ⟨23456, 1⟩, as4Aggregator := some ⟨70000, 1⟩ }

end Example

/-- The number of the AS in the AS4 aggregator is the one in the aggregator. -/
theorem aggregated_as : jsonifyEntry {} (.initBgp 1) Example.aggregated ≠
    .ok (renderMembers (Example.aggregated.members {} (.initBgp 1))) := by
  obtain ⟨t, ht⟩ := exists_as4AggregatorText (b := .initBgp 1) (e := Example.aggregated) fun _ => rfl
  have hpath : ∀ s, Example.aggregated.as4Path = some s → s.asns = [] := by
    rintro s ⟨⟩
  intro h
  obtain ⟨other, hother, hasn⟩ := (renders_iff_as4Aggregator (by decide) (by decide) hpath ht).mp h _ rfl
  cases hother
  exact absurd hasn (by decide)

end Log2Bgp
