import Log2Bgp.Lib.Fields
import Log2Bgp.Model.Report

/-!
# The lines of the dumper

A line of `translate_and_dump_update` consists of fields with a name and a value, between bars. What a reader
takes from it is compared with what the update carries.
-/

namespace Log2Bgp

open Lib

/-- A field with a name of the source. -/
def lineField (name : String) (value : Text) : LineField Char := (name.toList, value)

/-- What a reader takes from a line. -/
def readLine (line : Text) : List (LineField Char) := readFields '|' '=' line

namespace BgpCli

/-- The value of a path, where it has an element. -/
def pathValue (b : BgpCli) (id : UInt32) (s : AsPathSegment) : Option Text :=
  if s.segValue.length = 0 then none else some (joinTexts "_".toList (s.asns.map (b.translateAsPath id)))

def communityValue (u : Uninit) (b : BgpCli) (id : UInt32) (cs : Counted CommunitySegment) : Text :=
  cs.elems.flatMap fun c =>
    "[".toList ++ b.translateAsPath id c.asn ++ ":".toList ++ b.translateCommunityValue u id c.value.toUInt16 ++
      "]".toList

/-- No label has a bar in it. -/
def Unbarred (b : BgpCli) : Prop := ∀ p ∈ b.threadQ, ∀ a ∈ p.translateAttribs, '|' ∉ a.printableAttrib

instance (b : BgpCli) : Decidable b.Unbarred :=
  inferInstanceAs (Decidable (∀ p ∈ b.threadQ, ∀ a ∈ p.translateAttribs, '|' ∉ a.printableAttrib))

end BgpCli

namespace BgpUpdate

variable (u : Uninit) (now : TimeT) (b : BgpCli) (update : BgpUpdate) (flag : NlriParse)

/-- There is an AS path, and it has an element. -/
def HasPath : Prop := ∃ s ∈ update.asPath, s.segValue.length ≠ 0

/-- The name in front of the first sign has the time of the line in front of it. -/
def headField : LineField Char :=
  (" *".toList ++ ((calendarTime now.toInt).american ++ ": flowlab:  msg_type".toList), flag.msgType.toList)

/-- The fields from the origin to the next hop. -/
def pathFields (origin : Text) : List (LineField Char) :=
  let id := update.nlri.bgpId
  [lineField "origin" origin] ++
    ((update.asPath.bind (b.pathValue id)).map (lineField "as_path")).toList ++
    ((update.as4Path.bind (b.pathValue id)).map (lineField "as4_path")).toList ++
    [lineField "next_hop" (b.translateIpv4NextHop id update.ipv4NextHop)]

/-- The fields behind the next hop. -/
def flagFields : List (LineField Char) :=
  let id := update.nlri.bgpId
  [lineField "med" (b.translateMed id update.med), lineField "local_pref" (b.translateLocalPref id update.localPref)] ++
    (if update.atomicAggregate then [lineField "atomic_aggregate" "true".toList] else [])

def aggregatorFields (pre : String) (a : AggregatorSegment) : List (LineField Char) :=
  let id := update.nlri.bgpId
  [lineField (pre ++ "aggregator_origin") (b.translateAggregator id a.origin),
    lineField (pre ++ "aggregator_as") (b.translateAsPath id a.asn)]

/-- The fields behind those. -/
def restFields : List (LineField Char) :=
  let id := update.nlri.bgpId
  (update.aggregator.map (aggregatorFields b update "")).getD [] ++
    (update.as4Aggregator.map (aggregatorFields b update "as4_")).getD [] ++
    (if update.community = .empty then [] else [lineField "community" (b.communityValue u id update.community)]) ++
    [lineField "prefix" (ntoa update.nlri.pfx), lineField "prefix_length" (decimal update.nlri.prefixLength.toNat)]

/-- What the line of an update is to say. -/
def lineFields (origin : Text) : List (LineField Char) :=
  headField now flag :: lineField "peer" (b.translateBgpId update.nlri.bgpId) ::
    (pathFields b update origin ++ flagFields b update ++ restFields u b update)

/-- The fields from the origin to the next hop as they are written: what follows the origin has a bar in front
of it only if it is the AS path. -/
def writtenFields (origin : Text) : List (LineField Char) :=
  let id := update.nlri.bgpId
  let nextHop := b.translateIpv4NextHop id update.ipv4NextHop
  match update.asPath.bind (b.pathValue id), update.as4Path.bind (b.pathValue id) with
  | some _, _ => pathFields b update origin
  | none, some path => [lineField "origin" (origin ++ "as4_path=".toList ++ path), lineField "next_hop" nextHop]
  | none, none => [lineField "origin" (origin ++ "next_hop=".toList ++ nextHop)]

end BgpUpdate

/-! ## The text of a line -/

section Text

variable {u : Uninit} {now : TimeT} {b : BgpCli} {update : BgpUpdate} {flag : NlriParse}

theorem optionText_dumpPath (id : UInt32) (opening : String) (path : Option AsPathSegment) :
    optionText path (dumpPath b id opening) =
      ((path.bind (b.pathValue id)).map fun v => opening.toList ++ v ++ "|".toList).getD [] := by
  cases path with
  | none => rfl
  | some s =>
      simp only [optionText, dumpPath, BgpCli.pathValue, Option.map_some, Option.getD_some, Option.bind_some]
      split <;> simp

theorem writtenFields_text (origin : Text) :
    barred '|' '=' (update.writtenFields b origin) =
      "|origin=".toList ++ origin ++ optionText update.asPath (dumpPath b update.nlri.bgpId "|as_path=") ++
        optionText update.as4Path (dumpPath b update.nlri.bgpId "as4_path=") ++
        "next_hop=".toList ++ b.translateIpv4NextHop update.nlri.bgpId update.ipv4NextHop := by
  rw [optionText_dumpPath, optionText_dumpPath, BgpUpdate.writtenFields, BgpUpdate.pathFields]
  cases update.asPath.bind (b.pathValue update.nlri.bgpId) with
  | none => cases update.as4Path.bind (b.pathValue update.nlri.bgpId) <;> simp [barred, writeField, lineField]
  | some v => cases update.as4Path.bind (b.pathValue update.nlri.bgpId) <;> simp [barred, writeField, lineField]

theorem flagFields_text :
    barred '|' '=' (update.flagFields b) ++ (if update.atomicAggregate then "|".toList else []) =
      "|med=".toList ++ b.translateMed update.nlri.bgpId update.med ++
        "|local_pref=".toList ++ b.translateLocalPref update.nlri.bgpId update.localPref ++
        (if update.atomicAggregate then "|atomic_aggregate=true|".toList else []) := by
  rw [BgpUpdate.flagFields]
  split <;> simp [barred, writeField, lineField]

theorem aggregatorFields_text (pre : String) (aggregator : Option AggregatorSegment) :
    barred '|' '=' ((aggregator.map (update.aggregatorFields b pre)).getD []) =
      optionText aggregator fun a =>
        ("|" ++ pre ++ "aggregator_origin=").toList ++ b.translateAggregator update.nlri.bgpId a.origin ++
        ("|" ++ pre ++ "aggregator_as=").toList ++ b.translateAsPath update.nlri.bgpId a.asn := by
  cases aggregator with
  | none => rfl
  | some a => simp [barred, writeField, lineField, optionText, BgpUpdate.aggregatorFields]

theorem restFields_text :
    barred '|' '=' (update.restFields u b) =
      optionText update.aggregator (fun a =>
        "|aggregator_origin=".toList ++ b.translateAggregator update.nlri.bgpId a.origin ++
        "|aggregator_as=".toList ++ b.translateAsPath update.nlri.bgpId a.asn) ++
      optionText update.as4Aggregator (fun a =>
        "|as4_aggregator_origin=".toList ++ b.translateAggregator update.nlri.bgpId a.origin ++
        "|as4_aggregator_as=".toList ++ b.translateAsPath update.nlri.bgpId a.asn) ++
      (if update.community = .empty then []
       else "|community=".toList ++ b.communityValue u update.nlri.bgpId update.community) ++
      "|prefix=".toList ++ ntoa update.nlri.pfx ++ "|prefix_length=".toList ++
      decimal update.nlri.prefixLength.toNat := by
  have hcommunity : barred '|' '=' (if update.community = .empty then []
      else [lineField "community" (b.communityValue u update.nlri.bgpId update.community)]) =
      (if update.community = .empty then []
        else "|community=".toList ++ b.communityValue u update.nlri.bgpId update.community) := by
    split <;> simp [barred, writeField, lineField]
  have hprefix : barred '|' '=' [lineField "prefix" (ntoa update.nlri.pfx),
      lineField "prefix_length" (decimal update.nlri.prefixLength.toNat)] =
      "|prefix=".toList ++ (ntoa update.nlri.pfx ++ ("|prefix_length=".toList ++
        decimal update.nlri.prefixLength.toNat)) := by
    simp [barred, writeField, lineField]
  rw [BgpUpdate.restFields, barred_append, barred_append, barred_append, aggregatorFields_text, aggregatorFields_text,
    hcommunity, hprefix]
  simp only [String.reduceAppend, List.append_assoc]

theorem headFields_text (peer tail : Text) :
    writeField '=' (BgpUpdate.headField now flag) ++ (barred '|' '=' [lineField "peer" peer] ++ tail) =
      " *".toList ++ ((calendarTime now.toInt).american ++ (":".toList ++ (" flowlab: ".toList ++ (" msg_type=".toList ++
        (flag.msgType.toList ++ ("|".toList ++ ("peer=".toList ++ (peer ++ tail)))))))) := by
  rw [BgpUpdate.headField]
  generalize (calendarTime now.toInt).american = stamp
  simp [writeField, barred, lineField]

/-- An atomic aggregate leaves two bars next to each other. -/
theorem dumpText_eq {text : Text} (h : dumpText u now b update flag = .ok text) :
    ∃ origin, originText update.origin = .ok origin ∧
      text = writeField '=' (BgpUpdate.headField now flag) ++
        (barred '|' '=' ([lineField "peer" (b.translateBgpId update.nlri.bgpId)] ++ update.writtenFields b origin) ++
        (barred '|' '=' (update.flagFields b) ++ (if update.atomicAggregate then "|".toList else []) ++
          barred '|' '=' (update.restFields u b))) := by
  obtain ⟨origin, horigin, h⟩ := Checked.bind_eq_ok.mp h
  refine ⟨origin, horigin, ?_⟩
  simp only [Checked.pure_eq_ok, Except.ok.injEq] at h
  rw [← h, barred_append, flagFields_text, restFields_text, writtenFields_text]
  simp only [BgpCli.communityValue, List.append_assoc, headFields_text]

end Text

/-! ## Characters that do not occur -/

section Characters

variable {c : Char}

theorem not_mem_decimal (hc : c.isDigit = false) (n : Nat) : c ∉ decimal n := by
  intro h
  rw [isDigit_of_mem_decimal n h] at hc
  cases hc

theorem not_mem_decimalInt (hc : c.isDigit = false) (hne : c ≠ '-') (i : Int) : c ∉ decimalInt i := by
  unfold decimalInt
  split <;> simp [not_mem_decimal hc, hne]

theorem not_mem_ntoa (hc : c.isDigit = false) (hne : c ≠ '.') (addr : UInt32) : c ∉ ntoa addr := by
  have hdotted : ∀ bs : List UInt8, c ∉ dotted bs := by
    intro bs
    fun_induction dotted bs with
    | case1 => simp
    | case2 b => exact not_mem_decimal hc _
    | case3 b bs _ ih => simp [not_mem_decimal hc, hne, ih]
  exact hdotted _

theorem not_mem_pad2 (hc : c.isDigit = false) (n : Nat) : c ∉ pad2 '0' n := by
  have hne : c ≠ '0' := by
    rintro rfl
    cases hc
  unfold pad2
  split <;> simp [not_mem_decimal hc, hne]

theorem not_mem_american (hc : c.isDigit = false) (hne : c ∉ ['-', ' ', ':']) (tm : Tm) : c ∉ tm.american := by
  simp only [List.mem_cons, List.not_mem_nil, or_false, not_or] at hne
  simp [Tm.american, Tm.clock, not_mem_pad2 hc, not_mem_decimalInt hc, hne]

theorem not_mem_joinTexts {sep : Text} {ts : List Text} (hsep : c ∉ sep) (hts : ∀ t ∈ ts, c ∉ t) :
    c ∉ joinTexts sep ts := by
  fun_induction joinTexts sep ts with
  | case1 => simp
  | case2 t => exact hts t List.mem_cons_self
  | case3 t ts _ ih =>
      rw [List.forall_mem_cons] at hts
      simp [hts.1, hsep, ih hts.2]

theorem not_mem_originText {origin : UInt8} {t : Text} (h : originText origin = .ok t) : '|' ∉ t := by
  unfold originText at h
  split at h
  · rename_i text htext
    cases h
    have hall : ∀ text ∈ bgpOriginCodeText, '|' ∉ text.toList := by decide
    exact hall text (List.mem_of_getElem? htext)
  · cases h

end Characters

namespace BgpCli.Unbarred

variable {b : BgpCli} (h : b.Unbarred) (id : UInt32)

include h

theorem label {fits : TranslateAttribsBase → Bool} {t : Text} (ht : b.label id fits = some t) : '|' ∉ t := by
  unfold BgpCli.label at ht
  split at ht
  · obtain ⟨p, hp, ht⟩ := Option.bind_eq_some_iff.mp ht
    obtain ⟨a, ha, rfl⟩ := Option.map_eq_some_iff.mp ht
    exact h p (List.mem_of_find?_eq_some hp) a (List.mem_of_find?_eq_some ha)
  · cases ht

theorem label_getD (fits : TranslateAttribsBase → Bool) {t : Text} (ht : '|' ∉ t) : '|' ∉ (b.label id fits).getD t := by
  cases hlabel : b.label id fits with
  | none => exact ht
  | some l => exact h.label id hlabel

theorem asPath (n : UInt32) : '|' ∉ b.translateAsPath id n := by
  simp [translateAsPath, labelOf, not_mem_decimal, h.label_getD]

theorem bgpId : '|' ∉ b.translateBgpId id := h.label_getD id _ (not_mem_ntoa rfl (by decide) _)

theorem nextHop (n : UInt32) : '|' ∉ b.translateIpv4NextHop id n :=
  h.label_getD id _ (not_mem_ntoa rfl (by decide) _)

theorem med (n : UInt32) : '|' ∉ b.translateMed id n := h.label_getD id _ (not_mem_decimal rfl _)

theorem localPref (n : UInt32) : '|' ∉ b.translateLocalPref id n := h.label_getD id _ (not_mem_decimal rfl _)

theorem aggregator (n : UInt32) : '|' ∉ b.translateAggregator id n := by
  simp [translateAggregator, labelOf, not_mem_ntoa, h.label_getD]

theorem communityValue (u : Uninit) (cs : Counted CommunitySegment) : '|' ∉ b.communityValue u id cs := by
  simp only [BgpCli.communityValue, List.mem_flatMap, not_exists, not_and]
  intro c _
  have hvalue : '|' ∉ b.translateCommunityValue u id c.value.toUInt16 := h.label_getD id _ (not_mem_decimal rfl _)
  simp [h.asPath, hvalue]

theorem pathValue {s : AsPathSegment} {v : Text} (hv : b.pathValue id s = some v) : '|' ∉ v := by
  simp only [BgpCli.pathValue, Option.ite_none_left_eq_some, Option.some.injEq] at hv
  obtain ⟨-, rfl⟩ := hv
  apply not_mem_joinTexts (by decide)
  intro t ht
  obtain ⟨n, _, rfl⟩ := List.mem_map.mp ht
  exact h.asPath id n

end BgpCli.Unbarred

/-! ## What is read back -/

theorem readable_lineField {name : String} {value : Text} (hname : '=' ∉ name.toList ∧ '|' ∉ name.toList)
    (hvalue : '|' ∉ value) : Readable '|' '=' (lineField name value) := ⟨hname.1, hname.2, hvalue⟩

namespace BgpUpdate

variable {u : Uninit} {b : BgpCli} {update : BgpUpdate}

theorem headField_readable (now : TimeT) (flag : NlriParse) : Readable '|' '=' (headField now flag) where
  sign := by simp [headField, not_mem_american]
  name := by simp [headField, not_mem_american]
  value := by cases flag <;> simp [headField, NlriParse.msgType]

theorem pathFields_readable (h : b.Unbarred) {origin : Text} (horigin : '|' ∉ origin) :
    ∀ f ∈ pathFields b update origin, Readable '|' '=' f := by
  simp only [pathFields, List.mem_append, List.mem_singleton, Option.mem_toList, Option.map_eq_some_iff,
    Option.bind_eq_some_iff]
  rintro f (((rfl | ⟨v, ⟨s, _, hv⟩, rfl⟩) | ⟨v, ⟨s, _, hv⟩, rfl⟩) | rfl)
  · exact readable_lineField (by decide) horigin
  · exact readable_lineField (by decide) (h.pathValue _ hv)
  · exact readable_lineField (by decide) (h.pathValue _ hv)
  · exact readable_lineField (by decide) (h.nextHop _ _)

theorem writtenFields_readable (h : b.Unbarred) {origin : Text} (horigin : '|' ∉ origin) :
    ∀ f ∈ writtenFields b update origin, Readable '|' '=' f := by
  have hnextHop := h.nextHop update.nlri.bgpId update.ipv4NextHop
  unfold writtenFields
  simp only
  split
  · exact pathFields_readable h horigin
  · rename_i v _ hv
    obtain ⟨s, _, hv⟩ := Option.bind_eq_some_iff.mp hv
    simp only [List.forall_mem_cons, List.not_mem_nil, false_implies, implies_true, and_true]
    refine ⟨readable_lineField (by decide) ?_, readable_lineField (by decide) hnextHop⟩
    simp [horigin, h.pathValue _ hv]
  · simp only [List.forall_mem_cons, List.not_mem_nil, false_implies, implies_true, and_true]
    apply readable_lineField (by decide)
    simp [horigin, hnextHop]

theorem flagFields_readable (h : b.Unbarred) : ∀ f ∈ flagFields b update, Readable '|' '=' f := by
  have hmed : Readable '|' '=' (lineField "med" (b.translateMed update.nlri.bgpId update.med)) :=
    readable_lineField (by decide) (h.med update.nlri.bgpId update.med)
  have hpref : Readable '|' '=' (lineField "local_pref" (b.translateLocalPref update.nlri.bgpId update.localPref)) :=
    readable_lineField (by decide) (h.localPref update.nlri.bgpId update.localPref)
  have hatomic : Readable '|' '=' (lineField "atomic_aggregate" "true".toList) :=
    readable_lineField (by decide) (by decide)
  simp only [flagFields, List.forall_mem_append]
  refine ⟨by simp [hmed, hpref], ?_⟩
  split
  · exact List.forall_mem_singleton.mpr hatomic
  · simp

theorem aggregatorFields_readable (h : b.Unbarred) {pre : String} (hpre : '=' ∉ pre.toList ∧ '|' ∉ pre.toList)
    (a : AggregatorSegment) : ∀ f ∈ aggregatorFields b update pre a, Readable '|' '=' f := by
  simp only [aggregatorFields, List.forall_mem_cons, List.not_mem_nil, false_implies, implies_true, and_true]
  refine ⟨readable_lineField ?_ (h.aggregator _ _), readable_lineField ?_ (h.asPath _ _)⟩
  · simp [hpre]
  · simp [hpre]

theorem restFields_readable (h : b.Unbarred) : ∀ f ∈ restFields u b update, Readable '|' '=' f := by
  have hcommunity : Readable '|' '=' (lineField "community" (b.communityValue u update.nlri.bgpId update.community)) :=
    readable_lineField (by decide) (h.communityValue update.nlri.bgpId u update.community)
  have hpfx : Readable '|' '=' (lineField "prefix" (ntoa update.nlri.pfx)) :=
    readable_lineField (by decide) (not_mem_ntoa rfl (by decide) update.nlri.pfx)
  have hlength : Readable '|' '=' (lineField "prefix_length" (decimal update.nlri.prefixLength.toNat)) :=
    readable_lineField (by decide) (not_mem_decimal rfl update.nlri.prefixLength.toNat)
  have haggregator : ∀ (o : Option AggregatorSegment) (pre : String), '=' ∉ pre.toList ∧ '|' ∉ pre.toList →
      ∀ f ∈ (o.map (aggregatorFields b update pre)).getD [], Readable '|' '=' f := by
    intro o pre hpre
    cases o with
    | none => simp
    | some a => exact aggregatorFields_readable h hpre a
  simp only [restFields, List.forall_mem_append]
  refine ⟨⟨⟨haggregator _ _ (by decide), haggregator _ _ (by decide)⟩, ?_⟩, ?_⟩
  · split <;> simp [hcommunity]
  · simp [hpfx, hlength]

end BgpUpdate

/-- Whatever an update carries, a reader of its line gets the fields as they are written. -/
theorem readLine_dumpText {u : Uninit} {now : TimeT} {b : BgpCli} {update : BgpUpdate} {flag : NlriParse} {text : Text}
    (hb : b.Unbarred) (h : dumpText u now b update flag = .ok text) :
    ∃ origin, originText update.origin = .ok origin ∧
      readLine text = BgpUpdate.headField now flag :: lineField "peer" (b.translateBgpId update.nlri.bgpId) ::
        (update.writtenFields b origin ++ update.flagFields b ++ update.restFields u b) := by
  obtain ⟨origin, horigin, rfl⟩ := dumpText_eq h
  refine ⟨origin, horigin, ?_⟩
  have hbars : ∀ t : Text, readLine (t ++ (if update.atomicAggregate then "|".toList else [])) = readLine t := by
    intro t
    split
    · exact (readFields_bar t []).trans (by simp [readLine])
    · rw [List.append_nil]
  have hpeer : Readable '|' '=' (lineField "peer" (b.translateBgpId update.nlri.bgpId)) :=
    readable_lineField (by decide) (hb.bgpId update.nlri.bgpId)
  have hwritten : ∀ f ∈ update.writtenFields b origin, Readable '|' '=' f :=
    BgpUpdate.writtenFields_readable hb (not_mem_originText horigin)
  have hhead : ∀ f ∈ [lineField "peer" (b.translateBgpId update.nlri.bgpId)] ++ update.writtenFields b origin,
      Readable '|' '=' f := by
    rw [List.forall_mem_append]
    exact ⟨List.forall_mem_singleton.mpr hpeer, hwritten⟩
  have hne : '|' ≠ '=' := by decide
  rw [← List.append_assoc, ← List.append_assoc, ← List.append_assoc, readLine,
    readFields_barred hne (BgpUpdate.restFields_readable hb), ← readLine, hbars, readLine,
    readFields_barred hne (BgpUpdate.flagFields_readable hb), readFields_barred hne hhead,
    readFields_write hne (BgpUpdate.headField_readable now flag)]
  simp

theorem hasPath_iff {b : BgpCli} {update : BgpUpdate} :
    update.HasPath ↔ (update.asPath.bind (b.pathValue update.nlri.bgpId)).isSome := by
  unfold BgpUpdate.HasPath
  cases update.asPath with
  | none => simp
  | some s => simp [BgpCli.pathValue]

/-- What is written is what is meant, or it is one field short. -/
theorem writtenFields_eq_iff {b : BgpCli} {update : BgpUpdate} (origin : Text) :
    update.writtenFields b origin = update.pathFields b origin ↔ update.HasPath := by
  rw [hasPath_iff (b := b), BgpUpdate.writtenFields]
  cases hpath : update.asPath.bind (b.pathValue update.nlri.bgpId) with
  | some v => simp
  | none =>
      simp only [Option.isSome_none, Bool.false_eq_true, iff_false]
      intro h
      have hlength := congrArg List.length h
      cases has4 : update.as4Path.bind (b.pathValue update.nlri.bgpId) with
      | none => simp [BgpUpdate.pathFields, hpath, has4] at hlength
      | some v => simp [BgpUpdate.pathFields, hpath, has4] at hlength

/-- Where no label has a bar in it, a reader of the line of an update gets the fields of the update just where the
update has an AS path with an element. -/
theorem lines_readable_iff {u : Uninit} {now : TimeT} {b : BgpCli} {update : BgpUpdate} {flag : NlriParse}
    {text origin : Text} (hb : b.Unbarred) (h : dumpText u now b update flag = .ok text)
    (horigin : originText update.origin = .ok origin) :
    readLine text = update.lineFields u now b flag origin ↔ update.HasPath := by
  obtain ⟨origin', horigin', hread⟩ := readLine_dumpText hb h
  cases horigin.symm.trans horigin'
  rw [hread, BgpUpdate.lineFields, List.cons.injEq, List.cons.injEq, List.append_cancel_right_eq,
    List.append_cancel_right_eq, writtenFields_eq_iff]
  simp

namespace Example

/-- A route of 10.0.0.0/8 with an AS path of one segment. -/
def pathed : BgpUpdate :=
  { asPath := some ⟨2, ⟨2, [65001, 65002], by decide⟩⟩, nlri := { pfx := 0x0a, prefixLength := 8 } }

end Example

theorem lines_readable_iff_pathed : ∃ text, dumpText {} 0 {} Example.pathed .update = .ok text ∧
    readLine text = Example.pathed.lineFields {} 0 {} .update "i".toList := by
  refine ⟨_, rfl, ?_⟩
  have hpath : Example.pathed.HasPath := ⟨_, rfl, by decide⟩
  exact (lines_readable_iff (b := {}) (by decide) rfl rfl).mpr hpath

end Log2Bgp
