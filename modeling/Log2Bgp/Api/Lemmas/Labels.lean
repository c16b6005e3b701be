import Log2Bgp.Lib.Json.Chunks
import Log2Bgp.Model.Report
import Mathlib.Data.List.Forall2

/-!
# Labels and arrays in JSON
-/

namespace Log2Bgp

open Lib Lib.Json

/-- What stands for the attributes of an entry makes up strings. -/
structure BgpUpdate.Quotable (u : Uninit) (b : BgpCli) (entry : BgpUpdate) : Prop where
  asPath : ∀ s ∈ entry.asPath, ∀ asn ∈ s.asns, StringText (b.translateAsPath entry.nlri.bgpId asn)
  as4Path : ∀ s ∈ entry.as4Path, ∀ asn ∈ s.asns, StringText (b.translateAsPath entry.nlri.bgpId asn)
  nextHop : StringText (b.translateIpv4NextHop entry.nlri.bgpId entry.ipv4NextHop)
  aggregator : ∀ a, entry.aggregator = some a ∨ entry.as4Aggregator = some a →
    StringText (b.translateAggregator entry.nlri.bgpId a.origin) ∧
      StringText (b.translateAsPath entry.nlri.bgpId a.asn)
  community : ∀ c ∈ entry.community.elems, StringText (b.translateAsPath entry.nlri.bgpId c.asn) ∧
    StringText (b.translateCommunityValue u entry.nlri.bgpId c.value.toUInt16)

theorem plainText_originText {origin : UInt8} {t : Text} (h : originText origin = .ok t) : PlainText t := by
  unfold originText at h
  split at h
  · rename_i text htext
    cases h
    have hmem := List.mem_of_getElem? htext
    have hall : ∀ text ∈ bgpOriginCodeText, text.toList.all isPlain = true := by decide
    exact plainText_of_all (hall text hmem)
  · cases h

/-! ## Arrays -/

variable {outer : List Bracket} {ts : List Text}

/-- What a text does where an element of an array is due. -/
def ElementRun (outer : List Bracket) (t : Text) (s : Option State) : Prop :=
  ∀ mode, mode = .first ∨ mode = .value → run ⟨mode, .array :: outer⟩ t = s

theorem exists_joinTexts (sep t : Text) (ts : List Text) : ∃ u, joinTexts sep (t :: ts) = t ++ u := by
  cases ts with
  | nil => exact ⟨[], (List.append_nil t).symm⟩
  | cons t' ts => exact ⟨_, rfl⟩

theorem run_joinTexts (hts : ∀ t ∈ ts, ElementRun outer t (some ⟨.after, .array :: outer⟩)) (u : Text) :
    run ⟨.first, .array :: outer⟩ (joinTexts ",".toList ts ++ ("]".toList ++ u)) = run ⟨.after, outer⟩ u := by
  have hvalue : ∀ mode, mode = .first ∨ mode = .value → ts ≠ [] →
      run ⟨mode, .array :: outer⟩ (joinTexts ",".toList ts) = some ⟨.after, .array :: outer⟩ := by
    intro mode hmode hne
    induction ts generalizing mode with
    | nil => exact absurd rfl hne
    | cons t ts ih =>
        rw [List.forall_mem_cons] at hts
        cases ts with
        | nil => exact hts.1 mode hmode
        | cons t' ts =>
            refine (run_chunk _ (hts.1 mode hmode) _).trans ?_
            exact ih hts.2 .value (.inr rfl) (List.cons_ne_nil _ _)
  cases ts with
  | nil => rfl
  | cons t ts =>
      refine (run_chunk _ (hvalue .first (.inl rfl) (List.cons_ne_nil _ _)) _).trans ?_
      rfl

theorem run_joinTexts_stuck
    (hts : ∀ t ∈ ts, ElementRun outer t (some ⟨.after, .array :: outer⟩) ∨ ElementRun outer t none)
    (hbad : ∃ t ∈ ts, ElementRun outer t none) {mode : Mode} (hmode : mode = .first ∨ mode = .value) :
    run ⟨mode, .array :: outer⟩ (joinTexts ",".toList ts) = none := by
  induction ts generalizing mode with
  | nil => simp at hbad
  | cons t ts ih =>
      rw [List.forall_mem_cons] at hts
      obtain ⟨hgood | hstuck, hrest⟩ := hts
      · have hbad' : ∃ t ∈ ts, ElementRun outer t none := by
          obtain ⟨t', ht', hstuck⟩ := hbad
          rcases List.mem_cons.mp ht' with rfl | ht'
          · cases (hgood mode hmode).symm.trans (hstuck mode hmode)
          · exact ⟨t', ht', hstuck⟩
        cases ts with
        | nil => simp at hbad'
        | cons t' ts =>
            refine (run_chunk _ (hgood mode hmode) _).trans ?_
            exact ih hrest hbad' (.inr rfl)
      · cases ts with
        | nil => exact hstuck mode hmode
        | cons t' ts => exact run_stuck (hstuck mode hmode) _

/-- Texts of things that are elements, or not, as a property of the things says. -/
theorem run_array {α : Type} {p : α → Prop} {xs : List α}
    (h : List.Forall₂ (fun x t => (p x ∧ ElementRun outer t (some ⟨.after, .array :: outer⟩)) ∨
      (¬ p x ∧ ElementRun outer t none)) xs ts) (u : Text) :
    ((∀ x ∈ xs, p x) ∧
      run ⟨.first, .array :: outer⟩ (joinTexts ",".toList ts ++ ("]".toList ++ u)) = run ⟨.after, outer⟩ u) ∨
    ((∃ x ∈ xs, ¬ p x) ∧
      run ⟨.first, .array :: outer⟩ (joinTexts ",".toList ts ++ ("]".toList ++ u)) = none) := by
  have hcases : ((∀ x ∈ xs, p x) ∧ ∀ t ∈ ts, ElementRun outer t (some ⟨.after, .array :: outer⟩)) ∨
      ((∃ x ∈ xs, ¬ p x) ∧ (∃ t ∈ ts, ElementRun outer t none) ∧
        ∀ t ∈ ts, ElementRun outer t (some ⟨.after, .array :: outer⟩) ∨ ElementRun outer t none) := by
    induction h with
    | nil => simp
    | cons hhead _ ih =>
        simp only [List.forall_mem_cons, List.exists_mem_cons_iff]
        obtain ⟨hp, hgood⟩ | ⟨hp, hstuck⟩ := hhead
        · obtain ⟨hall, hts⟩ | ⟨hbad, hstuck, hts⟩ := ih
          · exact .inl ⟨⟨hp, hall⟩, hgood, hts⟩
          · exact .inr ⟨.inr hbad, .inr hstuck, .inl hgood, hts⟩
        · refine .inr ⟨.inl hp, .inl hstuck, .inr hstuck, ?_⟩
          obtain ⟨-, hts⟩ | ⟨-, -, hts⟩ := ih
          · exact fun t ht => .inl (hts t ht)
          · exact hts
  obtain ⟨hall, hts⟩ | ⟨hbad, hstuck, hts⟩ := hcases
  · exact .inl ⟨hall, run_joinTexts hts u⟩
  · exact .inr ⟨hbad, run_stuck (run_joinTexts_stuck hts hstuck (.inl rfl)) _⟩

/-- A quote opens a string wherever a value is due. -/
theorem elementRun_of_string {t : Text} {s : Option State}
    (h : run ⟨.string false .chars, .array :: outer⟩ t = s) : ElementRun outer ("\"".toList ++ t) s := by
  intro mode hmode
  obtain rfl | rfl := hmode
  · exact (run_chunk ⟨.string false .chars, .array :: outer⟩ rfl t).trans h
  · exact (run_chunk ⟨.string false .chars, .array :: outer⟩ rfl t).trans h

theorem elementRun_string {t : Text} (ht : StringText t) :
    ElementRun outer ("\"".toList ++ (t ++ "\"".toList)) (some ⟨.after, .array :: outer⟩) :=
  elementRun_of_string (ht.run _)

end Log2Bgp
