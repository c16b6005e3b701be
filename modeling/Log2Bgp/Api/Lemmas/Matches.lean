import Log2Bgp.Api.Lemmas.Objects
import Log2Bgp.Cli.Lemmas.Tree

/-!
# The matches of a prefix
-/

namespace Log2Bgp

open Lib Lib.Json

variable {u : Uninit} {b : BgpCli} {entry : BgpUpdate} {outer : List Bracket}

/-! ## One match -/

theorem safe_netmaskOf {prefixLength : UInt8} :
    Safe (netmaskOf prefixLength) ↔ 1 ≤ prefixLength ∧ prefixLength ≤ 32 := by
  unfold netmaskOf
  rw [safe_ite, UInt8.le_iff_toNat_le, UInt8.le_iff_toNat_le]
  simp only [safe_ok, and_true]
  have hone : (1 : UInt8).toNat = 1 := rfl
  have hmax : (32 : UInt8).toNat = 32 := rfl
  omega

theorem safe_jsonMatch : Safe (jsonMatch u b entry) ↔
    (1 ≤ entry.nlri.prefixLength ∧ entry.nlri.prefixLength ≤ 32) ∧ Safe (jsonifyEntry u b entry) := by
  rw [← safe_netmaskOf]
  unfold jsonMatch
  exact safe_bind_iff fun netmask => safe_bind_pure _

/-- What comes in front of the current entry opens two objects. -/
theorem run_jsonMatch (outer : List Bracket)
    (hpeer : b.peerDoingAlias entry.nlri.bgpId → StringText (b.translateBgpId entry.nlri.bgpId)) {t : Text}
    (h : jsonMatch u b entry = .ok t) :
    ∃ current, jsonifyEntry u b entry = .ok current ∧ ∀ v mode, mode = .first ∨ mode = .value →
      run ⟨mode, .array :: outer⟩ (t ++ v) =
        run ⟨.firstKey, .object :: .object :: .array :: outer⟩ (current ++ (['}'] ++ v)) := by
  unfold jsonMatch at h
  obtain ⟨netmask, -, h⟩ := Checked.bind_eq_ok.mp h
  obtain ⟨current, hcurrent, h⟩ := Checked.bind_eq_ok.mp h
  refine ⟨current, hcurrent, fun v mode hmode => ?_⟩
  rw [← Except.ok.inj h]
  simp only [List.append_assoc]
  have hopen : ∀ w, run ⟨mode, .array :: outer⟩ (['{'] ++ w) = run ⟨.firstKey, .object :: .array :: outer⟩ w := by
    intro w
    obtain rfl | rfl := hmode
    · exact run_chunk _ rfl w
    · exact run_chunk _ rfl w
  refine (hopen _).trans ?_
  refine (run_chunk ⟨.string false .chars, .object :: .array :: outer⟩ rfl _).trans ?_
  refine (run_plain (plainText_ntoa _) _).trans ?_
  refine (run_chunk ⟨.key, .object :: .array :: outer⟩ rfl _).trans ?_
  refine (run_chunk ⟨.value, .object :: .array :: outer⟩ rfl _).trans ?_
  refine (run_decimal _ (by exact Or.inl rfl)).trans ?_
  refine (run_chunk ⟨.key, .object :: .array :: outer⟩ rfl _).trans ?_
  refine (run_chunk ⟨.string false .chars, .object :: .array :: outer⟩ rfl _).trans ?_
  refine (run_plain (plainText_ntoa _) _).trans ?_
  refine (run_chunk ⟨.key, .object :: .array :: outer⟩ rfl _).trans ?_
  refine (run_chunk ⟨.value, .object :: .array :: outer⟩ rfl _).trans ?_
  refine (run_decimal _ (by exact Or.inl rfl)).trans ?_
  refine (run_chunk ⟨.key, .object :: .array :: outer⟩ rfl _).trans ?_
  refine (run_chunk ⟨.value, .object :: .array :: outer⟩ rfl _).trans ?_
  refine (run_decimal _ (by exact Or.inl rfl)).trans ?_
  refine (run_chunk ⟨.key, .object :: .array :: outer⟩ rfl _).trans ?_
  refine (run_chunk ⟨.string false .chars, .object :: .array :: outer⟩ rfl _).trans ?_
  refine (run_plain (plainText_ntoa _) _).trans ?_
  refine (run_chunk ⟨.key, .object :: .array :: outer⟩ rfl _).trans ?_
  refine (run_chunk ⟨.value, .object :: .array :: outer⟩ rfl _).trans ?_
  refine (run_decimal _ (by exact Or.inl rfl)).trans ?_
  refine (run_chunk ⟨.key, .object :: .array :: outer⟩ rfl _).trans ?_
  refine (run_chunk ⟨.string false .chars, .object :: .array :: outer⟩ rfl _).trans ?_
  refine (run_plain (plainText_ntoa _) _).trans ?_
  refine (run_chunk ⟨.after, .object :: .array :: outer⟩ rfl _).trans ?_
  cases hpeer' : b.peerDoingAlias entry.nlri.bgpId with
  | true =>
      rw [if_pos rfl]
      simp only [List.append_assoc]
      refine (run_chunk ⟨.string false .chars, .object :: .array :: outer⟩ rfl _).trans ?_
      refine ((hpeer hpeer').run _).trans ?_
      refine (run_chunk ⟨.key, .object :: .array :: outer⟩ rfl _).trans ?_
      refine (run_chunk ⟨.value, .object :: .array :: outer⟩ rfl _).trans ?_
      exact run_chunk ⟨.firstKey, .object :: .object :: .array :: outer⟩ rfl _
  | false =>
      refine (run_chunk ⟨.key, .object :: .array :: outer⟩ rfl _).trans ?_
      refine (run_chunk ⟨.value, .object :: .array :: outer⟩ rfl _).trans ?_
      exact run_chunk ⟨.firstKey, .object :: .object :: .array :: outer⟩ rfl _

/-! ## What is read and what is printed -/

/-- A match, and the records of it where the history is asked for. -/
abbrev Found := BgpUpdate × Option (List BgpUpdate)

/-- A match with the records that `db_get_entries` finds for it. -/
def BgpCli.readFound (fuel : Nat) (dumpHistory : Bool) (b : BgpCli) (entry : BgpUpdate) : Checked (BgpCli × Found) :=
  if dumpHistory then do
    let (b, records) ← b.dbGetEntries fuel entry
    pure (b, entry, some records)
  else pure (b, entry, none)

/-- What is read for the matches, one after the other. -/
def BgpCli.readHistory (fuel : Nat) (dumpHistory : Bool) : List BgpUpdate → BgpCli → Checked (List Found)
  | [], _ => .ok []
  | entry :: rest, b => do
      let (b, f) ← b.readFound fuel dumpHistory entry
      let read ← readHistory fuel dumpHistory rest b
      pure (f :: read)

/-- The object of a match. -/
def Found.text (u : Uninit) (b : BgpCli) (f : Found) : Checked Text := do
  let text ← jsonMatch u b f.1
  match f.2 with
  | none => pure (text ++ ['}'])
  | some records => do
      let history ← jsonHistory u b records
      pure (text ++ history ++ ['}'])

/-- What stands for the attributes of a match and of its records makes up strings. -/
structure Found.Quotable (u : Uninit) (b : BgpCli) (f : Found) : Prop where
  peer : b.peerDoingAlias f.1.nlri.bgpId → StringText (b.translateBgpId f.1.nlri.bgpId)
  current : f.1.Quotable u b
  history : ∀ records ∈ f.2, ∀ r ∈ records, r.Quotable u b

/-- The netmask of a match can be shifted, and it and its records are printable. -/
structure Found.Printable (f : Found) : Prop where
  length : 1 ≤ f.1.nlri.prefixLength ∧ f.1.nlri.prefixLength ≤ 32
  current : f.1.Printable
  history : ∀ records ∈ f.2, ∀ r ∈ records, r.Printable

theorem Found.Printable.safe {f : Found} (h : f.Printable) : Safe (f.text u b) := by
  obtain ⟨text, htext⟩ := safe_jsonMatch.mpr ⟨h.length, h.current.safe⟩
  unfold Found.text
  rw [htext, Checked.ok_bind]
  cases hrecords : f.2 with
  | none => exact ⟨_, rfl⟩
  | some records =>
      refine (safe_bind_pure _).mpr (safe_jsonHistory.mpr fun r hr => ?_)
      exact (h.history records hrecords r hr).safe

theorem Found.elementRun {f : Found} (hq : f.Quotable u b) {t : Text} (h : f.text u b = .ok t) :
    (f.Printable ∧ ElementRun outer t (some ⟨.after, .array :: outer⟩)) ∨
      (¬ f.Printable ∧ ElementRun outer t none) := by
  unfold Found.text at h
  obtain ⟨text, htext, h⟩ := Checked.bind_eq_ok.mp h
  obtain ⟨hlength, -⟩ := safe_jsonMatch.mp ⟨text, htext⟩
  obtain ⟨current, hcurrent, hfront⟩ := run_jsonMatch outer hq.peer htext
  obtain ⟨hp, hmembers⟩ | ⟨hp, hstuck⟩ := jsonifyEntry_members_or_stuck hq.current hcurrent
  · have hopen : ∀ v mode, mode = .first ∨ mode = .value →
        run ⟨mode, .array :: outer⟩ (text ++ v) = run ⟨.after, .object :: .array :: outer⟩ v := by
      intro v mode hmode
      refine (hfront v mode hmode).trans ((hmembers _ _ (by exact Or.inr (Or.inr rfl))).trans ?_)
      exact run_chunk _ rfl v
    cases hrecords : f.2 with
    | none =>
        rw [hrecords] at h
        rw [← Except.ok.inj h]
        exact .inl ⟨⟨hlength, hp, by simp [hrecords]⟩, fun mode hmode => hopen _ mode hmode⟩
    | some records =>
        rw [hrecords] at h
        obtain ⟨history, hhistory, h⟩ := Checked.bind_eq_ok.mp h
        rw [← Except.ok.inj h, List.append_assoc]
        obtain ⟨hall, hrun⟩ | ⟨hbad, hrun⟩ := run_jsonHistory (hq.history records hrecords) hhistory ['}']
        · refine .inl ⟨⟨hlength, hp, ?_⟩, fun mode hmode => (hopen _ mode hmode).trans hrun⟩
          simpa [hrecords] using hall
        · refine .inr ⟨fun hprintable => ?_, fun mode hmode => (hopen _ mode hmode).trans hrun⟩
          obtain ⟨r, hr, hnot⟩ := hbad
          exact hnot (hprintable.history records hrecords r hr)
  · refine .inr ⟨fun hprintable => hp hprintable.current, fun mode hmode => ?_⟩
    have hnone : ∀ v, run ⟨mode, .array :: outer⟩ (text ++ v) = none :=
      fun v => (hfront v mode hmode).trans (hstuck _ _ (Or.inr (Or.inr rfl)))
    cases hrecords : f.2 with
    | none =>
        rw [hrecords] at h
        rw [← Except.ok.inj h]
        exact hnone _
    | some records =>
        rw [hrecords] at h
        obtain ⟨history, -, h⟩ := Checked.bind_eq_ok.mp h
        rw [← Except.ok.inj h, List.append_assoc]
        exact hnone _

/-! ## All matches -/

variable {fuel : Nat} {dumpHistory : Bool}

theorem dbGetEntries_db {b' : BgpCli} {records : List BgpUpdate}
    (h : b.dbGetEntries fuel entry = .ok (b', records)) : ∃ db, b' = { b with db := db } :=
  ⟨b'.db, dbGetEntries_same h⟩

theorem readFound_db {b' : BgpCli} {f : Found} (h : b.readFound fuel dumpHistory entry = .ok (b', f)) :
    ∃ db, b' = { b with db := db } := by
  cases dumpHistory with
  | false =>
      cases h
      exact ⟨b.db, rfl⟩
  | true =>
      obtain ⟨⟨b₁, records⟩, hget, h⟩ := Checked.bind_eq_ok.mp h
      cases h
      exact dbGetEntries_db hget

theorem jsonEntry_eq_ok {b' : BgpCli} {t : Text} :
    jsonEntry u fuel dumpHistory b entry = .ok (b', t) ↔
      ∃ f, b.readFound fuel dumpHistory entry = .ok (b', f) ∧ f.text u b = .ok t := by
  unfold jsonEntry BgpCli.readFound Found.text
  cases dumpHistory with
  | false => simp [Checked.bind_eq_ok, and_left_comm]
  | true =>
      simp only [if_true, Checked.bind_eq_ok, Checked.pure_eq_ok, Except.ok.injEq, Prod.mk.injEq]
      constructor
      · rintro ⟨text, htext, ⟨b₁, records⟩, hget, history, hhistory, rfl, rfl⟩
        obtain ⟨db, rfl⟩ := dbGetEntries_db hget
        exact ⟨_, ⟨_, hget, rfl, rfl⟩, text, htext, Checked.bind_eq_ok.mpr ⟨history, hhistory, rfl⟩⟩
      · rintro ⟨_, ⟨⟨b₁, records⟩, hget, rfl, rfl⟩, text, htext, h⟩
        obtain ⟨history, hhistory, ht⟩ := Checked.bind_eq_ok.mp h
        obtain ⟨db, rfl⟩ := dbGetEntries_db hget
        exact ⟨text, htext, _, hget, history, hhistory, rfl, Except.ok.inj ht⟩

theorem jsonEntries_eq_ok {found : List BgpUpdate} {texts : List Text} :
    (∃ b', jsonEntries u fuel dumpHistory found b = .ok (b', texts)) ↔
      ∃ read, b.readHistory fuel dumpHistory found = .ok read ∧
        List.Forall₂ (fun f t => f.text u b = .ok t) read texts := by
  induction found generalizing b texts with
  | nil =>
      constructor
      · rintro ⟨b', h⟩
        cases h
        exact ⟨[], rfl, .nil⟩
      · rintro ⟨read, hread, htexts⟩
        cases hread
        cases htexts
        exact ⟨b, rfl⟩
  | cons entry found ih =>
      simp only [jsonEntries, BgpCli.readHistory, Checked.bind_eq_ok]
      constructor
      · rintro ⟨b', ⟨b₁, t⟩, hentry, ⟨b₂, texts⟩, hrest, h⟩
        cases h
        obtain ⟨f, hread, ht⟩ := jsonEntry_eq_ok.mp hentry
        obtain ⟨db, rfl⟩ := readFound_db hread
        obtain ⟨read, hreads, htexts⟩ := ih.mp ⟨_, hrest⟩
        exact ⟨_, ⟨_, hread, _, hreads, rfl⟩, .cons ht htexts⟩
      · rintro ⟨_, ⟨⟨b₁, f⟩, hread, read, hreads, h⟩, htexts⟩
        cases h
        cases htexts with
        | cons ht htexts =>
            obtain ⟨db, rfl⟩ := readFound_db hread
            obtain ⟨b', hrest⟩ := ih.mpr ⟨read, hreads, htexts⟩
            exact ⟨b', _, jsonEntry_eq_ok.mpr ⟨f, hread, ht⟩, _, hrest, rfl⟩

end Log2Bgp
