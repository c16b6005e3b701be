import Log2Bgp.Api.Lemmas.Matches
import Log2Bgp.Cli.Lemmas.Tokens
import Log2Bgp.Cli.Lemmas.Tree

/-!
# Answers of the API
-/

namespace Log2Bgp

open Lib Lib.Json

/-- A command answers with one JSON value. -/
def AnswersJson (x : Cli (BgpCli × Reply)) : Prop := ∃ b t, x = .ok (b, .text t) ∧ IsJson t

/-- What `api_get_prefix` reads of the RIB and of the database. -/
def BgpCli.apiReads (fuel : Nat) (b : BgpCli) (tokens : List Text) : Checked (List Found) :=
  match tokens[2]?.bind aton with
  | none => .ok []
  | some addr => b.readHistory fuel (tokens.drop 3 = ["history".toList]) (b.prefixMatches addr)

variable {u : Uninit} {b : BgpCli} {fuel : Nat} {tokens : List Text}

theorem answersJson_text {t : Text} : AnswersJson (pure (b, .text t)) ↔ IsJson t := by
  constructor
  · rintro ⟨b', t', h, ht⟩
    cases h
    exact ht
  · exact fun ht => ⟨b, t, rfl, ht⟩

/-! ## Replies -/

theorem isJson_of_run {t : Text} (h : run start t = some ⟨.after, []⟩) : IsJson t :=
  accepts_iff.mp ⟨_, h, rfl⟩

theorem not_isJson_of_run {t : Text} (h : run start t = none) : ¬ IsJson t := by
  rw [← accepts_iff]
  rintro ⟨s, hs, -⟩
  cases h.symm.trans hs

theorem run_entries (ts : List Text) :
    run start (['{'] ++ "\"entries\":[".toList ++ joinTexts ",".toList ts ++ "]".toList ++ ['}']) =
      run ⟨.first, [.array, .object]⟩ (joinTexts ",".toList ts ++ ("]".toList ++ ['}'])) := by
  simp only [List.append_assoc]
  refine (run_chunk ⟨.firstKey, [.object]⟩ rfl _).trans ?_
  exact run_chunk ⟨.first, [.array, .object]⟩ rfl _

theorem asksHistory_eq (a c ip : Text) (rest : List Text) :
    asksHistory (a :: c :: ip :: rest) 4 = .ok (decide (rest = ["history".toList])) := by
  match rest with
  | [] => rfl
  | [t] => exact congrArg Except.ok (decide_eq_decide.mpr (by simp only [List.cons.injEq, and_true]))
  | t :: t' :: rest =>
      have hother : ¬ t :: t' :: rest = ["history".toList] := by simp only [List.cons.injEq, reduceCtorEq, and_false, not_false_eq_true]
      rw [decide_eq_false hother]
      exact if_neg (by simp only [List.length_cons]; omega)

/-! ## Prefixes -/

/-- The entries of a reply make it one value just in case every match is printable. -/
theorem isJson_entries {read : List Found} (hq : ∀ f ∈ read, f.Quotable u b) {texts : List Text}
    (h : List.Forall₂ (fun f t => Found.text u b f = .ok t) read texts) :
    IsJson (['{'] ++ "\"entries\":[".toList ++ joinTexts ",".toList texts ++ "]".toList ++ ['}']) ↔
      ∀ f ∈ read, f.Printable := by
  have heach : List.Forall₂ (fun (f : Found) t =>
      (f.Printable ∧ ElementRun [.object] t (some ⟨.after, [.array, .object]⟩)) ∨
        (¬ f.Printable ∧ ElementRun [.object] t none)) read texts :=
    ((List.forall₂_and_left _ _).mpr ⟨hq, h⟩).imp fun _ _ hf => Found.elementRun hf.1 hf.2
  obtain ⟨hall, hrun⟩ | ⟨⟨f, hf, hnot⟩, hrun⟩ := run_array heach ['}']
  · exact iff_of_true (isJson_of_run ((run_entries texts).trans hrun)) hall
  · exact iff_of_false (not_isJson_of_run ((run_entries texts).trans hrun)) fun hall => hnot (hall f hf)

theorem answersJson_matches {dumpHistory : Bool} {found : List BgpUpdate}
    (hq : ∀ read, b.readHistory fuel dumpHistory found = .ok read → ∀ f ∈ read, f.Quotable u b) :
    AnswersJson (do
      let (b', texts) ← Cli.ofChecked (jsonEntries u fuel dumpHistory found b)
      pure (b', .text (['{'] ++ "\"entries\":[".toList ++ joinTexts ",".toList texts ++ "]".toList ++ ['}']))) ↔
    ∃ read, b.readHistory fuel dumpHistory found = .ok read ∧ ∀ f ∈ read, f.Printable := by
  constructor
  · rintro ⟨b', t, h, hjson⟩
    obtain ⟨⟨b₁, texts⟩, hentries, h⟩ := Checked.bind_eq_ok.mp h
    cases h
    obtain ⟨read, hread, htexts⟩ := jsonEntries_eq_ok.mp ⟨b', Cli.ofChecked_eq_ok.mp hentries⟩
    exact ⟨read, hread, (isJson_entries (hq read hread) htexts).mp hjson⟩
  · rintro ⟨read, hread, hprintable⟩
    obtain ⟨texts, htexts⟩ := safe_mapM.mpr fun f hf => (hprintable f hf).safe (u := u) (b := b)
    rw [mapM_eq_ok] at htexts
    obtain ⟨b', hentries⟩ := jsonEntries_eq_ok.mpr ⟨read, hread, htexts⟩
    rw [hentries]
    exact ⟨b', _, rfl, (isJson_entries (hq read hread) htexts).mpr hprintable⟩

theorem answersJson_getPrefix (env : CliEnv) (b : BgpCli) (tokens : List Text)
    (hq : ∀ read, b.apiReads env.fuel tokens = .ok read → ∀ f ∈ read, f.Quotable env.uninit b) :
    AnswersJson (apiGetPrefix env b tokens) ↔
      3 ≤ tokens.length ∧ ∃ read, b.apiReads env.fuel tokens = .ok read ∧ ∀ f ∈ read, f.Printable := by
  by_cases hlen : tokens.length < 3
  · refine iff_of_false ?_ fun h => absurd h.1 (Nat.not_le.mpr hlen)
    unfold apiGetPrefix
    rw [if_pos hlen]
    refine fun h => not_isJson_of_run ?_ (answersJson_text.mp h)
    decide
  · rw [and_iff_right (Nat.not_lt.mp hlen)]
    rcases tokens with _ | ⟨a, _ | ⟨c, _ | ⟨ip, rest⟩⟩⟩
    · exact absurd (by decide) hlen
    · exact absurd (by simp) hlen
    · exact absurd (by simp) hlen
    have hip : tokenAt (a :: c :: ip :: rest) 2 = .ok ip := rfl
    have hreads : b.apiReads env.fuel (a :: c :: ip :: rest) = match aton ip with
        | none => .ok []
        | some addr => b.readHistory env.fuel (rest = ["history".toList]) (b.prefixMatches addr) := rfl
    unfold apiGetPrefix
    rw [if_neg hlen, hip, Checked.ok_bind]
    cases haddr : aton ip with
    | none =>
        rw [haddr] at hreads
        refine iff_of_true (answersJson_text.mpr (isJson_of_run ?_)) ⟨[], hreads, by simp⟩
        decide
    | some addr =>
        rw [haddr] at hreads
        rw [hreads] at hq ⊢
        simp only [asksHistory_eq, Checked.ok_bind]
        by_cases hfound : b.prefixMatches addr = []
        · rw [if_pos hfound, hfound]
          refine iff_of_true (answersJson_text.mpr (isJson_of_run ?_)) ⟨[], rfl, by simp⟩
          decide
        · rw [if_neg hfound]
          exact answersJson_matches hq

/-! ## Origins -/

theorem isJson_prefixes (found : List (UInt32 × UInt8)) :
    IsJson (['{'] ++ "\"entries\":[".toList ++ joinTexts ",".toList (found.map fun m =>
      "\"".toList ++ ntoa m.1 ++ "/".toList ++ decimal m.2.toNat ++ "\"".toList) ++ "]".toList ++ ['}']) := by
  refine isJson_of_run ((run_entries _).trans (run_joinTexts ?_ _))
  intro t ht
  obtain ⟨m, -, rfl⟩ := List.mem_map.mp ht
  have htext : PlainText (ntoa m.1 ++ "/".toList ++ decimal m.2.toNat) :=
    ((plainText_ntoa _).append (plainText_of_all (by decide))).append (plainText_decimal _)
  have helement : ElementRun [.object] _ _ := elementRun_string htext.stringText
  simpa using helement

theorem answersJson_getOriginAs (query : OriginQuery) (env : CliEnv) (b : BgpCli) (tokens : List Text) :
    AnswersJson (apiGetOriginAs query env b tokens) ↔ ∃ length, tokens[3]? = some length ∧
      ∀ e ∈ b.entries, query.Reads (stringToUint32 length) e → ∀ s, e.asPath = some s → s.segValue.length ≠ 0 := by
  unfold apiGetOriginAs
  by_cases hlen : tokens.length < 4
  · rw [if_pos hlen, List.getElem?_eq_none (Nat.le_of_lt_succ hlen)]
    refine iff_of_false (fun h => not_isJson_of_run ?_ (answersJson_text.mp h)) (by simp)
    decide
  · rw [if_neg hlen]
    obtain ⟨asn, -, hasn⟩ := Cli.tokenAt_of_lt (show 2 < tokens.length by omega)
    obtain ⟨length, hlength, hread⟩ := Cli.tokenAt_of_lt (show 3 < tokens.length by omega)
    rw [hasn, Checked.ok_bind, hread, Checked.ok_bind, hlength]
    have hsafe : Safe (originMatches query b (stringToUint32 asn) (stringToUint32 length)) ↔ _ := safe_originMatches
    simp only [safe_originMatch] at hsafe
    simp only [Option.some.injEq, exists_eq_left', ← hsafe]
    constructor
    · rintro ⟨b', t, h, -⟩
      obtain ⟨found, hfound, -⟩ := Checked.bind_eq_ok.mp h
      exact ⟨found, Cli.ofChecked_eq_ok.mp hfound⟩
    · rintro ⟨found, hfound⟩
      rw [hfound]
      exact answersJson_text.mpr (isJson_prefixes found)

end Log2Bgp
