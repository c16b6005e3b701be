import Log2Bgp.Reports.Lemmas.Entries

/-!
# Reports on the RIB

What the commands and the API that read the RIB and its history may rely on.
-/

namespace Log2Bgp

open Lib

/-- The readers of the RIB and of its history touch only what exists, all along a run of UPDATE bodies and queries, just
in case every body that is entered and announces anything has an ORIGIN below 3 and an AS_PATH with an ASN: where the
routes that are replaced are recorded at the end of the file. -/
theorem readers_safe_iff (cfg : BgpConfig) (threadQ : List BgpPeer) (acts : List ReportAction)
    (heof : AllAdmissible ReportAction.step ReportAction.RecordsAtEof acts (.configured cfg threadQ)) :
    Always ReportAction.step Bgp.ReadersSafe acts (.configured cfg threadQ) ↔
      AllAdmissible ReportAction.step ReportAction.Keeps acts (.configured cfg threadQ) :=
  always_readersSafe_iff (Bgp.configured_readable cfg threadQ).1 (Bgp.configured_readable cfg threadQ).2 acts heof

namespace Example

/-- One peer, known as 10.0.0.1. -/
def reader : Bgp := .configured { AS := 1 } [{ bgpId := memWord [10, 0, 0, 1] }]

/-- Announces 10.0.0.0/8 with an ORIGIN only. -/
def noPath : QueueData := ⟨[0, 0, 0, 4, 0x40, 1, 1, 0, 8, 10], by decide, ⟨0, 0, .established⟩⟩

/-- Announces 10.0.0.0/8 with a path of no ASNs. -/
def emptyPath : QueueData :=
  ⟨[0, 0, 0, 9, 0x40, 1, 1, 0, 0x40, 2, 2, 2, 0, 8, 10], by decide, ⟨0, 0, .established⟩⟩

/-- Announces 10.0.0.0/8 with an origin that has no text. -/
def noText : QueueData :=
  ⟨[0, 0, 0, 11, 0x40, 1, 1, 3, 0x40, 2, 4, 2, 1, 251, 255, 8, 10], by decide, ⟨0, 0, .established⟩⟩

/-- Announces 10.0.0.0/8 with all that its readers need. -/
def complete : QueueData :=
  ⟨[0, 0, 0, 11, 0x40, 1, 1, 2, 0x40, 2, 4, 2, 1, 251, 255, 8, 10], by decide, ⟨0, 0, .established⟩⟩

/-- Three announcements of one prefix, with a query of its history before the last one. -/
def replacements : List ReportAction :=
  [.update ⟨1, 0, complete⟩, .update ⟨2, 0, complete⟩,
    .query 14 { nlri := { pfx := memWord [10, 0, 0, 0], bgpId := memWord [10, 0, 0, 1] } }, .update ⟨3, 0, complete⟩]

theorem complete_readable : complete.Readable := by
  have hview : (procMessage 1 1 complete {}).toOption.map (fun q => q.adjRibInQ.map fun r => decide r.update.Readable) =
      some [true] := by
    decide +kernel
  obtain ⟨q, hq, hview⟩ := Option.map_eq_some_iff.mp hview
  obtain ⟨r, hr⟩ : ∃ r, q.adjRibInQ = [r] := by
    cases hqueue : q.adjRibInQ with
    | nil => simp [hqueue] at hview
    | cons r rest =>
        cases rest with
        | nil => exact ⟨r, rfl⟩
        | cons _ _ => simp [hqueue] at hview
  rw [hr] at hview
  obtain ⟨-, -, -, hreadable⟩ := procMessage_settles (Checked.toOption_eq_some.mp hq)
  exact (hreadable r (by simp [hr])).mp (by simpa using hview)

end Example

/-- One UPDATE without an AS_PATH, with an empty one or with an unknown origin. -/
theorem readers_unsafe :
    ¬ Always ReportAction.step Bgp.ReadersSafe [.update ⟨1, 0, Example.noPath⟩] Example.reader ∧
      ¬ Always ReportAction.step Bgp.ReadersSafe [.update ⟨1, 0, Example.emptyPath⟩] Example.reader ∧
      ¬ Always ReportAction.step Bgp.ReadersSafe [.update ⟨1, 0, Example.noText⟩] Example.reader := by
  have hview : ∀ data ∈ [Example.noPath, Example.emptyPath, Example.noText],
      (UpdateRead.step Example.reader ⟨1, 0, data⟩).map (fun b =>
        (b.adjRibIn[(memWord [10, 0, 0, 0], memWord [10, 0, 0, 1])]?).map
          fun r => decide r.update.Readable) = some (some false) := by
    decide +kernel
  have hall : ∀ data ∈ [Example.noPath, Example.emptyPath, Example.noText],
      ¬ Always ReportAction.step Bgp.ReadersSafe [.update ⟨1, 0, data⟩] Example.reader := by
    intro data hdata halways
    obtain ⟨b', hb', hview⟩ := Option.map_eq_some_iff.mp (hview data hdata)
    obtain ⟨r, hr, hunreadable⟩ := Option.map_eq_some_iff.mp hview
    have hsafe : b'.ReadersSafe := (halways.2 b' hb').first
    exact of_decide_eq_false hunreadable (hsafe.readable _ r hr)
  exact ⟨hall _ (by simp), hall _ (by simp), hall _ (by simp)⟩

/-- The two routes that are replaced can be read back, also where the history is queried in between. -/
theorem readers_safe_iff_replaced :
    Always ReportAction.step Bgp.ReadersSafe Example.replacements Example.reader ∧
      (runAll ReportAction.step Example.replacements Example.reader).map (fun b =>
        (b.db.indexes (memWord [10, 0, 0, 0], memWord [10, 0, 0, 1])).length) = some 2 := by
  have heof : AllAdmissible ReportAction.step ReportAction.RecordsAtEof Example.replacements Example.reader := by
    decide +kernel
  have hupdate : ∀ (now : TimeT) (b : Bgp), UpdateRead.Keeps b ⟨now, 0, Example.complete⟩ :=
    fun _ _ _ _ => Example.complete_readable
  refine ⟨?_, by decide +kernel⟩
  refine (readers_safe_iff _ _ Example.replacements heof).mpr ⟨hupdate 1 _, fun b₁ _ => ?_⟩
  exact ⟨hupdate 2 b₁, fun b₂ _ => ⟨trivial, fun b₃ _ => ⟨hupdate 3 b₃, fun _ _ => trivial⟩⟩⟩

end Log2Bgp
