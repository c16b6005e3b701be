import Log2Bgp.Api.Lemmas.Answers

/-!
# The replies of the API
-/

namespace Log2Bgp

open Lib Lib.Json

/-- Where every label that it prints makes up a string, `api_get_prefix` answers with one JSON value just
in case it is asked with an address, the history can be read, and the matches and their records have an age with
a date, no ASN in an AS4 path, an origin below 3, an aggregator if there is an AS4 aggregator, and a length from 1
to 32. A query for an origin AS does just in case it is asked with a length and reads no path of no ASNs. -/
theorem answersJson_iff (env : CliEnv) (b : BgpCli) (tokens : List Text) :
    ((∀ read, b.apiReads env.fuel tokens = .ok read → ∀ f ∈ read, f.Quotable env.uninit b) →
      (AnswersJson (apiGetPrefix env b tokens) ↔
        3 ≤ tokens.length ∧ ∃ read, b.apiReads env.fuel tokens = .ok read ∧ ∀ f ∈ read, f.Printable)) ∧
    ∀ query, AnswersJson (apiGetOriginAs query env b tokens) ↔ ∃ length, tokens[3]? = some length ∧
      ∀ e ∈ b.entries, query.Reads (stringToUint32 length) e → ∀ s, e.asPath = some s → s.segValue.length ≠ 0 :=
  ⟨answersJson_getPrefix env b tokens, fun query => answersJson_getOriginAs query env b tokens⟩

namespace Example

/-- The prefix 10.0.0.0/8 with a path of one ASN and an AS4 path. -/
def listed (as4Path : Option AsPathSegment) : BgpUpdate where
  asPath := some ⟨2, ⟨1, [65001], rfl⟩⟩
  as4Path := as4Path
  ipv4NextHop := 1
  nlri := {
    bgpId := 1
    pfx := memWord [10, 0, 0, 0]
    prefixHighest := memWord [10, 255, 255, 255]
    prefixLength := 8 }

/-- The prefix in the RIB, and a peer that gives its next hop a name. -/
def lister (as4Path : Option AsPathSegment) : BgpCli where
  threadQ := [{ bgpId := 1, pIp := [], isAliasing := true, translateAttribs := [⟨.nextHop, 1, "gateway".toList⟩] }]
  adjRibIn := (∅ : BgpAdjRib).insert (memWord [10, 0, 0, 0], 1) ⟨listed as4Path, ⟨0, 0, .established⟩⟩

def request : List Text := ["api-get".toList, "prefix".toList, "10.0.0.1".toList, "history".toList]

end Example

/-- A query without an address, and one for a prefix with an AS4 path. -/
theorem api_not_json :
    ¬ AnswersJson (apiGetPrefix { std := .stable } (.initBgp 1) ["api-get".toList]) ∧
    ¬ AnswersJson (apiGetPrefix { std := .stable } (Example.lister (some ⟨2, ⟨1, [70000], rfl⟩⟩)) Example.request) := by
  constructor
  · exact fun h => not_isJson_of_run (by decide) (answersJson_text.mp h)
  · rintro ⟨b', t, h, hjson⟩
    have hstuck : (apiGetPrefix { std := .stable } (Example.lister (some ⟨2, ⟨1, [70000], rfl⟩⟩)) Example.request).toOption.map
        (fun r => match r.2 with
          | .text t => (run start t).isNone
          | _ => false) = some true := by
      decide +kernel
    rw [h] at hstuck
    exact not_isJson_of_run (Option.isNone_iff_eq_none.mp (Option.some.inj hstuck)) hjson

theorem answersJson_iff_history :
    AnswersJson (apiGetPrefix { std := .stable } (Example.lister none) Example.request) := by
  have hreads : (Example.lister none).apiReads 1 Example.request = .ok [(Example.listed none, some [])] := by
    decide +kernel
  have hpeer : PlainText ((Example.lister none).translateBgpId 1) := plainText_of_all (by decide +kernel)
  have hpath : PlainText ((Example.lister none).translateAsPath 1 65001) := plainText_of_all (by decide +kernel)
  have hnextHop : PlainText ((Example.lister none).translateIpv4NextHop 1 1) := plainText_of_all (by decide +kernel)
  refine ((answersJson_iff { std := .stable } (Example.lister none) Example.request).1 ?_).mpr ?_
  · intro read hread f hf
    cases hreads.symm.trans hread
    cases List.mem_singleton.mp hf
    refine ⟨fun _ => hpeer.stringText, ⟨?_, ?_, hnextHop.stringText, ?_, ?_⟩, ?_⟩
    · rintro s ⟨⟩ asn hasn
      cases List.mem_singleton.mp hasn
      exact hpath.stringText
    · rintro s ⟨⟩
    · rintro a (⟨⟨⟩⟩ | ⟨⟨⟩⟩)
    · rintro c ⟨⟩
    · rintro records ⟨⟩ r ⟨⟩
  · refine ⟨by decide, _, hreads, ?_⟩
    intro f hf
    cases List.mem_singleton.mp hf
    exact ⟨by decide, ⟨by decide, by decide, by rintro s ⟨⟩, by rintro ⟨⟩⟩, by rintro records ⟨⟩ r ⟨⟩⟩

end Log2Bgp
