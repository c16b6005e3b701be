import Log2Bgp.Cli.Lemmas.Tree
import Log2Bgp.Cli.Searches

/-!
# What the port of the API can run

The gate of the port looks at the first token of a request. Whether the function that is run behind it is one of the
API rests on the search for its tokens, which shares `current_token` with those of the other connections.
-/

namespace Log2Bgp

open Lib

/-! ## Requests -/

inductive Port where
  | cli | api
deriving DecidableEq, Repr

/-- A line that a connection has read. -/
structure Request where
  port : Port
  line : Text
deriving DecidableEq, Repr

namespace Request

/-- The port hands the line on to `ExecuteLine`, and that searches for its tokens. -/
def HandedOn (r : Request) : Prop :=
  match r.port with
  | .cli => cStr r.line ≠ []
  | .api => isApiCall r.line = .ok true

instance : DecidablePred HandedOn := fun r => by
  unfold HandedOn
  cases r.port <;> infer_instance

def tokens (r : Request) : List Text := words (cStr r.line)

/-- What `ExecuteLine` does with the command that its search has returned. -/
def execute (env : CliEnv) (b : BgpCli) (r : Request) : Option Command → Cli (BgpCli × Reply)
  | none => pure (b, .text (cStr r.line ++ " % invalid command.\n".toList))
  | some cmd => runFunc cmd.func env b r.tokens

/-- A search by itself returns the command of the line. -/
theorem executeLine_eq {r : Request} (h : cStr r.line ≠ []) (env : CliEnv) (b : BgpCli) :
    executeLine env b (cStr r.line) = r.execute env b (findCommand commands r.tokens) := by
  rw [executeLine, if_neg h, tokens]
  cases findCommand commands (words (cStr r.line)) with
  | none => rfl
  | some cmd => rfl

/-- The first token of a request that the gate lets through is also the first that its search gets. -/
theorem tokens_of_handedOn {r : Request} (hport : r.port = .api) (h : r.HandedOn) :
    ∃ ws, r.tokens = "api-get".toList :: ws := by
  rw [HandedOn, hport] at h
  obtain ⟨t, ts, hwords, hget⟩ := isApiCall_eq_ok.mp h
  rw [of_decide_eq_true hget.symm] at hwords
  exact words_cStr hwords (by decide)

/-- What the port of the API does with a line in its buffer: it is handed on, and a search by itself decides what is
run, or it is refused and nothing is run. -/
def Gated (r : Request) : Prop :=
  (r.HandedOn ∧ ∀ env b len wbuffer, 0 < len → toNarrowStr wbuffer = r.line →
    answerRequest env b len wbuffer = r.execute env b (findCommand commands r.tokens)) ∨
  (isApiCall r.line = .ok false ∧ ∀ env b len wbuffer, toNarrowStr wbuffer = r.line →
    answerRequest env b len wbuffer = .ok (b, .text "bgpd: illegal API call".toList))

theorem gated_of_api {r : Request} (hport : r.port = .api) (htoken : words r.line ≠ []) : r.Gated := by
  obtain ⟨t, ts, ht⟩ := List.exists_cons_of_ne_nil htoken
  have hlegal : isApiCall r.line = .ok (decide (t = "api-get".toList)) := isApiCall_eq_ok.mpr ⟨t, ts, ht, rfl⟩
  by_cases hget : t = "api-get".toList
  · left
    have hon : r.HandedOn := by rw [HandedOn, hport, hlegal, decide_eq_true hget]
    refine ⟨hon, ?_⟩
    intro env b len wbuffer hlen hbuffer
    have hline : cStr r.line ≠ [] := by
      obtain ⟨ws, hws⟩ := tokens_of_handedOn hport hon
      intro hnil
      rw [tokens, hnil] at hws
      cases hws
    rw [answerRequest, if_pos hlen, hbuffer, hlegal, decide_eq_true hget, Checked.ok_bind]
    exact executeLine_eq hline env b
  · right
    rw [decide_eq_false hget] at hlegal
    refine ⟨hlegal, ?_⟩
    intro env b len wbuffer hbuffer
    rw [answerRequest, hbuffer, hlegal]
    split
    · rfl
    · rfl

end Request

/-! ## Their searches -/

/-- The search of a request. -/
structure RequestSearch where
  request : Request
  search : Search

namespace RequestSearch

def next (cs : List Command) (t : RequestSearch) (current : Option Command) :
    Option (RequestSearch × Option (Option Command)) :=
  (t.search.next cs current).map fun n => (⟨t.request, n.1⟩, n.2)

/-- The request came in on the port of the API. -/
def OfApi (t : RequestSearch) : Prop := t.request.port = .api

instance : DecidablePred OfApi := fun t => inferInstanceAs (Decidable (t.request.port = .api))

/-- It is one of the API that is under way. -/
def ApiBusy (t : RequestSearch) : Prop := t.OfApi ∧ t.search.Busy

instance : DecidablePred ApiBusy := fun t => inferInstanceAs (Decidable (t.OfApi ∧ t.search.Busy))

/-- What becomes of a search for a request to the API: it goes to no bad place, and what it returns is one of the four
functions of the API, which changes no more of the instance than the position in the database. -/
def Confined (t : RequestSearch) : Prop :=
  t.search.phase ≠ .fault ∧ ∀ found, t.search.phase = .returned found →
    (∃ cmd, found = some cmd ∧ cmd.func ∈ apiFuncs) ∧
      ∀ env b b' reply, t.request.execute env b found = .ok (b', reply) → b.SameButDb b'

/-- The function of the command that the search has returned. -/
def runs (t : RequestSearch) : Option CmdBgpFunc :=
  match t.search.phase with
  | .returned found => found.map (·.func)
  | _ => none

theorem runs_eq_some {t : RequestSearch} {f : CmdBgpFunc} :
    t.runs = some f ↔ ∃ cmd, t.search.phase = .returned (some cmd) ∧ cmd.func = f := by
  rw [runs]
  cases t.search.phase with
  | returned found => simp
  | _ => simp

variable {cs : List Command} {current : Option Command}

theorem next_cases {t : RequestSearch} {n : RequestSearch × Option (Option Command)} (h : t.next cs current = some n) :
    ∃ n', t.search.next cs current = some n' ∧ n = (⟨t.request, n'.1⟩, n'.2) := by
  obtain ⟨n', hn', rfl⟩ := Option.map_eq_some_iff.mp h
  exact ⟨n', hn', rfl⟩

/-- The searches for requests to the API, among all. -/
theorem scratch (cs : List Command) : Scratch (RequestSearch.next cs) OfApi ApiBusy where
  stays := by
    intro t v n hn
    obtain ⟨n', -, rfl⟩ := next_cases hn
    exact Iff.rfl
  blind := by
    intro t v v' hapi hidle
    rw [next, next, (scratch_search cs).blind t.search v v' trivial fun hbusy => hidle ⟨hapi, hbusy⟩]
  begins := by
    intro t v n hn hidle hbusy
    obtain ⟨n', hn', rfl⟩ := next_cases hn
    exact (scratch_search cs).begins t.search v n' hn' (fun h => hidle ⟨hbusy.1, h⟩) hbusy.2

/-- A search for the tokens of a request that was handed on, on its way. -/
def OnWay (cs : List Command) (t : Sharer RequestSearch (Option Command)) : Prop :=
  t.state.request.HandedOn ∧ t.state.search.line = t.state.request.tokens ∧
    t.state.search.phase.Follows cs t.state.search.line t.own

theorem OnWay.alone {t t' : Sharer RequestSearch (Option Command)} (h : OnWay cs t)
    (hs : aloneStep (RequestSearch.next cs) t = some t') : OnWay cs t' := by
  obtain ⟨hon, hline, hway⟩ := h
  obtain ⟨n, hn, rfl⟩ := Option.map_eq_some_iff.mp hs
  obtain ⟨n', hn', rfl⟩ := next_cases hn
  obtain ⟨n'', hn'', rfl⟩ := Search.next_cases hn'
  exact ⟨hon, hline, hway.next hn''⟩

theorem OnWay.confined {t : Sharer RequestSearch (Option Command)} (h : OnWay commands t) (hapi : t.state.OfApi) :
    t.state.Confined := by
  obtain ⟨hon, hline, hway⟩ := h
  constructor
  · intro hfault
    rw [hfault] at hway
    exact hway
  · intro found hfound
    rw [hfound] at hway
    obtain ⟨ws, hws⟩ := Request.tokens_of_handedOn hapi hon
    obtain ⟨cmd, hcmd, hfunc⟩ := findCommand_apiGet ws
    have hall : found = some cmd := by
      rw [show found = findCommand commands t.state.search.line from hway, hline, hws, hcmd]
    subst hall
    exact ⟨⟨cmd, rfl, hfunc⟩, fun env b b' reply hrun => runFunc_api_same hfunc hrun⟩

/-- No search but that of thread `i` is for a request to the API and under way. -/
def OthersIdle (s : Sharing RequestSearch (Option Command)) (i : Nat) : Prop :=
  ∀ u ∈ s.threads.eraseIdx i, ¬ ApiBusy u.state

instance (s : Sharing RequestSearch (Option Command)) : DecidablePred (OthersIdle s) := fun i =>
  inferInstanceAs (Decidable (∀ u ∈ s.threads.eraseIdx i, ¬ ApiBusy u.state))

theorem OthersIdle.undisturbed {s : Sharing RequestSearch (Option Command)} {i : Nat} (h : OthersIdle s i) :
    Undisturbed (RequestSearch.next cs) ApiBusy s i :=
  fun _ _ _ _ _ _ u hu hbusy => absurd hbusy (h u hu)

end RequestSearch

/-- The searches of the requests that are handed on. -/
def requestSearches (rs : List Request) : Sharing RequestSearch (Option Command) :=
  ⟨(rs.filter (·.HandedOn)).map fun r => ⟨⟨r, ⟨r.tokens, .begin⟩⟩, none⟩, none⟩

theorem holding_requestSearches (cs : List Command) (rs : List Request) :
    Holding RequestSearch.OfApi RequestSearch.ApiBusy (RequestSearch.OnWay cs) (requestSearches rs) := by
  constructor
  · intro t ht hbusy
    obtain ⟨r, _, rfl⟩ := List.mem_map.mp ht
    cases hbusy.2
  · intro t ht _
    obtain ⟨r, hr, rfl⟩ := List.mem_map.mp ht
    exact ⟨of_decide_eq_true (List.mem_filter.mp hr).2, rfl, trivial⟩

/-- A search of the API has returned with a function, behind a run. -/
theorem RequestSearch.exists_of_any (cs : List Command) (is : List Nat) (rs : List Request) (f : CmdBgpFunc)
    (h : ((runAll (shareStep (RequestSearch.next cs)) is (requestSearches rs)).any fun s =>
      s.threads.any fun t => t.state.OfApi ∧ t.state.runs = some f) = true) :
    ∃ s, runAll (shareStep (RequestSearch.next cs)) is (requestSearches rs) = some s ∧
      ∃ t ∈ s.threads, t.state.OfApi ∧ t.state.runs = some f := by
  obtain ⟨s, hrun, hs⟩ := (Option.any_eq_true _ _).mp h
  obtain ⟨t, ht, hboth⟩ := List.any_eq_true.mp hs
  exact ⟨s, hrun, t, ht, of_decide_eq_true hboth⟩

/-! ## Results -/

/-- A line with a token on the port of the API is refused or handed on. Of the requests of any number of connections, no
one to the API gets anything but a function of the API along a run in which no search puts anything of its own into
`current_token` while one for a request to the API is under way. -/
theorem api_requests_confined (rs : List Request) (is : List Nat)
    (hadm : AllAdmissible (shareStep (RequestSearch.next commands))
      (Undisturbed (RequestSearch.next commands) RequestSearch.ApiBusy) is (requestSearches rs)) :
    (∀ r : Request, r.port = .api → words r.line ≠ [] → r.Gated) ∧
    Always (shareStep (RequestSearch.next commands)) (fun s => ∀ t ∈ s.threads, t.state.OfApi → t.state.Confined) is
      (requestSearches rs) := by
  refine ⟨fun r hport htoken => Request.gated_of_api hport htoken, ?_⟩
  have halways := (holding_requestSearches commands rs).always (RequestSearch.scratch commands)
    (fun _ _ h hs => h.alone hs) hadm
  apply halways.mono
  intro s hs t ht hapi
  exact (hs.2 t ht hapi).confined hapi

/-- A request to the API, and one to stop the daemon. -/
def Example.requests : List Request := [⟨.api, "api-get prefix 10.0.0.1".toList⟩, ⟨.cli, "kill-all".toList⟩]

/-- The search of the API starts behind the other, and comes to its end before that goes on. -/
def Example.searchesApart : List Nat := List.replicate 3 1 ++ List.replicate 23 0 ++ List.replicate 8 1

theorem api_requests_confined_apart : ∃ s,
    runAll (shareStep (RequestSearch.next commands)) Example.searchesApart (requestSearches Example.requests) = some s ∧
    ∃ t ∈ s.threads, t.state.OfApi ∧ t.state.runs = some .apiGetPrefix ∧ t.state.Confined := by
  have hidle : AllAdmissible (shareStep (RequestSearch.next commands)) RequestSearch.OthersIdle Example.searchesApart
      (requestSearches Example.requests) := by decide +kernel
  have hconfined := (api_requests_confined Example.requests Example.searchesApart
    (hidle.mono fun _ _ h => h.undisturbed)).2
  obtain ⟨s, hrun, t, ht, hapi, hruns⟩ := RequestSearch.exists_of_any commands Example.searchesApart Example.requests
    .apiGetPrefix (by decide +kernel)
  exact ⟨s, hrun, t, ht, hapi, hruns, hconfined.last hrun t ht hapi⟩

/-- The search of the API is at its last step when the other runs. -/
def Example.searchesMixed : List Nat := List.replicate 22 0 ++ List.replicate 10 1 ++ [0]

/-- The request to the API stops the daemon. -/
theorem api_request_kills :
    ¬ Always (shareStep (RequestSearch.next commands)) (fun s => ∀ t ∈ s.threads, t.state.OfApi → t.state.Confined)
      Example.searchesMixed (requestSearches Example.requests) ∧
    ∃ s, runAll (shareStep (RequestSearch.next commands)) Example.searchesMixed (requestSearches Example.requests) =
        some s ∧ ∃ t ∈ s.threads, t.state.OfApi ∧ ∃ found, t.state.search.phase = .returned found ∧
        ∀ env b, ∃ b' reply, t.state.request.execute env b found = .ok (b', reply) ∧ b'.stopAndExitInstance = true := by
  obtain ⟨s, hrun, t, ht, hapi, hruns⟩ := RequestSearch.exists_of_any commands Example.searchesMixed Example.requests
    .killAllSignal (by decide +kernel)
  obtain ⟨cmd, hcmd, hkill⟩ := RequestSearch.runs_eq_some.mp hruns
  refine ⟨?_, s, hrun, t, ht, hapi, some cmd, hcmd, ?_⟩
  · intro halways
    obtain ⟨_, hfound, hfunc⟩ := ((halways.last hrun t ht hapi).2 _ hcmd).1
    cases hfound
    rw [hkill] at hfunc
    exact absurd hfunc (by decide)
  · intro env b
    refine ⟨{ b with stopAndExitInstance := true }, .text "% Sent: this->kill_all()".toList, ?_, rfl⟩
    rw [Request.execute, hkill]
    rfl

end Log2Bgp
