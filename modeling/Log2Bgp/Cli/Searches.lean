import Log2Bgp.Cli.Lemmas.Trails
import Log2Bgp.Lib.Sharing

/-!
# Searches side by side

`FindCommand` works in `current_token`, a static member, and every connection to the CLI or the API has a thread of its
own. The steps of a search are the single uses that it makes of `current_token`.
-/

namespace Log2Bgp

open Lib

/-- Where a thread stands in `FindCommand`: before the pointer is cleared, in the first loop, at the test behind it, in
the loop over the commands below the current one (at the test of the loop, at the names, at the move), or at
`return current_token`. -/
inductive FindPhase where
  | begin
  | root (cmd : Text) (tokens : List Text) (i : Nat)
  | test (tokens : List Text)
  | size (cmd : Text) (tokens : List Text) (i : Nat)
  | name (cmd : Text) (tokens : List Text) (i : Nat)
  | move (tokens : List Text) (i : Nat)
  | last
  | returned (found : Option Command)
  | fault

/-- `while (!tokens.empty())`. -/
def FindPhase.loop : List Text → FindPhase
  | [] => .last
  | cmd :: tokens => .size cmd tokens 0

/-- A search for the tokens of a line. -/
structure Search where
  line : List Text
  phase : FindPhase := .begin

/-- The next use of `current_token`, with what is put there if anything is. -/
def FindPhase.next (cs : List Command) (line : List Text) (current : Option Command) :
    FindPhase → Option (FindPhase × Option (Option Command))
  | .begin =>
      match line with
      | [] => some (.returned none, none)
      | cmd :: tokens => some (.root cmd tokens 0, some none)
  | .root cmd tokens i =>
      match cs[i]? with
      | none => some (.test tokens, none)
      | some c => some (.root cmd tokens (i + 1), if c.named cmd then some (some c) else none)
  | .test tokens => some (if current.isSome then .loop tokens else .last, none)
  | .size cmd tokens i =>
      match current with
      | none => some (.fault, none)
      | some c => some (if i < c.subCommand.length then .name cmd tokens i else .loop tokens, none)
  | .name cmd tokens i =>
      match current.bind (·.subCommand[i]?) with
      | none => some (.fault, none)
      | some d =>
          some (if d.named cmd || d.name.head? = some '<' then .move tokens i else .size cmd tokens (i + 1), none)
  | .move tokens i =>
      match current.bind (·.subCommand[i]?) with
      | none => some (.fault, none)
      | some d => some (.loop tokens, some (some d))
  | .last => some (.returned current, none)
  | .returned _ | .fault => none

def Search.next (cs : List Command) (t : Search) (current : Option Command) :
    Option (Search × Option (Option Command)) :=
  (t.phase.next cs t.line current).map fun n => (⟨t.line, n.1⟩, n.2)

/-- The search has cleared `current_token`, and has not returned. -/
def Search.Busy (t : Search) : Prop :=
  match t.phase with
  | .begin | .returned _ | .fault => False
  | _ => True

instance : DecidablePred Search.Busy := fun t => by
  unfold Search.Busy
  split <;> infer_instance

/-- Requests that are to be searched for. -/
def searches (lines : List (List Text)) : Sharing Search (Option Command) :=
  ⟨lines.map fun line => ⟨⟨line, .begin⟩, none⟩, none⟩

/-! ## A search by itself -/

/-- What the pointer is on the way to the command of the line. -/
def FindPhase.Follows (cs : List Command) (line : List Text) (current : Option Command) : FindPhase → Prop
  | .begin => True
  | .root cmd tokens i => line = cmd :: tokens ∧ current = findRoot (cs.take i) cmd
  | .test tokens => ∃ cmd, line = cmd :: tokens ∧ current = findRoot cs cmd
  | .size cmd tokens i => ∃ c, current = some c ∧
      findCommand cs line = some ((cmd :: tokens).foldl Command.descend c) ∧
      ∀ d ∈ c.subCommand.take i, ¬ d.Fits cmd
  | .name cmd tokens i => ∃ c d, current = some c ∧
      findCommand cs line = some ((cmd :: tokens).foldl Command.descend c) ∧
      (∀ d ∈ c.subCommand.take i, ¬ d.Fits cmd) ∧ c.subCommand[i]? = some d
  | .move tokens i => ∃ c d, current = some c ∧ c.subCommand[i]? = some d ∧
      findCommand cs line = some (tokens.foldl Command.descend d)
  | .last => current = findCommand cs line
  | .returned found => found = findCommand cs line
  | .fault => False

variable {cs : List Command} {line : List Text} {current : Option Command}

theorem follows_loop {c : Command} {tokens : List Text}
    (h : findCommand cs line = some (tokens.foldl Command.descend c)) :
    (FindPhase.loop tokens).Follows cs line (some c) := by
  cases tokens with
  | nil => exact h.symm
  | cons cmd tokens => exact ⟨c, rfl, h, by simp⟩

theorem findRoot_take_succ {cmd : Text} {i : Nat} {c : Command} (hc : cs[i]? = some c) :
    findRoot (cs.take (i + 1)) cmd = if c.named cmd then some c else findRoot (cs.take i) cmd := by
  rw [List.take_add_one, hc, findRoot, List.foldl_append]
  rfl

/-- The first command that fits is the one to move to. -/
theorem child?_of_first {c d : Command} {cmd : Text} {i : Nat} (hbefore : ∀ d ∈ c.subCommand.take i, ¬ d.Fits cmd)
    (hd : c.subCommand[i]? = some d) (hfits : d.Fits cmd) : c.child? cmd = some d := by
  obtain ⟨hi, rfl⟩ := List.getElem?_eq_some_iff.mp hd
  simp only [Command.child?, List.find?_eq_some_iff_append, Command.fits_iff]
  refine ⟨hfits, c.subCommand.take i, c.subCommand.drop (i + 1), ?_, ?_⟩
  · rw [List.getElem_cons_drop, List.take_append_drop]
  · intro d hd
    have hnot := hbefore d hd
    rw [← Command.fits_iff] at hnot
    simpa using hnot

theorem not_fits_take_succ {c d : Command} {cmd : Text} {i : Nat}
    (hbefore : ∀ d ∈ c.subCommand.take i, ¬ d.Fits cmd) (hd : c.subCommand[i]? = some d) (hnot : ¬ d.Fits cmd) :
    ∀ d ∈ c.subCommand.take (i + 1), ¬ d.Fits cmd := by
  rw [List.take_add_one, hd]
  intro e he
  rcases List.mem_append.mp he with he | he
  · exact hbefore e he
  · cases List.mem_singleton.mp he
    exact hnot

/-- A step of a search goes on along its way. -/
theorem FindPhase.Follows.next {phase : FindPhase} {n : FindPhase × Option (Option Command)}
    (h : phase.Follows cs line current) (hn : phase.next cs line current = some n) :
    n.1.Follows cs line (n.2.getD current) := by
  cases phase with
  | begin =>
      cases line with
      | nil =>
          cases hn
          rfl
      | cons cmd tokens =>
          cases hn
          exact ⟨rfl, rfl⟩
  | root cmd tokens i =>
      obtain ⟨rfl, rfl⟩ := h
      simp only [FindPhase.next] at hn
      cases hc : cs[i]? with
      | none =>
          simp only [hc, Option.some.injEq] at hn
          subst hn
          refine ⟨cmd, rfl, ?_⟩
          rw [List.take_of_length_le (List.getElem?_eq_none_iff.mp hc)]
          rfl
      | some c =>
          simp only [hc, Option.some.injEq] at hn
          subst hn
          refine ⟨rfl, ?_⟩
          rw [findRoot_take_succ hc]
          split
          · rfl
          · rfl
  | test tokens =>
      obtain ⟨cmd, rfl, rfl⟩ := h
      cases hn
      have hfound : findCommand cs (cmd :: tokens) =
          (findRoot cs cmd).map fun root => tokens.foldl Command.descend root := rfl
      cases hroot : findRoot cs cmd with
      | none =>
          rw [hroot] at hfound
          exact hfound.symm
      | some root =>
          rw [hroot] at hfound
          exact follows_loop hfound
  | size cmd tokens i =>
      obtain ⟨c, rfl, hfound, hbefore⟩ := h
      cases hn
      by_cases hi : i < c.subCommand.length
      · simp only [if_pos hi]
        exact ⟨c, _, rfl, hfound, hbefore, List.getElem?_eq_getElem hi⟩
      · simp only [if_neg hi]
        apply follows_loop
        rw [List.take_of_length_le (by omega)] at hbefore
        rw [hfound, List.foldl_cons, Command.descend_of_skip (Command.child?_eq_none.mpr hbefore)]
  | name cmd tokens i =>
      obtain ⟨c, d, rfl, hfound, hbefore, hd⟩ := h
      simp only [FindPhase.next, Option.bind_some, hd, Option.some.injEq] at hn
      subst hn
      by_cases hfits : d.Fits cmd
      · simp only [if_pos (Command.fits_iff.mpr hfits)]
        refine ⟨c, d, rfl, hd, ?_⟩
        rw [hfound, List.foldl_cons, Command.descend_of_child (child?_of_first hbefore hd hfits)]
      · simp only [if_neg (mt Command.fits_iff.mp hfits)]
        exact ⟨c, rfl, hfound, not_fits_take_succ hbefore hd hfits⟩
  | move tokens i =>
      obtain ⟨c, d, rfl, hd, hfound⟩ := h
      simp only [FindPhase.next, Option.bind_some, hd, Option.some.injEq] at hn
      subst hn
      exact follows_loop hfound
  | last =>
      cases hn
      exact h
  | returned found => cases hn
  | fault => cases hn

/-! ## Searches in any order -/

theorem Search.next_cases {t : Search} {n : Search × Option (Option Command)} (h : t.next cs current = some n) :
    ∃ n', t.phase.next cs t.line current = some n' ∧ n = (⟨t.line, n'.1⟩, n'.2) := by
  obtain ⟨n', hn', rfl⟩ := Option.map_eq_some_iff.mp h
  exact ⟨n', hn', rfl⟩

/-- A search first clears the pointer, and looks at it only behind that. -/
theorem scratch_search (cs : List Command) : Scratch (Search.next cs) (fun _ => True) Search.Busy where
  stays _ _ _ _ := Iff.rfl
  blind := by
    rintro ⟨line, phase⟩ v v' - hidle
    cases phase with
    | begin => rfl
    | returned => rfl
    | fault => rfl
    | _ => exact absurd trivial hidle
  begins := by
    rintro ⟨line, phase⟩ v n hn hidle hbusy
    obtain ⟨n', hn', rfl⟩ := Search.next_cases hn
    cases phase with
    | begin =>
        cases line with
        | nil =>
            cases hn'
            cases hbusy
        | cons cmd tokens =>
            cases hn'
            simp
    | returned => cases hn'
    | fault => cases hn'
    | _ => exact absurd trivial hidle

/-- A search for a line that is on its way. -/
def Search.OnWay (cs : List Command) (t : Sharer Search (Option Command)) : Prop :=
  t.state.phase.Follows cs t.state.line t.own

theorem Search.OnWay.alone {t t' : Sharer Search (Option Command)} (h : Search.OnWay cs t)
    (hs : aloneStep (Search.next cs) t = some t') : Search.OnWay cs t' := by
  obtain ⟨n, hn, rfl⟩ := Option.map_eq_some_iff.mp hs
  obtain ⟨n', hn', rfl⟩ := Search.next_cases hn
  exact h.next hn'

/-! ## A search that nobody interrupts -/

theorem goes_phase {phase : FindPhase} {n : FindPhase × Option (Option Command)}
    (h : phase.next cs line current = some n) :
    Goes (Search.next cs) (⟨line, phase⟩, current) (⟨line, n.1⟩, n.2.getD current) :=
  ⟨(⟨line, n.1⟩, n.2), by simp [Search.next, h], rfl⟩

/-- The first loop, from a command on. -/
theorem goes_roots (line : List Text) (cmd : Text) (tokens : List Text) (k i : Nat) (hk : i + k = cs.length) :
    Relation.ReflTransGen (Goes (Search.next cs)) (⟨line, .root cmd tokens i⟩, findRoot (cs.take i) cmd)
      (⟨line, .test tokens⟩, findRoot cs cmd) := by
  induction k generalizing i with
  | zero =>
      rw [Nat.add_zero] at hk
      subst hk
      rw [List.take_length]
      apply Relation.ReflTransGen.single
      exact goes_phase (n := (.test tokens, none)) (by simp [FindPhase.next])
  | succ k ih =>
      have hc := List.getElem?_eq_getElem (show i < cs.length by omega)
      have hnext : (FindPhase.root cmd tokens i).next cs line (findRoot (cs.take i) cmd) =
          some (.root cmd tokens (i + 1), if cs[i].named cmd then some (some cs[i]) else none) := by
        simp only [FindPhase.next, hc]
      have hroot : (if cs[i].named cmd then some (some cs[i]) else none).getD (findRoot (cs.take i) cmd) =
          findRoot (cs.take (i + 1)) cmd := by
        rw [findRoot_take_succ hc]
        split
        · rfl
        · rfl
      have hgoes := goes_phase hnext
      rw [hroot] at hgoes
      exact .head hgoes (ih (i + 1) (by omega))

/-- The loop over the commands below the current one, from one that none before fits. -/
theorem goes_children (line : List Text) (cmd : Text) (tokens : List Text) (c : Command) (k i : Nat)
    (hk : i + k = c.subCommand.length) (hbefore : ∀ d ∈ c.subCommand.take i, ¬ d.Fits cmd) :
    Relation.ReflTransGen (Goes (Search.next cs)) (⟨line, .size cmd tokens i⟩, some c)
      (⟨line, .loop tokens⟩, some (c.descend cmd)) := by
  induction k generalizing i with
  | zero =>
      rw [Nat.add_zero] at hk
      subst hk
      rw [List.take_length] at hbefore
      rw [Command.descend_of_skip (Command.child?_eq_none.mpr hbefore)]
      apply Relation.ReflTransGen.single
      exact goes_phase (n := (.loop tokens, none)) (by simp [FindPhase.next])
  | succ k ih =>
      have hi : i < c.subCommand.length := by omega
      have hd := List.getElem?_eq_getElem hi
      refine Relation.ReflTransGen.head (goes_phase (n := (.name cmd tokens i, none)) (by simp [FindPhase.next, hi])) ?_
      by_cases hfits : c.subCommand[i].Fits cmd
      · rw [Command.descend_of_child (child?_of_first hbefore hd hfits)]
        have hname : (FindPhase.name cmd tokens i).next cs line (some c) = some (.move tokens i, none) := by
          simp only [FindPhase.next, Option.bind_some, hd, if_pos (Command.fits_iff.mpr hfits)]
        have hmove : (FindPhase.move tokens i).next cs line (some c) =
            some (.loop tokens, some (some c.subCommand[i])) := by
          simp only [FindPhase.next, Option.bind_some, hd]
        exact .head (goes_phase hname) (.single (goes_phase hmove))
      · have hname : (FindPhase.name cmd tokens i).next cs line (some c) = some (.size cmd tokens (i + 1), none) := by
          simp only [FindPhase.next, Option.bind_some, hd, if_neg (mt Command.fits_iff.mp hfits)]
        exact .head (goes_phase hname) (ih (i + 1) (by omega) (not_fits_take_succ hbefore hd hfits))

theorem goes_tokens (line tokens : List Text) (c : Command) :
    Relation.ReflTransGen (Goes (Search.next cs)) (⟨line, .loop tokens⟩, some c)
      (⟨line, .last⟩, some (tokens.foldl Command.descend c)) := by
  induction tokens generalizing c with
  | nil => exact .refl
  | cons cmd tokens ih => exact (goes_children line cmd tokens c _ 0 (Nat.zero_add _) (by simp)).trans (ih _)

/-- A search by itself comes to its end with the command of its line. -/
theorem goes_last (cs : List Command) (hline : line ≠ []) (current : Option Command) :
    Relation.ReflTransGen (Goes (Search.next cs)) (⟨line, .begin⟩, current) (⟨line, .last⟩, findCommand cs line) := by
  obtain ⟨cmd, tokens, rfl⟩ := List.exists_cons_of_ne_nil hline
  refine Relation.ReflTransGen.head (goes_phase (n := (.root cmd tokens 0, some none)) rfl) ?_
  refine (goes_roots _ cmd tokens cs.length 0 (Nat.zero_add _)).trans ?_
  have hfound : findCommand cs (cmd :: tokens) =
      (findRoot cs cmd).map fun root => tokens.foldl Command.descend root := rfl
  cases hroot : findRoot cs cmd with
  | none =>
      rw [hfound, hroot]
      exact .single (goes_phase (n := (.last, none)) rfl)
  | some root =>
      rw [hfound, hroot]
      exact .head (goes_phase (n := (.loop tokens, none)) rfl) (goes_tokens _ tokens root)

/-! ## Results -/

theorem line_kept {i : Nat} {s s' : Sharing Search (Option Command)} (hs : shareStep (Search.next cs) s i = some s') :
    s'.threads.map (·.state.line) = s.threads.map (·.state.line) := by
  obtain ⟨t, n, ht, hn, rfl⟩ := shareStep_cases hs
  obtain ⟨n', _, rfl⟩ := Search.next_cases hn
  rw [List.map_set]
  apply set_of_getElem?
  rw [List.getElem?_map, ht, Option.map_some]

/-- However many requests are searched for at once, `current_token` is always what each search has made of it just where
no search puts anything else there while another is under way. Then no search goes wrong, and each that returns has found
the command of its line. -/
theorem searches_apart_iff (cs : List Command) (lines : List (List Text)) {is : List Nat}
    {s : Sharing Search (Option Command)} (hrun : runAll (shareStep (Search.next cs)) is (searches lines) = some s) :
    (Always (shareStep (Search.next cs)) (Kept Search.Busy) is (searches lines) ↔
      AllAdmissible (shareStep (Search.next cs)) (Undisturbed (Search.next cs) Search.Busy) is (searches lines)) ∧
    (Always (shareStep (Search.next cs)) (Kept Search.Busy) is (searches lines) →
      s.threads.map (·.state.line) = lines ∧ ∀ t ∈ s.threads, t.state.phase ≠ .fault ∧
        ∀ found, t.state.phase = .returned found → found = findCommand cs t.state.line) := by
  have hkept : Kept Search.Busy (searches lines) := by
    intro t ht hbusy
    obtain ⟨line, _, rfl⟩ := List.mem_map.mp ht
    cases hbusy
  have hstart : ∀ t ∈ (searches lines).threads, Search.OnWay cs t := by
    intro t ht
    obtain ⟨line, _, rfl⟩ := List.mem_map.mp ht
    trivial
  have hiff := kept_iff (scratch_search cs) hkept hrun
  refine ⟨hiff, ?_⟩
  intro halways
  have hlines : s.threads.map (·.state.line) = lines := by
    have hkeep : ∀ (u : Sharing Search (Option Command)) (i : Nat) (u' : Sharing Search (Option Command)),
        u.threads.map (·.state.line) = lines → shareStep (Search.next cs) u i = some u' →
          u'.threads.map (·.state.line) = lines := fun _ _ _ hu hstep => (line_kept hstep).trans hu
    exact runAll_invariant hkeep (by simp [searches, Function.comp_def]) hrun
  have hholding : Holding (fun _ => True) Search.Busy (Search.OnWay cs) (searches lines) :=
    ⟨hkept, fun t ht _ => hstart t ht⟩
  have hall := (hholding.always (scratch_search cs) (fun _ _ h hs => Search.OnWay.alone h hs) (hiff.mp halways)).last hrun
  refine ⟨hlines, ?_⟩
  intro t ht
  have hway : t.state.phase.Follows cs t.state.line t.own := hall.2 t ht trivial
  constructor
  · intro hfault
    rw [hfault] at hway
    exact hway
  · intro found hfound
    rw [hfound] at hway
    exact hway

/-- A search for `show` comes to its last step, and one for `write` goes on from there. -/
def Example.overlap : List Nat := List.replicate 10 0 ++ List.replicate 10 1 ++ [0, 1]

theorem searches_apart_iff_overlap : ∃ s,
    runAll (shareStep (Search.next commands)) Example.overlap (searches [["show".toList], ["write".toList]]) = some s ∧
    (s.threads[0]?.map fun t => t.state.phase) = some (.returned (findCommand commands ["write".toList])) ∧
    ¬ AllAdmissible (shareStep (Search.next commands)) (Undisturbed (Search.next commands) Search.Busy) Example.overlap
      (searches [["show".toList], ["write".toList]]) := by
  refine ⟨_, rfl, rfl, ?_⟩
  intro hadm
  have hrun : runAll (shareStep (Search.next commands)) Example.overlap (searches [["show".toList], ["write".toList]]) =
      some _ := rfl
  obtain ⟨hiff, hfound⟩ := searches_apart_iff commands [["show".toList], ["write".toList]] hrun
  have hshow := ((hfound (hiff.mpr hadm)).2 _ List.mem_cons_self).2 _ rfl
  have hfunc := congrArg (Option.map Command.func) hshow
  revert hfunc
  decide

/-- Of two requests, the threads can take their steps in an order in which one gets the command of the other. -/
theorem search_takes_any (cs : List Command) {lines : List (List Text)} {i j : Nat} {line line' : List Text}
    (hi : lines[i]? = some line) (hj : lines[j]? = some line') (hne : i ≠ j) (hline : line ≠ []) (hline' : line' ≠ []) :
    ∃ is s own, runAll (shareStep (Search.next cs)) is (searches lines) = some s ∧
      s.threads[i]? = some ⟨⟨line, .returned (findCommand cs line')⟩, own⟩ := by
  have hi₀ : (searches lines).threads[i]? = some ⟨⟨line, .begin⟩, none⟩ := by simp [searches, hi]
  have hj₀ : (searches lines).threads[j]? = some ⟨⟨line', .begin⟩, none⟩ := by simp [searches, hj]
  obtain ⟨k, own, hrun⟩ := goes_run (goes_last cs hline none) hi₀ rfl
  let first : Sharing Search (Option Command) :=
    ⟨(searches lines).threads.set i ⟨⟨line, .last⟩, own⟩, findCommand cs line⟩
  have hfirst : first.threads[j]? = some ⟨⟨line', .begin⟩, none⟩ := by
    rw [List.getElem?_set_ne hne]
    exact hj₀
  obtain ⟨k', own', hrun'⟩ := goes_run (goes_last cs hline' first.value) hfirst rfl
  let second : Sharing Search (Option Command) :=
    ⟨first.threads.set j ⟨⟨line', .last⟩, own'⟩, findCommand cs line'⟩
  have hsecond : second.threads[i]? = some ⟨⟨line, .last⟩, own⟩ := by
    rw [List.getElem?_set_ne hne.symm]
    exact List.getElem?_set_self (List.getElem?_eq_some_iff.mp hi₀).1
  have hlast : shareStep (Search.next cs) second i =
      some ⟨second.threads.set i ⟨⟨line, .returned (findCommand cs line')⟩, own⟩, findCommand cs line'⟩ := by
    rw [shareStep, hsecond]
    rfl
  have hall : runAll (shareStep (Search.next cs)) (List.replicate k i ++ (List.replicate k' j ++ [i])) (searches lines) =
      some ⟨second.threads.set i ⟨⟨line, .returned (findCommand cs line')⟩, own⟩, findCommand cs line'⟩ := by
    rw [runAll_append, hrun, Option.bind_some, runAll_append]
    exact Option.bind_eq_some_iff.mpr ⟨second, hrun', Option.bind_eq_some_iff.mpr ⟨_, hlast, rfl⟩⟩
  exact ⟨_, _, own, hall, List.getElem?_set_self (List.getElem?_eq_some_iff.mp hsecond).1⟩

/-- A request that the API lets through can run `kill-all`. -/
theorem search_takes_any_kill :
    isApiCall "api-get prefix 10.0.0.1".toList = .ok true ∧
    ∃ is s own found, runAll (shareStep (Search.next commands)) is
        (searches [words "api-get prefix 10.0.0.1".toList, words "kill-all".toList]) = some s ∧
      s.threads[0]? = some ⟨⟨words "api-get prefix 10.0.0.1".toList, .returned found⟩, own⟩ ∧
      found.map Command.func = some .killAllSignal := by
  refine ⟨by decide, ?_⟩
  let lines := [words "api-get prefix 10.0.0.1".toList, words "kill-all".toList]
  have hget : lines[0]? = some (words "api-get prefix 10.0.0.1".toList) := rfl
  have hkill : lines[1]? = some (words "kill-all".toList) := rfl
  obtain ⟨is, s, own, hrun, hthread⟩ := search_takes_any commands hget hkill (by decide) (by decide) (by decide)
  exact ⟨is, s, own, _, hrun, hthread, by decide⟩

end Log2Bgp
