import Log2Bgp.Chronicle.Run
import Log2Bgp.Daemon.Theorems

/-!
# Queries of the history in running daemons
-/

namespace Log2Bgp

open Lib

namespace Daemon

variable {s s' : Daemon} {a : DaemonAction}

/-! ## What a step does to the RIB and to the database -/

theorem changes_flush {i : Nat} (h : s.step (.flush i) = some s') :
    s'.bgp.adjRibIn = applyOps (s.changes (.flush i)) s.bgp.adjRibIn ∧ s'.bgp.db = s.bgp.db := by
  simp only [step, Option.ite_none_right_eq_some] at h
  obtain ⟨⟨_, hlt⟩, h⟩ := h
  have hp := List.getElem?_eq_getElem hlt
  simp only [Bgp.flushOne, Bgp.flushPeer, hp] at h
  simp only [changes, hp]
  cases hfound : findFirst (fun r : Route => r.bgpId = s.bgp.threadQ[i].bgpId) s.bgp.adjRibIn with
  | none =>
      simp only [hfound, Option.map_none, Option.some.injEq] at h
      subst h
      exact ⟨rfl, rfl⟩
  | some e =>
      simp only [hfound, Option.map_some, Option.some.injEq] at h
      subst h
      exact ⟨rfl, rfl⟩

/-- A step leads to the RIB that its change says, and records the update that is overwritten, if one is. -/
theorem step_changes (h : s.step a = some s') :
    s'.bgp.adjRibIn = applyOps (s.changes a) s.bgp.adjRibIn ∧
      ((s'.bgp.db = s.bgp.db ∧ ∀ op ∈ s.changes a, op.isPut = true → s.bgp.adjRibIn[op.key]? = none) ∨
        ∃ r rest old, a = .procAdjRibIn ∧ s.bgp.queues.adjRibInQ = r :: rest ∧ s.bgp.Knows r.bgpId ∧
          s.bgp.adjRibIn[r.entry]? = some old ∧ s.changes a = [.put r.entry r] ∧
          s'.bgp.db = s.bgp.db.dbInsert old.update) := by
  cases a with
  | flush i =>
      obtain ⟨hrib, hdb⟩ := changes_flush h
      refine ⟨hrib, Or.inl ⟨hdb, ?_⟩⟩
      intro op hop hput
      simp only [changes] at hop
      split at hop
      · cases hop
      · simp only [Option.mem_toList, Option.map_eq_some_iff] at hop
        obtain ⟨_, _, rfl⟩ := hop
        cases hput
  | thread i a =>
      cases step_cases h with
      | thread _ _ => exact ⟨rfl, Or.inl ⟨rfl, by simp [changes]⟩⟩
  | procInQ i now =>
      cases step_cases h with
      | noPeer _ => exact ⟨rfl, Or.inl ⟨rfl, by simp [changes]⟩⟩
      | processed _ _ => exact ⟨rfl, Or.inl ⟨rfl, by simp [changes]⟩⟩
  | procAdjRibIn =>
      cases step_cases h with
      | @entered r rest hqueue =>
          have hchanges : s.changes .procAdjRibIn =
              if (s.bgp.getPeerByUint32tBgpId r.bgpId).isSome then [.put r.entry r] else [] := by
            simp only [changes, hqueue]
          rw [hchanges]
          unfold Bgp.procAdjRibInItem
          rcases Bgp.peerEntry_cases s.bgp r with ⟨hnone, hb⟩ | ⟨i, hi, ⟨old, hold, hb⟩ | ⟨hnew, hb⟩⟩
          · rw [hb, hnone]
            exact ⟨rfl, Or.inl ⟨rfl, by simp⟩⟩
          · rw [hb, hi]
            exact ⟨rfl, Or.inr ⟨r, rest, old, rfl, hqueue, Bgp.knows_of_getPeer hi, hold, rfl, rfl⟩⟩
          · rw [hb, hi]
            refine ⟨rfl, Or.inl ⟨rfl, ?_⟩⟩
            intro op hop _
            simp only [Option.isSome_some, ↓reduceIte, List.mem_singleton] at hop
            subst hop
            exact hnew
  | procAdjRibWdraw =>
      cases step_cases h with
      | @withdrawn r rest b hqueue hb =>
          simp only [changes, hqueue]
          rcases Bgp.withdraw_cases hb with ⟨hnone, rfl⟩ | ⟨old, i, hold, _, rfl⟩
          · rw [hnone]
            exact ⟨rfl, Or.inl ⟨rfl, by simp⟩⟩
          · rw [hold]
            refine ⟨rfl, Or.inl ⟨rfl, ?_⟩⟩
            intro op hop hput
            simp only [Option.isSome_some, ↓reduceIte, List.mem_singleton] at hop
            subst hop
            cases hput

end Daemon

namespace Chronicle

/-! ## The invariant -/

/-- The changes tell what the RIB is, and the database holds what they overwrote. -/
structure Sound (maxRecords : UInt16) (s : Chronicle) : Prop where
  keyed : s.daemon.Keyed
  rib : s.daemon.bgp.adjRibIn = applyOps s.changes ∅
  holds : Holds s.daemon.bgp.db s.past
  maxRecords : s.daemon.bgp.db.maxRecords = maxRecords

variable {maxRecords : UInt16} {s s' : Chronicle}

theorem Start.sound (h : s.Start maxRecords) : s.Sound maxRecords := by
  obtain ⟨hdaemon, hdb, hchanges⟩ := h
  have hpast : s.past = History.empty := by
    funext e
    simp [past, hchanges, overwritesOn, opsOn, overwrites, History.empty]
  refine ⟨hdaemon.keyed, ?_, ?_, ?_⟩
  · rw [hchanges, hdaemon.1]
    rfl
  · rw [hpast, hdb]
    exact holds_dbOpen maxRecords
  · rw [hdb]
    rfl

/-- A change that overwrites nothing leaves the history as it is. -/
theorem past_of_quiet {d : Daemon} {ops : List (MapOp PrefixEntry Route)}
    (hrib : s.daemon.bgp.adjRibIn = applyOps s.changes ∅) (hone : ops.length ≤ 1)
    (hquiet : ∀ op ∈ ops, op.isPut = true → s.daemon.bgp.adjRibIn[op.key]? = none) :
    past { daemon := d, changes := s.changes ++ ops } = s.past := by
  funext e
  rcases ops with _ | ⟨op, _ | ⟨_, _⟩⟩
  · simp only [past, List.append_nil]
  · cases op with
    | del k => simp only [past, overwritesOn_del]
    | put k r =>
        have hnone : s.daemon.bgp.adjRibIn[k]? = none := hquiet (.put k r) (List.mem_singleton_self _) rfl
        simp only [past, overwritesOn_put ribSort, ← hrib]
        split
        · rename_i hk
          rw [hk, hnone, Option.toList_none, List.append_nil]
        · rw [List.append_nil]
  · simp at hone

/-- A put over a route adds it to the history of its key. -/
theorem past_of_put {d : Daemon} {r old : Route} (hrib : s.daemon.bgp.adjRibIn = applyOps s.changes ∅)
    (hkeyed : s.daemon.Keyed) (hold : s.daemon.bgp.adjRibIn[r.entry]? = some old) :
    past { daemon := d, changes := s.changes ++ [.put r.entry r] } = s.past.insert old.update := by
  have hkey : old.update.nlri.entry = r.entry := hkeyed _ _ hold
  funext e
  simp only [past, overwritesOn_put ribSort, ← hrib, History.insert, hkey]
  split
  · rename_i he
    rw [he, hold]
    simp
  · rw [List.append_nil]

theorem changes_length (d : Daemon) (a : DaemonAction) : (d.changes a).length ≤ 1 := by
  unfold Daemon.changes
  split
  · split
    · simp
    · simp only [Option.length_toList]
      split <;> simp
  · split
    · simp
    · split <;> simp
  · split
    · simp
    · split <;> simp
  · simp

/-- A query moves the position in the file, and changes nothing else. -/
theorem Sound.query (hs : s.Sound maxRecords) {fuel : Nat} {entry : BgpUpdate} {answer : List BgpUpdate × BgpDatabase}
    (h : s.daemon.bgp.db.dbGetEntries fuel entry = some answer) :
    Sound maxRecords { s with daemon := { s.daemon with bgp := { s.daemon.bgp with db := answer.2 } } } := by
  obtain ⟨-, hholds, hmax⟩ := hs.holds.of_dbGetEntries h
  exact ⟨hs.keyed, hs.rib, hholds, hmax.trans hs.maxRecords⟩

theorem Sound.step (hs : s.Sound maxRecords) {a : ChronicleAction} (hadm : s.RecordsAtEof a)
    (hstep : s.step a = some s') : s'.Sound maxRecords := by
  cases a with
  | query fuel entry =>
      simp only [Chronicle.step, Option.map_eq_some_iff] at hstep
      obtain ⟨answer, hanswer, rfl⟩ := hstep
      exact hs.query hanswer
  | daemon a =>
      simp only [Chronicle.step, Option.map_eq_some_iff] at hstep
      obtain ⟨d, hd, rfl⟩ := hstep
      have hkeyed : d.Keyed := hs.keyed.step (Daemon.step_cases hd)
      obtain ⟨hrib, hdb⟩ := Daemon.step_changes hd
      have hrib' : d.bgp.adjRibIn = applyOps (s.changes ++ s.daemon.changes a) ∅ := by
        rw [applyOps_append, ← hs.rib]
        exact hrib
      rcases hdb with ⟨hsame, hquiet⟩ | ⟨r, rest, old, rfl, hqueue, hknows, hold, hput, hinsert⟩
      · have hpast := past_of_quiet (d := d) hs.rib (changes_length s.daemon a) hquiet
        refine ⟨hkeyed, hrib', ?_, ?_⟩
        · rw [hpast, hsame]
          exact hs.holds
        · rw [hsame]
          exact hs.maxRecords
      · have hpast := past_of_put (d := d) hs.rib hs.keyed hold
        obtain ⟨heof, hsize⟩ := hadm r (by rw [hqueue]; rfl) hknows (by rw [hold]; rfl)
        refine ⟨hkeyed, hrib', ?_, ?_⟩
        · rw [hput, hpast, hinsert]
          exact hs.holds.dbInsert heof hsize old.update
        · rw [hinsert, maxRecords_dbInsert]
          exact hs.maxRecords

theorem Sound.tells (hs : s.Sound maxRecords) : s.Tells maxRecords := by
  refine ⟨hs.rib, ?_⟩
  intro fuel hfuel entry
  obtain ⟨db', hget, _, _⟩ := hs.holds.dbGetEntries hfuel entry
  rw [hget, Option.map_some, hs.maxRecords]

end Chronicle

/-! ## Results -/

/-- In every state of a daemon whose history is queried at any time, the RIB is what its steps have made of
it, and a query gives the last updates that were replaced under its key, newest first: as long as a route
that replaces another finds the position at the end of the file. -/
theorem history_tells {maxRecords : UInt16} {s : Chronicle}
    (h : Reaches Chronicle.step Chronicle.RecordsAtEof (Chronicle.Start maxRecords) s) : s.Tells maxRecords := by
  have hsound : s.Sound maxRecords := Reaches.invariant (fun _ hs => hs.sound)
    (fun _ _ _ hs hadm hstep => hs.step hadm hstep) h
  exact hsound.tells

namespace Example

/-- A route is replaced twice, and its history is queried before it is replaced again. -/
def historyRun : List ChronicleAction :=
  (upRun ++ announces 0 ++ [DaemonAction.procAdjRibIn]).map ChronicleAction.daemon ++
    ChronicleAction.query 14 { nlri := { pfx := 0x0a, bgpId := 0x0100000a } } ::
    (announces 0 ++ [DaemonAction.procAdjRibIn]).map ChronicleAction.daemon

end Example

theorem history_tells_replaced : ∃ s, runAll Chronicle.step Example.historyRun { daemon := Example.daemon } = some s ∧
    s.changes.length = 3 ∧ s.Tells 1000 := by
  have hview : (runAll Chronicle.step Example.historyRun { daemon := Example.daemon }).map
      (fun s => s.changes.length) = some 3 := by
    decide +kernel
  obtain ⟨s, hs, hlength⟩ := Option.map_eq_some_iff.mp hview
  have hreach : Reaches Chronicle.step Chronicle.RecordsAtEof (Chronicle.Start 1000) s :=
    Reaches.runAll (.init ⟨Example.daemon_start, rfl, rfl⟩) (by decide +kernel) hs
  exact ⟨s, hs, hlength, history_tells hreach⟩

end Log2Bgp
