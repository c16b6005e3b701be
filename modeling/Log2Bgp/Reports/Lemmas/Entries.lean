import Log2Bgp.MainLoop.Lemmas.Pass
import Log2Bgp.Reports.Run

/-!
# Entries and records that readers can read
-/

namespace Log2Bgp

open Lib

variable {b b' : Bgp} {a : UpdateRead}

theorem Bgp.ReadersSafe.readable (h : b.ReadersSafe) : b.Readable := by
  intro k r hr
  have hsafe : BgpCli.ReadersSafe { adjRibIn := b.adjRibIn, db := b.db } := h _ rfl rfl
  exact hsafe.readable (BgpCli.mem_entries.mpr ⟨k, r, hr, rfl⟩)

theorem Bgp.readersSafe_of_readable (hdb : b.db.Readable) (h : b.Readable) : b.ReadersSafe := by
  intro cli hrib hhistory
  apply BgpCli.readersSafe_of_readable
  · rw [hhistory]
    exact hdb
  · intro e he
    obtain ⟨k, r, hr, rfl⟩ := BgpCli.mem_entries.mp he
    rw [hrib] at hr
    exact h k r hr

/-! ## Recording what is replaced -/

theorem BgpDatabase.Readable.dbInsert {db : BgpDatabase} (hdb : db.Readable)
    (heof : db.dbase.pos = db.dbase.bytes.length) (hsize : db.dbase.bytes.length < 2 ^ 31) {u : BgpUpdate}
    (hu : u.Readable) : (db.dbInsert u).Readable := by
  obtain ⟨history, hholds, hall⟩ := hdb
  refine ⟨history.insert u, hholds.dbInsert heof hsize u, ?_⟩
  intro e r hr
  unfold History.insert at hr
  split at hr
  · rcases List.mem_cons.mp hr with rfl | hr
    · exact hu
    · exact hall e r hr
  · exact hall e r hr

theorem Bgp.Readable.peerEntry {r : Route} (hrib : b.Readable) (hr : r.update.Readable) : (b.peerEntry r).Readable := by
  intro k r' hr'
  rcases b.peerEntry_lookup r k with hold | ⟨-, hnew⟩
  · exact hrib k r' (hold.symm.trans hr')
  · cases hnew.symm.trans hr'
    exact hr

/-- Routes that replace others bring these into the database, at the end of its file. -/
theorem readable_go {rs : List Route} (hdb : b.db.Readable) (hrib : b.Readable) (hrs : ∀ r ∈ rs, r.update.Readable)
    (heof : Bgp.RecordsAtEof rs b) : (Bgp.procAdjRibInQueue.go rs b).db.Readable := by
  induction rs generalizing b with
  | nil => exact hdb
  | cons r rest ih =>
      obtain ⟨hone, hnext⟩ := heof
      obtain ⟨hr, hrest⟩ := List.forall_mem_cons.mp hrs
      have hrib' : (b.procAdjRibInItem r rest).Readable := hrib.peerEntry hr
      refine ih ?_ hrib' hrest hnext
      show (b.peerEntry r).db.Readable
      rcases b.peerEntry_cases r with ⟨-, hb⟩ | ⟨i, -, ⟨old, hold, hb⟩ | ⟨-, hb⟩⟩
      · rw [hb]
        exact hdb
      · obtain ⟨hpos, hsize⟩ := hone (by rw [hold]; rfl)
        rw [hb]
        exact hdb.dbInsert hpos hsize (hrib _ _ hold)
      · rw [hb]
        exact hdb

theorem procAdjRibWdraw_go_db {rs : List Route} (h : Bgp.procAdjRibWdrawQueue.go rs b = .ok b') : b'.db = b.db := by
  induction rs generalizing b with
  | nil =>
      cases h
      rfl
  | cons r rest ih =>
      obtain ⟨b₁, hitem, h⟩ := Checked.bind_eq_ok.mp h
      obtain ⟨b₂, hwithdraw, hitem⟩ := Checked.bind_eq_ok.mp hitem
      cases hitem
      rw [ih h]
      rcases Bgp.withdraw_cases hwithdraw with ⟨-, rfl⟩ | ⟨old, i, -, -, rfl⟩
      · rfl
      · rfl

/-! ## Draining the queues of one message -/

/-- The changes that the routes of two queues make. -/
def RibQueues.ops (q : RibQueues) : List (MapOp PrefixEntry Route) :=
  (q.adjRibInQ.map fun r => .put r.entry r) ++ q.adjRibInWdrawQ.map fun r => .del r.entry

theorem drain_eq {q : RibQueues} (hknown : ∀ r ∈ q.adjRibInQ ++ q.adjRibInWdrawQ, b.Knows r.bgpId) :
    ∃ b', ({ b with queues := q } : Bgp).procAdjRibInQueue.procAdjRibWdrawQueue = .ok b' ∧
      b'.adjRibIn = applyOps q.ops b.adjRibIn ∧
      b'.db = (Bgp.procAdjRibInQueue.go q.adjRibInQ { b with queues := q }).db := by
  obtain ⟨hput, hqueues⟩ := Bgp.procAdjRibInQueue_eq { b with queues := q } fun r hr =>
    hknown r (List.mem_append_left _ hr)
  obtain ⟨b', hb', hdel, -⟩ := Bgp.procAdjRibWdrawQueue_eq ({ b with queues := q } : Bgp).procAdjRibInQueue (by
    intro r hr
    rw [hqueues] at hr
    rw [Bgp.Knows, hput.ids]
    exact hknown r (List.mem_append_right _ hr))
  refine ⟨b', hb', ?_, procAdjRibWdraw_go_db hb'⟩
  rw [hdel.rib, hput.rib, hqueues, RibQueues.ops, applyOps_append]

theorem knows_of_getElem {i : Nat} {p : BgpPeer} (hp : b.threadQ[i]? = some p) : b.Knows p.bgpId :=
  Bgp.knows_iff.mpr ⟨p, List.mem_of_getElem? hp, rfl⟩

/-- A body of a peer is entered into the RIB as soon as it can be parsed. -/
theorem UpdateRead.step_of_parsed {p : BgpPeer} {q : RibQueues} (hp : b.threadQ[a.peer]? = some p)
    (hq : procMessage a.now p.bgpId a.data {} = .ok q) :
    ∃ b', UpdateRead.step b a = some b' ∧ b'.adjRibIn = applyOps q.ops b.adjRibIn ∧
      b'.db = (Bgp.procAdjRibInQueue.go q.adjRibInQ { b with queues := q }).db := by
  have hknown : ∀ r ∈ q.adjRibInQ ++ q.adjRibInWdrawQ, b.Knows r.bgpId := by
    intro r hr
    rw [(procMessage_settles hq).1 r hr]
    exact knows_of_getElem hp
  obtain ⟨b', hb', hdrained⟩ := drain_eq hknown
  refine ⟨b', ?_, hdrained⟩
  rw [step, hp, Option.bind_some, hq, Checked.ok_bind, hb']
  rfl

theorem UpdateRead.step_cases (h : UpdateRead.step b a = some b') :
    ∃ p q, b.threadQ[a.peer]? = some p ∧ procMessage a.now p.bgpId a.data {} = .ok q ∧
      b'.adjRibIn = applyOps q.ops b.adjRibIn ∧
      b'.db = (Bgp.procAdjRibInQueue.go q.adjRibInQ { b with queues := q }).db := by
  obtain ⟨p, hp, hrest⟩ := Option.bind_eq_some_iff.mp h
  obtain ⟨q, hq, -⟩ := Checked.bind_eq_ok.mp (Checked.toOption_eq_some.mp hrest)
  obtain ⟨b₁, hb₁, hentered⟩ := UpdateRead.step_of_parsed hp hq
  cases hb₁.symm.trans h
  exact ⟨p, q, hp, hq, hentered⟩

/-! ## What a body adds -/

/-- Behind the changes of two queues, an entry is one of the queue of updates or was there before. -/
theorem lookup_ops {q : RibQueues} {m : BgpAdjRib} {k : PrefixEntry} {r : Route}
    (h : (applyOps q.ops m)[k]? = some r) : r ∈ q.adjRibInQ ∨ m[k]? = some r := by
  rw [lookup_applyOps] at h
  cases hlast : lastOn k q.ops with
  | none =>
      rw [hlast] at h
      exact .inr h
  | some op =>
      rw [hlast] at h
      have hmem : op ∈ q.ops := (mem_opsOn.mp (List.mem_of_getLast? hlast)).1
      rcases List.mem_append.mp hmem with hput | hdel
      · obtain ⟨r', hr', rfl⟩ := List.mem_map.mp hput
        cases h
        exact .inl hr'
      · obtain ⟨r', -, rfl⟩ := List.mem_map.mp hdel
        cases h

/-- The last update of a queue gets into the RIB when nothing is withdrawn. -/
theorem exists_lookup_ops {q : RibQueues} (m : BgpAdjRib) (hne : q.adjRibInQ ≠ [])
    (hnone : q.adjRibInWdrawQ = []) :
    ∃ r ∈ q.adjRibInQ, (applyOps q.ops m)[r.entry]? = some r := by
  have hlast : ∃ rs r, q.adjRibInQ = rs ++ [r] :=
    ⟨_, _, (List.dropLast_append_getLast hne).symm⟩
  obtain ⟨rs, r, hrs⟩ := hlast
  refine ⟨r, by rw [hrs]; exact List.mem_append_right _ (List.mem_singleton_self r), ?_⟩
  have hops : q.ops = (rs.map fun r => .put r.entry r) ++ [.put r.entry r] := by
    rw [RibQueues.ops, hnone, hrs, List.map_append, List.map_nil, List.append_nil]
    rfl
  rw [hops, applyOps_append]
  have hput : applyOps [(.put r.entry r : MapOp PrefixEntry Route)] =
      fun m : BgpAdjRib => (MapOp.put r.entry r : MapOp PrefixEntry Route).apply m := rfl
  rw [hput, lookup_apply]
  exact if_pos rfl

/-- A body that is entered keeps the entries readable just where it keeps the readers safe. -/
theorem readable_step (hb : b.Readable) (h : UpdateRead.step b a = some b') : b'.Readable ↔ a.Keeps b := by
  obtain ⟨p, q, hp, hq, hrib, -⟩ := UpdateRead.step_cases h
  obtain ⟨-, hannounces, hnone, hreadable⟩ := procMessage_settles hq
  have hpeer : a.peer < b.threadQ.length := (List.getElem?_eq_some_iff.mp hp).1
  have hframed : Framed a.data.packet := (safe_procMessage ..).mp (.of_eq hq)
  have hkeeps : a.Keeps b ↔ a.data.Readable := ⟨fun hk => hk hpeer hframed, fun hr _ _ => hr⟩
  rw [hkeeps]
  constructor
  · intro hb' hspeaks
    obtain ⟨r, hr, hlookup⟩ := exists_lookup_ops b.adjRibIn (hannounces.mpr hspeaks) (hnone hspeaks)
    rw [← hrib] at hlookup
    exact (hreadable r hr).mp (hb' _ r hlookup) hspeaks
  · intro hdata k r hr
    rw [hrib] at hr
    rcases lookup_ops hr with hnew | hold
    · exact (hreadable r hnew).mpr hdata
    · exact hb k r hold

/-- Such a body brings only readable updates into the history, and those at the end of its file. -/
theorem readable_db_step (hdb : b.db.Readable) (hb : b.Readable) (heof : a.RecordsAtEof b) (hkeeps : a.Keeps b)
    (h : UpdateRead.step b a = some b') : b'.db.Readable := by
  obtain ⟨p, q, hp, hq, -, hdb'⟩ := UpdateRead.step_cases h
  have hpeer : a.peer < b.threadQ.length := (List.getElem?_eq_some_iff.mp hp).1
  have hdata := hkeeps hpeer ((safe_procMessage ..).mp (.of_eq hq))
  obtain ⟨-, -, -, hreadable⟩ := procMessage_settles hq
  rw [hdb']
  exact readable_go hdb hb (fun r hr => (hreadable r hr).mpr hdata) (heof p hp q hq)

/-- A body that is not entered is not one of a peer, or cannot be parsed. -/
theorem UpdateRead.keeps_of_stuck (h : UpdateRead.step b a = none) : a.Keeps b := by
  intro hpeer hframed
  have hp := List.getElem?_eq_getElem hpeer
  obtain ⟨q, hq⟩ := (safe_procMessage a.now (b.threadQ[a.peer]).bgpId a.data {}).mpr hframed
  obtain ⟨b', hb', -⟩ := UpdateRead.step_of_parsed hp hq
  rw [hb'] at h
  cases h

/-! ## Runs -/

variable {act : ReportAction}

theorem ReportAction.readable_step (hb : b.Readable) (h : act.step b = some b') : b'.Readable ↔ act.Keeps b := by
  cases act with
  | update a => exact Log2Bgp.readable_step hb h
  | query fuel entry =>
      obtain ⟨answer, -, rfl⟩ := Option.map_eq_some_iff.mp h
      exact iff_of_true hb trivial

theorem ReportAction.readable_db_step (hdb : b.db.Readable) (hb : b.Readable) (heof : act.RecordsAtEof b)
    (hkeeps : act.Keeps b) (h : act.step b = some b') : b'.db.Readable := by
  cases act with
  | update a => exact Log2Bgp.readable_db_step hdb hb heof hkeeps h
  | query fuel entry =>
      obtain ⟨answer, hanswer, rfl⟩ := Option.map_eq_some_iff.mp h
      exact (hdb.dbGetEntries hanswer).2

theorem ReportAction.keeps_of_stuck (h : act.step b = none) : act.Keeps b := by
  cases act with
  | update a => exact UpdateRead.keeps_of_stuck h
  | query fuel entry => trivial

theorem Bgp.configured_readable (cfg : BgpConfig) (threadQ : List BgpPeer) :
    (Bgp.configured cfg threadQ).Readable ∧ (Bgp.configured cfg threadQ).db.Readable := by
  constructor
  · intro k r hr
    simp [Bgp.configured] at hr
  · refine ⟨History.empty, holds_dbOpen 1000, ?_⟩
    intro e r hr
    cases hr

/-- From an instance that is safe to read, it stays safe just as long as the bodies are those that keep it so, where the
history is recorded at the end of its file. -/
theorem always_readersSafe_iff (hb : b.Readable) (hdb : b.db.Readable) (acts : List ReportAction)
    (heof : AllAdmissible ReportAction.step ReportAction.RecordsAtEof acts b) :
    Always ReportAction.step Bgp.ReadersSafe acts b ↔ AllAdmissible ReportAction.step ReportAction.Keeps acts b := by
  apply always_iff_given (fun b => b.db.Readable) _ _ _ hdb (Bgp.readersSafe_of_readable hdb hb) acts heof
  · intro b act b' hdb hsafe heof hstep hsafe'
    have hkeeps := (act.readable_step hsafe.readable hstep).mp hsafe'.readable
    exact act.readable_db_step hdb hsafe.readable heof hkeeps hstep
  · intro b act b' hdb hsafe heof hstep
    have hiff := act.readable_step hsafe.readable hstep
    constructor
    · exact fun hsafe' => hiff.mp hsafe'.readable
    · intro hkeeps
      exact Bgp.readersSafe_of_readable (act.readable_db_step hdb hsafe.readable heof hkeeps hstep) (hiff.mpr hkeeps)
  · intro b act _ _ hstuck
    exact act.keeps_of_stuck hstuck

end Log2Bgp
