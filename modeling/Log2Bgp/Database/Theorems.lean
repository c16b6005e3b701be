import Log2Bgp.Database.Lemmas.Offsets

/-!
# The database over runs
-/

namespace Log2Bgp

open Lib

/-! ## Runs -/

/-- A call of the database. -/
inductive DbCall where
  | insert (update : BgpUpdate)
  | getEntries (entry : BgpUpdate)
deriving DecidableEq, Repr

/-- The answers to the queries of a run, in order. -/
def runDb (fuel : Nat) : List DbCall → BgpDatabase → Option (List (List BgpUpdate))
  | [], _ => some []
  | .insert u :: calls, db => runDb fuel calls (db.dbInsert u)
  | .getEntries e :: calls, db => do
      let (records, db) ← db.dbGetEntries fuel e
      let answers ← runDb fuel calls db
      pure (records :: answers)

/-- The answers that the history gives. -/
def History.answers (n : Nat) : List DbCall → History → List (List BgpUpdate)
  | [], _ => []
  | .insert u :: calls, h => answers n calls (h.insert u)
  | .getEntries e :: calls, h => h.last n e.nlri.entry :: answers n calls h

/-- Every insert of a run finds the position at the end of the file, below 2^31. -/
def InsertsAtEof (fuel : Nat) : List DbCall → BgpDatabase → Prop
  | [], _ => True
  | .insert u :: calls, db =>
      (db.dbase.pos = db.dbase.bytes.length ∧ db.dbase.bytes.length < 2 ^ 31) ∧
        InsertsAtEof fuel calls (db.dbInsert u)
  | .getEntries e :: calls, db =>
      ∀ answer, db.dbGetEntries fuel e = some answer → InsertsAtEof fuel calls answer.2

instance InsertsAtEof.decidable (fuel : Nat) : (calls : List DbCall) → DecidablePred (InsertsAtEof fuel calls)
  | [], _ => isTrue trivial
  | .insert u :: calls, db =>
      have _ : DecidablePred (InsertsAtEof fuel calls) := InsertsAtEof.decidable fuel calls
      inferInstanceAs (Decidable ((db.dbase.pos = db.dbase.bytes.length ∧ db.dbase.bytes.length < 2 ^ 31) ∧
        InsertsAtEof fuel calls (db.dbInsert u)))
  | .getEntries e :: calls, db =>
      have _ : DecidablePred (InsertsAtEof fuel calls) := InsertsAtEof.decidable fuel calls
      inferInstanceAs (Decidable (∀ answer ∈ db.dbGetEntries fuel e, InsertsAtEof fuel calls answer.2))

/-- From a database that holds a history, the run goes on as the history does. -/
theorem Holds.runDb {fuel : Nat} (hfuel : 14 ≤ fuel) (calls : List DbCall) {db : BgpDatabase}
    {h : History} (hdb : Holds db h) (heof : InsertsAtEof fuel calls db) :
    runDb fuel calls db = some (h.answers db.maxRecords.toNat calls) := by
  induction calls generalizing db h with
  | nil => rfl
  | cons call calls ih =>
      cases call with
      | insert u =>
          obtain ⟨⟨hpos, hsize⟩, hrest⟩ := heof
          have hnext := ih (hdb.dbInsert hpos hsize u) hrest
          rw [maxRecords_dbInsert] at hnext
          exact hnext
      | getEntries e =>
          obtain ⟨db', hget, hdb', hmax⟩ := hdb.dbGetEntries hfuel e
          have hnext := ih hdb' (heof _ hget)
          rw [hmax] at hnext
          simp only [Log2Bgp.runDb, hget, Option.bind_eq_bind, Option.bind_some, hnext, History.answers,
            Option.pure_def]

/-! ## Results -/

namespace Example

/-- An update of a prefix, told apart by its MED. -/
def updateOf (pfx med : UInt32) : BgpUpdate := { med, nlri := { pfx, bgpId := 1 } }

/-- A query between two inserts of one key, and another key's record behind the first. -/
def calls : List DbCall :=
  [.insert (updateOf 10 1), .insert (updateOf 11 2), .getEntries (updateOf 10 0),
    .insert (updateOf 10 3), .getEntries (updateOf 11 0)]

end Example

/-- The query moves the position, and the next insert overwrites the other key's record. -/
theorem history_overwritten :
    runDb 14 Example.calls (BgpDatabase.dbOpen {}) ≠ some (History.empty.answers 1000 Example.calls) := by
  decide +kernel

/-- In a run whose inserts are all made at the end of the file, every query ends and returns the last
updates of its key, newest first. -/
theorem runDb_eq_answers (maxRecords : UInt16) (fuel : Nat) (hfuel : 14 ≤ fuel) (calls : List DbCall)
    (heof : InsertsAtEof fuel calls (BgpDatabase.dbOpen { maxRecords })) :
    runDb fuel calls (BgpDatabase.dbOpen { maxRecords }) =
      some (History.empty.answers maxRecords.toNat calls) :=
  (holds_dbOpen maxRecords).runDb hfuel calls heof

/-- A query of the record at the end of the file, and an insert behind it. -/
def Example.turns : List DbCall :=
  [.insert (updateOf 10 1), .insert (updateOf 11 2), .getEntries (updateOf 11 0), .insert (updateOf 10 3),
    .insert (updateOf 10 4), .getEntries (updateOf 10 0)]

theorem runDb_eq_answers_turns :
    runDb 14 Example.turns (BgpDatabase.dbOpen { maxRecords := 2 }) =
      some [[Example.updateOf 11 2], [Example.updateOf 10 4, Example.updateOf 10 3]] := by
  have hanswers : History.empty.answers 2 Example.turns =
      [[Example.updateOf 11 2], [Example.updateOf 10 4, Example.updateOf 10 3]] := by decide +kernel
  rw [← hanswers]
  exact runDb_eq_answers 2 14 (by decide) Example.turns (by decide +kernel)

/-! ## Records -/

/-- Whatever follows a record in the file, the loop makes of it the update that it was written for, and
stops behind it. -/
theorem dbInsert_readRecord (db : BgpDatabase) (hopen : db.isOpen = true) (hgood : db.dbase.failed = false)
    (u : BgpUpdate) (rest : List UInt8) (n : Nat) :
    let file := (db.dbInsert u).dbase
    let bytes := file.bytes.take file.pos ++ rest
    readRecord (n + 14) 0 {} { bytes, pos := db.dbase.pos } = (some u, { bytes, pos := file.pos }) := by
  obtain ⟨front, hfront, hbytes, hpos⟩ := Fstream.take_write hgood (record u)
  have hfile : (db.dbInsert u).dbase = db.dbase.write (record u) := by
    unfold BgpDatabase.dbInsert
    rw [if_pos hopen]
  intro file bytes
  have hread := readsRecord_record u (n + 14) 0 (Nat.le_add_left 14 n) { bytes, pos := db.dbase.pos } rest rfl
  have hdrop : bytes.drop db.dbase.pos = record u ++ rest := by
    simp only [bytes, file]
    rw [hfile, hbytes, List.append_assoc, ← hfront, List.drop_left]
  rw [hread hdrop]
  simp only [file]
  rw [hfile, hpos]

theorem dbInsert_readRecord_marker :
    let file := ((BgpDatabase.dbOpen {}).dbInsert (Example.updateOf 10 0xFFFFFFFF)).dbase
    let bytes := file.bytes.take file.pos ++ [1]
    readRecord 14 0 {} { bytes, pos := 0 } = (some (Example.updateOf 10 0xFFFFFFFF), { bytes, pos := file.pos }) :=
  dbInsert_readRecord (BgpDatabase.dbOpen {}) rfl rfl (Example.updateOf 10 0xFFFFFFFF) [1] 0

/-! ## Queries end -/

namespace Example

/-- A position is indexed, but nothing has been written. -/
def unwritten : BgpDatabase := { isOpen := true, indexMap := (∅ : Std.ExtTreeMap _ _ _).insert (10, 1) [0] }

end Example

/-- A read that fails leaves the marker as it is, and the loop goes on for ever. -/
theorem dbGetEntries_hangs : ¬ ∃ fuel, (Example.unwritten.dbGetEntries fuel (Example.updateOf 10 0)).isSome := by
  rintro ⟨fuel, h⟩
  have hindexes : Example.unwritten.indexes (Example.updateOf 10 0).nlri.entry = [0] := by
    simp [Example.unwritten, Example.updateOf, BgpDatabase.indexes, BgpNlri.entry]
  rw [BgpDatabase.dbGetEntries, Option.isSome_map, hindexes] at h
  obtain ⟨-, hends⟩ := (readRecords_ends_iff _ _).mp ⟨fuel, h⟩ 0 (List.mem_singleton_self 0)
  cases hends with
  | stop hstop => exact absurd hstop (by decide)
  | field _ hlen => exact absurd hlen (by simp [Example.unwritten])

/-- A query ends, if it is given time, just when the bytes at each position of its key are fields up to
a marker for the end of a record. -/
theorem dbGetEntries_ends_iff (db : BgpDatabase) (entry : BgpUpdate) :
    (∃ fuel, (db.dbGetEntries fuel entry).isSome) ↔
      ∀ i ∈ db.indexes entry.nlri.entry, 0 ≤ i.toInt ∧ EndsRecord 0 (db.dbase.bytes.drop i.toInt.toNat) := by
  have hloop := readRecords_ends_iff (db.indexes entry.nlri.entry).reverse db.dbase
  simp only [List.mem_reverse] at hloop
  rw [← hloop]
  simp [BgpDatabase.dbGetEntries]

/-! ## Positions -/

/-- Behind enough records, the cast to `int` makes another number of the offset of the last one. -/
theorem position_wraps :
    ¬ ((BgpDatabase.dbOpen {}).insertAll (List.replicate 40000000 (Example.updateOf 10 1))).PositionsExact
      (List.replicate 40000000 (Example.updateOf 10 1)) := by
  have hlaid := (BgpDatabase.laid_dbOpen 1000).insertAll (List.replicate 40000000 (Example.updateOf 10 1))
  rw [List.nil_append] at hlaid
  intro h
  have hsmall := hlaid.positionsExact_iff.mp h
  rw [BgpDatabase.maxRecords_insertAll, List.replicate_succ'] at hsmall
  have hlast := hsmall _ _ (BgpDatabase.mem_keptStarts (by decide) _ _)
  have hlen : (record (Example.updateOf 10 1)).length = 85 := by decide
  rw [List.length_flatMap, List.map_replicate, List.sum_replicate_nat, hlen] at hlast
  exact absurd hlast (by decide)

/-- Behind any inserts, the index has the exact offsets of the last records of each key, in increasing
order, just when none of these offsets is past the range of `int`. -/
theorem positions_exact_iff (maxRecords : UInt16) (us : List BgpUpdate) :
    ((BgpDatabase.dbOpen { maxRecords }).insertAll us).PositionsExact us ↔
      ∀ e, ∀ n ∈ keptStarts maxRecords e us, n < 2 ^ 31 := by
  have hlaid := (BgpDatabase.laid_dbOpen maxRecords).insertAll us
  rw [List.nil_append] at hlaid
  rw [hlaid.positionsExact_iff, BgpDatabase.maxRecords_insertAll]
  rfl

end Log2Bgp
