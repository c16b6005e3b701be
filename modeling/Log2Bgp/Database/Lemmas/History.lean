import Log2Bgp.Database.Lemmas.Loop
import Log2Bgp.Database.Lemmas.Record
import Mathlib.Data.List.Forall2

/-!
# The database as a history of updates
-/

namespace Log2Bgp

open Lib

/-! ## The abstract history -/

/-- The updates recorded under each key, newest first. -/
def History := PrefixEntry → List BgpUpdate

namespace History

/-- Nothing is recorded. -/
def empty : History := fun _ => []

def insert (h : History) (u : BgpUpdate) : History :=
  fun e => if e = u.nlri.entry then u :: h e else h e

/-- The last `n` updates of a key. -/
def last (h : History) (n : Nat) (e : PrefixEntry) : List BgpUpdate := (h e).take n

end History

/-! ## Records in the file -/

/-- The record of an update is in the file at a position. -/
structure RecordAt (bytes : List UInt8) (i : Int32) (u : BgpUpdate) : Prop where
  nonneg : 0 ≤ i.toInt
  there : ∃ rest, bytes.drop i.toInt.toNat = record u ++ rest

theorem record_ne_nil (u : BgpUpdate) : record u ≠ [] := by
  intro h
  have hlen := congrArg List.length h
  have hcode : (Pod.bytes DbaseAttrib.addrFamily.toWord).length = 4 := length_memBytes _
  simp only [record, dbaseField, List.length_append, hcode, List.length_nil] at hlen
  omega

theorem RecordAt.append {bytes : List UInt8} {i : Int32} {u : BgpUpdate} (h : RecordAt bytes i u)
    (more : List UInt8) : RecordAt (bytes ++ more) i u := by
  obtain ⟨hpos, rest, hrest⟩ := h
  have hle : i.toInt.toNat ≤ bytes.length := by
    rcases Nat.le_total i.toInt.toNat bytes.length with hle | hge
    · exact hle
    · rw [List.drop_of_length_le hge] at hrest
      exact absurd (List.append_eq_nil_iff.mp hrest.symm).1 (record_ne_nil u)
  refine ⟨hpos, rest ++ more, ?_⟩
  rw [List.drop_append_of_le_length hle, hrest, List.append_assoc]

theorem readRecords_eq {fuel : Nat} (hfuel : 14 ≤ fuel) {is : List Int32} {us : List BgpUpdate}
    (s : Fstream) (h : List.Forall₂ (RecordAt s.bytes) is us) :
    ∃ s', readRecords fuel is s = (some us, s') ∧ s'.bytes = s.bytes ∧
      (s.failed = false → s'.failed = false) := by
  induction is generalizing us s with
  | nil =>
      cases h
      exact ⟨s, rfl, rfl, id⟩
  | cons i is ih =>
      cases h with
      | @cons _ u _ us hi his =>
          obtain ⟨hpos, rest, hrest⟩ := hi
          let s₁ : Fstream := { bytes := s.bytes, pos := i.toInt.toNat, failed := false }
          have hseek : s.clear.seekg i.toInt = s₁ := by
            simp [Fstream.clear, Fstream.seekg, hpos, s₁]
          have hread := readsRecord_record u fuel 0 hfuel s₁ rest rfl hrest
          obtain ⟨s', hs', hbytes, hgood⟩ := ih { s₁ with pos := s₁.pos + (record u).length } his
          refine ⟨s', ?_, hbytes, fun _ => hgood rfl⟩
          rw [readRecords_cons, hseek, hread]
          simp only [hs', Option.map_some]

/-! ## The invariant -/

/-- The index of each key leads to the records of its last updates, newest first. -/
structure Holds (db : BgpDatabase) (h : History) : Prop where
  isOpen : db.isOpen = true
  good : db.dbase.failed = false
  index : ∀ e, List.Forall₂ (RecordAt db.dbase.bytes) (db.indexes e).reverse
    (h.last db.maxRecords.toNat e)

theorem holds_dbOpen (maxRecords : UInt16) :
    Holds (BgpDatabase.dbOpen { maxRecords }) History.empty where
  isOpen := rfl
  good := rfl
  index e := by simp [BgpDatabase.dbOpen, BgpDatabase.indexes, History.last, History.empty]

theorem indexes_dbInsert {db : BgpDatabase} (hopen : db.isOpen = true) (u : BgpUpdate)
    (e : PrefixEntry) : (db.dbInsert u).indexes e =
      if e = u.nlri.entry then
        keepLast db.maxRecords.toNat (db.indexes e ++ [Int32.ofInt db.dbase.tellp])
      else db.indexes e := by
  unfold BgpDatabase.dbInsert
  rw [if_pos hopen]
  simp only [BgpDatabase.indexes, Std.ExtTreeMap.getElem?_insert, Std.LawfulEqCmp.compare_eq_iff_eq]
  by_cases he : e = u.nlri.entry
  · subst he
    simp
  · rw [if_neg (Ne.symm he), if_neg he]

theorem maxRecords_dbInsert (db : BgpDatabase) (u : BgpUpdate) : (db.dbInsert u).maxRecords = db.maxRecords := by
  unfold BgpDatabase.dbInsert
  split
  · rfl
  · rfl

theorem toInt_ofInt_pos {n : Nat} (h : n < 2 ^ 31) : (Int32.ofInt n).toInt = n :=
  Int32.toInt_ofInt_of_le (by omega) (by omega)

/-- An insert at the end of the file adds to the history of its key, and to no other. -/
theorem Holds.dbInsert {db : BgpDatabase} {h : History} (hdb : Holds db h)
    (heof : db.dbase.pos = db.dbase.bytes.length) (hsize : db.dbase.bytes.length < 2 ^ 31)
    (u : BgpUpdate) : Holds (db.dbInsert u) (h.insert u) := by
  have hatEof : db.dbase.AtEof := ⟨hdb.good, heof⟩
  have hdbase : (db.dbInsert u).dbase = db.dbase.write (record u) := by
    unfold BgpDatabase.dbInsert
    rw [if_pos hdb.isOpen]
  have hbytes : (db.dbInsert u).dbase.bytes = db.dbase.bytes ++ record u := by
    rw [hdbase, Fstream.write_of_atEof hatEof]
  have hopen : (db.dbInsert u).isOpen = db.isOpen := by
    unfold BgpDatabase.dbInsert
    split <;> rfl
  have hnew : RecordAt (db.dbase.bytes ++ record u) (Int32.ofInt db.dbase.tellp) u := by
    have hpos := toInt_ofInt_pos hsize
    rw [Fstream.tellp_of_good hdb.good, heof]
    refine ⟨by omega, [], ?_⟩
    rw [hpos, Int.toNat_natCast, List.drop_left, List.append_nil]
  have hold : ∀ e, List.Forall₂ (RecordAt (db.dbase.bytes ++ record u)) (db.indexes e).reverse
      (h.last db.maxRecords.toNat e) := fun e => (hdb.index e).imp fun _ _ hi => hi.append _
  refine ⟨hopen.trans hdb.isOpen, hdbase ▸ (Fstream.atEof_write hatEof _).good, fun e => ?_⟩
  rw [hbytes, maxRecords_dbInsert, indexes_dbInsert hdb.isOpen, History.last, History.insert]
  by_cases he : e = u.nlri.entry
  · rw [if_pos he, if_pos he]
    have hlen : (db.indexes e).length ≤ db.maxRecords.toNat := by
      have hsame := (hold e).length_eq
      rw [List.length_reverse, History.last, List.length_take] at hsame
      omega
    rw [reverse_keepLast hlen, take_cons_take _ u (h e)]
    exact List.forall₂_take _ (.cons hnew (hold e))
  · rw [if_neg he, if_neg he]
    exact hold e

theorem Holds.dbGetEntries {db : BgpDatabase} {h : History} (hdb : Holds db h) {fuel : Nat}
    (hfuel : 14 ≤ fuel) (entry : BgpUpdate) :
    ∃ db', db.dbGetEntries fuel entry =
        some (h.last db.maxRecords.toNat entry.nlri.entry, db') ∧
      Holds db' h ∧ db'.maxRecords = db.maxRecords := by
  obtain ⟨s', hs', hbytes, hgood⟩ := readRecords_eq hfuel db.dbase (hdb.index entry.nlri.entry)
  refine ⟨{ db with dbase := s' }, ?_, ⟨hdb.isOpen, hgood hdb.good, fun e => ?_⟩, rfl⟩
  · unfold BgpDatabase.dbGetEntries
    rw [hs']
    rfl
  · have hindex := hdb.index e
    rw [← hbytes] at hindex
    exact hindex

/-- A query that has ended is answered alike however much longer it may take. -/
theorem BgpDatabase.dbGetEntries_mono {db : BgpDatabase} {fuel : Nat} {entry : BgpUpdate}
    {answer : List BgpUpdate × BgpDatabase} (h : db.dbGetEntries fuel entry = some answer) (more : Nat) :
    db.dbGetEntries (fuel + more) entry = some answer := by
  have hends : (readRecords fuel (db.indexes entry.nlri.entry).reverse db.dbase).1.isSome := by
    simp only [BgpDatabase.dbGetEntries, Option.map_eq_some_iff] at h
    obtain ⟨records, hrecords, _⟩ := h
    rw [hrecords]
    rfl
  rw [← h, BgpDatabase.dbGetEntries, BgpDatabase.dbGetEntries, readRecords_mono hends]

/-- Every query that ends is answered with the history, and moves nothing but the position in the file. -/
theorem Holds.of_dbGetEntries {db : BgpDatabase} {h : History} (hdb : Holds db h) {fuel : Nat} {entry : BgpUpdate}
    {answer : List BgpUpdate × BgpDatabase} (hanswer : db.dbGetEntries fuel entry = some answer) :
    answer.1 = h.last db.maxRecords.toNat entry.nlri.entry ∧ Holds answer.2 h ∧
      answer.2.maxRecords = db.maxRecords := by
  obtain ⟨db', hget, hholds, hmax⟩ := hdb.dbGetEntries (Nat.le_add_left 14 fuel) entry
  cases (BgpDatabase.dbGetEntries_mono hanswer 14).symm.trans hget
  exact ⟨rfl, hholds, hmax⟩

end Log2Bgp
