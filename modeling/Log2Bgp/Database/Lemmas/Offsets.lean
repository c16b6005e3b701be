import Log2Bgp.Database.Lemmas.History

/-!
# Where records start
-/

namespace Log2Bgp

open Lib

/-- Inserts one after another. -/
def BgpDatabase.insertAll (db : BgpDatabase) (us : List BgpUpdate) : BgpDatabase := us.foldl BgpDatabase.dbInsert db

/-! ## The file as one record behind another -/

/-- Each update with the offset at which its record starts. -/
def layout : Nat → List BgpUpdate → List (Nat × BgpUpdate)
  | _, [] => []
  | n, u :: us => (n, u) :: layout (n + (record u).length) us

/-- The offsets at which the records of a key start. -/
def startsOf (e : PrefixEntry) (us : List BgpUpdate) : List Nat :=
  ((layout 0 us).filter fun r => r.2.nlri.entry = e).map Prod.fst

theorem layout_append (n : Nat) (us vs : List BgpUpdate) :
    layout n (us ++ vs) = layout n us ++ layout (n + (us.flatMap record).length) vs := by
  induction us generalizing n with
  | nil => rfl
  | cons u us ih => simp [layout, ih, Nat.add_assoc]

theorem startsOf_append (e : PrefixEntry) (us : List BgpUpdate) (u : BgpUpdate) :
    startsOf e (us ++ [u]) =
      if e = u.nlri.entry then startsOf e us ++ [(us.flatMap record).length] else startsOf e us := by
  rw [startsOf, layout_append, List.filter_append, List.map_append, ← startsOf]
  by_cases he : e = u.nlri.entry
  · simp [layout, he]
  · simp [layout, he, Ne.symm he]

theorem le_of_mem_layout {n : Nat} {us : List BgpUpdate} {r : Nat × BgpUpdate} (h : r ∈ layout n us) : n ≤ r.1 := by
  induction us generalizing n with
  | nil => cases h
  | cons u us ih =>
      obtain rfl | h := List.mem_cons.mp h
      · exact le_refl n
      · exact (Nat.le_add_right _ _).trans (ih h)

theorem layout_increasing (n : Nat) (us : List BgpUpdate) : (layout n us).Pairwise fun r r' => r.1 < r'.1 := by
  induction us generalizing n with
  | nil => exact .nil
  | cons u us ih =>
      refine .cons (fun r hr => ?_) (ih _)
      have hpos := List.length_pos_iff.mpr (record_ne_nil u)
      have hle := le_of_mem_layout hr
      dsimp only
      omega

theorem startsOf_increasing (e : PrefixEntry) (us : List BgpUpdate) : (startsOf e us).Pairwise (· < ·) :=
  List.pairwise_map.mpr ((layout_increasing 0 us).filter _)

/-! ## The index -/

/-- The offsets that are kept for a key. -/
def keptStarts (maxRecords : UInt16) (e : PrefixEntry) (us : List BgpUpdate) : List Nat :=
  (startsOf e us).rtake maxRecords.toNat

/-- The index holds the exact offsets of the last records of each key, in increasing order. -/
structure BgpDatabase.PositionsExact (db : BgpDatabase) (us : List BgpUpdate) : Prop where
  starts : ∀ e, (db.indexes e).map Int32.toInt = (keptStarts db.maxRecords e us).map Int.ofNat
  increasing : ∀ e, (db.indexes e).Pairwise fun i j => i.toInt < j.toInt
  atMost : ∀ e, (db.indexes e).length ≤ db.maxRecords.toNat

/-- What holds behind inserts: the file is one record behind another, and the index has the casts of the
offsets. -/
structure BgpDatabase.Laid (db : BgpDatabase) (us : List BgpUpdate) : Prop where
  isOpen : db.isOpen = true
  atEof : db.dbase.AtEof
  bytes : db.dbase.bytes = us.flatMap record
  indexes : ∀ e, db.indexes e = (keptStarts db.maxRecords e us).map fun n => Int32.ofInt (n : Nat)

namespace BgpDatabase

variable {db : BgpDatabase} {us : List BgpUpdate}

theorem laid_dbOpen (maxRecords : UInt16) : (dbOpen { maxRecords }).Laid [] where
  isOpen := rfl
  atEof := ⟨rfl, rfl⟩
  bytes := rfl
  indexes e := by simp [dbOpen, BgpDatabase.indexes, keptStarts, startsOf, layout]

theorem keptStarts_append (maxRecords : UInt16) (e : PrefixEntry) (us : List BgpUpdate) (u : BgpUpdate) :
    keptStarts maxRecords e (us ++ [u]) =
      if e = u.nlri.entry then keepLast maxRecords.toNat (keptStarts maxRecords e us ++ [(us.flatMap record).length])
      else keptStarts maxRecords e us := by
  unfold keptStarts
  rw [startsOf_append]
  split
  · exact (keepLast_rtake _ _ _).symm
  · rfl

/-- The last record of a key is kept. -/
theorem mem_keptStarts {maxRecords : UInt16} (hmax : 0 < maxRecords) (us : List BgpUpdate) (u : BgpUpdate) :
    (us.flatMap record).length ∈ keptStarts maxRecords u.nlri.entry (us ++ [u]) := by
  have hpos : 0 < maxRecords.toNat := UInt16.lt_iff_toNat_lt.mp hmax
  rw [keptStarts, startsOf_append, if_pos rfl, List.rtake_eq_reverse_take_reverse, List.mem_reverse, List.reverse_append,
    List.reverse_singleton, List.singleton_append, List.take_cons hpos]
  exact List.mem_cons_self

theorem Laid.dbInsert (h : db.Laid us) (u : BgpUpdate) : (db.dbInsert u).Laid (us ++ [u]) := by
  have hstart : db.dbase.tellp = ((us.flatMap record).length : Nat) := by
    rw [Fstream.tellp_of_good h.atEof.good, h.atEof.eof, h.bytes]
  have hindexes := indexes_dbInsert h.isOpen u
  have hwrite : (db.dbInsert u).dbase = db.dbase.write (record u) := by
    rw [BgpDatabase.dbInsert, if_pos h.isOpen]
  refine ⟨?_, hwrite ▸ Fstream.atEof_write h.atEof _, ?_, fun e => ?_⟩
  · rw [BgpDatabase.dbInsert, if_pos h.isOpen]
    exact h.isOpen
  · rw [hwrite, Fstream.write_of_atEof h.atEof, h.bytes]
    simp
  · rw [hindexes, maxRecords_dbInsert, keptStarts_append, h.indexes, hstart]
    split
    · rw [← keepLast_map, List.map_append, List.map_singleton]
    · rfl

theorem Laid.insertAll (h : db.Laid us) (vs : List BgpUpdate) : (db.insertAll vs).Laid (us ++ vs) := by
  induction vs generalizing db us with
  | nil => rwa [List.append_nil]
  | cons v vs ih =>
      have hnext := ih (h.dbInsert v)
      rwa [List.append_assoc, List.singleton_append] at hnext

theorem maxRecords_insertAll (db : BgpDatabase) (us : List BgpUpdate) :
    (db.insertAll us).maxRecords = db.maxRecords := by
  induction us generalizing db with
  | nil => rfl
  | cons u us ih => exact (ih (db.dbInsert u)).trans (maxRecords_dbInsert db u)

theorem toInt_ofInt_eq_iff {n : Nat} : (Int32.ofInt n).toInt = n ↔ n < 2 ^ 31 := by
  refine ⟨fun h => ?_, toInt_ofInt_pos⟩
  have hlt := (Int32.ofInt n).toInt_lt
  omega

theorem Laid.positionsExact_iff (h : db.Laid us) :
    db.PositionsExact us ↔ ∀ e, ∀ n ∈ keptStarts db.maxRecords e us, n < 2 ^ 31 := by
  have hstarts : ∀ e, (db.indexes e).map Int32.toInt = (keptStarts db.maxRecords e us).map Int.ofNat ↔
      ∀ n ∈ keptStarts db.maxRecords e us, n < 2 ^ 31 := by
    intro e
    rw [h.indexes, List.map_map, List.map_inj_left]
    exact forall₂_congr fun n _ => toInt_ofInt_eq_iff
  constructor
  · exact fun hexact e => (hstarts e).mp (hexact.starts e)
  · intro hsmall
    refine ⟨fun e => (hstarts e).mpr (hsmall e), fun e => ?_, fun e => ?_⟩
    · have hkept : (keptStarts db.maxRecords e us).Pairwise (· < ·) :=
        (startsOf_increasing e us).sublist (List.drop_sublist _ _)
      rw [← List.pairwise_map (f := Int32.toInt) (R := (· < ·)), (hstarts e).mpr (hsmall e), List.pairwise_map]
      exact hkept.imp fun hlt => Int.ofNat_lt.mpr hlt
    · rw [h.indexes, List.length_map, keptStarts, List.rtake, List.length_drop]
      omega

end BgpDatabase

end Log2Bgp
