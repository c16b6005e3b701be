import Log2Bgp.Database.Lemmas.History
import Log2Bgp.Model.Cli
import Log2Bgp.Reports.Lemmas.Settled

/-!
# What the readers of the RIB touch
-/

namespace Log2Bgp

open Lib

/-- A computation does not stop at a lookup behind the end of a table. -/
def LooksUp {α : Type} (x : Checked α) : Prop := ∀ i, x ≠ .error (.lookup i)

/-- Every reader keeps to data that is there, whatever it is asked for: also where it prints the matches of an address,
with the records of their history. -/
structure BgpCli.ReadersSafe (b : BgpCli) : Prop where
  adjRibIn : Safe (showBgpAdjRibIn b)
  origins : ∀ (query : OriginQuery) (asn length : UInt32), Safe (originMatches query b asn length)
  display : ∀ (u : Uninit), ∀ e ∈ b.entries, LooksUp (displayEntry u b e)
  json : ∀ (u : Uninit), ∀ e ∈ b.entries, LooksUp (jsonifyEntry u b e)
  shown : ∀ (env : CliEnv) (dumpHistory : Bool) (addr : UInt32),
    LooksUp (showEntries env dumpHistory (b.prefixMatches addr) b)
  answered : ∀ (u : Uninit) (fuel : Nat) (dumpHistory : Bool) (addr : UInt32),
    LooksUp (jsonEntries u fuel dumpHistory (b.prefixMatches addr) b)
  syslog : ∀ (u : Uninit) (now : TimeT) (flag : NlriParse), ∀ e ∈ b.entries, Safe (dumpText u now b e flag)

/-! ## Lookups -/

section LooksUp

variable {α β : Type}

theorem LooksUp.ok (a : α) : LooksUp (.ok a) := by
  rintro i ⟨⟩

theorem LooksUp.of_safe {x : Checked α} (h : Safe x) : LooksUp x := by
  obtain ⟨a, rfl⟩ := h
  exact .ok a

theorem LooksUp.bind {x : Checked α} {f : α → Checked β} (hx : LooksUp x) (hf : ∀ a, x = .ok a → LooksUp (f a)) :
    LooksUp (x >>= f) := by
  cases x with
  | error e => exact fun i h => hx i (congrArg Except.error (Except.error.inj h))
  | ok a => exact hf a rfl

theorem LooksUp.deref (p : Option α) : LooksUp (deref p) := by
  cases p with
  | none => rintro i ⟨⟩
  | some a => exact .ok a

theorem LooksUp.mapM {f : α → Checked β} {xs : List α} (h : ∀ x ∈ xs, LooksUp (f x)) : LooksUp (xs.mapM f) := by
  induction xs with
  | nil => exact .ok []
  | cons x xs ih =>
      rw [List.mapM_cons]
      rw [List.forall_mem_cons] at h
      exact h.1.bind fun _ _ => (ih h.2).bind fun _ _ => .ok _

end LooksUp

/-! ## Origins -/

theorem originText_eq (origin : UInt8) :
    (origin < 3 ∧ ∃ text, originText origin = .ok text) ∨
      (¬ origin < 3 ∧ originText origin = .error (.lookup origin.toNat)) := by
  have hlength : bgpOriginCodeText.length = 3 := rfl
  have hlt : origin < 3 ↔ origin.toNat < bgpOriginCodeText.length := by
    rw [hlength, UInt8.lt_iff_toNat_lt]
    rfl
  unfold originText
  by_cases h : origin.toNat < bgpOriginCodeText.length
  · rw [List.getElem?_eq_getElem h]
    exact .inl ⟨hlt.mpr h, _, rfl⟩
  · rw [List.getElem?_eq_none (Nat.not_lt.mp h)]
    exact .inr ⟨fun h' => h (hlt.mp h'), rfl⟩

theorem safe_originText {origin : UInt8} : Safe (originText origin) ↔ origin < 3 := by
  obtain ⟨hlt, text, htext⟩ | ⟨hge, herror⟩ := originText_eq origin
  · exact iff_of_true ⟨text, htext⟩ hlt
  · rw [herror]
    exact iff_of_false (not_safe_error _) hge

theorem safe_originText_pure {α : Type} {origin : UInt8} (f : Text → α) :
    Safe (originText origin >>= fun text => (pure (f text) : Checked α)) ↔ origin < 3 := by
  rw [safe_bind_iff (p := True) (by simp), and_true, safe_originText]

section Entry

variable {u : Uninit} {b : BgpCli} {e : BgpUpdate}

theorem safe_dumpText {now : TimeT} {flag : NlriParse} : Safe (dumpText u now b e flag) ↔ e.origin < 3 := by
  unfold dumpText
  exact safe_originText_pure _

theorem looksUp_displayEntry (h : e.origin < 3) : LooksUp (displayEntry u b e) := by
  unfold displayEntry
  refine (LooksUp.deref _).bind fun tm _ => ?_
  exact (LooksUp.of_safe (safe_originText.mpr h)).bind fun _ _ => .ok _

theorem looksUp_jsonifyEntry (h : e.origin < 3) : LooksUp (jsonifyEntry u b e) := by
  unfold jsonifyEntry
  refine (LooksUp.deref _).bind fun tm _ => ?_
  refine (LooksUp.of_safe (safe_originText.mpr h)).bind fun origin _ => ?_
  cases e.as4Aggregator with
  | none => exact .ok _
  | some a => exact ((LooksUp.deref e.aggregator).bind fun _ _ => .ok _).bind fun _ _ => .ok _

/-! ## Paths -/

theorem safe_ribRow : Safe (ribRow e) ↔ e.asPath.isSome = true ∧ e.origin < 3 := by
  unfold ribRow
  cases hpath : e.asPath with
  | none => simp [deref]
  | some s =>
      simp only [deref, Checked.ok_bind, Option.isSome_some, true_and]
      cases e.as4Path with
      | none => exact safe_originText_pure _
      | some s4 => exact safe_originText_pure _

theorem safe_valueAt {s : AsPathSegment} :
    Safe (s.valueAt (s.segValue.length - 1)) ↔ s.segValue.length ≠ 0 := by
  have hsized : s.asns.length = s.segValue.length.toNat := s.segValue.sized
  have hindex : (s.segValue.length - 1).toNat < s.asns.length ↔ s.segValue.length ≠ 0 := by
    rw [hsized]
    by_cases hzero : s.segValue.length = 0
    · simp [hzero]
    · have hpos := toNat_pos hzero
      have hle : (1 : UInt8) ≤ s.segValue.length := UInt8.le_iff_toNat_le.mpr hpos
      rw [UInt8.toNat_sub_of_le _ _ hle, UInt8.toNat_one]
      exact iff_of_true (by omega) hzero
  rw [← hindex]
  unfold AsPathSegment.valueAt
  by_cases h : (s.segValue.length - 1).toNat < s.asns.length
  · rw [List.getElem?_eq_getElem h]
    exact iff_of_true (safe_ok _) h
  · rw [List.getElem?_eq_none (Nat.not_lt.mp h)]
    exact iff_of_false (not_safe_error _) h

theorem isRfc1918_ok (pfx : UInt32) : ∃ rfc, isRfc1918 pfx = .ok rfc := by
  have hblocks : Safe (rfcIps.mapM fun rfc => do
      let addr := (aton rfc.1.toList).getD 0
      let range ← getIpv4HighRange addr rfc.2
      pure (addr, range)) := by
    refine safe_mapM.mpr ?_
    intro rfc hrfc
    have hrange : Safe (getIpv4HighRange ((aton rfc.1.toList).getD 0) rfc.2) := by
      refine (safe_getIpv4HighRange ?_).mpr ?_
      · revert rfc
        decide
      · revert rfc
        decide
    obtain ⟨range, hrange⟩ := hrange
    simp only [hrange, Checked.ok_bind, Checked.pure_eq_ok, safe_ok]
  obtain ⟨blocks, hblocks⟩ := hblocks
  unfold isRfc1918
  rw [hblocks]
  exact ⟨_, rfl⟩

theorem admits_ok (query : OriginQuery) (pfx : UInt32) : ∃ admitted, query.admits pfx = .ok admitted := by
  obtain ⟨rfc, hrfc⟩ := isRfc1918_ok pfx
  cases query with
  | all => exact ⟨true, rfl⟩
  | publicOnly =>
      refine ⟨!rfc, ?_⟩
      rw [OriginQuery.admits, hrfc]
      rfl
  | privateOnly => exact ⟨rfc, hrfc⟩

/-- A query reads the last ASN of an entry. -/
def OriginQuery.Reads (query : OriginQuery) (length : UInt32) (e : BgpUpdate) : Prop :=
  query.admits e.nlri.pfx = .ok true ∧ e.nlri.prefixLength.toUInt32 ≤ length

/-- The index of the last ASN of a path of none is 255. -/
theorem safe_originMatch {query : OriginQuery} {asn length : UInt32} :
    Safe (originMatch query asn length e) ↔
      (query.Reads length e → ∀ s, e.asPath = some s → s.segValue.length ≠ 0) := by
  unfold originMatch OriginQuery.Reads
  cases hpath : e.asPath with
  | none => exact iff_of_true (safe_ok _) fun _ s h => by cases h
  | some s =>
      obtain ⟨admitted, hadmitted⟩ := admits_ok query e.nlri.pfx
      simp only [hadmitted, Checked.ok_bind, Except.ok.injEq, Option.some.injEq, forall_eq']
      split
      · rename_i hreads
        rw [safe_bind_pure, safe_valueAt]
        exact ⟨fun h _ => h, fun h => h hreads⟩
      · rename_i hskips
        exact iff_of_true (safe_ok _) fun hreads => absurd hreads hskips

theorem reads_all : OriginQuery.Reads .all 4294967295 e := by
  refine ⟨rfl, ?_⟩
  rw [UInt32.le_iff_toNat_le, UInt8.toNat_toUInt32]
  have := e.nlri.prefixLength.toNat_lt
  have hmax : (4294967295 : UInt32).toNat = 4294967295 := rfl
  omega

theorem safe_originMatches {query : OriginQuery} {asn length : UInt32} :
    Safe (originMatches query b asn length) ↔ ∀ e ∈ b.entries, Safe (originMatch query asn length e) := by
  unfold originMatches
  rw [safe_bind_pure, safe_mapM]

end Entry

/-! ## Histories -/

/-- A database that holds a history of updates which have what their readers assume. -/
def BgpDatabase.Readable (db : BgpDatabase) : Prop := ∃ h, Holds db h ∧ ∀ e, ∀ r ∈ h e, r.Readable

/-- A query that ends is answered with readable updates, and leaves the database as readable. -/
theorem BgpDatabase.Readable.dbGetEntries {db : BgpDatabase} (hdb : db.Readable) {fuel : Nat} {entry : BgpUpdate}
    {answer : List BgpUpdate × BgpDatabase} (h : db.dbGetEntries fuel entry = some answer) :
    (∀ r ∈ answer.1, r.Readable) ∧ answer.2.Readable := by
  obtain ⟨history, hholds, hall⟩ := hdb
  obtain ⟨hanswer, hholds', -⟩ := hholds.of_dbGetEntries h
  refine ⟨?_, history, hholds', hall⟩
  intro r hr
  rw [hanswer] at hr
  exact hall _ r (List.mem_of_mem_take hr)

section Histories

variable {u : Uninit} {b b' : BgpCli} {e : BgpUpdate} {fuel : Nat} {records : List BgpUpdate}

theorem LooksUp.dbGetEntries : LooksUp (b.dbGetEntries fuel e) := by
  unfold BgpCli.dbGetEntries
  split
  · rintro i ⟨⟩
  · exact .ok _

theorem readable_dbGetEntries (hdb : b.db.Readable) (h : b.dbGetEntries fuel e = .ok (b', records)) :
    (∀ r ∈ records, r.Readable) ∧ b'.db.Readable := by
  unfold BgpCli.dbGetEntries at h
  split at h
  · cases h
  · rename_i records' db hanswer
    cases h
    exact hdb.dbGetEntries hanswer

/-- A match is shown, and so are its records; the database stays readable for the next match. -/
theorem looksUp_showEntry {env : CliEnv} {dumpHistory : Bool} (hdb : b.db.Readable) (he : e.Readable) :
    LooksUp (showEntry env dumpHistory b e) ∧
      ∀ b' t, showEntry env dumpHistory b e = .ok (b', t) → b'.db.Readable := by
  unfold showEntry
  cases dumpHistory with
  | false =>
      refine ⟨(looksUp_displayEntry he.1).bind fun _ _ => .ok _, ?_⟩
      intro b' t h
      obtain ⟨current, -, h⟩ := Checked.bind_eq_ok.mp h
      cases h
      exact hdb
  | true =>
      constructor
      · refine (looksUp_displayEntry he.1).bind fun current _ => ?_
        refine LooksUp.dbGetEntries.bind fun read hread => ?_
        have hrecords := (readable_dbGetEntries hdb hread).1
        refine (LooksUp.mapM fun r hr => ?_).bind fun _ _ => .ok _
        exact (looksUp_displayEntry (hrecords r hr).1).bind fun _ _ => .ok _
      · intro b' t h
        obtain ⟨current, -, h⟩ := Checked.bind_eq_ok.mp h
        obtain ⟨⟨b₁, records⟩, hread, h⟩ := Checked.bind_eq_ok.mp h
        obtain ⟨history, -, h⟩ := Checked.bind_eq_ok.mp h
        cases h
        exact (readable_dbGetEntries hdb hread).2

theorem looksUp_showEntries {env : CliEnv} {dumpHistory : Bool} {found : List BgpUpdate} (hdb : b.db.Readable)
    (hfound : ∀ e ∈ found, e.Readable) : LooksUp (showEntries env dumpHistory found b) := by
  induction found generalizing b with
  | nil => exact .ok _
  | cons e found ih =>
      rw [List.forall_mem_cons] at hfound
      refine (looksUp_showEntry hdb hfound.1).1.bind ?_
      rintro ⟨b₁, text⟩ hshown
      have hdb₁ := (looksUp_showEntry hdb hfound.1).2 b₁ text hshown
      exact (ih hdb₁ hfound.2).bind fun _ _ => .ok _

/-- The same for the object of a match. -/
theorem looksUp_jsonEntry {dumpHistory : Bool} (hdb : b.db.Readable) (he : e.Readable) :
    LooksUp (jsonEntry u fuel dumpHistory b e) ∧
      ∀ b' t, jsonEntry u fuel dumpHistory b e = .ok (b', t) → b'.db.Readable := by
  have hmatch : LooksUp (jsonMatch u b e) := by
    unfold jsonMatch
    refine LooksUp.bind ?_ fun netmask _ => (looksUp_jsonifyEntry he.1).bind fun _ _ => .ok _
    unfold netmaskOf
    dsimp only
    split
    · exact .ok _
    · rintro i ⟨⟩
  unfold jsonEntry
  cases dumpHistory with
  | false =>
      refine ⟨hmatch.bind fun _ _ => .ok _, ?_⟩
      intro b' t h
      obtain ⟨text, -, h⟩ := Checked.bind_eq_ok.mp h
      cases h
      exact hdb
  | true =>
      constructor
      · refine hmatch.bind fun text _ => ?_
        refine LooksUp.dbGetEntries.bind fun read hread => ?_
        have hrecords := (readable_dbGetEntries hdb hread).1
        refine LooksUp.bind ?_ fun _ _ => .ok _
        refine (LooksUp.mapM fun r hr => ?_).bind fun _ _ => .ok _
        exact (looksUp_jsonifyEntry (hrecords r hr).1).bind fun _ _ => .ok _
      · intro b' t h
        obtain ⟨text, -, h⟩ := Checked.bind_eq_ok.mp h
        obtain ⟨⟨b₁, records⟩, hread, h⟩ := Checked.bind_eq_ok.mp h
        obtain ⟨history, -, h⟩ := Checked.bind_eq_ok.mp h
        cases h
        exact (readable_dbGetEntries hdb hread).2

theorem looksUp_jsonEntries {dumpHistory : Bool} {found : List BgpUpdate} (hdb : b.db.Readable)
    (hfound : ∀ e ∈ found, e.Readable) : LooksUp (jsonEntries u fuel dumpHistory found b) := by
  induction found generalizing b with
  | nil => exact .ok _
  | cons e found ih =>
      rw [List.forall_mem_cons] at hfound
      refine (looksUp_jsonEntry hdb hfound.1).1.bind ?_
      rintro ⟨b₁, text⟩ hanswered
      have hdb₁ := (looksUp_jsonEntry hdb hfound.1).2 b₁ text hanswered
      exact (ih hdb₁ hfound.2).bind fun _ _ => .ok _

end Histories

/-! ## All readers -/

theorem BgpUpdate.readable_iff {e : BgpUpdate} :
    e.Readable ↔ e.origin < 3 ∧ e.asPath.isSome = true ∧ ∀ s, e.asPath = some s → s.segValue.length ≠ 0 := by
  unfold BgpUpdate.Readable BgpUpdate.asnCount
  cases e.asPath with
  | none => simp
  | some s => simp

namespace BgpCli

variable {b : BgpCli}

/-- The readers of the whole RIB and of its paths leave no entry out. -/
theorem ReadersSafe.readable (h : b.ReadersSafe) {e : BgpUpdate} (he : e ∈ b.entries) : e.Readable := by
  obtain ⟨hsome, horigin⟩ := safe_ribRow.mp (safe_mapM.mp h.adjRibIn e he)
  have hcount := safe_originMatch.mp (safe_originMatches.mp (h.origins .all 0 4294967295) e he) reads_all
  exact BgpUpdate.readable_iff.mpr ⟨horigin, hsome, hcount⟩

theorem readersSafe_of_readable (hdb : b.db.Readable) (h : ∀ e ∈ b.entries, e.Readable) : b.ReadersSafe where
  adjRibIn := by
    refine safe_mapM.mpr fun e he => ?_
    obtain ⟨horigin, hsome, -⟩ := BgpUpdate.readable_iff.mp (h e he)
    exact safe_ribRow.mpr ⟨hsome, horigin⟩
  origins query asn length := by
    refine safe_originMatches.mpr fun e he => safe_originMatch.mpr fun _ => ?_
    obtain ⟨-, -, hcount⟩ := BgpUpdate.readable_iff.mp (h e he)
    exact hcount
  display u e he := looksUp_displayEntry (h e he).1
  json u e he := looksUp_jsonifyEntry (h e he).1
  shown env dumpHistory addr := looksUp_showEntries hdb fun e he => h e (List.mem_of_mem_filter he)
  answered u fuel dumpHistory addr := looksUp_jsonEntries hdb fun e he => h e (List.mem_of_mem_filter he)
  syslog u now flag e he := safe_dumpText.mpr (h e he).1

theorem mem_entries {e : BgpUpdate} :
    e ∈ b.entries ↔ ∃ (k : PrefixEntry) (r : Route), b.adjRibIn[k]? = some r ∧ r.update = e := by
  simp [BgpCli.entries, Std.ExtTreeMap.mem_toList_iff_getElem?_eq_some]

end BgpCli

end Log2Bgp
