import Log2Bgp.Model.Database

/-!
# Where the loop over a record ends
-/

namespace Log2Bgp

open Lib
open Fstream (readPod)

/-! ## How much a field takes -/

/-- The number of bytes that the field with a code takes, which may depend on the first of them. -/
def fieldSize (code : UInt32) (bs : List UInt8) : Nat :=
  match DbaseAttrib.ofWord code with
  | some .origin | some .addrFamilyId => 1
  | some .addrFamily => 2
  | some .nextHop | some .multiExitDisc | some .localPref => 4
  | some .aggregator | some .as4Aggregator => 8
  | some .nlri => 37
  | some .asPath | some .as4Path => 1 + (1 + 4 * (bs.headD 0).toNat)
  | some .community => 1 + 8 * (bs.headD 0).toNat
  | _ => 0

/-- From a code on, the bytes are fields up to a marker for the end of a record. A marker that is cut
short by the end of the file keeps the last bytes of the one in front of it. -/
inductive EndsRecord : UInt32 → List UInt8 → Prop where
  | stop {code : UInt32} {bs : List UInt8} :
      overlay code (bs.take 4) = DbaseAttrib.endOfRecord.toWord → EndsRecord code bs
  | field {code code' : UInt32} {bs : List UInt8} : code' = overlay code (bs.take 4) →
      4 + fieldSize code' (bs.drop 4) ≤ bs.length →
      EndsRecord code' (bs.drop (4 + fieldSize code' (bs.drop 4))) → EndsRecord code bs

theorem takes_byte (old : UInt8) : Takes (readPod old) fun _ => 1 := Takes.pod old

theorem takes_uint16 (old : UInt16) : Takes (readPod old) fun _ => 2 := Takes.pod old

theorem takes_uint32 (old : UInt32) : Takes (readPod old) fun _ => 4 := Takes.pod old

theorem takes_time (old : TimeT) : Takes (readPod old) fun _ => 8 := Takes.pod old

theorem takes_then {α β : Type} {r : StateM Fstream α} {f : α → StateM Fstream β} {m n : Nat}
    (hr : Takes r fun _ => m) (hf : ∀ a, Takes (f a) fun _ => n) : Takes (r >>= f) fun _ => m + n :=
  hr.bind (n := fun _ _ => n) (k := fun _ => n) hf fun _ _ _ => rfl

theorem takes_aggregator : Takes readAggregator fun _ => 8 :=
  takes_then (takes_uint32 0) fun _ => (takes_uint32 0).map _

theorem readPod_byte (s : Fstream) (hgood : s.failed = false) (hlen : 1 ≤ (s.bytes.drop s.pos).length) :
    (readPod (0 : UInt8) s).1 = (s.bytes.drop s.pos).headD 0 := by
  obtain ⟨b, bs, hbs⟩ := List.exists_cons_of_length_pos hlen
  have hread := Reads.pod (0 : UInt8) b s bs hgood hbs
  rw [hread, hbs]
  rfl

theorem takes_segment : Takes readSegment fun bs => 1 + (1 + 4 * (bs.headD 0).toNat) :=
  (takes_byte 0).bind (n := fun length _ => 1 + 4 * length.toNat)
    (fun length => takes_then (takes_byte 0) fun _ => ((takes_uint32 0).counted length).map _)
    fun s hgood hlen => by rw [readPod_byte s hgood hlen]

theorem takes_communities (old : Counted CommunitySegment) :
    Takes (readCommunities old) fun bs => 1 + 8 * (bs.headD 0).toNat := by
  have helem : Takes readCommunitySegment fun _ => 8 := takes_then (takes_uint32 0) fun _ => (takes_uint32 0).map _
  refine (takes_byte old.length).bind (n := fun length _ => 8 * length.toNat) (fun length => helem.counted length) ?_
  intro s hgood hlen
  obtain ⟨b, bs, hbs⟩ := List.exists_cons_of_length_pos hlen
  rw [Reads.pod old.length b s bs hgood hbs, hbs]
  rfl

theorem takes_nlri (old : BgpNlri) : Takes (readNlri old) fun _ => 37 :=
  takes_then (takes_time _) fun _ => takes_then (takes_uint32 _) fun _ => takes_then (takes_time _) fun _ =>
    takes_then (takes_uint32 _) fun _ => takes_then (takes_uint32 _) fun _ => takes_then (takes_byte _) fun _ =>
    takes_then (takes_uint16 _) fun _ => takes_then (takes_uint32 _) fun _ => (takes_uint16 _).map _

theorem takes_readDbaseField (code : UInt32) (ud : BgpUpdate) : Takes (readDbaseField code ud) (fieldSize code) := by
  unfold readDbaseField fieldSize
  cases DbaseAttrib.ofWord code with
  | none => exact Takes.pure ud
  | some a =>
      cases a with
      | origin => exact (takes_byte _).map _
      | asPath => exact takes_segment.map _
      | nextHop => exact (takes_uint32 _).map _
      | multiExitDisc => exact (takes_uint32 _).map _
      | localPref => exact (takes_uint32 _).map _
      | atomicAggregate => exact Takes.pure _
      | aggregator => exact takes_aggregator.map _
      | community => exact (takes_communities _).map _
      | as4Path => exact takes_segment.map _
      | as4Aggregator => exact takes_aggregator.map _
      | addrFamily => exact (takes_uint16 _).map _
      | addrFamilyId => exact (takes_byte _).map _
      | nlri => exact (takes_nlri _).map _
      | originator => exact Takes.pure ud
      | clusterList => exact Takes.pure ud
      | mpReachNlri => exact Takes.pure ud
      | mpUnreachNlri => exact Takes.pure ud
      | endOfRecord => exact Takes.pure ud

/-! ## The loop -/

section Loop

variable {fuel : Nat} {code : UInt32} {ud : BgpUpdate} {s : Fstream}

theorem readCode_eq (hgood : s.failed = false) : (readPod code s).1 = overlay code ((s.bytes.drop s.pos).take 4) := by
  have hread : Fstream.read (Pod.bytes code) s = ((s.bytes.drop s.pos).take 4 ++
      (memBytes code).drop ((s.bytes.drop s.pos).take 4).length, (Fstream.read (Pod.bytes code) s).2) := by
    simp only [Fstream.read, hgood, Bool.false_eq_true, ↓reduceIte]
    rfl
  exact congrArg (fun x => (Pod.ofBytes x.1 : UInt32)) hread

theorem readCode_stuck (hfailed : s.failed = true) : readPod code s = (code, s) := by
  have hread : Fstream.read (Pod.bytes code) s = (Pod.bytes code, s) := by simp [Fstream.read, hfailed]
  have hpod : readPod code s = (Pod.ofBytes (Fstream.read (Pod.bytes code) s).1, (Fstream.read (Pod.bytes code) s).2) := rfl
  rw [hpod, hread, Pod.ofBytes_bytes]

theorem readRecord_succ (fuel : Nat) (code : UInt32) (ud : BgpUpdate) (s : Fstream) :
    readRecord (fuel + 1) code ud s =
      (let field := readDbaseField (readPod code s).1 ud (readPod code s).2
      if (readPod code s).1 = DbaseAttrib.endOfRecord.toWord then (some field.1, field.2)
      else readRecord fuel (readPod code s).1 field.1 field.2) := by
  have hunfold : readRecord (fuel + 1) code ud s =
      (if (readPod code s).1 = DbaseAttrib.endOfRecord.toWord
        then pure (some (readDbaseField (readPod code s).1 ud (readPod code s).2).1)
        else readRecord fuel (readPod code s).1 (readDbaseField (readPod code s).1 ud (readPod code s).2).1 :
          StateM Fstream (Option BgpUpdate)) (readDbaseField (readPod code s).1 ud (readPod code s).2).2 := rfl
  rw [hunfold]
  dsimp only
  split
  · rfl
  · rfl

theorem readRecord_bytes (fuel : Nat) (code : UInt32) (ud : BgpUpdate) (s : Fstream) :
    (readRecord fuel code ud s).2.bytes = s.bytes := by
  induction fuel generalizing code ud s with
  | zero => rfl
  | succ fuel ih =>
      have hfield := (takes_readDbaseField (readPod code s).1 ud).bytes (readPod code s).2
      rw [(takes_uint32 code).bytes s] at hfield
      rw [readRecord_succ]
      dsimp only
      split
      · exact hfield
      · exact (ih _ _ _).trans hfield

theorem readRecord_stuck (hfailed : s.failed = true) (hcode : code ≠ DbaseAttrib.endOfRecord.toWord) :
    (readRecord fuel code ud s).1 = none := by
  induction fuel generalizing ud with
  | zero => rfl
  | succ fuel ih =>
      rw [readRecord_succ, readCode_stuck hfailed]
      dsimp only
      rw [if_neg hcode, (takes_readDbaseField code ud).stuck s hfailed]
      exact ih

/-- More markers do not change what a loop that has ended returns. -/
theorem readRecord_mono {u : BgpUpdate} (h : (readRecord fuel code ud s).1 = some u) (more : Nat) :
    readRecord (fuel + more) code ud s = readRecord fuel code ud s := by
  induction fuel generalizing code ud s with
  | zero => cases h
  | succ fuel ih =>
      rw [readRecord_succ] at h
      rw [Nat.succ_add, readRecord_succ, readRecord_succ]
      dsimp only at h ⊢
      split
      · rfl
      · rename_i hcode
        rw [if_neg hcode] at h
        exact ih h

theorem takes_pass (code : UInt32) (ud : BgpUpdate) :
    Takes (readPod code >>= fun code => readDbaseField code ud) fun bs =>
      4 + fieldSize (overlay code (bs.take 4)) (bs.drop 4) :=
  (takes_uint32 code).bind (k := fun bs => fieldSize (overlay code (bs.take 4)) (bs.drop 4))
    (fun code => takes_readDbaseField code ud) fun s hgood _ => by rw [readCode_eq hgood]

theorem endsRecord_of_readRecord (hgood : s.failed = false) (h : (readRecord fuel code ud s).1.isSome) :
    EndsRecord code (s.bytes.drop s.pos) := by
  induction fuel generalizing code ud s with
  | zero => cases h
  | succ fuel ih =>
      rw [readRecord_succ] at h
      dsimp only at h
      have hcode : (readPod code s).1 = overlay code ((s.bytes.drop s.pos).take 4) := readCode_eq hgood
      have hpass := takes_pass code ud
      by_cases hstop : (readPod code s).1 = DbaseAttrib.endOfRecord.toWord
      · exact .stop (hcode ▸ hstop)
      · rw [if_neg hstop] at h
        by_cases hlen : 4 + fieldSize (overlay code ((s.bytes.drop s.pos).take 4)) ((s.bytes.drop s.pos).drop 4) ≤
            (s.bytes.drop s.pos).length
        · have hstate : (readDbaseField (readPod code s).1 ud (readPod code s).2).2 = _ := hpass.full s hgood hlen
          rw [hstate, hcode] at h
          refine .field rfl hlen ?_
          rw [List.drop_drop]
          exact ih (s := { s with pos := _ }) hgood h
        · have hfailed : (readDbaseField (readPod code s).1 ud (readPod code s).2).2.failed = true :=
            hpass.short s hgood (by omega)
          rw [readRecord_stuck hfailed hstop] at h
          cases h

theorem readRecord_of_endsRecord {bs : List UInt8} (h : EndsRecord code bs) (hgood : s.failed = false)
    (hdrop : s.bytes.drop s.pos = bs) : ∃ fuel, (readRecord fuel code ud s).1.isSome := by
  induction h generalizing ud s with
  | stop hstop =>
      refine ⟨1, ?_⟩
      rw [readRecord_succ, readCode_eq hgood, hdrop]
      dsimp only
      rw [if_pos hstop]
      rfl
  | @field code code' bs hcode hlen _ ih =>
      subst hdrop
      have hstate : (readDbaseField (readPod code s).1 ud (readPod code s).2).2 = _ :=
        (takes_pass code ud).full s hgood (hcode ▸ hlen)
      obtain ⟨fuel, hfuel⟩ : ∃ fuel, (readRecord fuel code' (readDbaseField (readPod code s).1 ud (readPod code s).2).1
          (readDbaseField (readPod code s).1 ud (readPod code s).2).2).1.isSome :=
        ih (by rw [hstate]; exact hgood) (by rw [hstate, hcode]; simp)
      refine ⟨fuel + 1, ?_⟩
      rw [readRecord_succ]
      dsimp only
      split
      · rfl
      · rw [readCode_eq hgood, ← hcode] at hfuel ⊢
        exact hfuel

/-- The loop over a record ends just where its bytes do. -/
theorem readRecord_ends_iff (hgood : s.failed = false) :
    (∃ fuel, (readRecord fuel code ud s).1.isSome) ↔ EndsRecord code (s.bytes.drop s.pos) :=
  ⟨fun ⟨_, h⟩ => endsRecord_of_readRecord hgood h, fun h => readRecord_of_endsRecord h hgood rfl⟩

end Loop

/-! ## The loop over positions -/

theorem readRecords_cons (fuel : Nat) (i : Int32) (is : List Int32) (s : Fstream) :
    readRecords fuel (i :: is) s =
      (match readRecord fuel 0 {} (s.clear.seekg i.toInt) with
        | (none, s) => (none, s)
        | (some ud, s) => ((readRecords fuel is s).1.map (ud :: ·), (readRecords fuel is s).2)) := by
  simp only [readRecords, bind, StateT.bind, modify, modifyGet, MonadStateOf.modifyGet, StateT.modifyGet, pure]
  cases hr : readRecord fuel 0 {} (s.clear.seekg i.toInt) with
  | mk o t => cases o <;> rfl

theorem readRecords_mono {fuel : Nat} {is : List Int32} {s : Fstream} (h : (readRecords fuel is s).1.isSome)
    (more : Nat) : readRecords (fuel + more) is s = readRecords fuel is s := by
  induction is generalizing s with
  | nil => rfl
  | cons i is ih =>
      rw [readRecords_cons] at h
      rw [readRecords_cons, readRecords_cons]
      cases hone : readRecord fuel 0 {} (s.clear.seekg i.toInt) with
      | mk o s₁ =>
          rw [hone] at h
          cases o with
          | none => cases h
          | some ud =>
              have hmore := readRecord_mono (congrArg Prod.fst hone) more
              rw [hmore, hone]
              dsimp only at h ⊢
              rw [ih (by simpa using h)]

theorem readAt_ends_iff (i : Int32) (s : Fstream) :
    (∃ fuel, (readRecord fuel 0 {} (s.clear.seekg i.toInt)).1.isSome) ↔
      0 ≤ i.toInt ∧ EndsRecord 0 (s.bytes.drop i.toInt.toNat) := by
  by_cases hi : 0 ≤ i.toInt
  · have hseek : s.clear.seekg i.toInt = { bytes := s.bytes, pos := i.toInt.toNat, failed := false } := by
      simp [Fstream.clear, Fstream.seekg, hi]
    rw [hseek, readRecord_ends_iff rfl]
    simp [hi]
  · have hseek : (s.clear.seekg i.toInt).failed = true := by simp [Fstream.clear, Fstream.seekg, hi]
    simp [readRecord_stuck hseek (show (0 : UInt32) ≠ DbaseAttrib.endOfRecord.toWord by decide), hi]

theorem readAt_bytes (fuel : Nat) (i : Int32) (s : Fstream) :
    (readRecord fuel 0 {} (s.clear.seekg i.toInt)).2.bytes = s.bytes := by
  rw [readRecord_bytes]
  unfold Fstream.clear Fstream.seekg
  split
  · rfl
  · split
    · rfl
    · rfl

/-- Every position must lie in the file, in front of the end of a record. -/
theorem readRecords_ends_iff (is : List Int32) (s : Fstream) :
    (∃ fuel, (readRecords fuel is s).1.isSome) ↔
      ∀ i ∈ is, 0 ≤ i.toInt ∧ EndsRecord 0 (s.bytes.drop i.toInt.toNat) := by
  induction is generalizing s with
  | nil => exact iff_of_true ⟨0, rfl⟩ (by simp)
  | cons i is ih =>
      rw [List.forall_mem_cons, ← readAt_ends_iff]
      constructor
      · rintro ⟨fuel, h⟩
        rw [readRecords_cons] at h
        have hbytes := readAt_bytes fuel i s
        cases hone : readRecord fuel 0 {} (s.clear.seekg i.toInt) with
        | mk o s₁ =>
            rw [hone] at h hbytes
            cases o with
            | none => cases h
            | some ud =>
                refine ⟨⟨fuel, by rw [hone]; rfl⟩, ?_⟩
                rw [← hbytes, ← ih]
                exact ⟨fuel, by simpa using h⟩
      · rintro ⟨⟨fuel, hone⟩, hrest⟩
        obtain ⟨ud, hud⟩ := Option.isSome_iff_exists.mp hone
        rw [← readAt_bytes fuel i s, ← ih] at hrest
        obtain ⟨fuel', hfuel'⟩ := hrest
        refine ⟨fuel + fuel', ?_⟩
        rw [readRecords_cons, readRecord_mono hud]
        have hmore := readRecords_mono hfuel' fuel
        rw [Nat.add_comm] at hmore
        generalize readRecord fuel 0 {} (s.clear.seekg i.toInt) = x at hud hmore hfuel'
        obtain ⟨o, s₁⟩ := x
        cases hud
        dsimp only at hmore hfuel' ⊢
        rw [hmore]
        simpa using hfuel'

end Log2Bgp
