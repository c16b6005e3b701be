import Log2Bgp.Lib.Lists
import Log2Bgp.Lib.Run

/-!
# Interleaved writes

Writers that share a stream. Each writes its messages in several blocks, and others can write between these.
-/

namespace Log2Bgp.Lib

/-- A writer: the blocks that are left of the message that it has begun, and the messages that come after it. -/
structure Writer (α : Type) where
  current : List (List α) := []
  todo : List (List (List α))
deriving DecidableEq, Repr

structure Writing (α : Type) where
  writers : List (Writer α)
  out : List α := []
deriving DecidableEq, Repr

section Interleaving

variable {α : Type}

/-- The next block, and the writer behind it. -/
def Writer.next : Writer α → Option (List α × Writer α)
  | ⟨b :: rest, todo⟩ => some (b, ⟨rest, todo⟩)
  | ⟨[], (b :: rest) :: todo⟩ => some (b, ⟨rest, todo⟩)
  | ⟨[], []⟩ | ⟨[], [] :: _⟩ => none

/-- Writer `i` writes its next block. -/
def writeStep (s : Writing α) (i : Nat) : Option (Writing α) :=
  s.writers[i]?.bind fun w => w.next.map fun n => ⟨s.writers.set i n.2, s.out ++ n.1⟩

/-- The messages that no writer has begun. -/
def Writing.todo (s : Writing α) : List (List (List α)) := s.writers.flatMap Writer.todo

/-- Nothing is left to write of a message. -/
def Writer.Idle (w : Writer α) : Prop := w.current.flatten = []

/-- What writer `i` writes next, if it is anything, does not come into the message of another. -/
def Alone (s : Writing α) (i : Nat) : Prop :=
  ∀ w ∈ s.writers[i]?, ∀ n ∈ w.next, n.1 = [] ∨ ∀ u ∈ s.writers.eraseIdx i, u.Idle

instance [DecidableEq α] (w : Writer α) : Decidable w.Idle := inferInstanceAs (Decidable (_ = _))

instance [DecidableEq α] (s : Writing α) : DecidablePred (Alone s) := fun i =>
  inferInstanceAs (Decidable (∀ w ∈ s.writers[i]?, ∀ n ∈ w.next, n.1 = [] ∨ ∀ u ∈ s.writers.eraseIdx i, u.Idle))

/-- What messages are written as. -/
def written (ms : List (List (List α))) : List α := ms.flatMap List.flatten

/-- The start of some messages. -/
def Whole (M : List (List α) → Prop) (out : List α) : Prop := ∃ ms, (∀ m ∈ ms, M m) ∧ out <+: written ms

/-- Messages that can be told from each other, and none of which goes on like one that is torn: with what any message
begins with in the place of the blocks that are left. -/
structure Code (M : List (List α) → Prop) : Prop where
  starts : ∀ m, M m → ∃ b rest, m = b :: rest ∧ b ≠ []
  apart : ∀ m m', M m → M m' → m.flatten <+: m'.flatten → m.flatten = m'.flatten
  torn : ∀ pre rest b rest' m, M (pre ++ rest) → pre ≠ [] → rest.flatten ≠ [] → M (b :: rest') → M m →
    ¬ pre.flatten ++ b <+: m.flatten ∧ ¬ m.flatten <+: pre.flatten ++ b

variable {M : List (List α) → Prop}

@[simp] theorem written_append (ms ms' : List (List (List α))) : written (ms ++ ms') = written ms ++ written ms' :=
  List.flatMap_append

@[simp] theorem written_cons (m : List (List α)) (ms : List (List (List α))) :
    written (m :: ms) = m.flatten ++ written ms := List.flatMap_cons

@[simp] theorem written_nil : written ([] : List (List (List α))) = [] := rfl

/-! ## Messages -/

theorem Code.flatten_ne_nil (h : Code M) {m : List (List α)} (hm : M m) : m.flatten ≠ [] := by
  obtain ⟨b, rest, rfl, hb⟩ := h.starts m hm
  simp [hb]

/-- What stands behind whole messages is read by itself. -/
theorem Code.whole_behind (h : Code M) {ms : List (List (List α))} (hms : ∀ m ∈ ms, M m) {out : List α}
    (hwhole : Whole M (written ms ++ out)) : Whole M out := by
  induction ms with
  | nil => exact hwhole
  | cons m ms ih =>
      rw [List.forall_mem_cons] at hms
      obtain ⟨ms', hms', hbegins⟩ := hwhole
      apply ih hms.2
      rw [written_cons, List.append_assoc] at hbegins
      cases ms' with
      | nil =>
          have hnil := (List.append_eq_nil_iff.mp (List.prefix_nil.mp hbegins)).1
          exact absurd hnil (h.flatten_ne_nil hms.1)
      | cons m' ms' =>
          rw [List.forall_mem_cons] at hms'
          rw [written_cons] at hbegins
          have hsame : m.flatten = m'.flatten := by
            rcases List.prefix_or_prefix_of_prefix ((List.prefix_append _ _).trans hbegins)
              (List.prefix_append _ _) with hle | hle
            · exact h.apart m m' hms.1 hms'.1 hle
            · exact (h.apart m' m hms'.1 hms.1 hle).symm
          rw [hsame] at hbegins
          exact ⟨ms', hms'.2, (List.prefix_append_right_inj _).mp hbegins⟩

theorem Code.torn_not_whole (h : Code M) {pre rest rest' : List (List α)} {b : List α} (hm : M (pre ++ rest))
    (hpre : pre ≠ []) (hrest : rest.flatten ≠ []) (hm' : M (b :: rest')) : ¬ Whole M (pre.flatten ++ b) := by
  rintro ⟨ms, hms, hbegins⟩
  cases ms with
  | nil =>
      obtain ⟨b', _, heq, hb⟩ := h.starts _ hm'
      cases heq
      have hnil := (List.append_eq_nil_iff.mp (List.prefix_nil.mp hbegins)).2
      exact hb hnil
  | cons m ms =>
      rw [List.forall_mem_cons] at hms
      rw [written_cons] at hbegins
      obtain ⟨hnot, hnot'⟩ := h.torn pre rest b rest' m hm hpre hrest hm' hms.1
      rcases List.prefix_or_prefix_of_prefix hbegins (List.prefix_append m.flatten (written ms)) with hle | hle
      · exact hnot hle
      · exact hnot' hle

/-! ## Steps -/

variable {s s' : Writing α} {i : Nat} {total : List (List (List α))}

/-- What is on the stream is whole messages, and behind them the blocks that one writer has written of the message that
it has begun. -/
structure UnderWay (s : Writing α) (j : Nat) (pre : List (List α)) (u : Writer α) : Prop where
  writer : s.writers[j]? = some u
  begun : pre ≠ []
  busy : ¬ u.Idle
  others : ∀ v ∈ s.writers.eraseIdx j, v.Idle

/-- Whole messages are on the stream, and behind them what is written of the one that is under way, if any is. With
those that are not begun they are all of the given messages. -/
def Coherent (M : List (List α) → Prop) (total : List (List (List α))) (s : Writing α) : Prop :=
  (∀ m ∈ total, M m) ∧ ∃ ms,
    ((s.out = written ms ∧ (ms ++ s.todo).Perm total ∧ ∀ u ∈ s.writers, u.Idle) ∨
      ∃ j pre u, UnderWay s j pre u ∧ s.out = written ms ++ pre.flatten ∧
        (ms ++ (pre ++ u.current) :: s.todo).Perm total)

theorem Coherent.begins (h : Coherent M total s) : ∃ ms, ms.Perm total ∧ s.out <+: written ms := by
  obtain ⟨_, ms, ⟨hout, hperm, _⟩ | ⟨j, pre, u, hway, hout, hperm⟩⟩ := h
  · refine ⟨_, hperm, ?_⟩
    rw [hout, written_append]
    apply List.prefix_append
  · refine ⟨_, hperm, ?_⟩
    rw [hout, written_append, written_cons, List.flatten_append, List.append_assoc, ← List.append_assoc]
    apply List.prefix_append

/-- A writer goes on with its message, or begins another. -/
theorem writeStep_cases (h : writeStep s i = some s') :
    ∃ b rest todo, s' = ⟨s.writers.set i ⟨rest, todo⟩, s.out ++ b⟩ ∧
      (Alone s i ↔ b = [] ∨ ∀ u ∈ s.writers.eraseIdx i, u.Idle) ∧
      (s.writers[i]? = some ⟨b :: rest, todo⟩ ∨ s.writers[i]? = some ⟨[], (b :: rest) :: todo⟩) := by
  obtain ⟨w, hw, h⟩ := Option.bind_eq_some_iff.mp h
  obtain ⟨⟨b, rest, todo⟩, hn, rfl⟩ := Option.map_eq_some_iff.mp h
  refine ⟨b, rest, todo, rfl, ?_, ?_⟩
  · simp [Alone, hw, hn]
  · rcases w with ⟨_ | ⟨b', rest'⟩, _ | ⟨_ | ⟨b'', rest''⟩, todo'⟩⟩
    · cases hn
    · cases hn
    · cases hn
      exact Or.inr hw
    all_goals
      cases hn
      exact Or.inl hw

theorem writeStep_grows (h : writeStep s i = some s') : s.out <+: s'.out := by
  obtain ⟨b, rest, todo, rfl, _⟩ := writeStep_cases h
  apply List.prefix_append

theorem writeRun_grows {is : List Nat} (h : runAll writeStep is s = some s') : s.out <+: s'.out := by
  have hkeep : ∀ (t : Writing α) (j : Nat) (t' : Writing α), s.out <+: t.out → writeStep t j = some t' →
      s.out <+: t'.out := fun _ _ _ hbegins hstep => hbegins.trans (writeStep_grows hstep)
  exact runAll_invariant hkeep List.prefix_rfl h

theorem Writer.idle_cons {b : List α} {rest : List (List α)} {todo : List (List (List α))} :
    Writer.Idle ⟨b :: rest, todo⟩ ↔ b = [] ∧ rest.flatten = [] := by
  simp [Writer.Idle]

theorem todo_set {u : Writer α} {rest : List (List α)} {out : List α} (hu : s.writers[i]? = some u) :
    Writing.todo ⟨s.writers.set i ⟨rest, u.todo⟩, out⟩ = s.todo := by
  obtain ⟨writers, _⟩ := s
  simp only [Writing.todo] at hu ⊢
  induction writers generalizing i with
  | nil => rfl
  | cons w writers ih =>
      cases i with
      | zero =>
          cases hu
          rfl
      | succ i => simp only [List.set_cons_succ, List.flatMap_cons, ih hu]

/-- The message that a writer begins is one less to begin. -/
theorem todo_begin {u : Writer α} {m rest : List (List α)} {todo : List (List (List α))} {out : List α}
    (hu : s.writers[i]? = some u) (htodo : u.todo = m :: todo) :
    (m :: Writing.todo ⟨s.writers.set i ⟨rest, todo⟩, out⟩).Perm s.todo := by
  obtain ⟨writers, _⟩ := s
  simp only [Writing.todo] at hu ⊢
  induction writers generalizing i with
  | nil => simp at hu
  | cons w writers ih =>
      cases i with
      | zero =>
          cases hu
          simp [htodo]
      | succ i =>
          simp only [List.set_cons_succ, List.flatMap_cons]
          exact List.perm_middle.symm.trans ((ih hu).append_left w.todo)

/-- A writer has begun a message while the others are idle: it is under way, or all of it is written. -/
theorem coherent_set {pre rest : List (List α)} {todo ms : List (List (List α))} (hlt : i < s.writers.length)
    (htotal : ∀ m ∈ total, M m) (hpre : pre ≠ []) (hothers : ∀ v ∈ s.writers.eraseIdx i, v.Idle)
    (hperm : (ms ++ (pre ++ rest) ::
      Writing.todo ⟨s.writers.set i ⟨rest, todo⟩, written ms ++ pre.flatten⟩).Perm total) :
    Coherent M total ⟨s.writers.set i ⟨rest, todo⟩, written ms ++ pre.flatten⟩ := by
  refine ⟨htotal, ?_⟩
  by_cases hrest : rest.flatten = []
  · refine ⟨ms ++ [pre ++ rest], Or.inl ⟨by simp [hrest], by simpa using hperm, ?_⟩⟩
    intro u hu
    obtain ⟨k, hk⟩ := List.mem_iff_getElem?.mp hu
    rcases getElem?_set_or hk with ⟨_, rfl⟩ | ⟨hne, hk⟩
    · exact hrest
    · exact hothers u (List.mem_eraseIdx_iff_getElem?.mpr ⟨k, hne, hk⟩)
  · refine ⟨ms, Or.inr ⟨i, pre, ⟨rest, todo⟩, ?_, rfl, hperm⟩⟩
    exact ⟨List.getElem?_set_self hlt, hpre, hrest, by rwa [List.eraseIdx_set_eq]⟩

theorem mem_todo {u : Writer α} {m : List (List α)} (hu : s.writers[i]? = some u) (hm : m ∈ u.todo) : m ∈ s.todo :=
  List.mem_flatMap.mpr ⟨u, List.mem_of_getElem? hu, hm⟩

/-- A writer that writes alone goes on with the message that is under way, or begins the next. -/
theorem Coherent.step (hcode : Code M) (h : Coherent M total s) (hs : writeStep s i = some s') (halone : Alone s i) :
    Coherent M total s' := by
  obtain ⟨htotal, ms, hwhole⟩ := h
  obtain ⟨b, rest, todo, rfl, hiff, hw | hw⟩ := writeStep_cases hs
  all_goals have hlt := (List.getElem?_eq_some_iff.mp hw).1
  · have htodo : ∀ {out : List α}, Writing.todo ⟨s.writers.set i ⟨rest, todo⟩, out⟩ = s.todo := todo_set hw
    rcases hwhole with ⟨hout, hperm, hidle⟩ | ⟨j, pre, u, hway, hout, hperm⟩
    · obtain ⟨rfl, hrest⟩ := Writer.idle_cons.mp (hidle _ (List.mem_of_getElem? hw))
      refine ⟨htotal, ms, Or.inl ⟨by simp [hout], by rwa [htodo], ?_⟩⟩
      intro u hu
      rcases List.mem_or_eq_of_mem_set hu with hu | rfl
      · exact hidle u hu
      · exact hrest
    · by_cases hij : i = j
      · subst hij
        cases hw.symm.trans hway.writer
        have hnext : Coherent M total ⟨s.writers.set i ⟨rest, todo⟩, written ms ++ (pre ++ [b]).flatten⟩ :=
          coherent_set hlt htotal (by simp) hway.others (by rw [htodo]; simpa using hperm)
        simpa [hout] using hnext
      · have hidle := hway.others _ (List.mem_eraseIdx_iff_getElem?.mpr ⟨i, hij, hw⟩)
        obtain ⟨rfl, hrest⟩ := Writer.idle_cons.mp hidle
        refine ⟨htotal, ms, Or.inr ⟨j, pre, u, ?_, by simp [hout], by rwa [htodo]⟩⟩
        refine ⟨by rw [List.getElem?_set_ne hij]; exact hway.writer, hway.begun, hway.busy, ?_⟩
        intro v hv
        obtain ⟨k, hk, hv⟩ := List.mem_eraseIdx_iff_getElem?.mp hv
        rcases getElem?_set_or hv with ⟨_, rfl⟩ | ⟨_, hv⟩
        · exact hrest
        · exact hway.others v (List.mem_eraseIdx_iff_getElem?.mpr ⟨k, hk, hv⟩)
  · have hmem : b :: rest ∈ s.todo := mem_todo hw List.mem_cons_self
    rcases hwhole with ⟨hout, hperm, _⟩ | ⟨j, pre, u, hway, _, hperm⟩
    · obtain ⟨_, _, heq, hb⟩ := hcode.starts _ (htotal _ (hperm.subset (List.mem_append_right _ hmem)))
      cases heq
      have hothers := (hiff.mp halone).resolve_left hb
      have hbegun : ((b :: rest) :: Writing.todo ⟨s.writers.set i ⟨rest, todo⟩, written ms ++ b⟩).Perm s.todo :=
        todo_begin hw rfl
      have hnext : Coherent M total ⟨s.writers.set i ⟨rest, todo⟩, written ms ++ [b].flatten⟩ :=
        coherent_set hlt htotal (by simp) hothers (by simpa using (hbegun.append_left ms).trans hperm)
      simpa [hout] using hnext
    · have hm := htotal _ (hperm.subset (List.mem_append_right _ (List.mem_cons_of_mem _ hmem)))
      obtain ⟨_, _, heq, hb⟩ := hcode.starts _ hm
      cases heq
      have hothers := (hiff.mp halone).resolve_left hb
      have hij : j ≠ i := by
        rintro rfl
        cases hw.symm.trans hway.writer
        exact hway.busy rfl
      exact absurd (hothers u (List.mem_eraseIdx_iff_getElem?.mpr ⟨j, hij, hway.writer⟩)) hway.busy

/-- A writer that does not write alone tears a message. -/
theorem Coherent.torn (hcode : Code M) (h : Coherent M total s) (hs : writeStep s i = some s') (halone : ¬ Alone s i) :
    ¬ Whole M s'.out := by
  obtain ⟨htotal, ms, hwhole⟩ := h
  obtain ⟨b, rest, todo, rfl, hiff, hw⟩ := writeStep_cases hs
  rw [hiff, not_or] at halone
  obtain ⟨hb, hothers⟩ := halone
  rcases hwhole with ⟨_, _, hidle⟩ | ⟨j, pre, u, hway, hout, hperm⟩
  · exact absurd (fun v hv => hidle v (List.mem_of_mem_eraseIdx hv)) hothers
  · have hms : ∀ m ∈ ms, M m := fun m hm => htotal m (hperm.subset (List.mem_append_left _ hm))
    have hbegun : M (pre ++ u.current) :=
      htotal _ (hperm.subset (List.mem_append_right _ List.mem_cons_self))
    have hij : i ≠ j := by
      rintro rfl
      exact hothers hway.others
    have hnew : M (b :: rest) := by
      rcases hw with hw | hw
      · have hidle := hway.others _ (List.mem_eraseIdx_iff_getElem?.mpr ⟨i, hij, hw⟩)
        exact absurd (Writer.idle_cons.mp hidle).1 hb
      · have hmem := List.mem_cons_of_mem (pre ++ u.current) (mem_todo hw List.mem_cons_self)
        exact htotal _ (hperm.subset (List.mem_append_right _ hmem))
    intro hall
    simp only [hout, List.append_assoc] at hall
    exact hcode.torn_not_whole hbegun hway.begun hway.busy hnew (hcode.whole_behind hms hall)

/-! ## Runs -/

/-- The stream is the start of all the messages, in some order, just where no writer has written into the message of
another. -/
theorem whole_iff (hcode : Code M) {is : List Nat} (h : Coherent M total s)
    (hrun : runAll writeStep is s = some s') :
    (∃ ms, ms.Perm total ∧ s'.out <+: written ms) ↔ AllAdmissible writeStep Alone is s := by
  induction is generalizing s with
  | nil =>
      cases hrun
      exact iff_of_true h.begins trivial
  | cons i is ih =>
      obtain ⟨s₁, hs₁, hrun⟩ := Option.bind_eq_some_iff.mp hrun
      by_cases halone : Alone s i
      · rw [ih (h.step hcode hs₁ halone) hrun]
        simp [AllAdmissible, halone, hs₁]
      · apply iff_of_false
        · rintro ⟨ms, hperm, hbegins⟩
          apply h.torn hcode hs₁ halone
          exact ⟨ms, fun m hm => h.1 m (hperm.subset hm), (writeRun_grows hrun).trans hbegins⟩
        · intro hall
          exact halone hall.1

/-- Writers that have all of their messages to write. -/
def Writing.start (sends : List (List (List (List α)))) : Writing α := ⟨sends.map fun todo => ⟨[], todo⟩, []⟩

theorem coherent_start {sends : List (List (List (List α)))} (h : ∀ m ∈ sends.flatten, M m) :
    Coherent M sends.flatten (Writing.start sends) := by
  refine ⟨h, [], Or.inl ⟨rfl, ?_, ?_⟩⟩
  · simp [Writing.todo, Writing.start, List.flatMap_map, List.flatMap_id']
  · intro u hu
    obtain ⟨todo, _, rfl⟩ := List.mem_map.mp hu
    rfl

end Interleaving

end Log2Bgp.Lib
