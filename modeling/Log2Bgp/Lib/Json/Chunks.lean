import Log2Bgp.Lib.Calendar
import Log2Bgp.Lib.Inet
import Log2Bgp.Lib.Json.Complete

/-!
# Runs of the automaton over the pieces of a text
-/

namespace Log2Bgp.Lib.Json

variable {stack : List Bracket} {s s' : State} {t u : Text}

theorem run_append (s : State) (t u : Text) : run s (t ++ u) = (run s t).bind fun s => run s u := by
  induction t generalizing s with
  | nil => rfl
  | cons c t ih =>
      simp only [List.cons_append, run]
      cases step s c with
      | none => rfl
      | some s' => simp [ih]

theorem run_chunk (s' : State) (h : run s t = some s') (u : Text) : run s (t ++ u) = run s' u := by
  simp [run_append, h]

theorem run_stuck (h : run s t = none) (u : Text) : run s (t ++ u) = none := by
  simp [run_append, h]

/-! ## Strings -/

/-- A text that a string may have as it is. -/
def PlainText (t : Text) : Prop := ∀ c ∈ t, isPlain c = true

theorem plainText_of_all (h : t.all isPlain = true) : PlainText t := List.all_eq_true.mp h

theorem PlainText.append (ht : PlainText t) (hu : PlainText u) : PlainText (t ++ u) := by
  intro c hc
  rcases List.mem_append.mp hc with hc | hc
  · exact ht c hc
  · exact hu c hc

theorem PlainText.cons {c : Char} (hc : isPlain c = true) (ht : PlainText t) : PlainText (c :: t) := by
  simp only [PlainText, List.forall_mem_cons]
  exact ⟨hc, ht⟩

theorem run_plain {isKey : Bool} (ht : PlainText t) (u : Text) :
    run ⟨.string isKey .chars, stack⟩ (t ++ u) = run ⟨.string isKey .chars, stack⟩ u := by
  induction t with
  | nil => rfl
  | cons c t ih =>
      rw [PlainText, List.forall_mem_cons] at ht
      rw [List.cons_append, run, step_plain ht.1, Option.bind_some]
      exact ih ht.2

/-- A text that makes up a string when it is put between quotes. -/
def StringText (t : Text) : Prop := StringRest .chars (t ++ ['"']) []

theorem run_stringRest {isKey : Bool} {part : StringPart} (h : StringRest part (t ++ ['"']) []) :
    run ⟨.string isKey part, stack⟩ t = some ⟨.string isKey .chars, stack⟩ := by
  induction t generalizing part with
  | nil =>
      cases h with
      | quote => rfl
      | plain hc _ => cases hc
      | escape _ hrest => cases hrest
      | hexDigit hc _ => cases hc
      | lastHexDigit hc _ => cases hc
  | cons c t ih =>
      rw [run, Option.bind_eq_some_iff]
      generalize hv : c :: t ++ ['"'] = v at h
      cases h with
      | quote => simp at hv
      | plain hc hrest =>
          cases hv
          exact ⟨_, step_plain hc, ih hrest⟩
      | backslash hrest =>
          cases hv
          exact ⟨_, by simp [step, stepString], ih hrest⟩
      | escape hc hrest =>
          cases hv
          exact ⟨_, step_escape hc, ih hrest⟩
      | unicode hrest =>
          cases hv
          exact ⟨_, by simp [step, stepString], ih hrest⟩
      | hexDigit hc hrest =>
          cases hv
          exact ⟨_, by simp [step, stepString, hc], ih hrest⟩
      | lastHexDigit hc hrest =>
          cases hv
          exact ⟨_, by simp [step, stepString, hc], ih hrest⟩

theorem StringText.run {isKey : Bool} (h : StringText t) (u : Text) :
    run ⟨.string isKey .chars, stack⟩ (t ++ u) = run ⟨.string isKey .chars, stack⟩ u :=
  run_chunk _ (run_stringRest h) u

theorem PlainText.stringText (h : PlainText t) : StringText t := by
  induction t with
  | nil => exact .quote
  | cons c t ih =>
      rw [PlainText, List.forall_mem_cons] at h
      exact .plain h.1 (ih h.2)

theorem isPlain_of_isDigit {c : Char} (h : c.isDigit = true) : isPlain c = true := by
  obtain ⟨-, -, -, -, -, hquote, -⟩ := not_digit_of h
  have hslash : c ≠ '\\' := by
    rintro rfl
    cases h
  have hspace : ' ' ≤ c := by
    simp only [Char.isDigit, Bool.and_eq_true, decide_eq_true_eq] at h
    exact Nat.le_trans (by decide) h.1
  simp [isPlain, hquote, hslash, hspace]

theorem plainText_decimal (n : Nat) : PlainText (decimal n) :=
  fun _ hc => isPlain_of_isDigit (isDigit_of_mem_decimal n hc)

theorem plainText_decimalInt (n : Int) : PlainText (decimalInt n) := by
  unfold decimalInt
  split
  · exact .cons rfl (plainText_decimal _)
  · exact plainText_decimal _

theorem plainText_dotted (bs : List UInt8) : PlainText (dotted bs) := by
  fun_induction dotted bs with
  | case1 => simp [PlainText]
  | case2 b => exact plainText_decimal _
  | case3 b bs hbs ih => exact (plainText_decimal _).append (.cons rfl ih)

theorem plainText_ntoa (addr : UInt32) : PlainText (ntoa addr) := plainText_dotted _

theorem plainText_pad2 (n : Nat) : PlainText (pad2 '0' n) := by
  unfold pad2
  split
  · exact .cons rfl (plainText_decimal n)
  · exact plainText_decimal n

theorem plainText_iso (tm : Tm) : PlainText tm.iso := by
  have hclock : PlainText tm.clock :=
    (plainText_pad2 _).append (.cons rfl ((plainText_pad2 _).append (.cons rfl (plainText_pad2 _))))
  exact (plainText_decimalInt _).append
    (.cons rfl ((plainText_pad2 _).append (.cons rfl ((plainText_pad2 _).append (.cons rfl hclock)))))

/-! ## Numbers -/

/-- A text that goes on as it may behind a number. -/
def EndsValue : Text → Prop
  | [] => False
  | c :: _ => c = ',' ∨ c = ']' ∨ c = '}'

theorem run_number {part : NumberPart} (hends : part.ends = true) (hu : EndsValue u) :
    run ⟨.number part, stack⟩ u = run ⟨.after, stack⟩ u := by
  cases u with
  | nil => cases hu
  | cons c u =>
      have hnone : stepNumber part c = none := by
        obtain rfl | rfl | rfl := hu <;> cases part <;> rfl
      have hstep : step ⟨.number part, stack⟩ c = step ⟨.after, stack⟩ c := by
        simp [step, hnone, hends]
      rw [run, run, hstep]

/-- The digits of a number lead to a part of it that it may end in. -/
theorem run_digits (stack : List Bracket) (n : Nat) : ∃ part : NumberPart, part.ends = true ∧ (0 < n → part = .integer) ∧
    run ⟨.number .unsigned, stack⟩ (decimal n) = some ⟨.number part, stack⟩ := by
  induction n using Nat.strongRecOn with
  | ind n ih =>
    by_cases hlt : n < 10
    · rw [decimal, Nat.toDigits_of_lt_base hlt]
      by_cases hzero : n = 0
      · subst hzero
        exact ⟨.fraction, rfl, fun h => absurd h (by decide), rfl⟩
      · have hdigit : n.digitChar.isDigit = true := by simpa [Nat.isDigit_digitChar] using hlt
        refine ⟨.integer, rfl, fun _ => rfl, ?_⟩
        simp [run, step, stepNumber, hzero, hdigit]
    · have hle : 10 ≤ n := Nat.not_lt.mp hlt
      have hpos : 0 < n / 10 := Nat.div_pos hle (by decide)
      obtain ⟨part, -, hpart, hrun⟩ := ih (n / 10) (Nat.div_lt_self (by omega) (by decide))
      cases hpart hpos
      have hdigit : (n % 10).digitChar.isDigit = true := by
        simpa [Nat.isDigit_digitChar] using Nat.mod_lt n (by decide)
      refine ⟨.integer, rfl, fun _ => rfl, ?_⟩
      rw [decimal, Nat.toDigits_of_base_le (by decide) hle]
      refine (run_chunk _ hrun _).trans ?_
      simp [run, step, stepNumber, hdigit]

theorem run_value_of_digit {c : Char} (hc : c.isDigit = true) (t : Text) :
    run ⟨.value, stack⟩ (c :: t) = run ⟨.number .unsigned, stack⟩ (c :: t) := by
  obtain ⟨-, -, -, -, hminus, hquote, hbracket, hbrace, hws⟩ := not_digit_of hc
  have hstep : step ⟨.value, stack⟩ c = step ⟨.number .unsigned, stack⟩ c := by
    by_cases hzero : c = '0'
    · subst hzero
      rfl
    · simp [step, stepValue, stepNumber, hws, hquote, hbracket, hbrace, hminus, hzero, hc]
  rw [run, run, hstep]

theorem run_decimal (n : Nat) (hu : EndsValue u) :
    run ⟨.value, stack⟩ (decimal n ++ u) = run ⟨.after, stack⟩ u := by
  obtain ⟨part, hends, -, hrun⟩ := run_digits stack n
  obtain ⟨c, t, ht, hc⟩ := exists_decimal_eq_cons n
  rw [ht, List.cons_append, run_value_of_digit hc, ← List.cons_append, ← ht, run_chunk _ hrun,
    run_number hends hu]

theorem run_decimalInt (n : Int) (hu : EndsValue u) :
    run ⟨.value, stack⟩ (decimalInt n ++ u) = run ⟨.after, stack⟩ u := by
  unfold decimalInt
  split
  · obtain ⟨part, hends, -, hrun⟩ := run_digits stack n.natAbs
    rw [List.cons_append]
    refine Eq.trans ?_ ((run_chunk _ hrun u).trans (run_number hends hu))
    rfl
  · exact run_decimal _ hu

end Log2Bgp.Lib.Json
