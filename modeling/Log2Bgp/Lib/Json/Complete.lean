import Log2Bgp.Lib.Json.Sound

/-!
# What is JSON is accepted
-/

namespace Log2Bgp.Lib.Json

section Complete

variable {stack : List Bracket} {s s' : State} {c : Char} {t u : Text}

theorem State.Accepts.cons (hstep : step s c = some s') (h : s'.Accepts t) : s.Accepts (c :: t) := by
  obtain ⟨s₁, hrun, hends⟩ := h
  exact ⟨s₁, by rw [run, hstep, Option.bind_some, hrun], hends⟩

theorem State.Accepts.uncons (h : s.Accepts (c :: t)) : ∃ s', step s c = some s' ∧ s'.Accepts t := by
  obtain ⟨s₁, hrun, hends⟩ := h
  obtain ⟨s', hstep, hrest⟩ := Option.bind_eq_some_iff.mp hrun
  exact ⟨s', hstep, s₁, hrest, hends⟩

theorem State.Accepts.ws (hloop : ∀ c, isWs c = true → step s c = some s) (hws : Ws t u)
    (h : s.Accepts u) : s.Accepts t := by
  induction hws with
  | nil => exact h
  | cons hc _ ih => exact .cons (hloop _ hc) (ih h)

theorem step_after_ws (hc : isWs c = true) : step ⟨.after, stack⟩ c = some ⟨.after, stack⟩ := by
  simp [step, stepAfter, hc]

theorem step_value_ws (hc : isWs c = true) : step ⟨.value, stack⟩ c = some ⟨.value, stack⟩ := by
  simp [step, stepValue, hc]

theorem step_key_ws (hc : isWs c = true) : step ⟨.key, stack⟩ c = some ⟨.key, stack⟩ := by
  simp [step, stepKey, hc]

theorem step_colon_ws (hc : isWs c = true) : step ⟨.colon, stack⟩ c = some ⟨.colon, stack⟩ := by
  simp [step, hc]

/-- What may come behind a value is white space, a comma or a closing bracket. -/
theorem stepAfter_char (h : stepAfter stack c = some s') :
    isWs c = true ∨ c = ',' ∨ c = ']' ∨ c = '}' := by
  unfold stepAfter at h
  split at h
  · exact .inl ‹_›
  · cases stack with
    | nil => cases h
    | cons b outer =>
        cases b with
        | array =>
            simp only at h
            split at h
            · exact .inr (.inl ‹_›)
            split at h
            · exact .inr (.inr (.inl ‹_›))
            · cases h
        | object =>
            simp only at h
            split at h
            · exact .inr (.inl ‹_›)
            split at h
            · exact .inr (.inr (.inr ‹_›))
            · cases h

theorem stepNumber_of_after (h : stepAfter stack c = some s') (part : NumberPart) :
    stepNumber part c = none := by
  have hchar : ∀ c, isWs c = true ∨ c = ',' ∨ c = ']' ∨ c = '}' →
      c.isDigit = false ∧ c ≠ '0' ∧ c ≠ '.' ∧ c ≠ 'e' ∧ c ≠ 'E' ∧ c ≠ '+' ∧ c ≠ '-' := by
    intro c hc
    simp only [isWs, Bool.or_eq_true, decide_eq_true_eq] at hc
    obtain ((((rfl | rfl) | rfl) | rfl) | rfl | rfl | rfl) := hc <;> decide
  obtain ⟨hdigit, hzero, hpoint, he, hE, hplus, hminus⟩ := hchar c (stepAfter_char h)
  cases part <;> simp [stepNumber, hdigit, hzero, hpoint, he, hE, hplus, hminus]

/-- Where a number may end, it is followed by what follows any value. -/
theorem accepts_number_of_ends {part : NumberPart} (hends : part.ends = true)
    (h : State.Accepts ⟨.after, stack⟩ t) : State.Accepts ⟨.number part, stack⟩ t := by
  cases t with
  | nil =>
      obtain ⟨s', hrun, hs'⟩ := h
      cases hrun
      refine ⟨_, rfl, ?_⟩
      simpa [State.ends, hends] using hs'
  | cons c t =>
      obtain ⟨s', hstep, hrest⟩ := h.uncons
      have hnumber : step ⟨.number part, stack⟩ c = some s' := by
        simp only [step, stepNumber_of_after hstep, hends, if_true]
        exact hstep
      exact .cons hnumber hrest

theorem step_plain {isKey : Bool} (hc : isPlain c = true) :
    step ⟨.string isKey .chars, stack⟩ c = some ⟨.string isKey .chars, stack⟩ := by
  simp only [isPlain, Bool.and_eq_true, decide_eq_true_eq] at hc
  simp [step, stepString, isPlain, hc]

theorem step_escape {isKey : Bool} (hc : isEscape c = true) :
    step ⟨.string isKey .escape, stack⟩ c = some ⟨.string isKey .chars, stack⟩ := by
  have hne : c ≠ 'u' := by
    rintro rfl
    exact absurd hc (by decide)
  simp [step, stepString, hc, hne]

theorem StringRest.accepts {part : StringPart} (hstring : StringRest part t u) (isKey : Bool)
    (h : State.Accepts ⟨closeString isKey, stack⟩ u) : State.Accepts ⟨.string isKey part, stack⟩ t := by
  induction hstring with
  | quote => exact .cons (by simp [step, stepString]) h
  | plain hc _ ih => exact .cons (step_plain hc) (ih h)
  | backslash _ ih => exact .cons (by simp [step, stepString]) (ih h)
  | escape hc _ ih => exact .cons (step_escape hc) (ih h)
  | unicode _ ih => exact .cons (by simp [step, stepString]) (ih h)
  | hexDigit hc _ ih => exact .cons (by simp [step, stepString, hc]) (ih h)
  | lastHexDigit hc _ ih => exact .cons (by simp [step, stepString, hc]) (ih h)

theorem not_digit_of {c : Char} (h : c.isDigit = true) :
    c ≠ '.' ∧ c ≠ 'e' ∧ c ≠ 'E' ∧ c ≠ '+' ∧ c ≠ '-' ∧ c ≠ '"' ∧ c ≠ '[' ∧ c ≠ '{' ∧ isWs c = false := by
  have hws : isWs c = false := by
    by_contra hws
    simp only [Bool.not_eq_false, isWs, Bool.or_eq_true, decide_eq_true_eq] at hws
    obtain (((rfl | rfl) | rfl) | rfl) := hws <;> exact absurd h (by decide)
  refine ⟨?_, ?_, ?_, ?_, ?_, ?_, ?_, ?_, hws⟩ <;>
    (rintro rfl; exact absurd h (by decide))

theorem step_number {part part' : NumberPart} (h : stepNumber part c = some part') :
    step ⟨.number part, stack⟩ c = some ⟨.number part', stack⟩ := by
  simp [step, h]

/-- A part that can do what another part can accepts what that part accepts. -/
theorem accepts_number_mono {part part' : NumberPart} (hends : part.ends = true → part'.ends = true)
    (hstep : ∀ c q, stepNumber part c = some q → stepNumber part' c = some q)
    (h : State.Accepts ⟨.number part, stack⟩ t) : State.Accepts ⟨.number part', stack⟩ t := by
  cases t with
  | nil =>
      obtain ⟨s', hrun, hs'⟩ := h
      cases hrun
      simp only [State.ends, Bool.and_eq_true] at hs'
      exact ⟨_, rfl, by simp only [State.ends, Bool.and_eq_true]; exact ⟨hs'.1, hends hs'.2⟩⟩
  | cons c t =>
      obtain ⟨s', hs', hrest⟩ := h.uncons
      cases hpart : stepNumber part c with
      | some q =>
          rw [step_number hpart] at hs'
          cases hs'
          exact .cons (step_number (hstep c q hpart)) hrest
      | none =>
          simp only [step, hpart] at hs'
          split at hs'
          · rename_i hpartEnds
            have hafter : State.Accepts ⟨.after, stack⟩ (c :: t) := .cons hs' hrest
            exact accepts_number_of_ends (hends hpartEnds) hafter
          · cases hs'

theorem NumberRest.accepts {part : NumberPart} (hnumber : NumberRest part t u)
    (h : State.Accepts ⟨.after, stack⟩ u) : State.Accepts ⟨.number part, stack⟩ t := by
  induction hnumber with
  | zero _ ih => exact .cons (step_number (by simp [stepNumber])) (ih h)
  | first hc hzero _ ih => exact .cons (step_number (by simp [stepNumber, hc, hzero])) (ih h)
  | integer hc _ ih => exact .cons (step_number (by simp [stepNumber, hc])) (ih h)
  | integerEnd _ ih =>
      refine accepts_number_mono (fun _ => rfl) ?_ (ih h)
      intro c q hq
      have hdigit : c.isDigit = false := by
        by_contra hdigit
        obtain ⟨hpoint, he, hE, -⟩ := not_digit_of (Bool.not_eq_false _ ▸ hdigit)
        simp [stepNumber, hpoint, he, hE] at hq
      simpa [stepNumber, hdigit] using hq
  | point _ ih => exact .cons (step_number (by simp [stepNumber])) (ih h)
  | exponent hc _ ih =>
      refine .cons (step_number ?_) (ih h)
      obtain rfl | rfl := hc <;> rfl
  | fractionEnd => exact accepts_number_of_ends rfl h
  | decimal hc _ ih => exact .cons (step_number (by simp [stepNumber, hc])) (ih h)
  | decimals hc _ ih => exact .cons (step_number (by simp [stepNumber, hc])) (ih h)
  | decimalsExponent hc _ ih =>
      refine .cons (step_number ?_) (ih h)
      obtain rfl | rfl := hc <;> rfl
  | decimalsEnd => exact accepts_number_of_ends rfl h
  | sign hc _ ih => exact .cons (step_number (by simp [stepNumber, hc])) (ih h)
  | signEnd _ ih =>
      refine accepts_number_mono (fun hends => by cases hends) ?_ (ih h)
      intro c q hq
      simp only [stepNumber] at hq
      split at hq
      · rename_i hdigit
        obtain ⟨-, -, -, hplus, hminus, -⟩ := not_digit_of hdigit
        simpa [stepNumber, hplus, hminus, hdigit] using hq
      · cases hq
  | digit hc _ ih => exact .cons (step_number (by simp [stepNumber, hc])) (ih h)
  | digits hc _ ih => exact .cons (step_number (by simp [stepNumber, hc])) (ih h)
  | digitsEnd => exact accepts_number_of_ends rfl h

theorem accepts_value_of_number (h : State.Accepts ⟨.number .unsigned, stack⟩ t) :
    State.Accepts ⟨.value, stack⟩ t := by
  cases t with
  | nil =>
      obtain ⟨s', hrun, hs'⟩ := h
      cases hrun
      simp [State.ends, NumberPart.ends] at hs'
  | cons c t =>
      obtain ⟨s', hs', hrest⟩ := h.uncons
      suffices hstep : step ⟨.value, stack⟩ c = some s' from .cons hstep hrest
      by_cases hzero : c = '0'
      · subst hzero
        exact hs'
      · by_cases hdigit : c.isDigit = true
        · obtain ⟨-, -, -, -, hminus, hquote, hbracket, hbrace, hws⟩ := not_digit_of hdigit
          simp only [step, stepNumber, hzero, hdigit, if_true, if_false] at hs'
          simpa [step, stepValue, hzero, hdigit, hminus, hquote, hbracket, hbrace, hws] using hs'
        · simp [step, stepNumber, hzero, hdigit, NumberPart.ends] at hs'

theorem accepts_first_of_value (h : State.Accepts ⟨.value, stack⟩ t) : State.Accepts ⟨.first, stack⟩ t := by
  induction t with
  | nil =>
      obtain ⟨s', hrun, hs'⟩ := h
      cases hrun
      simp [State.ends] at hs'
  | cons c t ih =>
      obtain ⟨s', hs', hrest⟩ := h.uncons
      by_cases hws : isWs c = true
      · rw [step_value_ws hws] at hs'
        cases hs'
        exact .cons (by simp [step, hws]) (ih hrest)
      · by_cases hclose : c = ']'
        · subst hclose
          cases hs'
        · exact .cons (by simpa [step, hws, hclose] using hs') hrest

theorem accepts_firstKey_of_key (h : State.Accepts ⟨.key, stack⟩ t) :
    State.Accepts ⟨.firstKey, stack⟩ t := by
  induction t with
  | nil =>
      obtain ⟨s', hrun, hs'⟩ := h
      cases hrun
      simp [State.ends] at hs'
  | cons c t ih =>
      obtain ⟨s', hs', hrest⟩ := h.uncons
      by_cases hws : isWs c = true
      · rw [step_key_ws hws] at hs'
        cases hs'
        exact .cons (by simp [step, hws]) (ih hrest)
      · by_cases hclose : c = '}'
        · subst hclose
          cases hs'
        · exact .cons (by simpa [step, hws, hclose] using hs') hrest

/-- Where a state accepts what is behind a value, it accepts the value before it. -/
def Part.AcceptedIn (part : Part) (t u : Text) : Prop :=
  match part with
  | .value => ∀ stack, State.Accepts ⟨.after, stack⟩ u → State.Accepts ⟨.value, stack⟩ t
  | .elements => ∀ outer, State.Accepts ⟨.after, .array :: outer⟩ u →
      State.Accepts ⟨.value, .array :: outer⟩ t
  | .members => ∀ outer, State.Accepts ⟨.after, .object :: outer⟩ u →
      State.Accepts ⟨.key, .object :: outer⟩ t

theorem Parses.accepts {part : Part} (h : Parses part t u) : part.AcceptedIn t u := by
  induction h with
  | string hstring => exact fun stack h => .cons rfl (hstring.accepts false h)
  | number hnumber => exact fun stack h => accepts_value_of_number (hnumber.accepts h)
  | negative hnumber => exact fun stack h => .cons rfl (hnumber.accepts h)
  | literal hw =>
      intro stack h
      simp only [literals, List.mem_cons, List.not_mem_nil, or_false] at hw
      obtain rfl | rfl | rfl := hw
      · exact .cons rfl (.cons rfl (.cons rfl (.cons rfl h)))
      · exact .cons rfl (.cons rfl (.cons rfl (.cons rfl (.cons rfl h))))
      · exact .cons rfl (.cons rfl (.cons rfl (.cons rfl h)))
  | emptyArray hws =>
      intro stack h
      have hclose : State.Accepts ⟨.first, .array :: stack⟩ (']' :: _) := .cons rfl h
      exact .cons rfl (.ws (fun c hc => by simp [step, hc]) hws hclose)
  | array _ ih =>
      intro stack h
      exact .cons rfl (accepts_first_of_value (ih stack (.cons rfl h)))
  | emptyObject hws =>
      intro stack h
      have hclose : State.Accepts ⟨.firstKey, .object :: stack⟩ ('}' :: _) := .cons rfl h
      exact .cons rfl (.ws (fun c hc => by simp [step, hc]) hws hclose)
  | object _ ih =>
      intro stack h
      exact .cons rfl (accepts_firstKey_of_key (ih stack (.cons rfl h)))
  | element hws _ hws' ih =>
      intro outer h
      exact .ws (fun c => step_value_ws) hws (ih _ (.ws (fun c => step_after_ws) hws' h))
  | elements hws _ hws' _ ih ihmore =>
      intro outer h
      have hcomma : State.Accepts ⟨.after, .array :: outer⟩ (',' :: _) := .cons rfl (ihmore outer h)
      exact .ws (fun c => step_value_ws) hws (ih _ (.ws (fun c => step_after_ws) hws' hcomma))
  | member hws hkey hcolon hws' _ hws'' ih =>
      intro outer h
      have hvalue := ih _ (.ws (fun c => step_after_ws) hws'' h)
      have hafterKey : State.Accepts ⟨.colon, .object :: outer⟩ (':' :: _) :=
        .cons rfl (.ws (fun c => step_value_ws) hws' hvalue)
      have hquote : State.Accepts ⟨.key, .object :: outer⟩ ('"' :: _) :=
        .cons rfl (hkey.accepts true (.ws (fun c => step_colon_ws) hcolon hafterKey))
      exact .ws (fun c => step_key_ws) hws hquote
  | members hws hkey hcolon hws' _ hws'' _ ih ihmore =>
      intro outer h
      have hcomma : State.Accepts ⟨.after, .object :: outer⟩ (',' :: _) := .cons rfl (ihmore outer h)
      have hvalue := ih _ (.ws (fun c => step_after_ws) hws'' hcomma)
      have hafterKey : State.Accepts ⟨.colon, .object :: outer⟩ (':' :: _) :=
        .cons rfl (.ws (fun c => step_value_ws) hws' hvalue)
      have hquote : State.Accepts ⟨.key, .object :: outer⟩ ('"' :: _) :=
        .cons rfl (hkey.accepts true (.ws (fun c => step_colon_ws) hcolon hafterKey))
      exact .ws (fun c => step_key_ws) hws hquote

end Complete

/-- The automaton accepts just the JSON texts. -/
theorem accepts_iff {t : Text} : start.Accepts t ↔ IsJson t := by
  constructor
  · exact fun h => h.closes
  · rintro ⟨v, v', hws, hvalue, hws'⟩
    have hend : State.Accepts ⟨.after, []⟩ [] := ⟨_, rfl, rfl⟩
    exact .ws (fun c => step_value_ws) hws (hvalue.accepts [] (.ws (fun c => step_after_ws) hws' hend))

end Log2Bgp.Lib.Json
