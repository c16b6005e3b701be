import Log2Bgp.Lib.Json.Automaton

/-!
# What is accepted is JSON
-/

namespace Log2Bgp.Lib.Json

/-! ## What the brackets that are open still ask for -/

/-- What may come behind a value: what closes the brackets that are open. -/
def Tail : List Bracket → Text → Prop
  | [], t => Ws t []
  | .array :: outer, t => ∃ u,
      (Ws t (']' :: u) ∨ ∃ t', Ws t (',' :: t') ∧ Parses .elements t' (']' :: u)) ∧ Tail outer u
  | .object :: outer, t => ∃ u,
      (Ws t ('}' :: u) ∨ ∃ t', Ws t (',' :: t') ∧ Parses .members t' ('}' :: u)) ∧ Tail outer u

def ClosesValue (stack : List Bracket) (t : Text) : Prop :=
  ∃ v v', Ws t v ∧ Parses .value v v' ∧ Tail stack v'

def ClosesColon (stack : List Bracket) (t : Text) : Prop := ∃ t', Ws t (':' :: t') ∧ ClosesValue stack t'

def ClosesKey (stack : List Bracket) (t : Text) : Prop :=
  ∃ k k', Ws t ('"' :: k) ∧ StringRest .chars k k' ∧ ClosesColon stack k'

/-- What a state still asks of the text. -/
def Closes (s : State) (t : Text) : Prop :=
  match s.mode with
  | .value => ClosesValue s.stack t
  | .first => ClosesValue s.stack t ∨ ∃ u, Ws t (']' :: u) ∧ Tail s.stack.tail u
  | .key => ClosesKey s.stack t
  | .firstKey => ClosesKey s.stack t ∨ ∃ u, Ws t ('}' :: u) ∧ Tail s.stack.tail u
  | .colon => ClosesColon s.stack t
  | .after => Tail s.stack t
  | .string isKey part => ∃ u, StringRest part t u ∧ if isKey then ClosesColon s.stack u else Tail s.stack u
  | .number part => ∃ u, NumberRest part t u ∧ Tail s.stack u
  | .word rest => ∃ u, t = rest ++ u ∧ Tail s.stack u

section Sound

variable {stack : List Bracket} {s s' : State} {c : Char} {t : Text}

theorem Tail.ws (hc : isWs c = true) (h : Tail stack t) : Tail stack (c :: t) := by
  cases stack with
  | nil => exact .cons hc h
  | cons b outer =>
      cases b with
      | array =>
          obtain ⟨u, hclose | ⟨t', hcomma, hmore⟩, htail⟩ := h
          · exact ⟨u, .inl (.cons hc hclose), htail⟩
          · exact ⟨u, .inr ⟨t', .cons hc hcomma, hmore⟩, htail⟩
      | object =>
          obtain ⟨u, hclose | ⟨t', hcomma, hmore⟩, htail⟩ := h
          · exact ⟨u, .inl (.cons hc hclose), htail⟩
          · exact ⟨u, .inr ⟨t', .cons hc hcomma, hmore⟩, htail⟩

theorem ClosesValue.ws (hc : isWs c = true) (h : ClosesValue stack t) : ClosesValue stack (c :: t) := by
  obtain ⟨v, v', hws, hrest⟩ := h
  exact ⟨v, v', .cons hc hws, hrest⟩

theorem ClosesColon.ws (hc : isWs c = true) (h : ClosesColon stack t) : ClosesColon stack (c :: t) := by
  obtain ⟨t', hws, hrest⟩ := h
  exact ⟨t', .cons hc hws, hrest⟩

theorem ClosesKey.ws (hc : isWs c = true) (h : ClosesKey stack t) : ClosesKey stack (c :: t) := by
  obtain ⟨k, k', hws, hrest⟩ := h
  exact ⟨k, k', .cons hc hws, hrest⟩

/-- A value in an array begins the elements up to its end. -/
theorem ClosesValue.elements (h : ClosesValue (.array :: stack) t) :
    ∃ u, Parses .elements t (']' :: u) ∧ Tail stack u := by
  obtain ⟨v, v', hws, hvalue, u, hclose | ⟨t', hcomma, hmore⟩, htail⟩ := h
  · exact ⟨u, .element hws hvalue hclose, htail⟩
  · exact ⟨u, .elements hws hvalue hcomma hmore, htail⟩

theorem ClosesKey.members (h : ClosesKey (.object :: stack) t) :
    ∃ u, Parses .members t ('}' :: u) ∧ Tail stack u := by
  obtain ⟨k, k', hws, hkey, w, hcolon, v, v', hws', hvalue, u, hclose | ⟨t', hcomma, hmore⟩, htail⟩ := h
  · exact ⟨u, .member hws hkey hcolon hws' hvalue hclose, htail⟩
  · exact ⟨u, .members hws hkey hcolon hws' hvalue hcomma hmore, htail⟩

theorem stepAfter_sound (hstep : stepAfter stack c = some s') (h : Closes s' t) : Tail stack (c :: t) := by
  unfold stepAfter at hstep
  split at hstep
  · rename_i hc
    cases hstep
    exact Tail.ws hc h
  · cases stack with
    | nil => cases hstep
    | cons b outer =>
        cases b with
        | array =>
            simp only at hstep
            split at hstep
            · rename_i hcomma
              subst hcomma
              cases hstep
              obtain ⟨u, hmore, htail⟩ := ClosesValue.elements h
              exact ⟨u, .inr ⟨t, .nil, hmore⟩, htail⟩
            · split at hstep
              · rename_i hclose
                subst hclose
                cases hstep
                exact ⟨t, .inl .nil, h⟩
              · cases hstep
        | object =>
            simp only at hstep
            split at hstep
            · rename_i hcomma
              subst hcomma
              cases hstep
              obtain ⟨u, hmore, htail⟩ := ClosesKey.members h
              exact ⟨u, .inr ⟨t, .nil, hmore⟩, htail⟩
            · split at hstep
              · rename_i hclose
                subst hclose
                cases hstep
                exact ⟨t, .inl .nil, h⟩
              · cases hstep

/-- A word of the language that ends where a state asks for the rest of it. -/
theorem closesValue_word {d : Char} {rest : Text} (hword : d :: rest ∈ literals)
    (h : ∃ u, t = rest ++ u ∧ Tail stack u) : ClosesValue stack (d :: t) := by
  obtain ⟨u, rfl, htail⟩ := h
  exact ⟨_, u, .nil, .literal hword, htail⟩

theorem stepValue_sound (hstep : stepValue stack c = some s') (h : Closes s' t) :
    ClosesValue stack (c :: t) := by
  unfold stepValue at hstep
  split at hstep
  · rename_i hc
    cases hstep
    exact ClosesValue.ws hc h
  split at hstep
  · rename_i hquote
    subst hquote
    cases hstep
    obtain ⟨u, hstring, htail⟩ := h
    exact ⟨_, u, .nil, .string hstring, htail⟩
  split at hstep
  · rename_i hopen
    subst hopen
    cases hstep
    obtain hmore | ⟨u, hempty, htail⟩ := h
    · obtain ⟨u, helements, htail⟩ := ClosesValue.elements hmore
      exact ⟨_, u, .nil, .array helements, htail⟩
    · exact ⟨_, u, .nil, .emptyArray hempty, htail⟩
  split at hstep
  · rename_i hopen
    subst hopen
    cases hstep
    obtain hmore | ⟨u, hempty, htail⟩ := h
    · obtain ⟨u, hmembers, htail⟩ := ClosesKey.members hmore
      exact ⟨_, u, .nil, .object hmembers, htail⟩
    · exact ⟨_, u, .nil, .emptyObject hempty, htail⟩
  split at hstep
  · rename_i hminus
    subst hminus
    cases hstep
    obtain ⟨u, hnumber, htail⟩ := h
    exact ⟨_, u, .nil, .negative hnumber, htail⟩
  split at hstep
  · rename_i hzero
    subst hzero
    cases hstep
    obtain ⟨u, hnumber, htail⟩ := h
    exact ⟨_, u, .nil, .number (.zero hnumber), htail⟩
  rename_i hnotZero
  split at hstep
  · rename_i hdigit
    cases hstep
    obtain ⟨u, hnumber, htail⟩ := h
    exact ⟨_, u, .nil, .number (.first hdigit hnotZero hnumber), htail⟩
  split at hstep
  · rename_i hword
    subst hword
    cases hstep
    exact closesValue_word (by decide) h
  split at hstep
  · rename_i hword
    subst hword
    cases hstep
    exact closesValue_word (by decide) h
  split at hstep
  · rename_i hword
    subst hword
    cases hstep
    exact closesValue_word (by decide) h
  · cases hstep

theorem stepKey_sound (hstep : stepKey stack c = some s') (h : Closes s' t) : ClosesKey stack (c :: t) := by
  unfold stepKey at hstep
  split at hstep
  · rename_i hc
    cases hstep
    exact ClosesKey.ws hc h
  split at hstep
  · rename_i hquote
    subst hquote
    cases hstep
    obtain ⟨u, hstring, hcolon⟩ := h
    exact ⟨t, u, .nil, hstring, hcolon⟩
  · cases hstep

theorem closeString_closes {isKey : Bool} :
    Closes ⟨closeString isKey, stack⟩ t ↔ if isKey then ClosesColon stack t else Tail stack t := by
  cases isKey <;> rfl

theorem stepString_sound {isKey : Bool} {part : StringPart} {mode : Mode}
    (hstep : stepString isKey part c = some mode) (h : Closes ⟨mode, stack⟩ t) :
    Closes ⟨.string isKey part, stack⟩ (c :: t) := by
  cases part with
  | chars =>
      simp only [stepString] at hstep
      split at hstep
      · rename_i hquote
        subst hquote
        cases hstep
        exact ⟨t, .quote, closeString_closes.mp h⟩
      split at hstep
      · rename_i hslash
        subst hslash
        cases hstep
        obtain ⟨u, hrest, htail⟩ := h
        exact ⟨u, .backslash hrest, htail⟩
      split at hstep
      · rename_i hplain
        cases hstep
        obtain ⟨u, hrest, htail⟩ := h
        exact ⟨u, .plain hplain hrest, htail⟩
      · cases hstep
  | escape =>
      simp only [stepString] at hstep
      split at hstep
      · rename_i hu
        subst hu
        cases hstep
        obtain ⟨u, hrest, htail⟩ := h
        exact ⟨u, .unicode hrest, htail⟩
      split at hstep
      · rename_i hescape
        cases hstep
        obtain ⟨u, hrest, htail⟩ := h
        exact ⟨u, .escape hescape hrest, htail⟩
      · cases hstep
  | hex left =>
      cases left with
      | zero =>
          simp only [stepString] at hstep
          split at hstep
          · rename_i hdigit
            cases hstep
            obtain ⟨u, hrest, htail⟩ := h
            exact ⟨u, .lastHexDigit hdigit hrest, htail⟩
          · cases hstep
      | succ left =>
          simp only [stepString] at hstep
          split at hstep
          · rename_i hdigit
            cases hstep
            obtain ⟨u, hrest, htail⟩ := h
            exact ⟨u, .hexDigit hdigit hrest, htail⟩
          · cases hstep

theorem stepNumber_sound {part part' : NumberPart} {u : Text} (hstep : stepNumber part c = some part')
    (h : NumberRest part' t u) : NumberRest part (c :: t) u := by
  cases part with
  | unsigned =>
      simp only [stepNumber] at hstep
      split at hstep
      · rename_i hzero
        subst hzero
        cases hstep
        exact .zero h
      · rename_i hnotZero
        split at hstep
        · rename_i hdigit
          cases hstep
          exact .first hdigit hnotZero h
        · cases hstep
  | integer =>
      simp only [stepNumber] at hstep
      split at hstep
      · rename_i hdigit
        cases hstep
        exact .integer hdigit h
      split at hstep
      · rename_i hpoint
        subst hpoint
        cases hstep
        exact .integerEnd (.point h)
      split at hstep
      · rename_i hexp
        cases hstep
        exact .integerEnd (.exponent hexp h)
      · cases hstep
  | fraction =>
      simp only [stepNumber] at hstep
      split at hstep
      · rename_i hpoint
        subst hpoint
        cases hstep
        exact .point h
      split at hstep
      · rename_i hexp
        cases hstep
        exact .exponent hexp h
      · cases hstep
  | decimal =>
      simp only [stepNumber] at hstep
      split at hstep
      · rename_i hdigit
        cases hstep
        exact .decimal hdigit h
      · cases hstep
  | decimals =>
      simp only [stepNumber] at hstep
      split at hstep
      · rename_i hdigit
        cases hstep
        exact .decimals hdigit h
      split at hstep
      · rename_i hexp
        cases hstep
        exact .decimalsExponent hexp h
      · cases hstep
  | sign =>
      simp only [stepNumber] at hstep
      split at hstep
      · rename_i hsign
        cases hstep
        exact .sign hsign h
      split at hstep
      · rename_i hdigit
        cases hstep
        exact .signEnd (.digit hdigit h)
      · cases hstep
  | digit =>
      simp only [stepNumber] at hstep
      split at hstep
      · rename_i hdigit
        cases hstep
        exact .digit hdigit h
      · cases hstep
  | digits =>
      simp only [stepNumber] at hstep
      split at hstep
      · rename_i hdigit
        cases hstep
        exact .digits hdigit h
      · cases hstep

theorem NumberRest.of_ends {part : NumberPart} (h : part.ends = true) : NumberRest part t t := by
  cases part with
  | integer => exact .integerEnd .fractionEnd
  | fraction => exact .fractionEnd
  | decimals => exact .decimalsEnd
  | digits => exact .digitsEnd
  | _ => cases h

theorem step_sound (hstep : step s c = some s') (h : Closes s' t) : Closes s (c :: t) := by
  obtain ⟨mode, stack⟩ := s
  cases mode with
  | value => exact stepValue_sound hstep h
  | first =>
      simp only [step] at hstep
      split at hstep
      · rename_i hc
        cases hstep
        obtain hvalue | ⟨u, hclose, htail⟩ := h
        · exact .inl (ClosesValue.ws hc hvalue)
        · exact .inr ⟨u, .cons hc hclose, htail⟩
      split at hstep
      · rename_i hclose
        subst hclose
        cases hstep
        exact .inr ⟨t, .nil, h⟩
      · exact .inl (stepValue_sound hstep h)
  | key => exact stepKey_sound hstep h
  | firstKey =>
      simp only [step] at hstep
      split at hstep
      · rename_i hc
        cases hstep
        obtain hkey | ⟨u, hclose, htail⟩ := h
        · exact .inl (ClosesKey.ws hc hkey)
        · exact .inr ⟨u, .cons hc hclose, htail⟩
      split at hstep
      · rename_i hclose
        subst hclose
        cases hstep
        exact .inr ⟨t, .nil, h⟩
      · exact .inl (stepKey_sound hstep h)
  | colon =>
      simp only [step] at hstep
      split at hstep
      · rename_i hc
        cases hstep
        exact ClosesColon.ws hc h
      split at hstep
      · rename_i hcolon
        subst hcolon
        cases hstep
        exact ⟨t, .nil, h⟩
      · cases hstep
  | after => exact stepAfter_sound hstep h
  | string isKey part =>
      obtain ⟨mode, hmode, rfl⟩ := Option.map_eq_some_iff.mp hstep
      exact stepString_sound hmode h
  | number part =>
      simp only [step] at hstep
      split at hstep
      · rename_i part' hpart
        cases hstep
        obtain ⟨u, hnumber, htail⟩ := h
        exact ⟨u, stepNumber_sound hpart hnumber, htail⟩
      split at hstep
      · rename_i hends
        exact ⟨c :: t, .of_ends hends, stepAfter_sound hstep h⟩
      · cases hstep
  | word rest =>
      simp only [step] at hstep
      split at hstep
      · cases hstep
      · split at hstep
        · rename_i hd
          subst hd
          cases hstep
          exact ⟨t, rfl, h⟩
        · cases hstep
      · split at hstep
        · rename_i hd
          subst hd
          cases hstep
          obtain ⟨u, rfl, htail⟩ := h
          exact ⟨u, rfl, htail⟩
        · cases hstep

/-- A state that accepts a text finds in it what it asks for. -/
theorem State.Accepts.closes (h : s.Accepts t) : Closes s t := by
  obtain ⟨s', hrun, hends⟩ := h
  induction t generalizing s with
  | nil =>
      cases hrun
      obtain ⟨mode, stack⟩ := s'
      simp only [State.ends, Bool.and_eq_true, decide_eq_true_eq] at hends
      obtain ⟨rfl, hmode⟩ := hends
      cases mode with
      | after => exact Ws.nil
      | number part => exact ⟨[], .of_ends hmode, .nil⟩
      | _ => cases hmode
  | cons c t ih =>
      obtain ⟨s₁, hs₁, hrest⟩ := Option.bind_eq_some_iff.mp hrun
      exact step_sound hs₁ (ih hrest)

end Sound

end Log2Bgp.Lib.Json
