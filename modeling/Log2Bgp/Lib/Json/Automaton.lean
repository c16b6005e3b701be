import Log2Bgp.Lib.Text

/-!
# JSON

The grammar of JSON texts, and an automaton with a stack that accepts just these texts.
-/

namespace Log2Bgp.Lib.Json

/-! ## The grammar

A relation between a text that begins with something of a kind and what is left behind it. -/

def isWs (c : Char) : Bool := c = ' ' || c = '\t' || c = '\n' || c = '\r'

def isHexDigit (c : Char) : Bool := c.isDigit || ('a' ≤ c && c ≤ 'f') || ('A' ≤ c && c ≤ 'F')

/-- A character that a string may have as it is. -/
def isPlain (c : Char) : Bool := c ≠ '"' && c ≠ '\\' && ' ' ≤ c

def isEscape (c : Char) : Bool := "\"\\/bfnrt".toList.contains c

/-- Any amount of white space. -/
inductive Ws : Text → Text → Prop where
  | nil {t : Text} : Ws t t
  | cons {c : Char} {t u : Text} : isWs c = true → Ws t u → Ws (c :: t) u

/-- Where the rest of a string begins: anywhere, behind a backslash or before hexadecimal digits. -/
inductive StringPart where
  | chars | escape | hex (left : Nat)
deriving DecidableEq, Repr

/-- The rest of a string, up to the quote that ends it. -/
inductive StringRest : StringPart → Text → Text → Prop where
  | quote {t : Text} : StringRest .chars ('"' :: t) t
  | plain {c : Char} {t u : Text} : isPlain c = true → StringRest .chars t u → StringRest .chars (c :: t) u
  | backslash {t u : Text} : StringRest .escape t u → StringRest .chars ('\\' :: t) u
  | escape {c : Char} {t u : Text} : isEscape c = true → StringRest .chars t u → StringRest .escape (c :: t) u
  | unicode {t u : Text} : StringRest (.hex 3) t u → StringRest .escape ('u' :: t) u
  | hexDigit {c : Char} {left : Nat} {t u : Text} : isHexDigit c = true → StringRest (.hex left) t u →
      StringRest (.hex (left + 1)) (c :: t) u
  | lastHexDigit {c : Char} {t u : Text} : isHexDigit c = true → StringRest .chars t u →
      StringRest (.hex 0) (c :: t) u

/-- Where the rest of a number begins. -/
inductive NumberPart where
  | unsigned | integer | fraction | decimal | decimals | sign | digit | digits
deriving DecidableEq, Repr

/-- The rest of a number. -/
inductive NumberRest : NumberPart → Text → Text → Prop where
  | zero {t u : Text} : NumberRest .fraction t u → NumberRest .unsigned ('0' :: t) u
  | first {c : Char} {t u : Text} : c.isDigit = true → c ≠ '0' → NumberRest .integer t u →
      NumberRest .unsigned (c :: t) u
  | integer {c : Char} {t u : Text} : c.isDigit = true → NumberRest .integer t u →
      NumberRest .integer (c :: t) u
  | integerEnd {t u : Text} : NumberRest .fraction t u → NumberRest .integer t u
  | point {t u : Text} : NumberRest .decimal t u → NumberRest .fraction ('.' :: t) u
  | exponent {c : Char} {t u : Text} : c = 'e' ∨ c = 'E' → NumberRest .sign t u →
      NumberRest .fraction (c :: t) u
  | fractionEnd {t : Text} : NumberRest .fraction t t
  | decimal {c : Char} {t u : Text} : c.isDigit = true → NumberRest .decimals t u →
      NumberRest .decimal (c :: t) u
  | decimals {c : Char} {t u : Text} : c.isDigit = true → NumberRest .decimals t u →
      NumberRest .decimals (c :: t) u
  | decimalsExponent {c : Char} {t u : Text} : c = 'e' ∨ c = 'E' → NumberRest .sign t u →
      NumberRest .decimals (c :: t) u
  | decimalsEnd {t : Text} : NumberRest .decimals t t
  | sign {c : Char} {t u : Text} : c = '+' ∨ c = '-' → NumberRest .digit t u → NumberRest .sign (c :: t) u
  | signEnd {t u : Text} : NumberRest .digit t u → NumberRest .sign t u
  | digit {c : Char} {t u : Text} : c.isDigit = true → NumberRest .digits t u → NumberRest .digit (c :: t) u
  | digits {c : Char} {t u : Text} : c.isDigit = true → NumberRest .digits t u → NumberRest .digits (c :: t) u
  | digitsEnd {t : Text} : NumberRest .digits t t

def literals : List Text := ["true".toList, "false".toList, "null".toList]

inductive Part where
  | value | elements | members
deriving DecidableEq, Repr

/-- A value, the elements of an array or the members of an object. -/
inductive Parses : Part → Text → Text → Prop where
  | string {t u : Text} : StringRest .chars t u → Parses .value ('"' :: t) u
  | number {t u : Text} : NumberRest .unsigned t u → Parses .value t u
  | negative {t u : Text} : NumberRest .unsigned t u → Parses .value ('-' :: t) u
  | literal {w u : Text} : w ∈ literals → Parses .value (w ++ u) u
  | emptyArray {t u : Text} : Ws t (']' :: u) → Parses .value ('[' :: t) u
  | array {t u : Text} : Parses .elements t (']' :: u) → Parses .value ('[' :: t) u
  | emptyObject {t u : Text} : Ws t ('}' :: u) → Parses .value ('{' :: t) u
  | object {t u : Text} : Parses .members t ('}' :: u) → Parses .value ('{' :: t) u
  | element {t v v' u : Text} : Ws t v → Parses .value v v' → Ws v' u → Parses .elements t u
  | elements {t v v' t' u : Text} : Ws t v → Parses .value v v' → Ws v' (',' :: t') →
      Parses .elements t' u → Parses .elements t u
  | member {t k k' w v v' u : Text} : Ws t ('"' :: k) → StringRest .chars k k' → Ws k' (':' :: w) → Ws w v →
      Parses .value v v' → Ws v' u → Parses .members t u
  | members {t k k' w v v' t' u : Text} : Ws t ('"' :: k) → StringRest .chars k k' → Ws k' (':' :: w) →
      Ws w v → Parses .value v v' → Ws v' (',' :: t') → Parses .members t' u → Parses .members t u

/-- One JSON value, and white space around it. -/
def IsJson (t : Text) : Prop := ∃ v v', Ws t v ∧ Parses .value v v' ∧ Ws v' []

/-! ## The automaton -/

inductive Bracket where
  | array | object
deriving DecidableEq, Repr

/-- What is due next. `first` and `firstKey` come behind an opening bracket, `after` behind a value. -/
inductive Mode where
  | value | first | key | firstKey | colon | after
  | string (isKey : Bool) (part : StringPart)
  | number (part : NumberPart)
  | word (rest : Text)
deriving DecidableEq, Repr

structure State where
  mode : Mode
  stack : List Bracket
deriving DecidableEq, Repr

def stepAfter (stack : List Bracket) (c : Char) : Option State :=
  if isWs c then some ⟨.after, stack⟩
  else
    match stack with
    | [] => none
    | .array :: outer =>
        if c = ',' then some ⟨.value, stack⟩ else if c = ']' then some ⟨.after, outer⟩ else none
    | .object :: outer =>
        if c = ',' then some ⟨.key, stack⟩ else if c = '}' then some ⟨.after, outer⟩ else none

def stepValue (stack : List Bracket) (c : Char) : Option State :=
  if isWs c then some ⟨.value, stack⟩
  else if c = '"' then some ⟨.string false .chars, stack⟩
  else if c = '[' then some ⟨.first, .array :: stack⟩
  else if c = '{' then some ⟨.firstKey, .object :: stack⟩
  else if c = '-' then some ⟨.number .unsigned, stack⟩
  else if c = '0' then some ⟨.number .fraction, stack⟩
  else if c.isDigit then some ⟨.number .integer, stack⟩
  else if c = 't' then some ⟨.word "rue".toList, stack⟩
  else if c = 'f' then some ⟨.word "alse".toList, stack⟩
  else if c = 'n' then some ⟨.word "ull".toList, stack⟩
  else none

def stepKey (stack : List Bracket) (c : Char) : Option State :=
  if isWs c then some ⟨.key, stack⟩
  else if c = '"' then some ⟨.string true .chars, stack⟩
  else none

/-- What comes behind a string. -/
def closeString (isKey : Bool) : Mode := if isKey then .colon else .after

def stepString (isKey : Bool) (part : StringPart) (c : Char) : Option Mode :=
  match part with
  | .chars =>
      if c = '"' then some (closeString isKey)
      else if c = '\\' then some (.string isKey .escape)
      else if isPlain c then some (.string isKey .chars)
      else none
  | .escape =>
      if c = 'u' then some (.string isKey (.hex 3))
      else if isEscape c then some (.string isKey .chars)
      else none
  | .hex 0 => if isHexDigit c then some (.string isKey .chars) else none
  | .hex (left + 1) => if isHexDigit c then some (.string isKey (.hex left)) else none

/-- The parts that a number may end in. -/
def NumberPart.ends : NumberPart → Bool
  | .integer | .fraction | .decimals | .digits => true
  | _ => false

def stepNumber (part : NumberPart) (c : Char) : Option NumberPart :=
  match part with
  | .unsigned => if c = '0' then some .fraction else if c.isDigit then some .integer else none
  | .integer =>
      if c.isDigit then some .integer
      else if c = '.' then some .decimal
      else if c = 'e' ∨ c = 'E' then some .sign
      else none
  | .fraction => if c = '.' then some .decimal else if c = 'e' ∨ c = 'E' then some .sign else none
  | .decimal => if c.isDigit then some .decimals else none
  | .decimals =>
      if c.isDigit then some .decimals else if c = 'e' ∨ c = 'E' then some .sign else none
  | .sign => if c = '+' ∨ c = '-' then some .digit else if c.isDigit then some .digits else none
  | .digit | .digits => if c.isDigit then some .digits else none

def step (s : State) (c : Char) : Option State :=
  match s.mode with
  | .value => stepValue s.stack c
  | .first =>
      if isWs c then some s
      else if c = ']' then some ⟨.after, s.stack.tail⟩
      else stepValue s.stack c
  | .key => stepKey s.stack c
  | .firstKey =>
      if isWs c then some s
      else if c = '}' then some ⟨.after, s.stack.tail⟩
      else stepKey s.stack c
  | .colon =>
      if isWs c then some s
      else if c = ':' then some ⟨.value, s.stack⟩
      else none
  | .after => stepAfter s.stack c
  | .string isKey part => (stepString isKey part c).map fun mode => ⟨mode, s.stack⟩
  | .number part =>
      match stepNumber part c with
      | some part => some ⟨.number part, s.stack⟩
      | none => if part.ends then stepAfter s.stack c else none
  | .word rest =>
      match rest with
      | [] => none
      | [d] => if c = d then some ⟨.after, s.stack⟩ else none
      | d :: rest => if c = d then some ⟨.word rest, s.stack⟩ else none

def run : State → Text → Option State
  | s, [] => some s
  | s, c :: t => (step s c).bind fun s => run s t

/-- A text may end where no bracket is open and a value is complete. -/
def State.ends (s : State) : Bool :=
  s.stack = [] &&
    match s.mode with
    | .after => true
    | .number part => part.ends
    | _ => false

/-- The rest of a text is accepted. -/
def State.Accepts (s : State) (t : Text) : Prop := ∃ s', run s t = some s' ∧ s'.ends = true

def start : State := ⟨.value, []⟩

end Log2Bgp.Lib.Json
