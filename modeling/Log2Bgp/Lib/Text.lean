import Log2Bgp.Lib.Bytes

/-!
# Texts

Texts as lists of characters, and what the C and C++ libraries make of them: words, numbers and
IPv4 addresses.
-/

namespace Log2Bgp.Lib

/-- A text. -/
abbrev Text := List Char

/-- `isspace` in the C locale. -/
def isSpace (c : Char) : Bool := c = ' ' || ('\t' ≤ c && c ≤ '\r')

/-! ## Words -/

/-- The words of a text, as `std::istream_iterator<std::string>` reads them. -/
def words (s : Text) : List Text := (s.splitOnP isSpace).filter (· ≠ [])

/-- A text that is read back as one word. -/
def IsWord (w : Text) : Prop := w ≠ [] ∧ ∀ c ∈ w, isSpace c = false

theorem not_space_of_mem_splitOnP (s : Text) : ∀ w ∈ s.splitOnP isSpace, ∀ c ∈ w, isSpace c = false := by
  induction s with
  | nil => simp
  | cons c s ih =>
      rw [List.splitOnP_cons_eq_if_modifyHead]
      intro w hw
      split at hw
      · cases hw with
        | head => simp
        | tail _ hw => exact ih w hw
      · rename_i hc
        cases hs : s.splitOnP isSpace with
        | nil => exact absurd hs (List.splitOnP_ne_nil _ s)
        | cons v vs =>
            rw [hs, List.modifyHead_cons] at hw
            rw [hs] at ih
            cases hw with
            | head =>
                intro d hd
                cases hd with
                | head => simpa using hc
                | tail _ hd => exact ih v List.mem_cons_self d hd
            | tail _ hw => exact ih w (List.mem_cons_of_mem v hw)

theorem isWord_of_mem_words {s w : Text} (h : w ∈ words s) : IsWord w := by
  obtain ⟨hw, hne⟩ := List.mem_filter.mp h
  exact ⟨by simpa using hne, not_space_of_mem_splitOnP s w hw⟩

@[simp] theorem words_nil : words [] = [] := rfl

theorem words_append_cons (s t : Text) {c : Char} (hc : isSpace c = true) :
    words (s ++ c :: t) = words s ++ words t := by
  rw [words, List.splitOnP_append_cons s t hc, List.filter_append]
  rfl

theorem words_of_isWord {w : Text} (h : IsWord w) : words w = [w] := by
  rw [words, List.splitOnP_eq_singleton h.2]
  simp [h.1]

theorem words_append_space {w : Text} (h : IsWord w) (s : Text) :
    words (w ++ ' ' :: s) = w :: words s := by
  rw [words_append_cons w s rfl, words_of_isWord h]
  rfl

theorem words_append_newline {w : Text} (h : IsWord w) : words (w ++ ['\n']) = [w] := by
  rw [words_append_cons w [] rfl, words_of_isWord h]
  rfl

/-- White space at the end of a text separates its words from what follows. -/
theorem words_append_of_getLast {s : Text} (h : s.getLast?.any isSpace = true) (t : Text) :
    words (s ++ t) = words s ++ words t := by
  obtain ⟨c, hc, hspace⟩ : ∃ c, s.getLast? = some c ∧ isSpace c = true := by simpa [Option.any_eq_true] using h
  obtain ⟨s, rfl⟩ := List.getLast?_eq_some_iff.mp hc
  rw [List.append_assoc, words_append_cons s [] hspace, words_nil, List.append_nil]
  exact words_append_cons s t hspace

theorem IsWord.newline_not_mem {w : Text} (h : IsWord w) : '\n' ∉ w :=
  fun hmem => absurd (h.2 _ hmem) (by decide)

/-- What ends a word. -/
def WordEnd (s : Text) : Prop := s = [] ∨ ∃ c t, s = c :: t ∧ isSpace c = true

theorem words_append {w s : Text} (h : IsWord w) (hs : WordEnd s) : words (w ++ s) = w :: words s := by
  obtain rfl | ⟨c, t, rfl, hc⟩ := hs
  · rw [List.append_nil, words_of_isWord h]
    rfl
  · rw [words_append_cons w t hc, words_of_isWord h]
    have hskip : words (c :: t) = words t := words_append_cons [] t hc
    rw [hskip]
    rfl

theorem words_spaces {sp : Text} (h : ∀ c ∈ sp, isSpace c = true) (s : Text) : words (sp ++ s) = words s := by
  induction sp with
  | nil => rfl
  | cons c sp ih =>
      have hskip : words (c :: (sp ++ s)) = words (sp ++ s) :=
        words_append_cons [] _ (h c List.mem_cons_self)
      rw [List.cons_append, hskip, ih fun d hd => h d (List.mem_cons_of_mem c hd)]

theorem words_eq_cons {s w : Text} {ws : List Text} (h : words s = w :: ws) :
    ∃ sp t, s = sp ++ (w ++ t) ∧ (∀ c ∈ sp, isSpace c = true) ∧ WordEnd t ∧ words t = ws := by
  induction s with
  | nil => cases h
  | cons c s ih =>
      by_cases hc : isSpace c = true
      · have hskip : words (c :: s) = words s := words_append_cons [] s hc
        rw [hskip] at h
        obtain ⟨sp, t, rfl, hsp, ht, hws⟩ := ih h
        refine ⟨c :: sp, t, rfl, ?_, ht, hws⟩
        intro d hd
        cases hd with
        | head => exact hc
        | tail _ hd => exact hsp d hd
      · let p : Char → Bool := fun d => !isSpace d
        have hsplit : c :: s = (c :: s).takeWhile p ++ (c :: s).dropWhile p :=
          (List.takeWhile_append_dropWhile (p := p)).symm
        have hword : IsWord ((c :: s).takeWhile p) := by
          refine ⟨?_, ?_⟩
          · simp [p, hc]
          · intro d hd
            simpa [p] using List.all_eq_true.mp List.all_takeWhile d hd
        have hend : WordEnd ((c :: s).dropWhile p) := by
          cases hd : (c :: s).dropWhile p with
          | nil => exact .inl rfl
          | cons d t =>
              have hne : (c :: s).dropWhile p ≠ [] := by simp [hd]
              have hhead := List.head_dropWhile_not p hne
              simp only [hd, List.head_cons] at hhead
              exact .inr ⟨d, t, rfl, by simpa [p] using hhead⟩
        rw [hsplit, words_append hword hend] at h
        cases h
        exact ⟨[], _, hsplit, by simp, hend, rfl⟩

/-! ## Numbers -/

/-- A number in decimal digits. -/
def decimal (n : Nat) : Text := Nat.toDigits 10 n

/-- A number with its sign. -/
def decimalInt (n : Int) : Text := if n < 0 then '-' :: decimal n.natAbs else decimal n.natAbs

/-- The digits at the start of a text. -/
def leadingDigits (s : Text) : Text := s.takeWhile Char.isDigit

/-- Whether a text starts with a minus, and what follows its sign. -/
def splitSign : Text → Bool × Text
  | '-' :: s => (true, s)
  | '+' :: s => (false, s)
  | s => (false, s)

/-- `atoi`. The number is cut off at 64 bits, of which the result keeps the lower 32. -/
def atoi (s : Text) : Int32 :=
  let signed := splitSign (s.dropWhile isSpace)
  let n : Int := Nat.ofDigitChars 10 (leadingDigits signed.2) 0
  Int32.ofInt (if signed.1 then max (-n) (-9223372036854775808) else min n 9223372036854775807)

/-- Extraction of an unsigned number of at most `max` from a stream. -/
def extractUnsigned (max : Nat) (s : Text) : Option Nat :=
  let signed := splitSign (s.dropWhile isSpace)
  let digits := leadingDigits signed.2
  let n := Nat.ofDigitChars 10 digits 0
  if digits = [] ∨ max < n then none
  else some (if signed.1 then (max + 1 - n) % (max + 1) else n)

section Decimal

variable (n : Nat)

theorem isDigit_of_mem_decimal {c : Char} (h : c ∈ decimal n) : c.isDigit = true :=
  Nat.isDigit_of_mem_toDigits (by decide) (by decide) h

theorem not_space_of_isDigit {c : Char} (h : c.isDigit = true) : isSpace c = false := by
  simp only [Char.isDigit, Bool.and_eq_true, decide_eq_true_eq, ge_iff_le, UInt32.le_iff_toNat_le] at h
  simp only [isSpace, Bool.or_eq_false_iff, decide_eq_false_iff_not, Bool.and_eq_false_iff,
    Char.le_def, UInt32.le_iff_toNat_le]
  have hzero : ('0' : Char).val.toNat = 48 := rfl
  have hcr : ('\r' : Char).val.toNat = 13 := rfl
  constructor
  · rintro rfl
    revert h
    decide
  · right
    omega

theorem decimal_ne_nil : decimal n ≠ [] := Nat.toDigits_ne_nil

theorem isWord_decimal : IsWord (decimal n) :=
  ⟨decimal_ne_nil n, fun _ hc => not_space_of_isDigit (isDigit_of_mem_decimal n hc)⟩

theorem isWord_decimalInt (i : Int) : IsWord (decimalInt i) := by
  unfold decimalInt
  split
  · refine ⟨List.cons_ne_nil _ _, ?_⟩
    intro c hc
    cases hc with
    | head => rfl
    | tail _ hc => exact (isWord_decimal _).2 c hc
  · exact isWord_decimal _

/-- A digit is neither white space nor a sign. -/
theorem exists_decimal_eq_cons : ∃ c s, decimal n = c :: s ∧ c.isDigit = true := by
  cases h : decimal n with
  | nil => exact absurd h (decimal_ne_nil n)
  | cons c s => exact ⟨c, s, rfl, isDigit_of_mem_decimal n (h ▸ List.mem_cons_self)⟩

theorem leadingDigits_decimal_append {s : Text} (h : ∀ c ∈ s.head?, c.isDigit = false) :
    leadingDigits (decimal n ++ s) = decimal n := by
  unfold leadingDigits
  rw [List.takeWhile_append_of_pos fun c hc => isDigit_of_mem_decimal n hc]
  cases s with
  | nil => simp
  | cons c s => simp [h c rfl]

theorem leadingDigits_decimal : leadingDigits (decimal n) = decimal n := by
  simpa using leadingDigits_decimal_append n (s := []) (by simp)

theorem dropWhile_decimal : (decimal n).dropWhile isSpace = decimal n := by
  obtain ⟨c, s, hs, hc⟩ := exists_decimal_eq_cons n
  simp [hs, not_space_of_isDigit hc]

theorem splitSign_decimal : splitSign (decimal n) = (false, decimal n) := by
  obtain ⟨c, s, hs, hc⟩ := exists_decimal_eq_cons n
  rw [hs]
  unfold splitSign
  split
  · rename_i h
    cases h
    exact absurd hc (by decide)
  · rename_i h
    cases h
    exact absurd hc (by decide)
  · rfl

@[simp] theorem ofDigitChars_decimal : Nat.ofDigitChars 10 (decimal n) 0 = n :=
  Nat.ofDigitChars_ten_toDigits

theorem atoi_decimal (hn : n ≤ 9223372036854775807) : atoi (decimal n) = Int32.ofInt n := by
  have hmin : min (n : Int) 9223372036854775807 = n := by omega
  simp [atoi, dropWhile_decimal, splitSign_decimal, leadingDigits_decimal, hmin]

theorem extractUnsigned_decimal {max : Nat} (hn : n ≤ max) : extractUnsigned max (decimal n) = some n := by
  simp [extractUnsigned, dropWhile_decimal, splitSign_decimal, leadingDigits_decimal, decimal_ne_nil,
    Nat.not_lt.mpr hn]

end Decimal

theorem atoi_decimalInt (i : Int32) : atoi (decimalInt i.toInt) = i := by
  have hlow := i.le_toInt
  have hhigh := i.toInt_lt
  unfold decimalInt
  split
  · rename_i hneg
    have hsign : splitSign (('-' :: decimal i.toInt.natAbs).dropWhile isSpace) =
        (true, decimal i.toInt.natAbs) := rfl
    have hmax : max (-(i.toInt.natAbs : Int)) (-9223372036854775808) = i.toInt := by omega
    rw [atoi, hsign]
    simp only [leadingDigits_decimal, ofDigitChars_decimal, if_true, hmax, Int32.ofInt_toInt]
  · rename_i hpos
    have habs : (i.toInt.natAbs : Int) = i.toInt := by omega
    rw [atoi_decimal _ (by omega), habs, Int32.ofInt_toInt]

end Log2Bgp.Lib
