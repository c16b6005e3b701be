import Log2Bgp.Lib.Text

/-!
# IPv4 addresses as text

`inet_ntoa`, `inet_pton` and `inet_aton` of the C library. Addresses are in network byte order, as
they lie in memory.
-/

namespace Log2Bgp.Lib

/-- Bytes in decimal, with dots between them. -/
def dotted : List UInt8 → Text
  | [] => []
  | [b] => decimal b.toNat
  | b :: bs => decimal b.toNat ++ '.' :: dotted bs

/-- The text of `inet_ntoa` and `inet_ntop`. -/
def ntoa (addr : UInt32) : Text := dotted (memBytes addr)

/-! ## `inet_pton` -/

/-- The octet after one more digit. A digit behind a zero and a value of more than a byte are refused. -/
def ptonDigit (current : Option Nat) (digit : Nat) : Option Nat :=
  match current with
  | none => some digit
  | some n => if n = 0 ∨ 255 < 10 * n + digit then none else some (10 * n + digit)

/-- The octets of the rest of a text, after the finished ones and the one that is being read. -/
def ptonOctets : Text → (done : List UInt8) → (current : Option Nat) → Option (List UInt8)
  | [], done, current =>
      if done.length = 3 then current.map fun n => done ++ [UInt8.ofNat n] else none
  | c :: s, done, current =>
      if c.isDigit then
        (ptonDigit current (c.toNat - '0'.toNat)).bind fun n => ptonOctets s done (some n)
      else if c = '.' ∧ done.length < 3 then
        current.bind fun n => ptonOctets s (done ++ [UInt8.ofNat n]) none
      else none

/-- `inet_pton` for `AF_INET`: four decimal octets without leading zeros. -/
def pton (s : Text) : Option UInt32 := (ptonOctets s [] none).map memWord

/-! ## `inet_aton` -/

/-- The value of a hexadecimal digit. -/
def hexValue (c : Char) : Option Nat :=
  if c.isDigit then some (c.toNat - '0'.toNat)
  else if 'a' ≤ c ∧ c ≤ 'f' then some (c.toNat - 'a'.toNat + 10)
  else if 'A' ≤ c ∧ c ≤ 'F' then some (c.toNat - 'A'.toNat + 10)
  else none

/-- The number in the digits of a base at the start of a text, and what follows them. -/
def takeNumber (base : Nat) : Text → (value : Nat) → Nat × Text
  | [], value => (value, [])
  | c :: s, value =>
      match hexValue c with
      | some d => if d < base then takeNumber base s (base * value + d) else (value, c :: s)
      | none => (value, c :: s)

/-- `strtoul` with base 0, on a text that starts with a digit. -/
def strtoul : Text → Nat × Text
  | '0' :: x :: d :: s =>
      if (x = 'x' ∨ x = 'X') ∧ (hexValue d).isSome then takeNumber 16 (d :: s) 0
      else takeNumber 8 (x :: d :: s) 0
  | '0' :: s => takeNumber 8 s 0
  | s => takeNumber 10 s 0

/-- The address in the rest of a text, after some parts of one byte. The last part takes all bytes
that are left. -/
def atonParts : (more : Nat) → Text → (done : List UInt8) → Option UInt32
  | _, [], _ => none
  | more, c :: s, done =>
      if c.isDigit then
        let number := strtoul (c :: s)
        if 0xffffffff < number.1 then none
        else
          match number.2, more with
          | '.' :: _, 0 => none
          | '.' :: rest, more + 1 =>
              if 255 < number.1 then none else atonParts more rest (done ++ [UInt8.ofNat number.1])
          | rest, more =>
              if (rest.head?.all isSpace) = true ∧ number.1 < 256 ^ (more + 1) then
                some (memWord (done ++ beBytes (more + 1) number.1))
              else none
      else none

/-- `inet_aton`. -/
def aton (s : Text) : Option UInt32 := atonParts 3 s []

/-! ## Printed addresses are read back -/

theorem digitValue {d : Nat} (h : d < 10) :
    d.digitChar.isDigit = true ∧ d.digitChar.toNat - '0'.toNat = d ∧ hexValue d.digitChar = some d := by
  revert d
  decide

theorem decimal_lt {n : Nat} (h : n < 10) : decimal n = [n.digitChar] := Nat.toDigits_of_lt_base h

theorem decimal_ge {n : Nat} (h : 10 ≤ n) : decimal n = decimal (n / 10) ++ [(n % 10).digitChar] :=
  Nat.toDigits_of_base_le (by decide) h

theorem head_decimal {n : Nat} (h : 0 < n) : ∃ c s, decimal n = c :: s ∧ c ≠ '0' := by
  induction n using Nat.strongRecOn with
  | ind n ih =>
      by_cases hn : n < 10
      · have hone : ∀ d < 10, 0 < d → d.digitChar ≠ '0' := by decide
        exact ⟨n.digitChar, [], decimal_lt hn, hone n hn h⟩
      · obtain ⟨c, s, hs, hc⟩ := ih (n / 10) (by omega) (by omega)
        exact ⟨c, s ++ [(n % 10).digitChar], by rw [decimal_ge (by omega), hs]; rfl, hc⟩

theorem ptonOctets_digit {d : Nat} (h : d < 10) (s : Text) (done : List UInt8) (current : Option Nat) :
    ptonOctets (d.digitChar :: s) done current =
      (ptonDigit current d).bind fun n => ptonOctets s done (some n) := by
  obtain ⟨hdigit, hval, _⟩ := digitValue h
  rw [ptonOctets, if_pos hdigit, hval]

theorem ptonOctets_decimal {n : Nat} (h : n < 256) (s : Text) (done : List UInt8) :
    ptonOctets (decimal n ++ s) done none = ptonOctets s done (some n) := by
  induction n using Nat.strongRecOn generalizing s with
  | ind n ih =>
      by_cases hn : n < 10
      · rw [decimal_lt hn, List.singleton_append, ptonOctets_digit hn]
        rfl
      · have hdiv : 10 * (n / 10) + n % 10 = n := Nat.div_add_mod n 10
        rw [decimal_ge (by omega), List.append_assoc, List.singleton_append,
          ih (n / 10) (by omega) (by omega), ptonOctets_digit (by omega), ptonDigit, hdiv,
          if_neg (by omega)]
        rfl

theorem ptonOctets_dot (n : Nat) (s : Text) {done : List UInt8} (h : done.length < 3) :
    ptonOctets ('.' :: s) done (some n) = ptonOctets s (done ++ [UInt8.ofNat n]) none := by
  rw [ptonOctets, if_neg (by decide), if_pos ⟨rfl, h⟩]
  rfl

theorem ptonOctets_dotted {bs done : List UInt8} (hne : bs ≠ []) (h : bs.length + done.length = 4) :
    ptonOctets (dotted bs) done none = some (done ++ bs) := by
  induction bs generalizing done with
  | nil => exact absurd rfl hne
  | cons b bs ih =>
      cases bs with
      | nil =>
          have hdone : done.length = 3 := by
            simp only [List.length_singleton] at h
            omega
          have := ptonOctets_decimal b.toNat_lt [] done
          rw [List.append_nil] at this
          rw [dotted, this, ptonOctets, if_pos hdone]
          simp
      | cons b' bs =>
          simp only [List.length_cons] at h
          rw [dotted, ptonOctets_decimal b.toNat_lt, ptonOctets_dot _ _ (by omega), UInt8.ofNat_toNat,
            ih (List.cons_ne_nil _ _) (by simp; omega), List.append_assoc, List.singleton_append]
          exact List.cons_ne_nil _ _

theorem pton_ntoa (addr : UInt32) : pton (ntoa addr) = some addr := by
  have hne : memBytes addr ≠ [] := List.ne_nil_of_length_pos (by simp)
  rw [pton, ntoa, ptonOctets_dotted hne (by simp)]
  simp

/-! ### `inet_aton` -/

theorem takeNumber_decimal (n : Nat) (s : Text) :
    takeNumber 10 (decimal n ++ s) 0 = takeNumber 10 s n := by
  induction n using Nat.strongRecOn generalizing s with
  | ind n ih =>
      have hstep : ∀ d < 10, ∀ v, takeNumber 10 (d.digitChar :: s) v = takeNumber 10 s (10 * v + d) := by
        intro d hd v
        obtain ⟨_, _, hval⟩ := digitValue hd
        simp only [takeNumber, hval, if_pos hd]
      by_cases hn : n < 10
      · rw [decimal_lt hn, List.singleton_append, hstep n hn, Nat.mul_zero, Nat.zero_add]
      · have hdiv : 10 * (n / 10) + n % 10 = n := Nat.div_add_mod n 10
        rw [decimal_ge (by omega), List.append_assoc, List.singleton_append, ih (n / 10) (by omega),
          hstep _ (by omega), hdiv]

/-- What ends a part of an address. -/
def PartEnd (s : Text) : Prop := s = [] ∨ ∃ t, s = '.' :: t

theorem takeNumber_end {base : Nat} {s : Text} (h : PartEnd s) (value : Nat) :
    takeNumber base s value = (value, s) := by
  obtain rfl | ⟨t, rfl⟩ := h
  · rfl
  · have hdot : hexValue '.' = none := by decide
    simp only [takeNumber, hdot]

theorem strtoul_decimal (n : Nat) {s : Text} (h : PartEnd s) : strtoul (decimal n ++ s) = (n, s) := by
  rcases Nat.eq_zero_or_pos n with rfl | hn
  · have hzero : strtoul (decimal 0 ++ s) = takeNumber 8 s 0 := by
      obtain rfl | ⟨t, rfl⟩ := h
      · rfl
      · cases t with
        | nil => rfl
        | cons d t =>
            have hdec : decimal 0 = ['0'] := rfl
            simp [hdec, strtoul]
    rw [hzero, takeNumber_end h]
  · obtain ⟨c, t, hc, hne⟩ := head_decimal hn
    have hten : strtoul (decimal n ++ s) = takeNumber 10 (decimal n ++ s) 0 := by
      rw [hc, List.cons_append]
      unfold strtoul
      split
      · rename_i hzero
        exact absurd (List.cons.inj hzero).1 hne
      · rename_i hzero
        exact absurd (List.cons.inj hzero).1 hne
      · rfl
    rw [hten, takeNumber_decimal, takeNumber_end h]

theorem atonParts_last {n more : Nat} (hn : n < 256 ^ (more + 1)) (hword : n ≤ 0xffffffff) (done : List UInt8) :
    atonParts more (decimal n) done = some (memWord (done ++ beBytes (more + 1) n)) := by
  obtain ⟨c, s, hs, hdigit⟩ := exists_decimal_eq_cons n
  have hnum := strtoul_decimal n (.inl rfl)
  rw [List.append_nil, hs] at hnum
  rw [hs, atonParts, if_pos hdigit, hnum]
  simp [Nat.not_lt.mpr hword, hn]

theorem atonParts_next {n : Nat} (hn : n < 256) (more : Nat) (t : Text) (done : List UInt8) :
    atonParts (more + 1) (decimal n ++ '.' :: t) done = atonParts more t (done ++ [UInt8.ofNat n]) := by
  obtain ⟨c, s, hs, hdigit⟩ := exists_decimal_eq_cons n
  have hnum := strtoul_decimal n (s := '.' :: t) (.inr ⟨t, rfl⟩)
  rw [hs, List.cons_append] at hnum
  rw [hs, List.cons_append, atonParts, if_pos hdigit, hnum]
  have hword : ¬ 0xffffffff < n := by omega
  have hbyte : ¬ 255 < n := by omega
  simp only [if_neg hword, if_neg hbyte]

theorem atonParts_dotted {bs : List UInt8} {more : Nat} (h : bs.length = more + 1) (done : List UInt8) :
    atonParts more (dotted bs) done = some (memWord (done ++ bs)) := by
  induction bs generalizing more done with
  | nil => cases h
  | cons b bs ih =>
      have hb := b.toNat_lt
      cases bs with
      | nil =>
          obtain rfl : more = 0 := by simpa using h.symm
          rw [dotted, atonParts_last (by simpa using hb) (by omega)]
          simp [beBytes, leBytes]
      | cons b' bs =>
          obtain ⟨more, rfl⟩ : ∃ m, more = m + 1 := ⟨bs.length, by simpa using h.symm⟩
          rw [dotted, atonParts_next hb, UInt8.ofNat_toNat, ih (by simpa using h), List.append_assoc,
            List.singleton_append]
          exact List.cons_ne_nil _ _

theorem aton_ntoa (addr : UInt32) : aton (ntoa addr) = some addr := by
  rw [aton, ntoa, atonParts_dotted (by simp)]
  simp

theorem ntoa_inj {a b : UInt32} (h : ntoa a = ntoa b) : a = b := by
  have hpton := pton_ntoa a
  rw [h, pton_ntoa b] at hpton
  exact (Option.some.inj hpton).symm

theorem isWord_ntoa (addr : UInt32) : IsWord (ntoa addr) := by
  have hdot : ∀ bs : List UInt8, ∀ c ∈ dotted bs, isSpace c = false := by
    intro bs
    fun_induction dotted bs with
    | case1 => simp
    | case2 b => exact (isWord_decimal _).2
    | case3 b bs _ ih =>
        intro c hc
        rw [List.mem_append, List.mem_cons] at hc
        obtain hc | rfl | hc := hc
        · exact (isWord_decimal _).2 c hc
        · rfl
        · exact ih c hc
  refine ⟨?_, hdot _⟩
  intro hnil
  have := pton_ntoa addr
  rw [hnil] at this
  cases this

end Log2Bgp.Lib
