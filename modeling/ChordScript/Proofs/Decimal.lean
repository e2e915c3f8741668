import ChordScript.Text.Decimal

namespace ChordScript.Text

variable {c : Char}

theorem isDigit_of_mem_decimal {n : Nat} (h : c ∈ decimal n) : c.isDigit = true :=
  Nat.isDigit_of_mem_toDigits (by decide) (by decide) h

theorem ofDigitChars_decimal (n : Nat) : Nat.ofDigitChars 10 (decimal n) 0 = n :=
  Nat.ofDigitChars_toDigits (by decide) (by decide)

theorem decimal_inj {m n : Nat} : decimal m = decimal n ↔ m = n := by
  refine ⟨fun h => ?_, congrArg decimal⟩
  rw [← ofDigitChars_decimal m, h, ofDigitChars_decimal]

theorem natural?_decimal (n : Nat) : natural? (decimal n) = some n := by
  have hdigits : (decimal n).all Char.isDigit = true :=
    List.all_eq_true.mpr fun c hc => isDigit_of_mem_decimal hc
  rw [natural?, if_pos ⟨Nat.toDigits_ne_nil, hdigits⟩, ofDigitChars_decimal]

theorem signed?_decimal (n : Nat) : signed? (decimal n) = some (n : Int) := by
  have hsign (c : Char) (s : Text) (hc : c.isDigit = false) : decimal n ≠ c :: s := by
    intro h
    have hm : c ∈ decimal n := h ▸ List.mem_cons_self
    rw [isDigit_of_mem_decimal hm] at hc
    cases hc
  rw [signed?, natural?_decimal]
  · rfl
  · exact fun s h => hsign '-' s rfl h
  · exact fun s h => hsign '+' s rfl h

theorem integer?_decimal {n : Nat} (hn : (n : Int) < wordBound) :
    integer? (decimal n) = some (n : Int) := by
  have hle : -wordBound ≤ (n : Int) := Int.le_trans (by decide) (Int.natCast_nonneg n)
  rw [integer?, signed?_decimal, Option.filter_some, if_pos (decide_eq_true ⟨hle, hn⟩)]

theorem isDigit_of_mem_leftpad {n width : Nat} (h : c ∈ (decimal n).leftpad width '0') :
    c.isDigit = true := by
  rw [List.leftpad, List.mem_append, List.mem_replicate] at h
  rcases h with ⟨-, rfl⟩ | h
  · rfl
  · exact isDigit_of_mem_decimal h

theorem ofDigitChars_leftpad (n width : Nat) :
    Nat.ofDigitChars 10 ((decimal n).leftpad width '0') 0 = n := by
  rw [List.leftpad, Nat.ofDigitChars_append, Nat.ofDigitChars_replicate_zero, Nat.mul_zero,
    ofDigitChars_decimal]

structure Digits (s : Text) : Prop where
  nonempty : s ≠ []
  digit : ∀ c ∈ s, '0' ≤ c ∧ c ≤ '9'

/-- The number is what the text says in decimal, with or without a sign. -/
inductive Numeral : Text → Int → Prop
  | bare {s : Text} (h : Digits s) : Numeral s (Nat.ofDigitChars 10 s 0)
  | plus {s : Text} (h : Digits s) : Numeral ('+' :: s) (Nat.ofDigitChars 10 s 0)
  | minus {s : Text} (h : Digits s) : Numeral ('-' :: s) (-Nat.ofDigitChars 10 s 0)

structure Literal (s : Text) (n : Int) : Prop where
  numeral : Numeral s n
  least : -9223372036854775808 ≤ n
  greatest : n ≤ 9223372036854775807

variable {s : Text} {n : Int}

theorem digits_iff : Digits s ↔ s ≠ [] ∧ s.all Char.isDigit = true := by
  have hdigit (c : Char) : c.isDigit = true ↔ '0' ≤ c ∧ c ≤ '9' := by
    simp [Char.isDigit, Char.le_def]
  constructor
  · rintro ⟨hne, hd⟩
    exact ⟨hne, List.all_eq_true.mpr fun c hc => (hdigit c).mpr (hd c hc)⟩
  · rintro ⟨hne, hall⟩
    exact ⟨hne, fun c hc => (hdigit c).mp (List.all_eq_true.mp hall c hc)⟩

theorem natural?_eq_some {m : Nat} :
    natural? s = some m ↔ Digits s ∧ Nat.ofDigitChars 10 s 0 = m := by
  rw [natural?, Option.ite_none_right_eq_some, ← digits_iff, Option.some.injEq]

theorem signed?_of_digits (h : Digits s) : signed? s = some (Nat.ofDigitChars 10 s 0 : Int) := by
  have hsign {c : Char} {t : Text} (hc : ¬ ('0' ≤ c ∧ c ≤ '9')) : s ≠ c :: t := by
    rintro rfl
    exact hc (h.digit c List.mem_cons_self)
  rw [signed?, natural?_eq_some.mpr ⟨h, rfl⟩]
  · rfl
  · exact fun t => hsign (by decide)
  · exact fun t => hsign (by decide)

theorem signed?_eq_some : signed? s = some n ↔ Numeral s n := by
  constructor
  · intro h
    unfold signed? at h
    split at h
    · obtain ⟨i, hi, rfl⟩ := Option.map_eq_some_iff.mp h
      obtain ⟨m, hm, hmi⟩ := Option.bind_eq_some_iff.mp hi
      obtain ⟨hd, rfl⟩ := natural?_eq_some.mp hm
      cases hmi
      exact .minus hd
    · obtain ⟨m, hm, rfl⟩ := Option.map_eq_some_iff.mp h
      obtain ⟨hd, rfl⟩ := natural?_eq_some.mp hm
      exact .plus hd
    · obtain ⟨m, hm, rfl⟩ := Option.map_eq_some_iff.mp h
      obtain ⟨hd, rfl⟩ := natural?_eq_some.mp hm
      exact .bare hd
  · intro h
    cases h with
    | bare hd => exact signed?_of_digits hd
    | plus hd | minus hd =>
        rw [signed?, natural?_eq_some.mpr ⟨hd, rfl⟩]
        rfl

theorem integer?_eq_some : integer? s = some n ↔ Literal s n := by
  rw [integer?, Option.filter_eq_some_iff, signed?_eq_some, decide_eq_true_iff]
  constructor
  · rintro ⟨h, hlow, hhigh⟩
    exact ⟨h, hlow, Int.le_sub_one_of_lt hhigh⟩
  · rintro ⟨h, hlow, hhigh⟩
    exact ⟨h, hlow, Int.lt_of_le_sub_one hhigh⟩

theorem integer?_eq_none : integer? s = none ↔ ∀ n, ¬ Literal s n := by
  simp only [Option.eq_none_iff_forall_ne_some, ne_eq, integer?_eq_some]

end ChordScript.Text
