import WhileLang.Yaml.Plain

/-!
# Integers as plain scalars

The decimal text of an integer is a plain scalar that means this integer. Its digits are read from the left,
so that the part that is read never exceeds the whole; it starts with a zero only if it is zero, so it is not
taken for a number in another base; and no word with a meaning of its own has a digit in it.
-/

namespace WhileLang

namespace Text

/-- Reading more digits does not make a number smaller. -/
theorem le_ofDigitChars (cs : List Char) : ∀ n, n ≤ Nat.ofDigitChars 10 cs n := by
  induction cs with
  | nil => exact fun n => Nat.le_of_eq Nat.ofDigitChars_nil.symm
  | cons c rest ih =>
    intro n
    have hrest := ih (10 * n + (c.toNat - '0'.toNat))
    rw [Nat.ofDigitChars_cons]
    omega

theorem digitValue?_of_isDigit {c : Char} (h : c.isDigit = true) :
    digitValue? c = some (c.toNat - 48) ∧ c.toNat - 48 < 10 := by
  refine ⟨by rw [digitValue?, if_pos h], ?_⟩
  rw [Char.isDigit, Bool.and_eq_true, decide_eq_true_eq, decide_eq_true_eq, UInt32.le_iff_toNat_le] at h
  have hnine : c.toNat ≤ 57 := h.2
  omega

/-- Decimal digits that stay below 2^64 denote the number that they spell. -/
theorem digitsIn_of_isDigit (cs : List Char) :
    ∀ n, (∀ c ∈ cs, c.isDigit = true) → Nat.ofDigitChars 10 cs n < 18446744073709551616 →
      digitsIn 10 true cs n = .ok (Nat.ofDigitChars 10 cs n) := by
  induction cs with
  | nil =>
    intro n _ _
    rw [digitsIn, Nat.ofDigitChars_nil]
  | cons c rest ih =>
    intro n hdigit hlt
    obtain ⟨hc, hrest⟩ := List.forall_mem_cons.1 hdigit
    obtain ⟨hvalue, hten⟩ := digitValue?_of_isDigit hc
    rw [Nat.ofDigitChars_cons] at hlt ⊢
    -- what has been read so far is at most the whole, so the bound is not reached on the way
    have hle := le_ofDigitChars rest (10 * n + (c.toNat - '0'.toNat))
    have hunder : (true && c == '_') = false := by
      rw [Bool.true_and, beq_eq_false_iff_ne]
      rintro rfl
      exact absurd hc (by decide)
    rw [digitsIn, hunder, hvalue]
    simp only [Bool.false_eq_true, if_false]
    rw [if_neg (by omega), if_neg (by have h48 : '0'.toNat = 48 := rfl; omega)]
    exact ih _ hrest hlt

/-- The digits of a number other than zero do not start with a zero. -/
theorem toDigits_eq_cons {n : Nat} (hn : 0 < n) : ∃ c cs, Nat.toDigits 10 n = c :: cs ∧ c ≠ '0' := by
  induction n using Nat.strongRecOn with
  | ind n ih =>
    rw [Nat.toDigits_eq_if (by omega)]
    by_cases hlt : n < 10
    · rw [if_pos hlt]
      refine ⟨n.digitChar, [], rfl, ?_⟩
      rw [Ne, Nat.digitChar_eq_zero]
      omega
    · rw [if_neg hlt]
      obtain ⟨c, cs, hcs, hc⟩ := ih (n / 10) (by omega) (by omega)
      refine ⟨c, cs ++ [(n % 10).digitChar], ?_, hc⟩
      rw [hcs, List.cons_append]

/-- A zero announces another base only if it comes first. -/
theorem splitPrefix_of_ne_zero {c : Char} {cs : List Char} (hc : c ≠ '0') :
    splitPrefix (c :: cs) = (10, c :: cs) := by
  unfold splitPrefix
  split
  · next heq => exact absurd (List.cons.inj heq).1 hc
  · next heq => exact absurd (List.cons.inj heq).1 hc
  · rfl

/-- The decimal digits of a number below 2^64 are read as this number. -/
theorem natural_toDigits {n : Nat} (hn : n < 18446744073709551616) : natural (Nat.toDigits 10 n) = .ok n := by
  have hdigit : ∀ c ∈ Nat.toDigits 10 n, c.isDigit = true :=
    fun c hc => Nat.isDigit_of_mem_toDigits (by omega) (by omega) hc
  have hread : digitsIn 10 true (Nat.toDigits 10 n) 0 = .ok n := by
    have hall := digitsIn_of_isDigit (Nat.toDigits 10 n) 0 hdigit
    rw [Nat.ofDigitChars_ten_toDigits] at hall
    exact hall hn
  have hunder : (Nat.toDigits 10 n).contains '_' = false := by
    rw [← Bool.not_eq_true, List.contains_iff_mem]
    exact Nat.underscore_not_in_toDigits
  -- only zero itself is spelled with a zero in front
  by_cases hzero : n = 0
  · rw [hzero]
    rfl
  · obtain ⟨c, cs, hcs, hc⟩ := toDigits_eq_cons (Nat.pos_of_ne_zero hzero)
    rw [hcs] at hread hunder ⊢
    unfold natural
    rw [splitPrefix_of_ne_zero hc, hunder]
    simp only [hread]
    rfl

theorem splitSign_of_isDigit {cs : List Char} (h : ∀ c ∈ cs, c.isDigit = true) :
    splitSign cs = (false, cs) := by
  unfold splitSign
  split
  · exact absurd (h '-' List.mem_cons_self) (by decide)
  · exact absurd (h '+' List.mem_cons_self) (by decide)
  · rfl

/-- The text of an integer: its digits, after a minus sign if it is negative. -/
theorem toList_toString (i : Int) :
    (toString i).toList =
      if 0 ≤ i then Nat.toDigits 10 i.toNat else '-' :: Nat.toDigits 10 (-i).toNat := by
  rw [Int.toString_eq_repr, Int.repr_eq_if]
  by_cases hi : 0 ≤ i
  · rw [if_pos hi, if_pos hi, Nat.toList_repr]
  · rw [if_neg hi, if_neg hi, String.toList_append, Nat.toList_repr]
    rfl

/-- The decimal text of an integer of 64 bits is read as this integer. -/
theorem literal_toString {i : Int} (h : fits64 i = true) : literal (toString i).toList = .ok i := by
  rw [fits64, Bool.and_eq_true, decide_eq_true_eq, decide_eq_true_eq] at h
  rw [toList_toString]
  unfold literal
  by_cases hi : 0 ≤ i
  · have hdigit : ∀ c ∈ Nat.toDigits 10 i.toNat, c.isDigit = true :=
      fun c hc => Nat.isDigit_of_mem_toDigits (by omega) (by omega) hc
    have hread : natural (Nat.toDigits 10 i.toNat) = .ok i.toNat := natural_toDigits (by omega)
    have hsigned : signed false i.toNat = .ok i := by
      rw [signed, if_neg Bool.false_ne_true, if_neg (by omega), Int.toNat_of_nonneg hi]
    rw [if_pos hi, splitSign_of_isDigit hdigit]
    simp only [hread]
    exact hsigned
  · have hread : natural (Nat.toDigits 10 (-i).toNat) = .ok (-i).toNat := natural_toDigits (by omega)
    have hsigned : signed true (-i).toNat = .ok i := by
      rw [signed, if_pos rfl, if_neg (by omega), Int.toNat_of_nonneg (by omega), Int.neg_neg]
    rw [if_neg hi]
    simp only [splitSign, hread]
    exact hsigned

/-- A number of 64 bits fits. -/
theorem fits64_toInt (n : Int64) : fits64 n.toInt = true := by
  have hlow := n.le_toInt
  have hhigh := n.toInt_lt
  rw [fits64, Bool.and_eq_true, decide_eq_true_eq, decide_eq_true_eq]
  omega

end Text

namespace Yaml.Plain

open Text (fits64 toList_toString)

/-- No word with a meaning of its own has a digit in it. -/
theorem ofWord?_of_isDigit {s : String} (h : s.toList.any Char.isDigit = true) : ofWord? s = none := by
  unfold ofWord?
  split
  case h_24 => rfl
  all_goals exact absurd h (by decide)

/-- The decimal text of an integer starts with a digit or a minus sign, and has a digit but no underscore. -/
theorem toString_chars (i : Int) :
    (∃ c cs, (toString i).toList = c :: cs ∧ (c.isDigit || c == '+' || c == '-') = true) ∧
      (toString i).toList.any Char.isDigit = true ∧ ∀ c ∈ (toString i).toList, c ≠ '_' := by
  have hdigits : ∀ n : Nat, ∃ c cs, Nat.toDigits 10 n = c :: cs ∧ c.isDigit = true := by
    intro n
    obtain ⟨c, cs, hcs⟩ := List.exists_cons_of_ne_nil (Nat.toDigits_ne_nil (n := n) (b := 10))
    refine ⟨c, cs, hcs, Nat.isDigit_of_mem_toDigits (b := 10) (n := n) (by omega) (by omega) ?_⟩
    rw [hcs]
    exact List.mem_cons_self
  have hunder : ∀ n : Nat, ∀ c ∈ Nat.toDigits 10 n, c ≠ '_' := by
    rintro n c hc rfl
    exact Nat.underscore_not_in_toDigits hc
  rw [toList_toString]
  by_cases hi : 0 ≤ i
  · rw [if_pos hi]
    obtain ⟨c, cs, hcs, hc⟩ := hdigits i.toNat
    refine ⟨⟨c, cs, hcs, ?_⟩, ?_, hunder _⟩
    · rw [hc]
      rfl
    · rw [hcs, List.any_cons, hc]
      rfl
  · rw [if_neg hi]
    obtain ⟨c, cs, hcs, hc⟩ := hdigits (-i).toNat
    refine ⟨⟨'-', _, rfl, rfl⟩, ?_, List.forall_mem_cons.2 ⟨by decide, hunder _⟩⟩
    rw [hcs, List.any_cons, List.any_cons, hc]
    rfl

/-- The decimal text of an integer of 64 bits means this integer. -/
theorem resolve_toString {i : Int} (h : fits64 i = true) : resolve false (toString i) = .int i := by
  obtain ⟨⟨c, cs, hcs, hfirst⟩, hdigit, hunder⟩ := toString_chars i
  have hliteral : literal? (c :: cs) = some i := by
    rw [← hcs, literal?, Text.literal_toString h]
  -- there are no underscores to leave out
  have hfilter : (c :: cs).filter (· != '_') = c :: cs := by
    rw [List.filter_eq_self]
    intro d hd
    rw [bne_iff_ne]
    exact hunder d (hcs ▸ hd)
  have hnumber : number? (c :: cs) = some (.int i) := by
    unfold number?
    simp only [hfilter, hliteral]
  unfold resolve
  rw [hcs]
  simp only [hfirst, if_true, ofWord?_of_isDigit hdigit, hnumber]
  rfl

end Yaml.Plain

end WhileLang
