import Fos.Command

/-!
# Numerals

The texts that `strtol` of `lib/string.c` reads back: the digits of a number in a base up to
16, blanks and zeros before them, and a sign.

* `numeral`: the digits of a number;
* `strtolDigits_numeral`: `strtol` reads the number;
* `strtol_body`, `strtol_minus`: with what may stand before the digits.
-/

namespace Fos

instance atLeastTwo_ten : Nat.AtLeastTwo 10 := ⟨by decide⟩

instance atLeastTwo_sixteen : Nat.AtLeastTwo 16 := ⟨by decide⟩

/-- `"0123456789abcdef"[d]`. -/
def hexDigit (d : Nat) : Char := "0123456789abcdef".toList.getD d '0'

/-- The digits of `num`, the most significant one first. -/
def numeral (base : Nat) [base.AtLeastTwo] (num : Nat) : List Char :=
  if _more : base ≤ num then numeral base (num / base) ++ [hexDigit (num % base)]
  else [hexDigit num]
termination_by num
decreasing_by
  have two := Nat.AtLeastTwo.prop (n := base)
  exact Nat.div_lt_self (by omega) two

variable {base : Nat}

theorem digitOf_hexDigit : ∀ d < 16, digitOf (hexDigit d) = some d := by decide

theorem strtolDigits_digit (small : base ≤ 16) {d : Nat} (lt : d < base) (s : List Char)
    (val : Nat) :
    strtolDigits base (hexDigit d :: s) val = strtolDigits base s (val * base + d) := by
  rw [strtolDigits, digitOf_hexDigit d (Nat.lt_of_lt_of_le lt small)]
  exact if_neg (Nat.not_le_of_lt lt)

variable {num : Nat} [base.AtLeastTwo]

theorem numeral_of_lt (lt : num < base) : numeral base num = [hexDigit num] := by
  rw [numeral, dif_neg (Nat.not_le_of_lt lt)]

theorem numeral_of_le (le : base ≤ num) :
    numeral base num = numeral base (num / base) ++ [hexDigit (num % base)] := by
  rw [numeral, dif_pos le]

/-- A property of the digits is a property of the numeral. -/
theorem forall_numeral {P : Char → Prop} (digits : ∀ d < base, P (hexDigit d)) (num : Nat) :
    ∀ c ∈ numeral base num, P c := by
  have two := Nat.AtLeastTwo.prop (n := base)
  induction num using Nat.strong_induction_on with
  | _ num ih =>
    rcases Nat.lt_or_ge num base with lt | le
    · rw [numeral_of_lt lt]
      exact List.forall_mem_singleton.mpr (digits num lt)
    · rw [numeral_of_le le]
      refine List.forall_mem_append.mpr ⟨ih _ (Nat.div_lt_self (by omega) two), ?_⟩
      exact List.forall_mem_singleton.mpr (digits _ (Nat.mod_lt num (by omega)))

theorem numeral_ne_nil (num : Nat) : numeral base num ≠ [] := by
  rcases Nat.lt_or_ge num base with lt | le
  · rw [numeral_of_lt lt]
    exact List.cons_ne_nil _ _
  · rw [numeral_of_le le]
    exact List.append_ne_nil_of_right_ne_nil _ (List.cons_ne_nil _ _)

/-! ## Reading the digits -/

/-- The digits of a number bring the loop to the number. -/
theorem strtolDigits_numeral (small : base ≤ 16) (num : Nat) (rest : List Char) :
    strtolDigits base (numeral base num ++ rest) 0 = strtolDigits base rest num := by
  have two := Nat.AtLeastTwo.prop (n := base)
  induction num using Nat.strong_induction_on generalizing rest with
  | _ num ih =>
    rcases Nat.lt_or_ge num base with lt | le
    · rw [numeral_of_lt lt, List.singleton_append, strtolDigits_digit small lt, Nat.zero_mul,
        Nat.zero_add]
    · rw [numeral_of_le le, List.append_assoc, ih _ (Nat.div_lt_self (by omega) two),
        List.singleton_append, strtolDigits_digit small (Nat.mod_lt num (by omega)),
        Nat.div_add_mod']

theorem strtolDigits_zeros (k : Nat) (s : List Char) :
    strtolDigits base (List.replicate k '0' ++ s) 0 = strtolDigits base s 0 := by
  have pos : ¬ 0 ≥ base := Nat.not_le_of_lt (Nat.lt_of_lt_of_le Nat.two_pos Nat.AtLeastTwo.prop)
  have zero : digitOf '0' = some 0 := by decide
  induction k with
  | zero => rfl
  | succ k ih =>
    rw [List.replicate_succ, List.cons_append, strtolDigits, zero]
    simp only [if_neg pos, Nat.zero_mul, Nat.zero_add]
    exact ih

/-! ## Reading a text -/

/-- A text without a letter `x` has no prefix for base 16. -/
theorem strtolBase_plain {s : List Char} (no : 'x' ∉ s) : strtolBase base s = (base, s) := by
  have two := Nat.AtLeastTwo.prop (n := base)
  have ne : base ≠ 0 := by omega
  unfold strtolBase
  split
  · exact absurd (List.mem_cons_of_mem _ (List.mem_cons_self ..)) no
  · exact if_neg ne
  · exact if_neg ne

/-- A body that starts with a digit. -/
structure Body (s : List Char) : Prop where
  first : ∃ c rest, s = c :: rest ∧ '0' ≤ c
  no_x : 'x' ∉ s

theorem body_numeral (small : base ≤ 16) (k num : Nat) :
    Body (List.replicate k '0' ++ numeral base num) := by
  have hex : ∀ d < 16, '0' ≤ hexDigit d ∧ hexDigit d ≠ 'x' := by decide
  have digits : ∀ c ∈ numeral base num, '0' ≤ c ∧ c ≠ 'x' :=
    forall_numeral (fun d lt => hex d (Nat.lt_of_lt_of_le lt small)) num
  have all : ∀ c ∈ List.replicate k '0' ++ numeral base num, '0' ≤ c ∧ c ≠ 'x' := by
    refine List.forall_mem_append.mpr ⟨fun c mem => ?_, digits⟩
    rw [List.eq_of_mem_replicate mem]
    decide
  constructor
  · cases at_ : List.replicate k '0' ++ numeral base num with
    | nil => exact absurd (List.append_eq_nil_iff.mp at_).2 (numeral_ne_nil num)
    | cons c rest => exact ⟨c, rest, rfl, (all c (by simp [at_])).1⟩
  · exact fun mem => (all 'x' mem).2 rfl

/-- What `strtol` finds after the blanks: no sign. -/
theorem strtol_body {blanks s : List Char} (blank : ∀ c ∈ blanks, c = ' ' ∨ c = '\t')
    (body : Body s) :
    strtol (String.ofList (blanks ++ s)) base = int32 (strtolDigits base s 0) := by
  obtain ⟨c, rest, rfl, digit⟩ := body.first
  have skipped : (blanks ++ c :: rest).dropWhile (fun c => c = ' ' ∨ c = '\t') = c :: rest := by
    rw [List.dropWhile_append_of_pos (by simpa using blank), List.dropWhile_cons_of_neg]
    rw [decide_eq_true_eq]
    rintro (rfl | rfl) <;> exact absurd digit (by decide)
  rw [strtol, String.toList_ofList, skipped]
  split
  · rename_i same
    rw [(List.cons.inj same).1] at digit
    exact absurd digit (by decide)
  · rename_i same
    rw [(List.cons.inj same).1] at digit
    exact absurd digit (by decide)
  · show int32 (strtolDigits (strtolBase base (c :: rest)).1
      (strtolBase base (c :: rest)).2 0 : Nat) = _
    rw [strtolBase_plain body.no_x]

/-- After a minus sign. -/
theorem strtol_minus {s : List Char} (no : 'x' ∉ s) :
    strtol (String.ofList ('-' :: s)) base = int32 (-(strtolDigits base s 0 : Int)) := by
  have kept : ('-' :: s).dropWhile (fun c => c = ' ' ∨ c = '\t') = '-' :: s :=
    List.dropWhile_cons_of_neg (by decide)
  rw [strtol, String.toList_ofList, kept]
  show int32 (-(strtolDigits (strtolBase base s).1 (strtolBase base s).2 0 : Int)) = _
  rw [strtolBase_plain no]

end Fos
