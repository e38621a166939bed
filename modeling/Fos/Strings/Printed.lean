import Fos.Strings.Formats
import Mathlib.Tactic.IntervalCases

/-!
# Reading printed numbers

What `strtol` reads of the text that `vprintfmt` puts out for `%d` and `%x`, with a width and
with blanks or zeros as padding.

* `NumberFormat`: the format; `prints_number` is its run;
* `printnum_eq`: padding and digits;
* `strtol_printed`: when `strtol` undoes it.
-/

namespace Fos.Printfmt

/-- The text that `putch` is given, character by character. -/
def text (out : List Int) : String := String.ofList (out.map fun ch => Char.ofNat (ch % 256).toNat)

/-- `%d`, `%Nd` and `%0Nd`, or the same with another conversion; without a width `width` is 0. -/
structure NumberFormat where
  zero : Bool
  width : Nat

/-- The format. -/
def NumberFormat.format (f : NumberFormat) (conversion : Char) : List Char :=
  '%' :: ((if f.zero then ['0'] else []) ++ ((if f.width = 0 then [] else numeral 10 f.width) ++
    [conversion]))

/-- The padding between the sign and the digits is none, or zeros: the number is not negative,
the padding character is `0`, or the width is at most the number of digits. -/
def NumberFormat.NoBlanks (f : NumberFormat) (v : Int) : Prop :=
  0 ≤ v ∨ f.zero = true ∨ int32 (f.width - (numeral 10 v.natAbs).length) ≤ 0

/-! ## Padding and digits -/

variable {base : Nat} [base.AtLeastTwo]

theorem int32_sub (a b : Int) : int32 (int32 a - b) = int32 (a - b) := by
  unfold int32
  omega

theorem printnum_eq (num : Nat) (width : Int) (padc : Char) :
    printnum num base width padc =
      (List.replicate (int32 (width - (numeral base num).length)).toNat padc ++
        numeral base num).map code := by
  have two := Nat.AtLeastTwo.prop (n := base)
  induction num using Nat.strong_induction_on generalizing width with
  | _ num ih =>
    rw [printnum]
    rcases Nat.lt_or_ge num base with lt | le
    · rw [dif_neg (Nat.not_le_of_lt lt), numeral_of_lt lt, Nat.mod_eq_of_lt lt, padding]
      simp
    · rw [dif_pos le, ih _ (Nat.div_lt_self (by omega) two), numeral_of_le le, int32_sub,
        List.length_append, List.length_singleton, Int.natCast_add, Int.natCast_one, Int.sub_sub,
        Int.add_comm 1]
      simp

/-- A number below the power of the base has no more digits than the exponent says. -/
theorem length_numeral_le {k num : Nat} (lt : num < base ^ (k + 1)) :
    (numeral base num).length ≤ k + 1 := by
  induction k generalizing num with
  | zero =>
    rw [Nat.zero_add, Nat.pow_one] at lt
    rw [numeral_of_lt lt]
    exact Nat.le_refl 1
  | succ k ih =>
    rcases Nat.lt_or_ge num base with small | le
    · rw [numeral_of_lt small]
      exact Nat.le_add_left ..
    · rw [numeral_of_le le, List.length_append, List.length_singleton]
      refine Nat.succ_le_succ (ih ?_)
      rw [Nat.pow_succ] at lt
      exact Nat.div_lt_of_lt_mul (by rwa [Nat.mul_comm])

theorem text_map_code {s : List Char} (bytes : ∀ c ∈ s, c.toNat < 256) :
    text (s.map code) = String.ofList s := by
  rw [text, List.map_map]
  congr 1
  refine (List.map_congr_left fun c mem => ?_).trans (List.map_id s)
  have small := bytes c mem
  show Char.ofNat ((c.toNat : Int) % 256).toNat = c
  rw [show ((c.toNat : Int) % 256).toNat = c.toNat by omega, Char.ofNat_toNat]

theorem bytes_padded (small : base ≤ 16) {padc : Char} (byte : padc.toNat < 256) (k num : Nat) :
    ∀ c ∈ List.replicate k padc ++ numeral base num, c.toNat < 256 := by
  have digits : ∀ d < 16, (hexDigit d).toNat < 256 := by decide
  refine List.forall_mem_append.mpr ⟨fun c mem => ?_, ?_⟩
  · rwa [List.eq_of_mem_replicate mem]
  · exact forall_numeral (fun d lt => digits d (Nat.lt_of_lt_of_le lt small)) num

/-! ## What `strtol` reads -/

theorem strtolDigits_padded (small : base ≤ 16) (k num : Nat) :
    strtolDigits base (List.replicate k '0' ++ numeral base num) 0 = num := by
  rw [strtolDigits_zeros, ← List.append_nil (numeral base num), strtolDigits_numeral small]
  rfl

/-- Without a sign it reads the number over either padding. -/
theorem strtol_padded (small : base ≤ 16) {padc : Char} (pad : padc = ' ' ∨ padc = '0')
    (k num : Nat) :
    strtol (String.ofList (List.replicate k padc ++ numeral base num)) base = int32 num := by
  have digits : strtolDigits base (numeral base num) 0 = num := strtolDigits_padded small 0 num
  have body : Body (numeral base num) := body_numeral small 0 num
  rcases pad with rfl | rfl
  · rw [strtol_body (fun c mem => Or.inl (List.eq_of_mem_replicate mem)) body, digits]
  · have read := @strtol_body base _ [] _ (fun c mem => absurd mem List.not_mem_nil)
      (body_numeral small k num)
    rw [List.nil_append] at read
    rw [read, strtolDigits_padded small]

/-- After a sign it reads the number over zeros only. -/
theorem strtol_minus_padded (small : base ≤ 16) {padc : Char} (pad : padc = ' ' ∨ padc = '0')
    (k num : Nat) :
    strtol (String.ofList ('-' :: (List.replicate k padc ++ numeral base num))) base =
      if padc = ' ' ∧ 0 < k then 0 else int32 (-num) := by
  have hex : ∀ d < 16, hexDigit d ≠ 'x' := by decide
  have no_x : 'x' ∉ List.replicate k padc ++ numeral base num := by
    rw [List.mem_append, not_or]
    refine ⟨fun mem => ?_, fun mem => ?_⟩
    · rcases pad with rfl | rfl <;> exact absurd (List.eq_of_mem_replicate mem) (by decide)
    · exact forall_numeral (P := (· ≠ 'x'))
        (fun d lt => hex d (Nat.lt_of_lt_of_le lt small)) num _ mem rfl
  rw [strtol_minus no_x]
  rcases pad with rfl | rfl
  · cases k with
    | zero =>
      have digits : strtolDigits base (numeral base num) 0 = num :=
        strtolDigits_padded small 0 num
      rw [if_neg fun blank => Nat.lt_irrefl 0 blank.2, List.replicate_zero, List.nil_append,
        digits]
    | succ k =>
      rw [if_pos ⟨rfl, Nat.succ_pos k⟩, List.replicate_succ, List.cons_append]
      rfl
  · rw [if_neg fun blank => absurd blank.1 (by decide), strtolDigits_padded small]

/-! ## The run -/

/-- The precision after the digits `cs`. -/
def precisionOf (p : Int) (cs : List Char) : Int :=
  cs.foldl (fun p ch => int32 (p * 10 + (code ch - code '0'))) p

theorem precisionOf_append (p : Int) (cs : List Char) (c : Char) :
    precisionOf p (cs ++ [c]) = int32 (precisionOf p cs * 10 + (code c - code '0')) := by
  rw [precisionOf, List.foldl_append]
  rfl

theorem int32_digit (n : Nat) :
    int32 (int32 (n / 10 : Nat) * 10 + (n % 10 : Nat)) = int32 n := by
  unfold int32
  omega

theorem precisionOf_numeral (n : Nat) : precisionOf 0 (numeral 10 n) = int32 n := by
  have digit : ∀ d < 10, code (hexDigit d) - code '0' = d := by decide
  induction n using Nat.strong_induction_on with
  | _ n ih =>
    rcases Nat.lt_or_ge n 10 with lt | le
    · rw [numeral_of_lt lt, ← List.nil_append [hexDigit n], precisionOf_append, digit n lt,
        precisionOf, List.foldl_nil, Int.zero_mul, Int.zero_add]
    · rw [numeral_of_le le, precisionOf_append, ih (n / 10) (by omega),
        digit _ (Nat.mod_lt n (by decide)), int32_digit]

/-- A number other than 0 starts with another digit. -/
theorem numeral_head {n : Nat} (pos : n ≠ 0) :
    ∃ d rest, 0 < d ∧ d < 10 ∧ numeral 10 n = hexDigit d :: rest := by
  induction n using Nat.strong_induction_on with
  | _ n ih =>
    rcases Nat.lt_or_ge n 10 with lt | le
    · exact ⟨n, [], by omega, lt, numeral_of_lt lt⟩
    · obtain ⟨d, rest, lo, hi, at_⟩ := ih (n / 10) (by omega) (by omega)
      exact ⟨d, rest ++ [hexDigit (n % 10)], lo, hi, by rw [numeral_of_le le, at_]; rfl⟩

variable {format : List Char} {args : Nat → VaArg} {ap : Nat} {out out' : List Int}

theorem step_reswitch {k : Nat} {c : Char} {rest : List Char}
    (at_ : format.drop k = c :: rest) (d : Directive) :
    step format args ⟨k, ap, out, .reswitch d⟩ =
      switch args ⟨(k + 1 : Nat), ap, out, .reswitch d⟩ d c := by
  dsimp only [step]
  rw [charAt_of_drop at_]
  rfl

/-- The loop over the digits of a width. -/
theorem prints_digits {cs : List Char} {c : Char} {rest : List Char} {k : Nat}
    (at_ : format.drop k = cs ++ c :: rest) (digits : ∀ c ∈ cs, ¬ (c < '0' ∨ '9' < c))
    (ended : c < '0' ∨ '9' < c) (d : Directive) (ch : Char)
    (prints : Prints format args ⟨(k + cs.length : Nat), ap, out,
      .reswitch { d with precision := precisionOf d.precision (ch :: cs) }.processPrecision⟩ out') :
    Prints format args ⟨k, ap, out, .digits d ch⟩ out' := by
  induction cs generalizing k d ch with
  | nil =>
    refine .go ?_ prints
    dsimp only [step]
    rw [charAt_of_drop at_]
    exact if_pos ended
  | cons c' cs ih =>
    rw [List.cons_append] at at_
    refine .go ?_ (ih (drop_succ_of_drop at_) (fun c mem => digits c (List.mem_cons_of_mem _ mem))
      { d with precision := int32 (d.precision * 10 + (code ch - code '0')) } c' ?_)
    · dsimp only [step]
      rw [charAt_of_drop at_]
      exact if_neg (digits c' (List.mem_cons_self ..))
    · rw [List.length_cons] at prints
      rwa [Nat.add_assoc, Nat.add_comm 1]

/-- The width that the format asks for. -/
def NumberFormat.effective (f : NumberFormat) : Int := if f.width = 0 then -1 else int32 f.width

/-- The padding character. -/
def NumberFormat.padc (f : NumberFormat) : Char := if f.zero then '0' else ' '

/-- The directive of the format when its conversion is reached; the precision is not used. -/
theorem prints_width {conversion : Char} (f : NumberFormat)
    (ended : conversion < '0' ∨ '9' < conversion)
    {k : Nat} (at_ : format.drop k = (if f.width = 0 then [] else numeral 10 f.width) ++
      [conversion]) (padc : Char)
    (prints : ∀ precision, Prints format args
      ⟨(k + (if f.width = 0 then [] else numeral 10 f.width).length : Nat), ap, out,
        .reswitch ⟨padc, f.effective, precision, 0, false⟩⟩ out') :
    Prints format args ⟨k, ap, out, .reswitch ⟨padc, -1, -1, 0, false⟩⟩ out' := by
  unfold NumberFormat.effective at prints
  split at at_
  · rename_i no
    rw [if_pos no, if_pos no] at prints
    exact prints (-1)
  · rename_i some_
    rw [if_neg some_, if_neg some_] at prints
    obtain ⟨d, rest, lo, hi, numeral_⟩ := numeral_head some_
    have first : ∀ s, switch args s ⟨padc, -1, -1, 0, false⟩ (hexDigit d) =
        .go { s with label := .digits ⟨padc, -1, 0, 0, false⟩ (hexDigit d) } := by
      intro s
      interval_cases d <;> rfl
    have isDigit : ∀ d < 10, ¬ (hexDigit d < '0' ∨ '9' < hexDigit d) := by decide
    have digits : ∀ c ∈ hexDigit d :: rest, ¬ (c < '0' ∨ '9' < c) := by
      rw [← numeral_]
      exact forall_numeral isDigit f.width
    rw [numeral_, List.cons_append] at at_
    have value := precisionOf_numeral f.width
    rw [numeral_] at value
    refine .go ((step_reswitch at_ _).trans (first _)) (prints_digits (drop_succ_of_drop at_)
      (fun c mem => digits c (List.mem_cons_of_mem _ mem)) ended _ _ ?_)
    rw [show precisionOf 0 (hexDigit d :: rest) = int32 f.width from value]
    have onwards := prints (-1)
    rw [numeral_, List.length_cons, ← Nat.add_assoc, Nat.add_right_comm] at onwards
    exact onwards

/-- The run for a format whose conversion puts out `put`. -/
theorem prints_number {arg : VaArg} {conversion : Char} {put : List Int} (f : NumberFormat)
    (ended : conversion < '0' ∨ '9' < conversion)
    (converts : ∀ s precision,
      switch (fun _ => arg) s ⟨f.padc, f.effective, precision, 0, false⟩ conversion =
        .go { s with ap := s.ap + 1, out := s.out ++ put, label := .text }) :
    Prints (f.format conversion) (fun _ => arg) Printer.start put := by
  generalize format_ : f.format conversion = format
  rw [NumberFormat.format] at format_
  have first : format.drop 0 = '%' :: ((if f.zero then ['0'] else []) ++
      ((if f.width = 0 then [] else numeral 10 f.width) ++ [conversion])) := by
    rw [List.drop_zero, format_]
  have second := drop_succ_of_drop first
  -- the run from the width on
  have width : ∀ k : Nat, format.drop k = (if f.width = 0 then [] else numeral 10 f.width) ++
      [conversion] → Prints format (fun _ => arg)
        ⟨k, 0, [], .reswitch ⟨f.padc, -1, -1, 0, false⟩⟩ put := by
    intro k at_
    refine prints_width f ended at_ f.padc fun precision => ?_
    have last : format.drop (k + (if f.width = 0 then [] else numeral 10 f.width).length) =
        [conversion] := by
      rw [← List.drop_drop, at_, List.drop_left]
    refine .go ((step_reswitch last _).trans (converts _ precision)) (.done ?_)
    have length : format.length =
        k + (if f.width = 0 then [] else numeral 10 f.width).length + 1 := by
      have lengths := congrArg List.length last
      rw [List.length_drop, List.length_singleton] at lengths
      omega
    dsimp only [step]
    rw [← length, charAt_end]
    rfl
  have start : Prints format (fun _ => arg) ⟨(0 + 1 : Nat), 0, [], .reswitch Directive.start⟩
      put := by
    unfold NumberFormat.padc at width
    split at second
    · rename_i zero
      rw [if_pos zero] at width
      exact .go (step_reswitch second _) (width _ (drop_succ_of_drop second))
    · rename_i blank
      rw [if_neg blank] at width
      exact width _ second
  refine .go ?_ start
  dsimp only [step]
  rw [show Printer.start.fmt = (0 : Nat) from rfl, charAt_of_drop first]
  rfl

/-! ## The round trip -/

theorem NumberFormat.padc_cases (f : NumberFormat) : f.padc = ' ' ∨ f.padc = '0' := by
  rw [NumberFormat.padc]
  split
  · exact Or.inr rfl
  · exact Or.inl rfl

theorem NumberFormat.padc_eq_blank (f : NumberFormat) : f.padc = ' ' ↔ ¬ f.zero = true := by
  rw [NumberFormat.padc]
  split <;> simp_all

/-- There is padding if and only if the width is more than the digits. -/
theorem NumberFormat.padded_iff (f : NumberFormat) {digits : Nat} (few : digits ≤ 10) :
    0 < (int32 (f.effective - digits)).toNat ↔ ¬ int32 (f.width - digits) ≤ 0 := by
  rw [NumberFormat.effective]
  split
  · rename_i no
    rw [no, int32_of_small (by omega) (by omega), int32_of_small (by omega) (by omega)]
    omega
  · rw [int32_sub]
    omega

/-- `%d` of a 32-bit number is read back if and only if there are no blanks after a sign. -/
theorem strtol_decimal (f : NumberFormat) (precision : Int) {v : Int} (lo : -2147483648 ≤ v)
    (hi : v < 2147483648) :
    strtol (text (printDecimal ⟨f.padc, f.effective, precision, 0, false⟩ v)) 10 = v ↔
      f.NoBlanks v := by
  have pad := f.padc_cases
  have byte : f.padc.toNat < 256 := by
    rcases pad with blank | zero
    · rw [blank]
      decide
    · rw [zero]
      decide
  have bytes := @bytes_padded 10 _ (by decide) _ byte
  have few : (numeral 10 v.natAbs).length ≤ 10 := length_numeral_le (k := 9) (by omega)
  rw [printDecimal, printnum_eq, NumberFormat.NoBlanks]
  have padded := f.padded_iff few
  by_cases neg : v < 0
  · have value : int32 (-(v.natAbs : Int)) = v := by
      rw [int32_of_small (by omega) (by omega)]
      omega
    rw [if_pos neg, show [code '-'] = ['-'].map code from rfl, ← List.map_append,
      text_map_code (List.forall_mem_append.mpr
        ⟨List.forall_mem_singleton.mpr (by decide), bytes _ _⟩), List.singleton_append,
      strtol_minus_padded (by decide) pad]
    split
    · rename_i blanks
      refine iff_of_false (by omega) ?_
      rintro (nonneg | zero | fits)
      · omega
      · exact f.padc_eq_blank.mp blanks.1 zero
      · exact padded.mp blanks.2 fits
    · rename_i noBlanks
      refine iff_of_true value ?_
      by_cases zero : f.zero = true
      · exact Or.inr (Or.inl zero)
      · refine Or.inr (Or.inr (by_contra fun more => ?_))
        exact noBlanks ⟨f.padc_eq_blank.mpr zero, padded.mpr more⟩
  · rw [if_neg neg, List.nil_append, text_map_code (bytes _ _), strtol_padded (by decide) pad,
      int32_of_small (by omega) (by omega)]
    exact iff_of_true (by omega) (Or.inl (by omega))

/-- `%x` of a 32-bit number is read back up to the wrap-around. -/
theorem strtol_hexadecimal (f : NumberFormat) (u : Nat) :
    (4294967296 : Int) ∣ strtol (text (printnum u 16 f.effective f.padc)) 16 - u := by
  have pad := f.padc_cases
  have byte : f.padc.toNat < 256 := by
    rcases pad with blank | zero
    · rw [blank]
      decide
    · rw [zero]
      decide
  rw [printnum_eq, text_map_code (bytes_padded (by decide) byte _ _),
    strtol_padded (by decide) pad]
  unfold int32
  omega

/-- **`strtol` undoes `vprintfmt`** for `%d`, `%Nd` and `%0Nd` if and only if there are no blanks
between a minus sign and the digits; for `%x`, `%Nx` and `%0Nx` always, up to the wrap-around. -/
theorem strtol_printed (f : NumberFormat) (arg : VaArg) :
    ((∃ out, Prints (f.format 'd') (fun _ => arg) Printer.start out ∧
        strtol (text out) 10 = arg.word.toInt) ↔ f.NoBlanks arg.word.toInt) ∧
      ∃ out, Prints (f.format 'x') (fun _ => arg) Printer.start out ∧
        (4294967296 : Int) ∣ strtol (text out) 16 - arg.word.toNat := by
  have decimal : Prints (f.format 'd') (fun _ => arg) Printer.start
      (printDecimal ⟨f.padc, f.effective, -1, 0, false⟩ arg.word.toInt) :=
    prints_number f (by decide) fun _ _ => rfl
  have hexadecimal : Prints (f.format 'x') (fun _ => arg) Printer.start
      (printnum arg.word.toNat 16 f.effective f.padc) :=
    prints_number f (by decide) fun _ _ => rfl
  have read := strtol_decimal f (-1) (BitVec.le_toInt arg.word) (BitVec.toInt_lt (x := arg.word))
  refine ⟨⟨fun ⟨out, prints, back⟩ => ?_, fun noBlanks => ⟨_, decimal, read.mpr noBlanks⟩⟩,
    _, hexadecimal, strtol_hexadecimal f _⟩
  rw [prints.unique decimal] at back
  exact read.mp back

/-- -42 with a width of 5 is not read back. -/
theorem strtol_printed_blanks : ¬ ∀ (f : NumberFormat) (arg : VaArg),
    (∃ out, Prints (f.format 'd') (fun _ => arg) Printer.start out ∧
      strtol (text out) 10 = arg.word.toInt) ∧
    ∃ out, Prints (f.format 'x') (fun _ => arg) Printer.start out ∧
      (4294967296 : Int) ∣ strtol (text out) 16 - arg.word.toNat := by
  intro undone
  obtain ⟨⟨out, prints, back⟩, -⟩ := undone ⟨false, 5⟩ ⟨BitVec.ofInt 32 (-42), 0, none⟩
  have decimal : Prints (NumberFormat.format ⟨false, 5⟩ 'd')
      (fun _ => ⟨BitVec.ofInt 32 (-42), 0, none⟩) Printer.start
      (printDecimal ⟨' ', NumberFormat.effective ⟨false, 5⟩, -1, 0, false⟩ (-42)) :=
    prints_number ⟨false, 5⟩ (by decide) fun _ _ => rfl
  rw [prints.unique decimal] at back
  have noBlanks := (strtol_decimal ⟨false, 5⟩ (-1) (v := -42) (by decide) (by decide)).mp back
  rcases noBlanks with nonneg | zero | fits
  · exact absurd nonneg (by decide)
  · exact absurd zero (by decide)
  · rw [show numeral 10 (Int.natAbs (-42)) = ['4', '2'] by
      rw [show Int.natAbs (-42) = 42 from rfl, numeral_of_le (by decide),
        numeral_of_lt (by decide)]
      rfl] at fits
    exact absurd fits (by decide)

end Fos.Printfmt
