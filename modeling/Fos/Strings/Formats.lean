import Fos.Strings.Printfmt

/-!
# Any format

`vprintfmt` on an arbitrary format: it returns without following `fmt` out of the format, and
an escape sequence that it does not recognise is put out as it stands.

* `switch_cases`: what the `switch` does with a character;
* `prints_text`, `prints_directive`: the runs from the loop over the text and from the `switch`;
* `Unrecognized`: the escape sequences it does not know;
* `vprintfmt_ends`: both.
-/

namespace Fos.Printfmt

variable {format : List Char} {args : Nat → VaArg} {s : Printer} {out : List Int}

theorem charAt_of_drop {k : Nat} {c : Char} {rest : List Char} (at_ : format.drop k = c :: rest) :
    charAt format k = some c := by
  have lt : k < format.length := by
    by_contra ge
    rw [List.drop_eq_nil_of_le (Nat.le_of_not_lt ge)] at at_
    cases at_
  have here : format[k]? = some c := by
    rw [← List.head?_drop, at_]
    rfl
  rw [charAt, if_neg (by omega), if_neg (by omega), Int.toNat_natCast, here]

theorem charAt_end : charAt format format.length = some '\x00' := by
  rw [charAt, if_neg (by omega), if_pos rfl]

theorem drop_succ_of_drop {k : Nat} {c : Char} {rest : List Char}
    (at_ : format.drop k = c :: rest) : format.drop (k + 1) = rest := by
  rw [← List.drop_drop, at_, List.drop_one, List.tail_cons]

/-! ## The switch -/

/-- The characters after which `vprintfmt` is still at `reswitch`. -/
def flagChars : List Char :=
  ['-', '0', '1', '2', '3', '4', '5', '6', '7', '8', '9', '*', '.', '#', 'l']

/-- The characters that end a directive. -/
def conversions : List Char := ['c', 'e', 's', 'd', 'u', 'o', 'p', 'x', '%']

/-- Flags neither end a directive nor the format. -/
theorem flagChars_others {c : Char} (mem : c ∈ flagChars) :
    c ∉ conversions ∧ c ≠ '%' ∧ c ≠ '\x00' := by
  have all : flagChars.all (fun c => c ∉ conversions ∧ c ≠ '%' ∧ c ≠ '\x00') = true := by decide
  exact of_decide_eq_true (List.all_eq_true.mp all c mem)

/-- The state is inside a directive. -/
def Label.InDirective : Label → Prop
  | .reswitch _ | .digits _ _ => True
  | .text | .back => False

/-- What the `switch` does with a character. -/
inductive Switched (s : Printer) (ch : Char) : Next → Prop
  | flag {label : Label} (mem : ch ∈ flagChars) (inside : label.InDirective) :
      Switched s ch (.go { s with ap := s.ap + [ch].count '*', label := label })
  | conversion {ap : Nat} {out : List Int} (mem : ch ∈ conversions) :
      Switched s ch (.go { s with ap := ap, out := out, label := .text })
  | call {format : List Char} {arg : VaArg} {ap : Nat} (mem : ch ∈ conversions)
      (known : format = "error %d".toList ∨ format = "%s".toList) :
      Switched s ch (.call format arg { s with ap := ap, label := .text })
  | unknown (notFlag : ch ∉ flagChars) (notConversion : ch ∉ conversions) :
      Switched s ch
        (.go { s with out := s.out ++ [code '%'], fmt := s.fmt - 1, label := .back })

theorem switch_cases (args : Nat → VaArg) (s : Printer) (d : Directive) (ch : Char) :
    Switched s ch (switch args s d ch) := by
  unfold switch
  dsimp only
  split
  case h_17 =>
    split
    · exact .call (by decide) (Or.inl rfl)
    · exact .call (by decide) (Or.inr rfl)
  case h_25 => exact .unknown (by simp_all [flagChars]) (by simp_all [conversions])
  all_goals first
    | exact .flag (by decide) trivial
    | exact .conversion (by decide)

theorem switched_step {args : Nat → VaArg} {k : Int} {c : Char} (char : charAt format k = some c)
    (ap : Nat) (out : List Int) (d : Directive) :
    Switched ⟨k + 1, ap, out, .reswitch d⟩ c (step format args ⟨k, ap, out, .reswitch d⟩) := by
  have steps : step format args ⟨k, ap, out, .reswitch d⟩ =
      switch args ⟨k + 1, ap, out, .reswitch d⟩ d c := by
    dsimp only [step]
    rw [char]
  rw [steps]
  exact switch_cases args ⟨k + 1, ap, out, .reswitch d⟩ d c

/-- The two formats that `case 'e'` passes to `printfmt`. -/
theorem prints_error {format : List Char}
    (known : format = "error %d".toList ∨ format = "%s".toList) (arg : VaArg) :
    ∃ out, Prints format (fun _ => arg) Printer.start out := by
  rcases known with rfl | rfl
  · exact ⟨_, .go rfl (.go rfl (.go rfl (.go rfl (.go rfl (.go rfl (.go rfl (.go rfl
      (.done rfl))))))))⟩
  · exact ⟨_, .go rfl (.go rfl (.done rfl))⟩

/-! ## Every run ends -/

/-- At a character that is no digit the width is complete. -/
theorem prints_width_iff {k : Nat} {c : Char} (char : charAt format k = some c)
    (notDigit : c < '0' ∨ '9' < c) (ap : Nat) (out out' : List Int) (d : Directive) (ch : Char) :
    ∃ d', Prints format args ⟨k, ap, out, .digits d ch⟩ out' ↔
      Prints format args ⟨k, ap, out, .reswitch d'⟩ out' := by
  refine ⟨{ d with precision := int32 (d.precision * 10 + (code ch - code '0')) }.processPrecision,
    prints_go_iff ?_⟩
  dsimp only [step]
  rw [char]
  exact if_pos notDigit

/-- Going back from an unknown character: the text between the percent sign and `fmt` has no
other percent sign. -/
theorem prints_back_iff {k : Nat} (percent : format[k]? = some '%') {m : Nat}
    (inside : k + 1 + m ≤ format.length)
    (noPercent : ∀ i < m, format[k + 1 + i]? ≠ some '%') (ap : Nat) (out out' : List Int) :
    Prints format args ⟨(k + 1 + m : Nat), ap, out, .back⟩ out' ↔
      Prints format args ⟨(k + 1 : Nat), ap, out, .text⟩ out' := by
  have charBefore : ∀ i : Nat, i < format.length →
      charAt format ((i + 1 : Nat) - 1 : Int) = format[i]? := by
    intro i lt
    rw [show ((i + 1 : Nat) - 1 : Int) = i by omega, charAt, if_neg (by omega),
      if_neg (by omega), Int.toNat_natCast]
  induction m with
  | zero =>
    refine prints_go_iff ?_
    dsimp only [step]
    rw [Nat.add_zero, charBefore k (by omega), percent]
    exact if_neg (not_not.mpr rfl)
  | succ m ih =>
    refine Iff.trans (prints_go_iff ?_) (ih (by omega) fun i lt => noPercent i (by omega))
    obtain ⟨c, here⟩ : ∃ c, format[k + 1 + m]? = some c :=
      ⟨_, List.getElem?_eq_getElem (by omega)⟩
    have other : c ≠ '%' := fun same => noPercent m (by omega) (by rw [here, same])
    dsimp only [step]
    rw [← Nat.add_assoc, charBefore (k + 1 + m) (by omega), here]
    dsimp only
    rw [if_pos other]
    congr 2
    omega

/-- From the `switch` on: if the text after the percent sign is printed from everywhere, the
directive is. -/
theorem prints_directive {k : Nat} (percent : format[k]? = some '%')
    (text : ∀ i : Nat, k < i → i ≤ format.length → ∀ ap out,
      ∃ out', Prints format args ⟨i, ap, out, .text⟩ out')
    (m : Nat) (inside : k + 1 + m ≤ format.length)
    (noPercent : ∀ i < m, format[k + 1 + i]? ≠ some '%') (ap : Nat) (out : List Int) (label : Label)
    (directive : label.InDirective) :
    ∃ out', Prints format args ⟨(k + 1 + m : Nat), ap, out, label⟩ out' := by
  have back : ∀ j ap out, k + 1 + j ≤ format.length →
      (∀ i < j, format[k + 1 + i]? ≠ some '%') →
      ∃ out', Prints format args ⟨(k + 1 + j : Nat), ap, out, .back⟩ out' := by
    intro j ap out le noPercent
    obtain ⟨out', prints⟩ := text (k + 1) (by omega) (by omega) ap out
    exact ⟨out', (prints_back_iff percent le noPercent ap out out').mpr prints⟩
  induction gap : format.length - (k + 1 + m) generalizing m ap out label with
  | zero =>
    -- the zero that ends the format
    have at_ : charAt format (k + 1 + m : Nat) = some '\x00' := by
      rw [show k + 1 + m = format.length by omega]
      exact charAt_end
    have reswitch : ∀ d, ∃ out', Prints format args ⟨(k + 1 + m : Nat), ap, out, .reswitch d⟩
        out' := by
      intro d
      obtain ⟨out', prints⟩ := back m ap (out ++ [code '%']) inside noPercent
      refine ⟨out', .go ?_ prints⟩
      dsimp only [step]
      rw [at_]
      show Next.go _ = Next.go _
      congr 2
      dsimp only
      omega
    cases label with
    | reswitch d => exact reswitch d
    | digits d ch =>
      obtain ⟨out', prints⟩ := reswitch
        { d with precision := int32 (d.precision * 10 + (code ch - code '0')) }.processPrecision
      refine ⟨out', .go ?_ prints⟩
      dsimp only [step]
      rw [at_]
      rfl
    | text => exact directive.elim
    | back => exact directive.elim
  | succ gap ih =>
    obtain ⟨c, rest, at_⟩ : ∃ c rest, format.drop (k + 1 + m) = c :: rest := by
      cases left : format.drop (k + 1 + m) with
      | nil => exact absurd (List.drop_eq_nil_iff.mp left) (by omega)
      | cons c rest => exact ⟨c, rest, rfl⟩
    have char := charAt_of_drop at_
    have here : format[k + 1 + m]? = some c := by
      rw [← List.head?_drop, at_]
      rfl
    have onwards : c ≠ '%' → ∀ i < m + 1, format[k + 1 + i]? ≠ some '%' := by
      intro other i lt
      rcases Nat.lt_succ_iff_lt_or_eq.mp lt with before | rfl
      · exact noPercent i before
      · rw [here]
        exact fun same => other (Option.some.inj same)
    have next : ((k + 1 + m : Nat) : Int) + 1 = (k + 1 + (m + 1) : Nat) := by omega
    have reswitch : ∀ d, ∃ out', Prints format args ⟨(k + 1 + m : Nat), ap, out, .reswitch d⟩
        out' := by
      intro d
      have cases_ := @switched_step format args _ c char ap out d
      rw [next] at cases_
      generalize went : step format args
        ⟨(k + 1 + m : Nat), ap, out, .reswitch d⟩ = target at cases_
      cases cases_ with
      | flag mem directive =>
        have other : c ≠ '%' := fun same => absurd (same ▸ mem) (by decide)
        obtain ⟨out', prints⟩ := ih (m + 1) (by omega) (onwards other) _ _ _ directive (by omega)
        exact ⟨out', .go went prints⟩
      | conversion mem =>
        obtain ⟨out', prints⟩ := text (k + 1 + (m + 1)) (by omega) (by omega) _ _
        exact ⟨out', .go went prints⟩
      | call mem known =>
        obtain ⟨inner, printed⟩ := prints_error known _
        obtain ⟨out', prints⟩ := text (k + 1 + (m + 1)) (by omega) (by omega) _ _
        exact ⟨out', .call went printed prints⟩
      | unknown notFlag notConversion =>
        obtain ⟨out', prints⟩ := back m ap (out ++ [code '%']) inside noPercent
        refine ⟨out', .go went ?_⟩
        rw [show ((k + 1 + (m + 1) : Nat) : Int) - 1 = (k + 1 + m : Nat) by omega]
        exact prints
    cases label with
    | reswitch d => exact reswitch d
    | digits d ch =>
      by_cases digit : c < '0' ∨ '9' < c
      · obtain ⟨out', prints⟩ := reswitch
          { d with precision := int32 (d.precision * 10 + (code ch - code '0')) }.processPrecision
        refine ⟨out', .go ?_ prints⟩
        dsimp only [step]
        rw [char]
        exact if_pos digit
      · have other : c ≠ '%' := by
          rintro rfl
          exact digit (by decide)
        obtain ⟨out', prints⟩ := ih (m + 1) (by omega) (onwards other) ap out
          (.digits { d with precision := int32 (d.precision * 10 + (code ch - code '0')) } c)
          trivial (by omega)
        refine ⟨out', .go ?_ prints⟩
        dsimp only [step]
        rw [char, ← next]
        exact if_neg digit
    | text => exact directive.elim
    | back => exact directive.elim

/-- The run from the loop over the text ends. -/
theorem prints_text (k : Nat) (inside : k ≤ format.length) (ap : Nat) (out : List Int) :
    ∃ out', Prints format args ⟨k, ap, out, .text⟩ out' := by
  induction gap : format.length - k using Nat.strong_induction_on generalizing k ap out with
  | _ gap ih =>
    cases left : format.drop k with
    | nil =>
      have last : k = format.length := Nat.le_antisymm inside (List.drop_eq_nil_iff.mp left)
      refine ⟨out, .done ?_⟩
      dsimp only [step]
      rw [last, charAt_end]
      rfl
    | cons c rest =>
      have char := charAt_of_drop left
      have here : format[k]? = some c := by
        rw [← List.head?_drop, left]
        rfl
      have lt : k < format.length := (List.getElem?_eq_some_iff.mp here).1
      by_cases percent : c = '%'
      · subst percent
        obtain ⟨out', prints⟩ := prints_directive here
          (fun i after le ap out => ih (format.length - i) (by omega) i le ap out rfl) 0 (by omega)
          (fun i lt => absurd lt (Nat.not_lt_zero i)) ap out (.reswitch Directive.start) trivial
        refine ⟨out', .go ?_ prints⟩
        dsimp only [step]
        rw [char]
        rfl
      · by_cases nul : c = '\x00'
        · refine ⟨out, .done ?_⟩
          dsimp only [step]
          rw [char]
          dsimp only
          rw [if_neg percent, if_pos nul]
        · obtain ⟨out', prints⟩ := ih (format.length - (k + 1)) (by omega) (k + 1) (by omega) ap
            (out ++ [code c]) rfl
          refine ⟨out', .go ?_ prints⟩
          dsimp only [step]
          rw [char]
          dsimp only
          rw [if_neg percent, if_neg nul]
          rfl

/-! ## Unknown escape sequences -/

/-- What follows a percent sign is not an escape sequence: after flags and widths there is a
character that is not known, or the format ends. -/
def Unrecognized (seq rest : List Char) : Prop :=
  ∃ flags, (∀ c ∈ flags, c ∈ flagChars) ∧
    ((∃ c, seq = flags ++ [c] ∧ c ∉ flagChars ∧ c ∉ conversions ∧ c ≠ '\x00') ∨
      (seq = flags ∧ rest = []))

/-- What ends the flags: a character that is not one of them, or the zero. -/
def EndsFlags (tail : List Char) : Prop := ∀ c, tail.head? = some c → c ∉ flagChars

theorem digit_of_not {c : Char} (digit : ¬ (c < '0' ∨ '9' < c)) : c ∈ flagChars ∧ c ≠ '*' := by
  rw [not_or, Char.not_lt, Char.not_lt, Char.le_def, Char.le_def, UInt32.le_iff_toNat_le,
    UInt32.le_iff_toNat_le] at digit
  have range : ∀ n < 58, 48 ≤ n → Char.ofNat n ∈ flagChars ∧ Char.ofNat n ≠ '*' := by decide
  have here := range c.toNat (Nat.lt_succ_of_le digit.2) digit.1
  rwa [Char.ofNat_toNat] at here

/-- One flag, or the first digit of a width. -/
theorem prints_flag_iff {k : Nat} {c : Char} (char : charAt format k = some c)
    (mem : c ∈ flagChars) (ap : Nat) (out out' : List Int) (d : Directive) :
    ∃ label : Label, label.InDirective ∧ (Prints format args ⟨k, ap, out, .reswitch d⟩ out' ↔
      Prints format args ⟨(k + 1 : Nat), ap + [c].count '*', out, label⟩ out') := by
  have cases_ := @switched_step format args k c char ap out d
  generalize went : step format args ⟨k, ap, out, .reswitch d⟩ = target at cases_
  have notConversion : c ∉ conversions := (flagChars_others mem).1
  cases cases_ with
  | flag _ directive => exact ⟨_, directive, prints_go_iff went⟩
  | conversion conv => exact absurd conv notConversion
  | call conv _ => exact absurd conv notConversion
  | unknown notFlag _ => exact absurd mem notFlag

/-- Flags and widths put nothing out. -/
theorem prints_flags_iff {tail : List Char} (ends : EndsFlags tail) {flags : List Char} {k : Nat}
    (at_ : format.drop k = flags ++ tail) (within : k ≤ format.length)
    (all : ∀ c ∈ flags, c ∈ flagChars) (ap : Nat) (out out' : List Int) (label : Label)
    (directive : label.InDirective) :
    ∃ d, Prints format args ⟨k, ap, out, label⟩ out' ↔
      Prints format args
      ⟨(k + flags.length : Nat), ap + flags.count '*', out, .reswitch d⟩ out' := by
  induction flags generalizing k ap label with
  | nil =>
    cases label with
    | reswitch d => exact ⟨d, Iff.rfl⟩
    | digits d ch =>
      obtain ⟨c, char, notDigit⟩ : ∃ c, charAt format k = some c ∧ (c < '0' ∨ '9' < c) := by
        cases tail with
        | nil =>
          have last : k = format.length :=
            Nat.le_antisymm within (List.drop_eq_nil_iff.mp at_)
          exact ⟨_, last ▸ charAt_end, by decide⟩
        | cons c tail =>
          refine ⟨c, charAt_of_drop at_, by_contra fun digit => ?_⟩
          exact ends c rfl (digit_of_not digit).1
      exact prints_width_iff char notDigit ap out out' d ch
    | text => exact directive.elim
    | back => exact directive.elim
  | cons c flags ih =>
    rw [List.cons_append] at at_
    have char := charAt_of_drop at_
    have mem := all c (List.mem_cons_self ..)
    have lt : k < format.length := by
      by_contra ge
      rw [List.drop_eq_nil_of_le (Nat.le_of_not_lt ge)] at at_
      cases at_
    have onwards := fun ap label (directive : Label.InDirective label) =>
      ih (drop_succ_of_drop at_) (by omega) (fun c mem => all c (List.mem_cons_of_mem _ mem)) ap
        label directive
    have count : ∀ ap, ap + (c :: flags).count '*' = ap + [c].count '*' + flags.count '*' := by
      intro ap
      rw [← List.singleton_append, List.count_append, Nat.add_assoc]
    have length : k + (c :: flags).length = k + 1 + flags.length := by
      rw [List.length_cons]
      omega
    rw [count, length]
    have reswitch : ∀ d, ∃ d', Prints format args ⟨k, ap, out, .reswitch d⟩ out' ↔
        Prints format args ⟨(k + 1 + flags.length : Nat), ap + [c].count '*' + flags.count '*',
          out, .reswitch d'⟩ out' := by
      intro d
      obtain ⟨label, directive, flag⟩ := prints_flag_iff char mem ap out out' d
      obtain ⟨d', same⟩ := onwards _ _ directive
      exact ⟨d', flag.trans same⟩
    cases label with
    | reswitch d => exact reswitch d
    | digits d ch =>
      by_cases digit : c < '0' ∨ '9' < c
      · obtain ⟨d', same⟩ := prints_width_iff char digit ap out out' d ch
        obtain ⟨d'', same'⟩ := reswitch d'
        exact ⟨d'', same.trans same'⟩
      · obtain ⟨d', same⟩ := onwards ap
          (.digits { d with precision := int32 (d.precision * 10 + (code ch - code '0')) } c)
          trivial
        have zero : [c].count '*' = 0 := by
          rw [List.count_singleton, beq_eq_false_iff_ne.mpr (digit_of_not digit).2]
          rfl
        rw [zero, Nat.add_zero]
        refine ⟨d', Iff.trans (prints_go_iff ?_) same⟩
        dsimp only [step]
        rw [char]
        exact if_neg digit
    | text => exact directive.elim
    | back => exact directive.elim

/-- Text without percent signs is put out as it stands. -/
theorem prints_plain_iff {seq rest : List Char} {k : Nat} (at_ : format.drop k = seq ++ rest)
    (plain : ∀ c ∈ seq, c ≠ '%' ∧ c ≠ '\x00') (ap : Nat) (out out' : List Int) :
    Prints format args ⟨k, ap, out, .text⟩ out' ↔
      Prints format args ⟨(k + seq.length : Nat), ap, out ++ seq.map code, .text⟩ out' := by
  induction seq generalizing k out with
  | nil => rw [List.map_nil, List.append_nil, List.length_nil, Nat.add_zero]
  | cons c seq ih =>
    rw [List.cons_append] at at_
    have here := plain c (List.mem_cons_self ..)
    have onwards := ih (drop_succ_of_drop at_) (fun c mem => plain c (List.mem_cons_of_mem _ mem))
      (out ++ [code c])
    rw [List.append_assoc, List.singleton_append, ← List.map_cons] at onwards
    rw [List.length_cons, show k + (seq.length + 1) = k + 1 + seq.length by omega]
    refine Iff.trans (prints_go_iff ?_) onwards
    dsimp only [step]
    rw [charAt_of_drop at_]
    dsimp only
    rw [if_neg here.1, if_neg here.2]
    rfl

/-- An escape sequence that is not recognised is flags, and then something that ends it. -/
theorem Unrecognized.split {seq rest : List Char} (unknown : Unrecognized seq rest) :
    ∃ flags tail, (∀ c ∈ flags, c ∈ flagChars) ∧ seq ++ rest = flags ++ tail ∧
      (EndsFlags tail ∧ ∀ c, tail.head? = some c → c ∉ conversions) ∧
      (∀ c ∈ seq, c ≠ '%' ∧ c ≠ '\x00') ∧ seq.count '*' = flags.count '*' := by
  obtain ⟨flags, all, ended⟩ := unknown
  rcases ended with ⟨c, rfl, notFlag, notConversion, notNul⟩ | ⟨rfl, rfl⟩
  · refine ⟨flags, c :: rest, all, by simp,
      ⟨fun d head => ?_, fun d head => ?_⟩, fun d mem => ?_, ?_⟩
    · rw [← Option.some.inj head]
      exact notFlag
    · rw [← Option.some.inj head]
      exact notConversion
    · rcases List.mem_append.mp mem with flag | last
      · exact (flagChars_others (all d flag)).2
      · rw [List.mem_singleton.mp last]
        refine ⟨fun same => notConversion (same ▸ ?_), notNul⟩
        decide
    · rw [List.count_append, List.count_eq_zero_of_not_mem (l := [c]), Nat.add_zero]
      intro star
      rw [List.mem_singleton] at star
      exact notFlag (star ▸ (by decide))
  · exact ⟨seq, [], all, by simp, ⟨fun d head => (by cases head), fun d head => (by cases head)⟩,
      fun d mem => (flagChars_others (all d mem)).2, rfl⟩

/-- The character that the `switch` does not know. -/
theorem prints_unknown_iff {m : Nat} {tail : List Char} (dropped : format.drop m = tail)
    (inside : m ≤ format.length)
    (ends : EndsFlags tail ∧ ∀ c, tail.head? = some c → c ∉ conversions) (ap : Nat)
    (out out' : List Int) (d : Directive) :
    Prints format args ⟨m, ap, out, .reswitch d⟩ out' ↔
      Prints format args ⟨m, ap, out ++ [code '%'], .back⟩ out' := by
  obtain ⟨c, char, notFlag, notConversion⟩ : ∃ c,
      charAt format m = some c ∧ c ∉ flagChars ∧ c ∉ conversions := by
    cases tail with
    | nil =>
      have atEnd : m = format.length :=
        Nat.le_antisymm inside (List.drop_eq_nil_iff.mp dropped)
      exact ⟨_, atEnd ▸ charAt_end, by decide, by decide⟩
    | cons c tail => exact ⟨c, charAt_of_drop dropped, ends.1 c rfl, ends.2 c rfl⟩
  have cases_ := @switched_step format args m c char ap out d
  generalize went : step format args ⟨m, ap, out, .reswitch d⟩ = target at cases_
  cases cases_ with
  | flag mem _ => exact absurd mem notFlag
  | conversion mem => exact absurd mem notConversion
  | call mem _ => exact absurd mem notConversion
  | unknown _ _ =>
    rw [prints_go_iff went]
    simp only [Int.add_sub_cancel]

/-- An escape sequence that is not recognised is put out with its percent sign, and the text
after it is next. -/
theorem prints_unrecognized_iff {seq rest : List Char} {k : Nat}
    (at_ : format.drop k = '%' :: (seq ++ rest)) (unknown : Unrecognized seq rest) (ap : Nat)
    (out out' : List Int) :
    Prints format args ⟨k, ap, out, .text⟩ out' ↔
      Prints format args
        ⟨(k + 1 + seq.length : Nat), ap + seq.count '*', out ++ ('%' :: seq).map code, .text⟩
        out' := by
  obtain ⟨flags, tail, all, split, ends, plain, count⟩ := unknown.split
  have percent : format[k]? = some '%' := by
    rw [← List.head?_drop, at_]
    rfl
  have lt : k < format.length := (List.getElem?_eq_some_iff.mp percent).1
  have rest_ := drop_succ_of_drop at_
  rw [split] at rest_
  have first : step format args ⟨k, ap, out, .text⟩ =
      .go ⟨(k + 1 : Nat), ap, out, .reswitch Directive.start⟩ := by
    dsimp only [step]
    rw [charAt_of_drop at_]
    rfl
  obtain ⟨d, skipped⟩ : ∃ d, Prints format args ⟨(k + 1 : Nat), ap, out,
      .reswitch Directive.start⟩ out' ↔ Prints format args
        ⟨(k + 1 + flags.length : Nat), ap + flags.count '*', out, .reswitch d⟩ out' :=
    prints_flags_iff ends.1 rest_ (by omega) all ap out out' _ trivial
  have inside : k + 1 + flags.length ≤ format.length := by
    have length := congrArg List.length rest_
    rw [List.length_drop, List.length_append] at length
    omega
  have dropped : format.drop (k + 1 + flags.length) = tail := by
    rw [← List.drop_drop, rest_, List.drop_left]
  have last := @prints_unknown_iff format args _ tail dropped inside ends
    (ap + flags.count '*') out out' d
  have noPercent : ∀ i < flags.length, format[k + 1 + i]? ≠ some '%' := by
    intro i lt same
    have there : (format.drop (k + 1))[i]? = some '%' := by rwa [List.getElem?_drop]
    rw [rest_, List.getElem?_append_left lt] at there
    exact absurd (all _ (List.mem_of_getElem? there)) (by decide)
  calc Prints format args ⟨k, ap, out, .text⟩ out'
    _ ↔ _ := prints_go_iff first
    _ ↔ _ := skipped
    _ ↔ _ := last
    _ ↔ _ := prints_back_iff percent inside noPercent _ _ _
    _ ↔ _ := prints_plain_iff (drop_succ_of_drop at_) plain _ _ _
    _ ↔ _ := by rw [count, List.map_cons, List.append_assoc, List.singleton_append]

/-- **`vprintfmt` always ends** and stays in its format, whatever the format is, and puts out
an escape sequence that it does not recognise as it stands. -/
theorem vprintfmt_ends (format : List Char) (args : Nat → VaArg) :
    (∃ out, Prints format args Printer.start out) ∧
      ∀ (k ap : Nat) (out : List Int) (seq rest : List Char),
        format.drop k = '%' :: (seq ++ rest) → Unrecognized seq rest →
        ∃ out', Prints format args ⟨k, ap, out, .text⟩ out' ∧
          Prints format args ⟨(k + 1 + seq.length : Nat), ap + seq.count '*',
            out ++ ('%' :: seq).map code, .text⟩ out' := by
  refine ⟨prints_text 0 (Nat.zero_le _) 0 [], fun k ap out seq rest at_ unknown => ?_⟩
  have within : k ≤ format.length := by
    by_contra beyond
    rw [List.drop_eq_nil_of_le (Nat.le_of_not_le beyond)] at at_
    cases at_
  obtain ⟨out', prints⟩ : ∃ out', Prints format args ⟨k, ap, out, .text⟩ out' :=
    prints_text k within ap out
  exact ⟨out', prints, (prints_unrecognized_iff at_ unknown ap out out').mp prints⟩

/-- `%5q` is put out as it stands. -/
theorem vprintfmt_ends_literal :
    ∃ out', Prints ['%', '5', 'q'] (fun _ => ⟨0, 0, none⟩) ⟨(0 : Nat), 0, [], .text⟩ out' ∧
      Prints ['%', '5', 'q'] (fun _ => ⟨0, 0, none⟩)
        ⟨(0 + 1 + ['5', 'q'].length : Nat), 0 + ['5', 'q'].count '*',
          [] ++ ['%', '5', 'q'].map code, .text⟩ out' :=
  (vprintfmt_ends ['%', '5', 'q'] fun _ => ⟨0, 0, none⟩).2 0 0 [] ['5', 'q'] [] rfl
    ⟨['5'], List.forall_mem_singleton.mpr (by decide),
    Or.inl ⟨'q', rfl, by decide, by decide, by decide⟩⟩

end Fos.Printfmt
