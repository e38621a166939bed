import Fos.Strings.Numerals
import Mathlib.Data.Nat.Digits.Defs

/-!
# Numbers as texts

`ltostr` of `lib/string.c`, and what `strtol` reads of its text.

* `ltostr`: the function on the caller's buffer, with the reversal in place;
* `kept`: the number whose digits are written;
* `ltostr_iff`: when `strtol` undoes `ltostr`.
-/

namespace Fos

/-- The `do` loop of `ltostr`: the digits from the last one, and the position after them. -/
def ltostrDigits (str : Nat → Char) (s : Nat) (value : Int) : (Nat → Char) × Nat :=
  let mod := value.tmod 10
  let str := Function.update str s (Char.ofNat (mod + '0'.toNat).toNat)
  let value' := value.tdiv 10
  if _more : value'.tmod 10 ≠ 0 then ltostrDigits str (s + 1) value' else (str, s + 1)
termination_by value.natAbs
decreasing_by
  rw [Int.natAbs_tdiv]
  refine Nat.div_lt_self (Nat.pos_of_ne_zero fun zero => ?_) (by decide)
  rw [Int.natAbs_eq_zero] at zero
  subst zero
  exact _more rfl

/-- The loop that reverses the string: `start` and `end` come towards each other. -/
def reverseLoop (str : Nat → Char) (start «end» : Nat) : Nat → Char :=
  if start < «end» then
    let tmp := str start
    reverseLoop (Function.update (Function.update str start (str «end»)) «end» tmp) (start + 1)
      («end» - 1)
  else str
termination_by «end» - start

/-- `ltostr(value, str)`. -/
def ltostr (value : Int) (str : Nat → Char) : Nat → Char :=
  let neg := value < 0
  let str := if neg then Function.update str 0 '-' else str
  let s := if neg then 1 else 0
  let value := if neg then int32 (value * -1) else value
  let (str, s) := ltostrDigits str s value
  let str := reverseLoop str (if neg then 1 else 0) (s - 1)
  Function.update str s '\x00'

/-! ## Texts in a buffer -/

/-- The text in a buffer, up to its first zero. -/
structure HoldsText (str : Nat → Char) (text : List Char) : Prop where
  chars : ∀ k c, text[k]? = some c → str k = c
  ends : str text.length = '\x00'
  noNul : '\x00' ∉ text

/-- A buffer with a list of characters from the position `s` on. -/
def place (str : Nat → Char) : Nat → List Char → Nat → Char
  | _, [] => str
  | s, c :: cs => place (Function.update str s c) (s + 1) cs

theorem place_apply (str : Nat → Char) (s : Nat) (cs : List Char) (k : Nat) :
    place str s cs k = if s ≤ k then cs[k - s]?.getD (str k) else str k := by
  induction cs generalizing str s with
  | nil => simp [place]
  | cons c cs ih =>
    rw [place, ih]
    rcases Nat.lt_trichotomy k s with lt | rfl | gt
    · rw [if_neg (by omega), if_neg (by omega), Function.update_of_ne (Nat.ne_of_lt lt)]
    · rw [if_neg (by omega), if_pos (Nat.le_refl k), Nat.sub_self, Function.update_self]
      rfl
    · obtain ⟨i, rfl⟩ : ∃ i, k = s + 1 + i := ⟨k - (s + 1), by omega⟩
      rw [if_pos (by omega), if_pos (by omega), Function.update_of_ne (by omega),
        Nat.add_sub_cancel_left, Nat.add_assoc, Nat.add_sub_cancel_left, Nat.add_comm 1 i,
        List.getElem?_cons_succ]

/-- The loop turns round what is between its two positions. -/
theorem reverseLoop_apply (str : Nat → Char) (start last k : Nat) :
    reverseLoop str start last k =
      if start ≤ k ∧ k ≤ last then str (start + last - k) else str k := by
  induction gap : last - start using Nat.strong_induction_on generalizing str start last with
  | _ gap ih =>
    rw [reverseLoop]
    split
    · rename_i lt
      rw [ih (last - 1 - (start + 1)) (by omega) _ _ _ rfl]
      by_cases inside : start + 1 ≤ k ∧ k ≤ last - 1
      · rw [if_pos inside, if_pos (by omega), Function.update_of_ne (by omega),
          Function.update_of_ne (by omega)]
        congr 1
        omega
      · rw [if_neg inside]
        by_cases isLast : k = last
        · subst isLast
          rw [Function.update_self, if_pos (by omega), Nat.add_sub_cancel_right]
        · by_cases isFirst : k = start
          · subst isFirst
            rw [Function.update_of_ne isLast, Function.update_self, if_pos (by omega),
              Nat.add_sub_cancel_left]
          · rw [Function.update_of_ne isLast, Function.update_of_ne isFirst, if_neg (by omega)]
    · rename_i notLt
      split
      · congr 1
        omega
      · rfl

/-- Digits that were written from the last one on, turned round and ended. -/
theorem holdsText_reversed {str : Nat → Char} (sign : List Char) {cs : List Char}
    (signed : ∀ k c, sign[k]? = some c → str k = c) (pos : cs ≠ [])
    (noNul : '\x00' ∉ sign ++ cs.reverse) :
    HoldsText (Function.update
        (reverseLoop (place str sign.length cs) sign.length (sign.length + cs.length - 1))
        (sign.length + cs.length) '\x00')
      (sign ++ cs.reverse) := by
  have length : 0 < cs.length := List.length_pos_of_ne_nil pos
  have total : (sign ++ cs.reverse).length = sign.length + cs.length := by simp
  refine ⟨fun k c here => ?_, by rw [total, Function.update_self], noNul⟩
  have bound : k < sign.length + cs.length := total ▸ (List.getElem?_eq_some_iff.mp here).1
  rw [Function.update_of_ne (Nat.ne_of_lt bound), reverseLoop_apply]
  by_cases inSign : k < sign.length
  · rw [if_neg (by omega), place_apply, if_neg (by omega)]
    rw [List.getElem?_append_left inSign] at here
    exact signed k c here
  · rw [List.getElem?_append_right (by omega), List.getElem?_reverse (by omega)] at here
    rw [if_pos (by omega), place_apply, if_pos (by omega)]
    have index : sign.length + (sign.length + cs.length - 1) - k - sign.length =
        cs.length - 1 - (k - sign.length) := by omega
    rw [index, here]
    rfl

/-! ## What is written -/

/-- The characters of the `do` loop, the last digit first. -/
def lowDigits (n : Nat) : List Char :=
  hexDigit (n % 10) :: if _more : n / 10 % 10 ≠ 0 then lowDigits (n / 10) else []

/-- The number that these digits make up: `n` from its last zero before the last digit on. -/
def kept (n : Nat) : Nat :=
  if _more : n / 10 % 10 ≠ 0 then kept (n / 10) * 10 + n % 10 else n % 10

/-- No digit but the last is zero. -/
def NoZeroBeforeLast (n : Nat) : Prop := ∀ d ∈ Nat.digits 10 (n / 10), d ≠ 0

theorem ltostrDigits_eq (str : Nat → Char) (s n : Nat) :
    ltostrDigits str s n = (place str s (lowDigits n), s + (lowDigits n).length) := by
  induction n using Nat.strong_induction_on generalizing str s with
  | _ n ih =>
    have char : ∀ d : Nat, d < 10 → Char.ofNat ((d : Int) + '0'.toNat).toNat = hexDigit d := by
      decide
    have mod : (n : Int).tmod 10 = (n % 10 : Nat) := (Int.ofNat_tmod n 10).symm
    have div : (n : Int).tdiv 10 = (n / 10 : Nat) := (Int.ofNat_tdiv n 10).symm
    have mod' : ((n / 10 : Nat) : Int).tmod 10 = (n / 10 % 10 : Nat) :=
      (Int.ofNat_tmod (n / 10) 10).symm
    rw [ltostrDigits, lowDigits]
    simp only [mod, div, mod', char _ (Nat.mod_lt n (by decide))]
    by_cases more : n / 10 % 10 ≠ 0
    · rw [dif_pos (by exact_mod_cast more), dif_pos more, ih (n / 10) (by omega), place,
        List.length_cons, Nat.add_assoc, Nat.add_comm 1]
    · rw [dif_neg (by exact_mod_cast more), dif_neg more]
      rfl

theorem kept_ne_zero {n : Nat} (nonzero : n % 10 ≠ 0) : kept n ≠ 0 := by
  rw [kept]
  split <;> omega

theorem lowDigits_reverse (n : Nat) : (lowDigits n).reverse = numeral 10 (kept n) := by
  induction n using Nat.strong_induction_on with
  | _ n ih =>
    rw [lowDigits, kept, List.reverse_cons]
    by_cases more : n / 10 % 10 ≠ 0
    · have pos := kept_ne_zero more
      rw [dif_pos more, dif_pos more, ih (n / 10) (by omega),
        @numeral_of_le 10 (kept (n / 10) * 10 + n % 10) _ (by omega)]
      congr 2 <;> congr 1 <;> omega
    · rw [dif_neg more, dif_neg more, numeral_of_lt (by omega)]
      rfl

/-- All digits are written if and only if none but the last is zero. -/
theorem kept_eq_iff (n : Nat) : kept n = n ↔ NoZeroBeforeLast n := by
  induction n using Nat.strong_induction_on with
  | _ n ih =>
    rw [kept, NoZeroBeforeLast]
    by_cases more : n / 10 % 10 ≠ 0
    · have digits : Nat.digits 10 (n / 10) = n / 10 % 10 :: Nat.digits 10 (n / 10 / 10) :=
        Nat.digits_def' (by decide) (by omega)
      rw [dif_pos more, digits, List.forall_mem_cons, and_iff_right more]
      refine Iff.trans ?_ (ih (n / 10) (by omega))
      omega
    · rw [dif_neg more]
      by_cases small : n / 10 = 0
      · rw [small, Nat.digits_zero]
        exact iff_of_true (by omega) (List.forall_mem_nil _)
      · have digits : Nat.digits 10 (n / 10) = n / 10 % 10 :: Nat.digits 10 (n / 10 / 10) :=
          Nat.digits_def' (by decide) (by omega)
        rw [digits, List.forall_mem_cons]
        exact iff_of_false (by omega) fun all => more all.1

theorem kept_le (n : Nat) : kept n ≤ n := by
  induction n using Nat.strong_induction_on with
  | _ n ih =>
    rw [kept]
    split
    · have := ih (n / 10) (by omega)
      omega
    · omega

/-! ## Reading it back -/

/-- The sign of a number. -/
def signOf (value : Int) : List Char := if value < 0 then ['-'] else []

variable {value : Int}

theorem natAbs_negated (lo : -2147483648 < value) (neg : value < 0) :
    int32 (value * -1) = value.natAbs := by
  rw [int32_of_small (by omega) (by omega)]
  omega

theorem ltostr_holds (lo : -2147483648 < value) (str : Nat → Char) :
    HoldsText (ltostr value str) (signOf value ++ numeral 10 (kept value.natAbs)) := by
  have digits : ∀ d < 10, hexDigit d ≠ '\x00' := by decide
  have noNul : '\x00' ∉ numeral 10 (kept value.natAbs) := fun mem =>
    forall_numeral (P := (· ≠ '\x00')) digits _ _ mem rfl
  have written : lowDigits value.natAbs ≠ [] := by
    rw [lowDigits]
    exact List.cons_ne_nil _ _
  rw [← lowDigits_reverse] at noNul ⊢
  by_cases neg : value < 0
  · have sign : signOf value = ['-'] := if_pos neg
    have result : ltostr value str = Function.update
        (reverseLoop (place (Function.update str 0 '-') 1 (lowDigits value.natAbs)) 1
          (1 + (lowDigits value.natAbs).length - 1)) (1 + (lowDigits value.natAbs).length)
        '\x00' := by
      simp only [ltostr, if_pos neg, natAbs_negated lo neg, ltostrDigits_eq]
    rw [sign, result]
    refine holdsText_reversed ['-'] (fun k c here => ?_) written ?_
    · cases k with
      | zero => exact Option.some.inj here
      | succ k => exact absurd here (by simp)
    · rw [List.mem_append, not_or]
      exact ⟨by decide, noNul⟩
  · have sign : signOf value = [] := if_neg neg
    have magnitude : value = value.natAbs := by omega
    have result : ltostr value str = Function.update
        (reverseLoop (place str 0 (lowDigits value.natAbs)) 0
          (0 + (lowDigits value.natAbs).length - 1)) (0 + (lowDigits value.natAbs).length)
        '\x00' := by
      conv_lhs => rw [magnitude]
      simp only [ltostr, if_neg (show ¬ (value.natAbs : Int) < 0 by omega), ltostrDigits_eq]
    rw [sign, result]
    exact holdsText_reversed [] (fun k c here => absurd here (by simp)) written noNul

/-- A buffer holds one text. -/
theorem HoldsText.unique {str : Nat → Char} {text text' : List Char}
    (holds : HoldsText str text) (holds' : HoldsText str text') : text = text' := by
  have shorter : ∀ {a b : List Char}, HoldsText str a → HoldsText str b →
      ¬ a.length < b.length := by
    intro a b ha hb lt
    have here := hb.chars a.length b[a.length] (List.getElem?_eq_getElem lt)
    rw [ha.ends] at here
    exact hb.noNul (here ▸ List.getElem_mem lt)
  have same : text.length = text'.length :=
    Nat.le_antisymm (Nat.le_of_not_lt (shorter holds' holds))
      (Nat.le_of_not_lt (shorter holds holds'))
  refine List.ext_getElem same fun k lt lt' => ?_
  exact (holds.chars k _ (List.getElem?_eq_getElem lt)).symm.trans
    (holds'.chars k _ (List.getElem?_eq_getElem lt'))

/-- What `strtol` reads of the text. -/
theorem strtol_ltostr (lo : -2147483648 < value) (hi : value < 2147483648) :
    strtol (String.ofList (signOf value ++ numeral 10 (kept value.natAbs))) 10 =
      if value < 0 then -(kept value.natAbs : Int) else kept value.natAbs := by
  have le := kept_le value.natAbs
  have body : Body (numeral 10 (kept value.natAbs)) := body_numeral (by decide) 0 _
  have read : strtolDigits 10 (numeral 10 (kept value.natAbs)) 0 = kept value.natAbs := by
    simpa [strtolDigits] using @strtolDigits_numeral 10 _ (by decide) (kept value.natAbs) []
  rw [signOf]
  split
  · rw [List.singleton_append, strtol_minus body.no_x, read]
    exact int32_of_small (by omega) (by omega)
  · rw [strtol_body (fun c mem => absurd mem List.not_mem_nil) body, read]
    exact int32_of_small (by omega) (by omega)

/-- Whatever the buffer was, `strtol` reads the number back. -/
def StrtolInverts (value : Int) : Prop :=
  ∀ str, ∃ text, HoldsText (ltostr value str) text ∧ strtol (String.ofList text) 10 = value

theorem strtolInverts_iff (lo : -2147483648 < value) (hi : value < 2147483648) :
    StrtolInverts value ↔ NoZeroBeforeLast value.natAbs := by
  rw [← kept_eq_iff]
  have read := strtol_ltostr lo hi
  constructor
  · intro undone
    obtain ⟨text, holds, back⟩ := undone fun _ => '\x00'
    rw [holds.unique (ltostr_holds lo _), read] at back
    split at back <;> omega
  · intro all str
    refine ⟨_, ltostr_holds lo str, ?_⟩
    rw [read, all]
    split <;> omega

/-- **`strtol` undoes `ltostr`** if and only if no digit of the number but the last is zero, and
such numbers have different texts. -/
theorem ltostr_iff (lo : -2147483648 < value) (hi : value < 2147483648) :
    (StrtolInverts value ↔ NoZeroBeforeLast value.natAbs) ∧
      ∀ value' : Int, -2147483648 < value' → value' < 2147483648 →
        NoZeroBeforeLast value.natAbs → NoZeroBeforeLast value'.natAbs →
        ∀ str str' text, HoldsText (ltostr value str) text →
          HoldsText (ltostr value' str') text → value = value' := by
  refine ⟨strtolInverts_iff lo hi, fun value' lo' hi' all all' str str' text holds holds' => ?_⟩
  obtain ⟨text₁, holds₁, back₁⟩ := (strtolInverts_iff lo hi).mpr all str
  obtain ⟨text₂, holds₂, back₂⟩ := (strtolInverts_iff lo' hi').mpr all' str'
  rw [← back₁, ← back₂, holds₁.unique holds, holds₂.unique holds']

/-- The number 42. -/
theorem ltostr_42 : (StrtolInverts 42 ↔ NoZeroBeforeLast 42) ∧
    ∀ value' : Int, -2147483648 < value' → value' < 2147483648 →
      NoZeroBeforeLast 42 → NoZeroBeforeLast value'.natAbs →
      ∀ str str' text, HoldsText (ltostr 42 str) text →
        HoldsText (ltostr value' str') text → 42 = value' :=
  ltostr_iff (by decide) (by decide)

/-- Of 100 only a zero is written. -/
theorem ltostr_100 : ¬ ∀ value : Int, -2147483648 < value → value < 2147483648 →
    StrtolInverts value := by
  intro undone
  have all := (strtolInverts_iff (by decide) (by decide)).mp (undone 100 (by decide) (by decide))
  exact all 0 (by decide) rfl

end Fos
