import Fos.Prompt.Execute
import Fos.Strings.Ltostr
import Mathlib.Data.List.TakeWhile

/-!
# Splitting a line in place

`strsplit` of `lib/string.c` on the memory that holds the line: the separators are overwritten
with zeros and the arguments are pointers into the line.

* `InPlace.strsplit`: the function, with its three loops;
* `starts`: where the arguments of a line are;
* `cut`: the memory when the line has been cut up to a position;
* `strsplit_tokens`: what is returned and what is in memory then;
* `strsplit_strings`: these are the strings that the prompt goes on with.
-/

namespace Fos.InPlace

/-- `while (*string && strchr(SPLIT_CHARS, *string)) *string++ = 0`. -/
def trim (splitChars : List Char) : Nat → (Nat → Char) → Nat → Option ((Nat → Char) × Nat)
  | 0, _, _ => none
  | fuel + 1, mem, string =>
    if mem string ≠ '\x00' ∧ mem string ∈ splitChars then
      trim splitChars fuel (Function.update mem string '\x00') (string + 1)
    else some (mem, string)

/-- `while (*string && !strchr(SPLIT_CHARS, *string)) string++`. -/
def scan (splitChars : List Char) (mem : Nat → Char) : Nat → Nat → Option Nat
  | 0, _ => none
  | fuel + 1, string =>
    if mem string ≠ '\x00' ∧ mem string ∉ splitChars then
      scan splitChars mem fuel (string + 1)
    else some string

/-- What `strsplit` works on: the memory, its position in the line, and the caller's `argv` and
`*argc`. -/
structure Split where
  mem : Nat → Char
  string : Nat
  argv : Nat → Option Nat
  argc : Nat

/-- The main loop; `passes` is for this loop and `fuel` for the two in its body. -/
def splitLoop (splitChars : List Char) (fuel : Nat) : Nat → Split → Option (Nat × Split)
  | 0, _ => none
  | passes + 1, s => do
    let (mem, string) ← trim splitChars fuel s.mem s.string
    if mem string = '\x00' then
      return (1, ⟨mem, string, Function.update s.argv s.argc none, s.argc⟩)
    else if s.argc = maxArguments - 1 then return (0, ⟨mem, string, s.argv, s.argc⟩)
    else
      let argv := Function.update s.argv s.argc (some string)
      let next ← scan splitChars mem fuel string
      splitLoop splitChars fuel passes ⟨mem, next, argv, s.argc + 1⟩

/-- `strsplit(string, SPLIT_CHARS, argv, argc)`. -/
def strsplit (splitChars : List Char) (fuel : Nat) (mem : Nat → Char) (string : Nat)
    (argv : Nat → Option Nat) : Option (Nat × Split) :=
  splitLoop splitChars fuel fuel ⟨mem, string, Function.update argv 0 none, 0⟩

/-! ## The arguments of a line -/

variable (splitChars s : List Char)

/-- There is a separator at the position `k`. -/
def sepAt (k : Nat) : Bool := s[k]?.any (· ∈ splitChars)

/-- There is another character at the position `k`. -/
def otherAt (k : Nat) : Bool := s[k]?.any (· ∉ splitChars)

/-- A maximal run of characters that are no separators starts at the position `k`. -/
def startsAt (k : Nat) : Bool := otherAt splitChars s k && (k == 0 || sepAt splitChars s (k - 1))

/-- Where such runs start before the position `o`. -/
def startsBefore (o : Nat) : List Nat := (List.range o).filter (startsAt splitChars s)

/-- Where the maximal runs of the line start, in order. -/
def starts : List Nat := startsBefore splitChars s s.length

/-- The run that starts at the position `k`. -/
def runFrom (k : Nat) : List Char := (s.drop k).takeWhile (· ∉ splitChars)

/-- The memory when the line at `string` has been cut up to its position `o`. -/
def cut (mem : Nat → Char) (string o : Nat) (q : Nat) : Char :=
  if string ≤ q ∧ q < string + o ∧ sepAt splitChars s (q - string) = true then '\x00' else mem q

variable {splitChars s} {mem : Nat → Char} {string o : Nat}

theorem sepAt_lt {k : Nat} (sep : sepAt splitChars s k = true) : k < s.length := by
  by_contra ge
  rw [sepAt, List.getElem?_eq_none (Nat.le_of_not_lt ge)] at sep
  cases sep

theorem otherAt_lt {k : Nat} (other : otherAt splitChars s k = true) : k < s.length := by
  by_contra ge
  rw [otherAt, List.getElem?_eq_none (Nat.le_of_not_lt ge)] at other
  cases other

/-- In the line there is a separator or another character. -/
theorem otherAt_eq_not {k : Nat} (lt : k < s.length) :
    otherAt splitChars s k = !sepAt splitChars s k := by
  rw [otherAt, sepAt, List.getElem?_eq_getElem lt]
  simp

theorem startsBefore_succ (o : Nat) :
    startsBefore splitChars s (o + 1) =
      startsBefore splitChars s o ++ if startsAt splitChars s o = true then [o] else [] := by
  rw [startsBefore, List.range_succ, List.filter_append]
  congr 1
  simp [List.filter_cons]

/-- No run starts where none of the positions is a start. -/
theorem startsBefore_eq_of_none {o o' : Nat} (le : o ≤ o')
    (none : ∀ k, o ≤ k → k < o' → startsAt splitChars s k = false) :
    startsBefore splitChars s o' = startsBefore splitChars s o := by
  induction o', le using Nat.le_induction with
  | base => rfl
  | succ o' le ih =>
    rw [startsBefore_succ, none o' le (Nat.lt_succ_self o'), ih fun k lo hi => none k lo (by omega)]
    simp

theorem mem_startsBefore {k : Nat} :
    k ∈ startsBefore splitChars s o ↔ k < o ∧ startsAt splitChars s k = true := by
  rw [startsBefore, List.mem_filter, List.mem_range]

/-- The starts before a position are the first ones. -/
theorem startsBefore_prefix {o o' : Nat} (le : o ≤ o') :
    startsBefore splitChars s o <+: startsBefore splitChars s o' := by
  induction o', le using Nat.le_induction with
  | base => exact List.prefix_rfl
  | succ o' le ih =>
    rw [startsBefore_succ]
    exact ih.trans (List.prefix_append ..)

/-! ## The loops -/

/-- The line is at `string`. -/
abbrev LineAt (mem : Nat → Char) (string : Nat) (s : List Char) : Prop :=
  HoldsText (fun k => mem (string + k)) s

theorem cut_apart {q : Nat} (apart : q < string ∨ string + s.length < q) :
    cut splitChars s mem string o q = mem q := by
  refine if_neg fun inside => ?_
  have lt := sepAt_lt inside.2.2
  omega

/-- The loops look at a character that has not been cut. -/
theorem cut_here (mem : Nat → Char) (string o : Nat) :
    cut splitChars s mem string o (string + o) = mem (string + o) :=
  if_neg fun inside => Nat.lt_irrefl _ inside.2.1

theorem cut_zero (mem : Nat → Char) (string : Nat) : cut splitChars s mem string 0 = mem := by
  funext q
  exact if_neg fun inside => by omega

/-- A separator is overwritten. -/
theorem update_cut (sep : sepAt splitChars s o = true) :
    Function.update (cut splitChars s mem string o) (string + o) '\x00' =
      cut splitChars s mem string (o + 1) := by
  funext q
  by_cases here : q = string + o
  · subst here
    rw [Function.update_self, cut, if_pos ⟨by omega, by omega, by
      rwa [Nat.add_sub_cancel_left]⟩]
  · rw [Function.update_of_ne here, cut, cut]
    refine if_congr ?_ rfl rfl
    refine and_congr_right fun _ => and_congr_left fun _ => ?_
    omega

/-- Another character is left alone. -/
theorem cut_succ (notSep : sepAt splitChars s o = false) :
    cut splitChars s mem string (o + 1) = cut splitChars s mem string o := by
  funext q
  rw [cut, cut]
  refine if_congr ?_ rfl rfl
  constructor
  · rintro ⟨lo, hi, sep⟩
    refine ⟨lo, ?_, sep⟩
    by_contra here
    rw [show q - string = o by omega, notSep] at sep
    cases sep
  · rintro ⟨lo, hi, sep⟩
    exact ⟨lo, by omega, sep⟩

/-- What the loops see of the line. -/
theorem LineAt.sees (line : LineAt mem string s) (splitChars : List Char) (within : o ≤ s.length) :
    (mem (string + o) = '\x00' ↔ o = s.length) ∧
      (mem (string + o) ≠ '\x00' ∧ mem (string + o) ∈ splitChars ↔
        sepAt splitChars s o = true) ∧
      (mem (string + o) ≠ '\x00' ∧ mem (string + o) ∉ splitChars ↔
        otherAt splitChars s o = true) := by
  rcases Nat.lt_or_eq_of_le within with lt | rfl
  · have char : mem (string + o) = s[o] := line.chars o _ (List.getElem?_eq_getElem lt)
    have nonzero : s[o] ≠ '\x00' := fun zero => line.noNul (zero ▸ List.getElem_mem lt)
    rw [char, sepAt, otherAt, List.getElem?_eq_getElem lt]
    refine ⟨iff_of_false nonzero (Nat.ne_of_lt lt), ?_, ?_⟩
    · simp [nonzero]
    · simp [nonzero]
  · have zero : mem (string + s.length) = '\x00' := line.ends
    rw [zero, sepAt, otherAt, List.getElem?_eq_none (Nat.le_refl _)]
    simp

/-- The first loop of a pass: it cuts the separators off. -/
theorem trim_cuts (line : LineAt mem string s) (within : o ≤ s.length) {fuel : Nat}
    (enough : s.length - o < fuel) :
    ∃ o', o ≤ o' ∧ o' ≤ s.length ∧
      trim splitChars fuel (cut splitChars s mem string o) (string + o) =
        some (cut splitChars s mem string o', string + o') ∧
      (∀ k, o ≤ k → k < o' → sepAt splitChars s k = true) ∧ sepAt splitChars s o' = false := by
  induction fuel generalizing o with
  | zero => exact absurd enough (Nat.not_lt_zero _)
  | succ fuel ih =>
    have sees := (line.sees splitChars within).2.1
    rw [trim, cut_here]
    by_cases sep : sepAt splitChars s o = true
    · have lt := sepAt_lt sep
      obtain ⟨o', le, within', run, all, stop⟩ := ih (o := o + 1) lt (by omega)
      refine ⟨o', by omega, within', ?_, fun k lo hi => ?_, stop⟩
      · rw [if_pos (sees.mpr sep), update_cut sep]
        exact run
      · rcases Nat.eq_or_lt_of_le lo with rfl | more
        · exact sep
        · exact all k more hi
    · refine ⟨o, Nat.le_refl o, within, if_neg fun seen => sep (sees.mp seen), fun k lo hi => ?_,
        Bool.eq_false_iff.mpr sep⟩
      omega

/-- The second loop of a pass: it goes to the end of the argument. -/
theorem scan_passes (line : LineAt mem string s) {start : Nat} (from_ : start ≤ o)
    (within : o ≤ s.length) {fuel : Nat} (enough : s.length - o < fuel)
    (others : ∀ k, start ≤ k → k < o → otherAt splitChars s k = true) :
    ∃ o', o ≤ o' ∧ o' ≤ s.length ∧
      scan splitChars (cut splitChars s mem string start) fuel (string + o) = some (string + o') ∧
      (∀ k, start ≤ k → k < o' → otherAt splitChars s k = true) ∧
      otherAt splitChars s o' = false := by
  induction fuel generalizing o with
  | zero => exact absurd enough (Nat.not_lt_zero _)
  | succ fuel ih =>
    have sees := (line.sees splitChars within).2.2
    have here : cut splitChars s mem string start (string + o) = mem (string + o) :=
      if_neg fun inside => by omega
    rw [scan, here]
    by_cases other : otherAt splitChars s o = true
    · have lt := otherAt_lt other
      obtain ⟨o', le, within', run, all, stop⟩ := ih (o := o + 1) (by omega) lt (by omega)
        fun k lo hi => by
          rcases Nat.eq_or_lt_of_le (Nat.le_of_lt_succ hi) with rfl | less
          · exact other
          · exact others k lo less
      exact ⟨o', by omega, within', by rw [if_pos (sees.mpr other)]; exact run, all, stop⟩
    · exact ⟨o, Nat.le_refl o, within, if_neg fun seen => other (sees.mp seen), others,
        Bool.eq_false_iff.mpr other⟩

/-- The state before a pass, when the line has been cut up to `o` and the last argument goes up
to there. -/
structure AtPass (splitChars s : List Char) (mem : Nat → Char) (string : Nat)
    (argv : Nat → Option Nat) (o : Nat) (st : Split) : Prop where
  mem_eq : st.mem = cut splitChars s mem string o
  string_eq : st.string = string + o
  within : o ≤ s.length
  boundary : o = 0 ∨ otherAt splitChars s o = false
  argc_eq : st.argc = (startsBefore splitChars s o).length
  few : st.argc ≤ maxArguments - 1
  argv_eq : ∀ i k, (startsBefore splitChars s o)[i]? = some k → st.argv i = some (string + k)
  outside : ∀ i, maxArguments ≤ i → st.argv i = argv i

/-- How the loop ends, with the line cut up to `o`. -/
structure Ended (splitChars s : List Char) (mem : Nat → Char) (string : Nat)
    (argv : Nat → Option Nat) (o : Nat) (r : Nat × Split) : Prop where
  mem_eq : r.2.mem = cut splitChars s mem string o
  argc_eq : r.2.argc = (startsBefore splitChars s o).length
  argv_eq : ∀ i k, (startsBefore splitChars s o)[i]? = some k → r.2.argv i = some (string + k)
  outside : ∀ i, maxArguments ≤ i → r.2.argv i = argv i
  how : (r.1 = 1 ∧ o = s.length ∧ r.2.argc ≤ maxArguments - 1 ∧ r.2.argv r.2.argc = none) ∨
    (r.1 = 0 ∧ startsAt splitChars s o = true ∧ r.2.argc = maxArguments - 1)

variable {argv : Nat → Option Nat} {st : Split}

/-- The state after the separators have been trimmed. -/
theorem startsBefore_trimmed {o' : Nat} (le : o ≤ o')
    (seps : ∀ k, o ≤ k → k < o' → sepAt splitChars s k = true) :
    startsBefore splitChars s o' = startsBefore splitChars s o := by
  refine startsBefore_eq_of_none le fun k lo hi => ?_
  rw [startsAt, otherAt_eq_not (sepAt_lt (seps k lo hi)), seps k lo hi]
  rfl

/-- The first character that is no separator starts an argument. -/
theorem startsAt_trimmed (boundary : o = 0 ∨ otherAt splitChars s o = false) {o' : Nat}
    (le : o ≤ o') (seps : ∀ k, o ≤ k → k < o' → sepAt splitChars s k = true)
    (stop : sepAt splitChars s o' = false) (lt : o' < s.length) :
    startsAt splitChars s o' = true := by
  have other : otherAt splitChars s o' = true := by rw [otherAt_eq_not lt, stop]; rfl
  rw [startsAt, other, Bool.true_and, Bool.or_eq_true, beq_iff_eq]
  rcases Nat.eq_or_lt_of_le le with rfl | more
  · refine Or.inl (boundary.resolve_right fun notOther => ?_)
    rw [notOther] at other
    cases other
  · exact Or.inr (seps (o' - 1) (by omega) (by omega))

/-- Inside an argument no other one starts. -/
theorem startsBefore_scanned {start o' : Nat} (starts : startsAt splitChars s start = true)
    (more : start < o') (others : ∀ k, start ≤ k → k < o' → otherAt splitChars s k = true) :
    startsBefore splitChars s o' = startsBefore splitChars s start ++ [start] := by
  rw [startsBefore_eq_of_none (o := start + 1) more, startsBefore_succ, if_pos starts]
  intro k lo hi
  have before := others (k - 1) (by omega) (by omega)
  have notSep : sepAt splitChars s (k - 1) = false := by
    rw [otherAt_eq_not (otherAt_lt before)] at before
    exact Bool.not_eq_true' _ ▸ before
  rw [startsAt, notSep, show (k == 0) = false from beq_eq_false_iff_ne.mpr (by omega)]
  simp

/-- The loop ends. -/
theorem splitLoop_ends (line : LineAt mem string s) {fuel passes : Nat}
    (at_ : AtPass splitChars s mem string argv o st) (fueled : s.length < fuel)
    (enough : s.length - o < passes) :
    ∃ r o', splitLoop splitChars fuel passes st = some r ∧
      Ended splitChars s mem string argv o' r := by
  induction passes generalizing o st with
  | zero => exact absurd enough (Nat.not_lt_zero _)
  | succ passes ih =>
    obtain ⟨o₁, le₁, within₁, trimmed, seps, stop⟩ :=
      @trim_cuts splitChars s mem string o line at_.within fuel (by omega)
    have same := startsBefore_trimmed le₁ seps
    have sees := (line.sees splitChars within₁).1
    have slots : maxArguments = 16 := rfl
    rw [splitLoop, at_.mem_eq, at_.string_eq, trimmed]
    simp only [Option.bind_eq_bind, Option.bind_some, cut_here, sees]
    by_cases last : o₁ = s.length
    · -- the line is finished
      rw [if_pos last]
      refine ⟨_, o₁, rfl, rfl, by rw [same]; exact at_.argc_eq, fun i k here => ?_, fun i ge => ?_,
        Or.inl ⟨rfl, last, at_.few, Function.update_self ..⟩⟩
      · rw [same] at here
        have lt := (List.getElem?_eq_some_iff.mp here).1
        show Function.update st.argv st.argc none i = _
        rw [Function.update_of_ne (by rw [at_.argc_eq]; omega)]
        exact at_.argv_eq i k here
      · have few := at_.few
        show Function.update st.argv st.argc none i = _
        rw [Function.update_of_ne (by omega)]
        exact at_.outside i ge
    · have lt : o₁ < s.length := Nat.lt_of_le_of_ne within₁ last
      have starts := startsAt_trimmed at_.boundary le₁ seps stop lt
      rw [if_neg last]
      by_cases full : st.argc = maxArguments - 1
      · -- no slot is left for this argument
        rw [if_pos full]
        refine ⟨_, o₁, rfl, rfl, by rw [same]; exact at_.argc_eq, fun i k here => ?_, at_.outside,
          Or.inr ⟨rfl, starts, full⟩⟩
        rw [same] at here
        exact at_.argv_eq i k here
      · have other : otherAt splitChars s o₁ = true := by
          rw [startsAt, Bool.and_eq_true] at starts
          exact starts.1
        obtain ⟨o₂, le₂, within₂, scanned, others, stop₂⟩ :=
          @scan_passes splitChars s mem string o₁ line o₁ (Nat.le_refl o₁) within₁ fuel (by omega)
            fun k lo hi => absurd hi (by omega)
        have more : o₁ < o₂ := by
          refine Nat.lt_of_le_of_ne le₂ fun same => ?_
          rw [← same, other] at stop₂
          cases stop₂
        have next := startsBefore_scanned starts more others
        rw [same] at next
        have few := at_.few
        rw [if_neg full, scanned]
        refine ih ⟨?_, rfl, within₂, Or.inr stop₂, ?_, ?_, fun i k here => ?_, fun i ge => ?_⟩
          (by omega)
        · -- scanning passes over characters that are no separators
          refine (?_ : cut splitChars s mem string o₂ = cut splitChars s mem string o₁).symm
          clear next scanned stop₂ within₂ more
          induction o₂, le₂ using Nat.le_induction with
          | base => rfl
          | succ o₂ le₂ ih =>
            rw [cut_succ, ih fun k lo hi => others k lo (by omega)]
            have here := others o₂ le₂ (Nat.lt_succ_self o₂)
            rw [otherAt_eq_not (otherAt_lt here)] at here
            exact Bool.not_eq_true' _ ▸ here
        · rw [next, List.length_append, List.length_singleton, at_.argc_eq]
        · show st.argc + 1 ≤ maxArguments - 1
          omega
        · show Function.update st.argv st.argc (some (string + o₁)) i = _
          rw [next] at here
          rcases Nat.lt_or_ge i st.argc with old | new
          · rw [Function.update_of_ne (by omega)]
            rw [List.getElem?_append_left (at_.argc_eq ▸ old)] at here
            exact at_.argv_eq i k here
          · have bound := (List.getElem?_eq_some_iff.mp here).1
            rw [List.length_append, List.length_singleton, ← at_.argc_eq] at bound
            obtain rfl : i = st.argc := by omega
            rw [at_.argc_eq, List.getElem?_concat_length] at here
            rw [Function.update_self, Option.some.inj here]
        · show Function.update st.argv st.argc (some (string + o₁)) i = _
          rw [Function.update_of_ne (by omega)]
          exact at_.outside i ge

/-! ## What the caller gets -/

/-- A run of elements goes up to the first one that is not of its kind. -/
theorem takeWhile_ends {α : Type*} (p : α → Bool) (l : List α) :
    (∀ (j : Nat) x, (l.takeWhile p)[j]? = some x → l[j]? = some x ∧ p x = true) ∧
      ∀ x, l[(l.takeWhile p).length]? = some x → p x = false := by
  induction l with
  | nil => exact ⟨fun j x here => (by cases here), fun x here => (by cases here)⟩
  | cons y l ih =>
    by_cases holds : p y = true
    · rw [List.takeWhile_cons_of_pos holds]
      refine ⟨fun j x here => ?_, fun x here => ih.2 x (by simpa using here)⟩
      cases j with
      | zero =>
        rw [← Option.some.inj here]
        exact ⟨rfl, holds⟩
      | succ j => exact ih.1 j x (by simpa using here)
    · rw [List.takeWhile_cons_of_neg holds]
      refine ⟨fun j x here => (by cases here), fun x here => ?_⟩
      rw [← Option.some.inj here]
      exact Bool.eq_false_iff.mpr holds

/-- The argument that starts at `a`, when the line has been cut beyond its end. -/
theorem holdsText_run (line : LineAt mem string s) {a : Nat} (within : a ≤ s.length)
    (ended : ∀ e, a ≤ e → (∀ k, a ≤ k → k < e → otherAt splitChars s k = true) →
      sepAt splitChars s e = true → e < o) :
    HoldsText (fun j => cut splitChars s mem string o (string + a + j))
      (runFrom splitChars s a) := by
  obtain ⟨inside, after⟩ := takeWhile_ends (· ∉ splitChars) (s.drop a)
  have other : ∀ j x, (runFrom splitChars s a)[j]? = some x →
      s[a + j]? = some x ∧ sepAt splitChars s (a + j) = false ∧
        otherAt splitChars s (a + j) = true := by
    intro j x here
    obtain ⟨there, notSep⟩ := inside j x here
    rw [List.getElem?_drop] at there
    rw [sepAt, otherAt, there]
    refine ⟨rfl, ?_, ?_⟩ <;> simpa using notSep
  refine ⟨fun j x here => ?_, ?_, fun zero => ?_⟩
  · obtain ⟨there, notSep, -⟩ := other j x here
    refine Eq.trans (if_neg fun cutOff => ?_) (Nat.add_assoc string a j ▸ line.chars _ _ there)
    rw [Nat.add_assoc, Nat.add_sub_cancel_left, notSep] at cutOff
    cases cutOff.2.2
  · have others : ∀ k, a ≤ k → k < a + (runFrom splitChars s a).length →
        otherAt splitChars s k = true := by
      intro k lo hi
      obtain ⟨j, rfl⟩ := Nat.exists_eq_add_of_le lo
      exact (other j _ (List.getElem?_eq_getElem (by omega))).2.2
    cases next : s[a + (runFrom splitChars s a).length]? with
    | none =>
      -- the argument goes up to the end of the line
      have notSep : sepAt splitChars s (a + (runFrom splitChars s a).length) = false := by
        rw [sepAt, next]
        rfl
      have same : cut splitChars s mem string o
          (string + a + (runFrom splitChars s a).length) =
          mem (string + (a + (runFrom splitChars s a).length)) := by
        rw [Nat.add_assoc]
        refine if_neg fun cutOff => ?_
        rw [Nat.add_sub_cancel_left, notSep] at cutOff
        cases cutOff.2.2
      have length : a + (runFrom splitChars s a).length ≤ s.length := by
        cases length : (runFrom splitChars s a).length with
        | zero => exact within
        | succ j => exact otherAt_lt (others (a + j) (by omega) (by omega))
      have atEnd := Nat.le_antisymm length (List.getElem?_eq_none_iff.mp next)
      exact same.trans (atEnd ▸ line.ends)
    | some x =>
      have sep : sepAt splitChars s (a + (runFrom splitChars s a).length) = true := by
        have stop := after x (by rw [List.getElem?_drop]; exact next)
        rw [sepAt, next]
        simpa using stop
      have cutOff := ended _ (by omega) others sep
      refine if_pos ⟨by omega, by omega, ?_⟩
      rwa [Nat.add_assoc, Nat.add_sub_cancel_left]
  · obtain ⟨j, here⟩ := List.getElem?_of_mem zero
    exact line.noNul (List.mem_of_getElem? (other j _ here).1)

/-- The line has been cut beyond the end of each argument before `o`. -/
theorem Ended.cutBeyond {r : Nat × Split} (ended : Ended splitChars s mem string argv o r)
    {a e : Nat}
    (before : a < o) (others : ∀ k, a ≤ k → k < e → otherAt splitChars s k = true)
    (sep : sepAt splitChars s e = true) : e < o := by
  rcases ended.how with ⟨-, rfl, -, -⟩ | ⟨-, starts, -⟩
  · exact sepAt_lt sep
  · -- before the next argument there is a separator
    rw [startsAt, Bool.and_eq_true, Bool.or_eq_true, beq_iff_eq] at starts
    have before' := starts.2.resolve_left (by omega)
    by_contra beyond
    have inside := others (o - 1) (by omega) (by omega)
    rw [otherAt_eq_not (sepAt_lt before'), before'] at inside
    cases inside

variable {r : Nat × Split}

theorem Ended.within (ended : Ended splitChars s mem string argv o r) : o ≤ s.length := by
  rcases ended.how with ⟨-, equal, -, -⟩ | ⟨-, starts, -⟩
  · exact Nat.le_of_eq equal
  · rw [startsAt, Bool.and_eq_true] at starts
    exact Nat.le_of_lt (otherAt_lt starts.1)

/-- The arguments are the first of the line. -/
theorem Ended.found (ended : Ended splitChars s mem string argv o r) :
    startsBefore splitChars s o <+: starts splitChars s :=
  startsBefore_prefix ended.within

/-- There are as many arguments as there are slots for, and the function says whether these were
all. -/
theorem Ended.howMany (ended : Ended splitChars s mem string argv o r) :
    ((starts splitChars s).length ≤ maxArguments - 1 →
      r.1 = 1 ∧ r.2.argc = (starts splitChars s).length ∧ r.2.argv r.2.argc = none) ∧
      (maxArguments - 1 < (starts splitChars s).length →
        r.1 = 0 ∧ r.2.argc = maxArguments - 1) := by
  have argc := ended.argc_eq
  rcases ended.how with ⟨one, equal, few, null⟩ | ⟨zero, starts_, full⟩
  · have all : startsBefore splitChars s o = starts splitChars s := by
      rw [equal]
      rfl
    rw [all] at argc
    exact ⟨fun _ => ⟨one, argc, null⟩, fun more => absurd few (by omega)⟩
  · -- one more argument starts here
    have next : startsBefore splitChars s (o + 1) <+: starts splitChars s := by
      rw [startsAt, Bool.and_eq_true] at starts_
      exact startsBefore_prefix (otherAt_lt starts_.1)
    have length := next.length_le
    rw [startsBefore_succ, if_pos starts_, List.length_append, List.length_singleton] at length
    exact ⟨fun fits => by omega, fun _ => ⟨zero, full⟩⟩

/-- A slot points to its argument, with a zero after it. -/
theorem Ended.argument (ended : Ended splitChars s mem string argv o r)
    (line : LineAt mem string s) {i a : Nat} (lt : i < r.2.argc)
    (here : (starts splitChars s)[i]? = some a) :
    r.2.argv i = some (string + a) ∧
      HoldsText (fun k => r.2.mem (string + a + k)) (runFrom splitChars s a) := by
  have within := ended.within
  have lt' : i < (startsBefore splitChars s o).length := ended.argc_eq ▸ lt
  have here' : (startsBefore splitChars s o)[i]? = some a := by
    rw [← here]
    obtain ⟨later, whole⟩ := ended.found
    rw [← whole, List.getElem?_append_left lt']
  have before := (mem_startsBefore.mp (List.mem_of_getElem? here')).1
  refine ⟨ended.argv_eq i a here', ?_⟩
  rw [ended.mem_eq]
  exact holdsText_run line (by omega) fun e _ others sep => ended.cutBeyond before others sep

theorem strsplit_ends (line : LineAt mem string s) (splitChars : List Char)
    (argv : Nat → Option Nat) {fuel : Nat} (enough : s.length < fuel) :
    ∃ r o, strsplit splitChars fuel mem string argv = some r ∧
      Ended splitChars s mem string argv o r := by
  have slots : maxArguments = 16 := rfl
  have first : AtPass splitChars s mem string argv 0
      ⟨mem, string, Function.update argv 0 none, 0⟩ :=
    ⟨(cut_zero mem string).symm, rfl, Nat.zero_le _, Or.inl rfl, rfl, Nat.zero_le _,
      fun i k here => (by cases here), fun i ge => Function.update_of_ne (by omega) ..⟩
  exact splitLoop_ends line first enough (by omega : s.length - 0 < fuel)

/-- **`strsplit` returns exactly the tokens**: pointers to the maximal runs of characters that
are no separators, each with a zero after it, as many as there are slots for; and it writes
nothing else. -/
theorem strsplit_tokens (line : LineAt mem string s) (splitChars : List Char)
    (argv : Nat → Option Nat) {fuel : Nat} (enough : s.length < fuel) :
    ∃ ret st, strsplit splitChars fuel mem string argv = some (ret, st) ∧
      ((starts splitChars s).length ≤ maxArguments - 1 →
        ret = 1 ∧ st.argc = (starts splitChars s).length ∧ st.argv st.argc = none) ∧
      (maxArguments - 1 < (starts splitChars s).length →
        ret = 0 ∧ st.argc = maxArguments - 1) ∧
      (∀ i a, i < st.argc → (starts splitChars s)[i]? = some a →
        st.argv i = some (string + a) ∧
          HoldsText (fun k => st.mem (string + a + k)) (runFrom splitChars s a)) ∧
      (∀ q, q < string ∨ string + s.length < q → st.mem q = mem q) ∧
      ∀ i, maxArguments ≤ i → st.argv i = argv i := by
  obtain ⟨⟨ret, st⟩, o, run, ended⟩ := strsplit_ends line splitChars argv enough
  obtain ⟨fits, more⟩ := ended.howMany
  exact ⟨ret, st, run, fits, more, fun i a lt here => ended.argument line lt here,
    fun q apart => (congrFun ended.mem_eq q).trans (cut_apart apart), ended.outside⟩

/-- A line with two arguments. -/
theorem lineAt_kill :
    LineAt (fun k => "kill 4096 ".toList.getD k '\x00') 0 "kill 4096 ".toList := by
  refine ⟨fun k c here => ?_, by decide, by decide⟩
  show "kill 4096 ".toList.getD (0 + k) '\x00' = c
  rw [Nat.zero_add, List.getD_eq_getElem?_getD, here]
  rfl

theorem strsplit_kill :
    ∃ ret st, strsplit whitespace 20 (fun k => "kill 4096 ".toList.getD k '\x00') 0
        (fun _ => none) = some (ret, st) ∧
      ((starts whitespace "kill 4096 ".toList).length ≤ maxArguments - 1 →
        ret = 1 ∧ st.argc = (starts whitespace "kill 4096 ".toList).length ∧
          st.argv st.argc = none) ∧
      (maxArguments - 1 < (starts whitespace "kill 4096 ".toList).length →
        ret = 0 ∧ st.argc = maxArguments - 1) ∧
      (∀ i a, i < st.argc → (starts whitespace "kill 4096 ".toList)[i]? = some a →
        st.argv i = some (0 + a) ∧
          HoldsText (fun k => st.mem (0 + a + k)) (runFrom whitespace "kill 4096 ".toList a)) ∧
      (∀ q, q < 0 ∨ 0 + "kill 4096 ".toList.length < q →
        st.mem q = "kill 4096 ".toList.getD q '\x00') ∧
      ∀ i, maxArguments ≤ i → st.argv i = none :=
  strsplit_tokens lineAt_kill whitespace (fun _ => none) (by decide)

/-! ## The line as a list of words -/

theorem startsAt_succ_succ (c : Char) (k : Nat) :
    startsAt splitChars (c :: s) (k + 2) = startsAt splitChars s (k + 1) := rfl

/-- The starts of a longer line, by its first character. -/
theorem starts_cons (c : Char) (s : List Char) :
    starts splitChars (c :: s) =
      if c ∈ splitChars then (starts splitChars s).map (· + 1)
      else 0 :: ((starts splitChars s).filter (· ≠ 0)).map (· + 1) := by
  have range : starts splitChars (c :: s) =
      (if startsAt splitChars (c :: s) 0 = true then [0] else []) ++
        ((List.range s.length).filter fun k => startsAt splitChars (c :: s) (k + 1)).map
        (· + 1) := by
    rw [starts, startsBefore, List.length_cons, List.range_succ_eq_map, List.filter_cons,
      List.filter_map]
    split <;> rfl
  have zero : startsAt splitChars (c :: s) 0 = decide (c ∉ splitChars) := by
    simp [startsAt, otherAt]
  have one : startsAt splitChars (c :: s) 1 =
      (startsAt splitChars s 0 && decide (c ∈ splitChars)) := by
    simp [startsAt, otherAt, sepAt]
  rw [range, zero]
  by_cases sep : c ∈ splitChars
  · rw [if_pos sep, if_neg (by simpa using sep), List.nil_append, starts, startsBefore]
    congr 1
    refine List.filter_congr fun k _ => ?_
    cases k with
    | zero => simp [one, sep]
    | succ k => rfl
  · rw [if_neg sep, if_pos (by simpa using sep), starts, startsBefore, List.filter_filter]
    refine congrArg (0 :: ·) (congrArg (List.map (· + 1)) (List.filter_congr fun k _ => ?_))
    cases k with
    | zero => simp [one, sep]
    | succ k => simp [startsAt_succ_succ]

theorem words_sep {c : Char} (sep : c ∈ splitChars) :
    words splitChars (c :: s) = words splitChars s :=
  (words.eq_def splitChars (c :: s)).trans (if_pos sep)

/-- A character that is no separator, in front of a line. -/
theorem words_other {c : Char} (notSep : c ∉ splitChars) :
    words splitChars (c :: s) =
      if otherAt splitChars s 0 then
        match words splitChars s with
        | word :: rest => (c :: word) :: rest
        | [] => [[c]]
      else [c] :: words splitChars s := by
  refine (words.eq_def splitChars (c :: s)).trans ((if_neg notSep).trans ?_)
  cases s with
  | nil => rfl
  | cons c' s =>
    generalize words splitChars (c' :: s) = ws
    by_cases sep : c' ∈ splitChars
    · cases ws <;> simp [otherAt, sep]
    · cases ws <;> simp [otherAt, sep]

/-- The words of a line are the runs of the other characters. -/
theorem words_eq_runs (splitChars s : List Char) :
    words splitChars s = (starts splitChars s).map (runFrom splitChars s) := by
  induction s with
  | nil => rfl
  | cons c s ih =>
    have later (ks : List Nat) : (ks.map (· + 1)).map (runFrom splitChars (c :: s)) =
        ks.map (runFrom splitChars s) := by
      rw [List.map_map]
      rfl
    rw [starts_cons]
    by_cases sep : c ∈ splitChars
    · rw [words_sep sep, if_pos sep, later, ih]
    · rw [words_other sep, if_neg sep, List.map_cons, later, ih]
      have first : runFrom splitChars (c :: s) 0 = c :: runFrom splitChars s 0 :=
        List.takeWhile_cons_of_pos (by simpa using sep)
      rw [first]
      cases s with
      | nil => rfl
      | cons c' s =>
        have positive (ks : List Nat) : (ks.map (· + 1)).filter (· ≠ 0) = ks.map (· + 1) :=
          List.filter_eq_self.mpr fun k mem => by
            obtain ⟨k, -, rfl⟩ := List.mem_map.mp mem
            simp
        rw [starts_cons]
        by_cases sep' : c' ∈ splitChars
        · have stop : runFrom splitChars (c' :: s) 0 = [] :=
            List.takeWhile_cons_of_neg (by simpa using sep')
          rw [if_pos sep', positive, if_neg (by simp [otherAt, sep']), stop]
        · rw [if_neg sep', if_pos (by simp [otherAt, sep']), List.map_cons,
            List.filter_cons_of_neg (by simp), positive]

/-- What the prompt takes for the arguments of a line is what the slots point to. -/
theorem strsplit_strings (line : LineAt mem string s) (splitChars : List Char)
    (argv : Nat → Option Nat) {fuel : Nat} (enough : s.length < fuel) :
    ∃ ret st, strsplit splitChars fuel mem string argv = some (ret, st) ∧
      st.argc = (Fos.strsplit s splitChars).length ∧
      ∀ i text, (Fos.strsplit s splitChars)[i]? = some text →
        ∃ p, st.argv i = some p ∧ HoldsText (fun k => st.mem (p + k)) text.toList := by
  obtain ⟨⟨ret, st⟩, o, run, ended⟩ := strsplit_ends line splitChars argv enough
  obtain ⟨fits, more⟩ := ended.howMany
  have whole : s.takeWhile (· ≠ '\x00') = s :=
    List.takeWhile_eq_self_iff.mpr fun c mem => by
      simpa using fun zero : c = '\x00' => line.noNul (zero ▸ mem)
  have strings : Fos.strsplit s splitChars = (((starts splitChars s).map
      (runFrom splitChars s)).map String.ofList).take (maxArguments - 1) := by
    rw [Fos.strsplit, whole, words_eq_runs]
  have argc : st.argc = (Fos.strsplit s splitChars).length := by
    rw [strings, List.length_take, List.length_map, List.length_map]
    rcases Nat.lt_or_ge (maxArguments - 1) (starts splitChars s).length with many | few
    · have := (more many).2
      dsimp only at this
      omega
    · have := (fits few).2.1
      dsimp only at this
      omega
  refine ⟨ret, st, run, argc, fun i text here => ?_⟩
  have lt : i < st.argc := argc ▸ (List.getElem?_eq_some_iff.mp here).1
  have slot : i < maxArguments - 1 := by
    have length := (List.getElem?_eq_some_iff.mp here).1
    rw [strings, List.length_take] at length
    omega
  rw [strings, List.getElem?_take_of_lt slot, List.getElem?_map, List.getElem?_map,
    Option.map_map] at here
  obtain ⟨a, start, rfl⟩ := Option.map_eq_some_iff.mp here
  obtain ⟨pointer, holds⟩ := ended.argument line lt start
  refine ⟨string + a, pointer, ?_⟩
  rw [Function.comp_apply, String.toList_ofList]
  exact holds

end Fos.InPlace
