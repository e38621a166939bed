import Fos.Strings.Numerals

/-!
# Formatted output

`vprintfmt` of `lib/printfmt.c` as a machine: one step for each character of the format that it
looks at, with a label for the place in the code.

* `Printer`: the position in the format, the next argument and what has been put out;
* `step`: one step; the format is only read through `charAt`, which knows its end;
* `Prints`: the run from a state ends, with this output.
-/

namespace Fos.Printfmt

/-- The code of a character of the format, an `unsigned char`. -/
def code (c : Char) : Int := c.toNat

/-- An argument, as each kind that `va_arg` may take it for: a word, a `long long` or a string,
which is null or ends with its first zero. -/
structure VaArg where
  word : BitVec 32
  longLong : BitVec 64
  string : Option (List Char)

/-! ## Numbers and strings -/

/-- `while (--width > 0) putch(padc, putdat)`. -/
def padding (width : Int) (padc : Char) : List Int :=
  List.replicate (int32 (width - 1)).toNat (code padc)

/-- `printnum(putch, putdat, num, base, width, padc)`. -/
def printnum (num base : Nat) [base.AtLeastTwo] (width : Int) (padc : Char) : List Int :=
  (if _more : base ≤ num then printnum (num / base) base (int32 (width - 1)) padc
    else padding width padc) ++ [code (hexDigit (num % base))]
termination_by num
decreasing_by
  have two := Nat.AtLeastTwo.prop (n := base)
  exact Nat.div_lt_self (by omega) two

/-- `getuint(&ap, lflag)`. -/
def getuint (arg : VaArg) (lflag : Int) : Nat :=
  if lflag ≥ 2 then arg.longLong.toNat else arg.word.toNat

/-- `getint(&ap, lflag)`. -/
def getint (arg : VaArg) (lflag : Int) : Int :=
  if lflag ≥ 2 then arg.longLong.toInt else arg.word.toInt

/-- `MAXERROR`. -/
abbrev maxError : Int := 100

/-- `error_string[err]`; the index is scaled to a 32-bit offset. -/
def errorString (err : Int) : Option (List Char) :=
  let table : List (Option String) :=
    [none, "unspecified error", "bad environment", "invalid parameter", "out of memory",
      "out of environments", "segmentation fault"]
  ((table.getD (uint32 (4 * err) / 4) none).map String.toList)

/-- What a directive has said so far. -/
structure Directive where
  padc : Char
  width : Int
  precision : Int
  lflag : Int
  altflag : Bool

/-- At the percent sign. -/
def Directive.start : Directive := ⟨' ', -1, -1, 0, false⟩

/-- `process_precision`. -/
def Directive.processPrecision (d : Directive) : Directive :=
  if d.width < 0 then { d with width := d.precision, precision := -1 } else d

/-- The code of a character of a string, a `char`, which is signed. -/
def signedCode (c : Char) : Int := if c.toNat < 128 then c.toNat else c.toNat - 256

/-- `case 's'`. -/
def printString (d : Directive) (arg : VaArg) : List Int :=
  let p := (arg.string.getD "(null)".toList).takeWhile (· ≠ '\x00')
  let strnlen := min p.length (uint32 d.precision)
  let padded := d.width > 0 ∧ d.padc ≠ '-'
  let width := if padded then int32 (d.width - strnlen) else d.width
  let before := if padded then List.replicate width.toNat (code d.padc) else []
  let width := if padded then min width 0 else width
  let shown := if d.precision < 0 then p else p.take d.precision.toNat
  let chars := shown.map fun c =>
    let ch := signedCode c
    if d.altflag ∧ (ch < code ' ' ∨ ch > code '~') then code '?' else ch
  before ++ chars ++ List.replicate (int32 (width - shown.length)).toNat (code ' ')

/-- The digits of `case 'd'`. -/
def printDecimal (d : Directive) (num : Int) : List Int :=
  (if num < 0 then [code '-'] else []) ++ printnum num.natAbs 10 d.width d.padc

/-! ## The machine -/

/-- Where `vprintfmt` is: in the loop over the text, at `reswitch`, in the loop over the digits
of a width, and in the loop that goes back to the percent sign. -/
inductive Label where
  | text
  | reswitch (d : Directive)
  | digits (d : Directive) (ch : Char)
  | back

/-- The state: the position of `fmt` in the format, the next argument, and the output. -/
structure Printer where
  fmt : Int
  ap : Nat
  out : List Int
  label : Label

/-- How `vprintfmt` ends: it returns, follows `fmt` out of the format, or has not returned in
the steps it is given. -/
inductive Outcome where
  | done (out : List Int)
  | overrun
  | spin

/-- A step: to the next state, to it with what `printfmt` puts out, or to the end. -/
inductive Next where
  | go (s : Printer)
  | call (format : List Char) (arg : VaArg) (s : Printer)
  | done (out : List Int)
  | overrun

/-- `*fmt`, for a position in the format or at the zero that ends it. -/
def charAt (format : List Char) (fmt : Int) : Option Char :=
  if fmt < 0 then none
  else if fmt = format.length then some '\x00'
  else format[fmt.toNat]?

/-- The `switch` for the character `ch`. -/
def switch (args : Nat → VaArg) (s : Printer) (d : Directive) (ch : Char) : Next :=
  let arg := args s.ap
  let reswitch (d : Directive) : Next := .go { s with label := .reswitch d }
  let put (out : List Int) : Next :=
    .go { s with ap := s.ap + 1, out := s.out ++ out, label := .text }
  match ch with
  | '-' => reswitch { d with padc := '-' }
  | '0' => reswitch { d with padc := '0' }
  | '1' | '2' | '3' | '4' | '5' | '6' | '7' | '8' | '9' =>
    .go { s with label := .digits { d with precision := 0 } ch }
  | '*' =>
    .go { s with
      ap := s.ap + 1
      label := .reswitch { d with precision := arg.word.toInt }.processPrecision }
  | '.' => reswitch (if d.width < 0 then { d with width := 0 } else d)
  | '#' => reswitch { d with altflag := true }
  | 'l' => reswitch { d with lflag := d.lflag + 1 }
  | 'c' => put [arg.word.toInt]
  | 'e' =>
    let err := if arg.word.toInt < 0 then int32 (-arg.word.toInt) else arg.word.toInt
    let next := { s with ap := s.ap + 1, label := .text }
    match if err > maxError then none else errorString err with
    | none => .call "error %d".toList ⟨BitVec.ofInt 32 err, 0, none⟩ next
    | some p => .call "%s".toList ⟨0, 0, some p⟩ next
  | 's' => put (printString d arg)
  | 'd' => put (printDecimal d (getint arg d.lflag))
  | 'u' => put (printnum (getuint arg d.lflag) 10 d.width d.padc)
  | 'o' => .go { s with out := s.out ++ [code 'X', code 'X', code 'X'], label := .text }
  | 'p' => put ([code '0', code 'x'] ++ printnum arg.word.toNat 16 d.width d.padc)
  | 'x' => put (printnum (getuint arg d.lflag) 16 d.width d.padc)
  | '%' => .go { s with out := s.out ++ [code ch], label := .text }
  | _ =>
    -- unrecognized: the percent sign, and back to the text after it
    .go { s with out := s.out ++ [code '%'], fmt := s.fmt - 1, label := .back }

/-- One step of `vprintfmt`. -/
def step (format : List Char) (args : Nat → VaArg) (s : Printer) : Next :=
  match s.label with
  | .text =>
    match charAt format s.fmt with
    | none => .overrun
    | some ch =>
      if ch = '%' then .go { s with fmt := s.fmt + 1, label := .reswitch Directive.start }
      else if ch = '\x00' then .done s.out
      else .go { s with fmt := s.fmt + 1, out := s.out ++ [code ch] }
  | .reswitch d =>
    match charAt format s.fmt with
    | none => .overrun
    | some ch => switch args { s with fmt := s.fmt + 1 } d ch
  | .digits d ch =>
    let d := { d with precision := int32 (d.precision * 10 + (code ch - code '0')) }
    match charAt format s.fmt with
    | none => .overrun
    | some ch =>
      if ch < '0' ∨ '9' < ch then .go { s with label := .reswitch d.processPrecision }
      else .go { s with fmt := s.fmt + 1, label := .digits d ch }
  | .back =>
    match charAt format (s.fmt - 1) with
    | none => .overrun
    | some ch =>
      if ch ≠ '%' then .go { s with fmt := s.fmt - 1 } else .go { s with label := .text }

/-- At the start of the format. -/
def Printer.start : Printer := ⟨0, 0, [], .text⟩

/-- `vprintfmt` for the given number of steps. -/
def run : Nat → List Char → (Nat → VaArg) → Printer → Outcome
  | 0, _, _, _ => .spin
  | fuel + 1, format, args, s =>
    match step format args s with
    | .go s => run fuel format args s
    | .call format' arg s =>
      match run fuel format' (fun _ => arg) Printer.start with
      | .done out => run fuel format args { s with out := s.out ++ out }
      | .overrun => .overrun
      | .spin => .spin
    | .done out => .done out
    | .overrun => .overrun

/-- The run from the state `s` ends with the output `out`, and never leaves the format. -/
def Prints (format : List Char) (args : Nat → VaArg) (s : Printer) (out : List Int) : Prop :=
  ∃ steps, ∀ fuel ≥ steps, run fuel format args s = .done out

variable {format : List Char} {args : Nat → VaArg} {s s' : Printer} {out : List Int}

theorem Prints.go (next : step format args s = .go s') (prints : Prints format args s' out) :
    Prints format args s out := by
  obtain ⟨steps, rest⟩ := prints
  refine ⟨steps + 1, fun fuel enough => ?_⟩
  obtain ⟨fuel, rfl⟩ : ∃ k, fuel = k + 1 := ⟨fuel - 1, by omega⟩
  rw [run, next]
  exact rest fuel (by omega)

theorem Prints.of_go (next : step format args s = .go s') (prints : Prints format args s out) :
    Prints format args s' out := by
  obtain ⟨steps, rest⟩ := prints
  refine ⟨steps, fun fuel enough => ?_⟩
  have here := rest (fuel + 1) (by omega)
  rwa [run, next] at here

theorem prints_go_iff (next : step format args s = .go s') :
    Prints format args s out ↔ Prints format args s' out :=
  ⟨Prints.of_go next, Prints.go next⟩

theorem Prints.done (next : step format args s = .done out) : Prints format args s out := by
  refine ⟨1, fun fuel enough => ?_⟩
  obtain ⟨fuel, rfl⟩ : ∃ k, fuel = k + 1 := ⟨fuel - 1, by omega⟩
  rw [run, next]

/-- A nested `printfmt`, and what follows it. -/
theorem Prints.call {format' : List Char} {arg : VaArg} {out' : List Int}
    (next : step format args s = .call format' arg s')
    (inner : Prints format' (fun _ => arg) Printer.start out')
    (prints : Prints format args { s' with out := s'.out ++ out' } out) :
    Prints format args s out := by
  obtain ⟨steps, rest⟩ := prints
  obtain ⟨steps', inside⟩ := inner
  refine ⟨max steps steps' + 1, fun fuel enough => ?_⟩
  obtain ⟨fuel, rfl⟩ : ∃ k, fuel = k + 1 := ⟨fuel - 1, by omega⟩
  rw [run, next]
  dsimp only
  rw [inside fuel (by omega)]
  exact rest fuel (by omega)

/-- The output is determined. -/
theorem Prints.unique {out' : List Int} (prints : Prints format args s out)
    (prints' : Prints format args s out') : out = out' := by
  obtain ⟨steps, rest⟩ := prints
  obtain ⟨steps', rest'⟩ := prints'
  have same := (rest (max steps steps') (Nat.le_max_left ..)).symm.trans
    (rest' (max steps steps') (Nat.le_max_right ..))
  exact Outcome.done.inj same

end Fos.Printfmt
