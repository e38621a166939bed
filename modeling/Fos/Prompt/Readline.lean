import Fos.Prompt.Execute

/-!
# The line editor of the kernel prompt

`command_prompt_readline` of `kern/command_prompt.c`, with the history and the completions,
key by key.  Every index is checked against its array.

* `Editor`, `Editor.step`: the state of the editor, and what a key does;
* `Editor.Sound`: the strings end inside their arrays, and the counters point into them;
* `Editor.Inside`: the keys that stay inside;
* `EditorRun.stays_inside`: every run of such keys does.
-/

namespace Fos

/-- `BUFLEN`. -/
abbrev buflen : Nat := 1024

/-- `HISTORY_MAX`. -/
abbrev historyMax : Nat := 19

/-- The rows of `PrefixList`. -/
abbrev prefixRows : Nat := 100

/-! ## Strings in arrays -/

/-- A `char` array of `BUFLEN` members. -/
abbrev Chars := Nat → Char

/-- `empty`. -/
def Chars.empty : Chars := fun _ => '\x00'

namespace Chars

/-- `s[k]`; there is no result outside the array. -/
def get (s : Chars) (k : Int) : Option Char :=
  if 0 ≤ k ∧ k < buflen then some (s k.toNat) else none

/-- `s[k] = c`. -/
def put (s : Chars) (k : Int) (c : Char) : Option Chars :=
  if 0 ≤ k ∧ k < buflen then some (Function.update s k.toNat c) else none

/-- `strlen(s)`, which looks for the zero inside the array. -/
def strlen (s : Chars) : Option Nat := (List.range buflen).find? fun k => s k = '\x00'

/-- The first `n` characters. -/
def take (s : Chars) (n : Nat) : List Char := (List.range n).map s

/-- A loop that writes characters one after the other, from `k` on. -/
def putAll (s : Chars) (k : Int) : List Char → Option Chars
  | [] => some s
  | c :: cs => do (← s.put k c).putAll (k + 1) cs

/-- `strcpy(s, t)`. -/
def strcpy (s t : Chars) : Option Chars := do
  let len ← t.strlen
  s.putAll 0 (t.take len ++ ['\x00'])

/-- `strcmp(s, t) == 0`: the strings are read up to their first difference or their end. -/
def strcmp (s t : Chars) : Option Bool := do
  let k ← (List.range buflen).find? fun k => s k = '\x00' ∨ s k ≠ t k
  return s k = t k

/-- The loop `for (var = k; var <= last; ++var) s[var] = s[var + 1]`, with so many passes. -/
def shiftLeft (s : Chars) (k : Int) : Nat → Option Chars
  | 0 => some s
  | passes + 1 => do (← s.put k (← s.get (k + 1))).shiftLeft (k + 1) passes

end Chars

/-! ## The editor -/

/-- The variables of `command_prompt_readline`, its buffer, the history and `PrefixList`. -/
structure Editor where
  buf : Chars
  i : Int
  lastIndex : Int
  commandidx : Int
  prefixListIdx : Int
  prefixListSize : Int
  lastC : Int
  lastCommandIdx : Int
  commandHistory : Nat → Chars
  prefixList : Nat → Chars

/-- How a pass of the loop ends: with the next key, or by returning. -/
inductive Pressed where
  | next (ed : Editor)
  | done (ed : Editor)

namespace Editor

/-- `command_history[k]`. -/
def historyRow (ed : Editor) (k : Int) : Option Chars :=
  if 0 ≤ k ∧ k ≤ historyMax then some (ed.commandHistory k.toNat) else none

/-- `PrefixList[k]`. -/
def prefixRow (ed : Editor) (k : Int) : Option Chars :=
  if 0 ≤ k ∧ k < prefixRows then some (ed.prefixList k.toNat) else none

/-- What `clearandwritecommand` and `RoundAutoCompleteCommandWithTheSamePrefix` have in common:
the line becomes the string. -/
def writeLine (ed : Editor) (s : Chars) : Option Editor := do
  let len ← s.strlen
  let buf ← Chars.empty.putAll 0 (s.take len)
  return { ed with buf := buf, i := len, lastIndex := len }

/-- `clearandwritecommand(&i, commandidx, buf, &lastIndex)`. -/
def clearandwritecommand (ed : Editor) : Option Editor := do
  ed.writeLine (← ed.historyRow ed.commandidx)

/-- `RoundAutoCompleteCommandWithTheSamePrefix(strlen(PrefixList[prev]), PrefixList[idx], ...)`. -/
def roundAutoComplete (ed : Editor) (prev : Int) : Option Editor := do
  let _ ← (← ed.prefixRow prev).strlen
  ed.writeLine (← ed.prefixRow ed.prefixListIdx)

/-- `userPrograms`, the names. -/
def userPrograms : List String :=
  ["fos_helloWorld", "fos_add", "fos_alloc", "fos_input", "fos_game", "fos_static_data_section",
    "fos_data_on_stack", "tpp1", "tpp2", "tpp3", "tia", "tpr1", "tpr2", "tpr3", "tm1", "tm2", "tm3",
    "tf1", "tf2", "tbf1", "tbf2", "tm4", "tm5", "tm6", "tmb1", "tfb1", "tfb2", "tqsfh",
    "fact", "fib",
    "tqs", "qs", "ms1", "ms2", "tfs", "ef_fib", "ef_fact", "ef_fos_add", "tef1", "ef_ms1", "ef_ms2",
    "tef2", "hp", "qs1", "qs2", "qs3", "qs4", "qs5"]

/-- The loops over `commands` and `ptr_UserPrograms`: the names that begin with `tempBuf` are put
into `PrefixList` after the text `start`.  `string` is an array of 1024 characters too. -/
def collect (ed : Editor) (start tempBuf : List Char) : List String → Nat → Option (Editor × Nat)
  | [], itPrefixList => some (ed, itPrefixList)
  | name :: names, itPrefixList =>
    if tempBuf <+: name.toList then do
      let string ← (← Chars.empty.putAll 0 start).putAll start.length name.toList
      let _ ← ed.prefixRow itPrefixList
      let row ← Chars.empty.putAll 0 (string.take (start.length + name.toList.length))
      collect { ed with prefixList := Function.update ed.prefixList itPrefixList row } start tempBuf
        names (itPrefixList + 1)
    else collect ed start tempBuf names itPrefixList

/-- The end of the completion: the line becomes the first of the names, as far as that is long. -/
def showFirst (ed : Editor) : Option Editor := do
  let first ← ed.prefixRow 0
  let len ← first.strlen
  let buf ← ed.buf.putAll 0 (first.take len)
  let n ← buf.strlen
  return { ed with buf := buf, prefixListIdx := 0, i := n, lastIndex := n }

/-- The words of the line. -/
def arguments (line : List Char) : List String := strsplit line whitespace

/-- `temp_buf` after `strsplit`, as a string: nothing if the line begins with a blank. -/
def firstWord (line : List Char) : List Char :=
  match line with
  | [] => []
  | c :: _ => if c ∈ whitespace then [] else ((arguments line).headD "").toList

/-- The part of the line before its last word. -/
def beforeLast (line : List Char) : List Char :=
  line.take (line.length - ((arguments line).getLastD "").toList.length)

/-- `clear_prefix_list()`. -/
def clearPrefixList (ed : Editor) : Editor := { ed with prefixList := fun _ => Chars.empty }

/-- `prefix_list_size = n`. -/
def setPrefixListSize (ed : Editor) (n : Int) : Editor := { ed with prefixListSize := n }

/-- The completion of a line that ends in a word; `none` of the inner option is `continue`. -/
def complete (ed : Editor) (line : List Char) : Option (Option Editor) := do
  let args := arguments line
  let (ed, n) ←
    if args.length > 1 then
      if args.head? ≠ some "run" ∧ args.head? ≠ some "load" then return none
      else
        let temp ← Chars.empty.putAll 0 (beforeLast line)
        let buf ← ed.buf.strcpy temp
        let len ← buf.strlen
        collect { ed with buf := buf } (buf.take len) (args.getLastD "").toList userPrograms 0
    else if args.length = 1 then
      collect ed [] (firstWord line) (commands.map Prod.fst) 0
    else
      collect ed [] (firstWord line) userPrograms 0
  let ed := ed.setPrefixListSize n
  if n ≠ 0 then
    return some (← ed.showFirst)
  else
    return some ed

/-- The first Tab. -/
def firstTab (ed : Editor) : Option Pressed := do
  let ed := ed.clearPrefixList
  let bufLength ← ed.buf.strlen
  if bufLength = 0 ∨ ed.lastC = 255 then
    return .next ed
  else
    let ed := ed.setPrefixListSize 0
    -- `temp_buf`, in which `strsplit` ends the words
    let _ ← Chars.empty.strcpy ed.buf
    if (← ed.buf.get (bufLength - 1)) = ' ' then
      return .next ed
    else
      match ← ed.complete (ed.buf.take bufLength) with
      | some ed => return .next { ed with lastC := 9 }
      | none => return .next ed

/-- A Tab after a Tab. -/
def nextTab (ed : Editor) : Option Pressed := do
  if ed.prefixListSize > 0 then
    let ed' := { ed with prefixListIdx := (ed.prefixListIdx + 1).tmod ed.prefixListSize }
    return .next { (← ed'.roundAutoComplete ed.prefixListIdx) with lastC := 9 }
  else
    return .next { ed with lastC := 9 }

/-- `memcpy(command_history[k], buf, BUFLEN)`. -/
def setHistory (ed : Editor) (k : Int) : Option Editor :=
  if 0 ≤ k ∧ k ≤ historyMax then
    some { ed with commandHistory := Function.update ed.commandHistory k.toNat ed.buf }
  else none

/-- The rows of the history move up by one. -/
def shiftHistory (ed : Editor) : Editor :=
  { ed with commandHistory := fun k =>
      if k < historyMax then ed.commandHistory (k + 1) else ed.commandHistory k }

/-- The line is added to the history, if it is not the last one there. -/
def addHistory (ed : Editor) : Option Pressed := do
  if ed.lastCommandIdx = (historyMax : Int) then
    return .done (← ed.shiftHistory.setHistory historyMax)
  else if (← (← ed.historyRow ed.lastCommandIdx).strcmp ed.buf) = false then
    return .done
      { (← ed.setHistory (ed.lastCommandIdx + 1)) with lastCommandIdx := ed.lastCommandIdx + 1 }
  else
    return .done ed

/-- Enter. -/
def enter (ed : Editor) : Option Pressed := do
  let buf ← ed.buf.put ed.lastIndex '\x00'
  { ed with buf := buf }.addHistory

/-- A pass of the loop of `command_prompt_readline` for the key `c`, with `lastIndex` up to
date. -/
def press (ed : Editor) (c : Int) : Option Pressed := do
  if c < 0 then
    return .done ed
  else if c = 226 then
    let ed := if ed.commandidx ≠ 0 then { ed with commandidx := ed.commandidx - 1 } else ed
    return .next { (← ed.clearandwritecommand) with lastC := c }
  else if c = 227 then
    let ed := if ed.commandidx < ed.lastCommandIdx then { ed with commandidx := ed.commandidx + 1 }
      else ed
    if ed.lastCommandIdx ≥ 0 then
      return .next { (← ed.clearandwritecommand) with lastC := c }
    else
      return .next { ed with lastC := c }
  else if c = 9 then
    if ed.lastC ≠ 9 then ed.firstTab else ed.nextTab
  else if c = 228 then
    return .next { ed with i := if ed.i > 0 then ed.i - 1 else ed.i, lastC := c }
  else if c = 229 then
    return .next { ed with i := if ed.i < ed.lastIndex then ed.i + 1 else ed.i, lastC := c }
  else if c = 0xE9 ∧ ed.i > 0 then
    let buf ← ed.buf.shiftLeft ed.i (ed.lastIndex - ed.i + 1).toNat
    return .next { ed with buf := buf, lastIndex := ed.lastIndex - 1, lastC := c }
  else if c ≥ 32 ∧ ed.i < buflen - 1 then
    let buf ← ed.buf.put ed.i (Char.ofNat (c % 256).toNat)
    return .next { ed with buf := buf, i := ed.i + 1, lastIndex := ed.lastIndex + 1, lastC := c }
  else if c = 8 ∧ ed.i > 0 then
    let buf ← ed.buf.put (ed.i - 1) (← ed.buf.get ed.i)
    return .next { ed with buf := buf, i := ed.i - 1, lastC := c }
  else if c = 10 ∨ c = 13 then
    ed.enter
  else
    return .next { ed with lastC := c }

/-- A pass of the loop. -/
def step (ed : Editor) (c : Int) : Option Pressed :=
  (if ed.i > ed.lastIndex then { ed with lastIndex := ed.i } else ed).press c

/-- `command_prompt_readline(prompt, buf)` is called with a cleared buffer; `last_c` and
`prefix_list_size` are what was on the stack. -/
def call (ed : Editor) (prefixListSize lastC : Int) : Editor :=
  { ed with
    buf := Chars.empty
    i := 0
    lastIndex := 0
    commandidx := ed.lastCommandIdx + 1
    prefixListIdx := 0
    prefixListSize := prefixListSize
    lastC := lastC }

end Editor


/-! ## Strings that end in their arrays -/

namespace Chars

variable {s t : Chars} {k : Int} {n : Nat} {c : Char} {cs ds : List Char}

/-- The last member is zero. -/
def Ended (s : Chars) : Prop := s (buflen - 1) = '\x00'

theorem ended_empty : Ended empty := rfl

theorem get_some (nonneg : 0 ≤ k) (lt : k < buflen) : s.get k = some (s k.toNat) :=
  if_pos ⟨nonneg, lt⟩

theorem put_some (nonneg : 0 ≤ k) (lt : k < buflen) :
    s.put k c = some (Function.update s k.toNat c) := if_pos ⟨nonneg, lt⟩

/-- Writing before the last member. -/
theorem Ended.update (ended : s.Ended) (nonneg : 0 ≤ k) (lt : k < buflen - 1) :
    Ended (Function.update s k.toNat c) := by
  have ne : buflen - 1 ≠ k.toNat := by
    simp only [buflen] at *
    omega
  rw [Ended, Function.update_of_ne ne]
  exact ended

/-- Writing a zero. -/
theorem Ended.end_at (ended : s.Ended) (k : Nat) : Ended (Function.update s k '\x00') := by
  rcases eq_or_ne (buflen - 1) k with rfl | ne
  · exact Function.update_self ..
  · rw [Ended, Function.update_of_ne ne]
    exact ended

/-- A string ends at its first zero. -/
theorem strlen_of_zero (zero : s n = '\x00') (lt : n < buflen) :
    ∃ len ≤ n, s.strlen = some len ∧ s len = '\x00' := by
  have mem : n ∈ List.range buflen := List.mem_range.mpr lt
  cases found : s.strlen with
  | none =>
    rw [strlen, List.find?_eq_none] at found
    exact absurd (decide_eq_true zero) (found n mem)
  | some len =>
    rw [strlen, List.find?_range_eq_some] at found
    obtain ⟨here, -, first⟩ := found
    refine ⟨len, ?_, rfl, of_decide_eq_true here⟩
    by_contra past
    have other := first n (Nat.lt_of_not_le past)
    simp [zero] at other

theorem Ended.strlen (ended : s.Ended) : ∃ len < buflen, s.strlen = some len := by
  obtain ⟨len, le, found, -⟩ := strlen_of_zero ended (by decide)
  exact ⟨len, Nat.lt_of_le_of_lt le (by decide), found⟩

theorem length_take (s : Chars) (n : Nat) : (s.take n).length = n := by simp [take]

/-- A loop that stays inside writes what it is to write, and nothing else. -/
theorem putAll_some (s : Chars) (cs : List Char) (nonneg : 0 ≤ k) (fits : k + cs.length ≤ buflen) :
    ∃ s', s.putAll k cs = some s' ∧ ∀ j : Nat, (j : Int) < k ∨ k + cs.length ≤ j → s' j = s j := by
  induction cs generalizing s k with
  | nil => exact ⟨s, rfl, fun _ _ => rfl⟩
  | cons c cs ih =>
    rw [List.length_cons, Nat.cast_succ] at fits
    have lt : k < buflen := by omega
    obtain ⟨s', run, same⟩ := ih (Function.update s k.toNat c) (k := k + 1) (by omega) (by omega)
    refine ⟨s', ?_, fun j out => ?_⟩
    · rw [putAll, put_some nonneg lt]
      exact run
    · rw [List.length_cons, Nat.cast_succ] at out
      rw [same j (by omega), Function.update_of_ne]
      omega

theorem putAll_append : s.putAll k (cs ++ ds) =
    (s.putAll k cs).bind fun s' => s'.putAll (k + cs.length) ds := by
  induction cs generalizing s k with
  | nil => simp [putAll]
  | cons c cs ih =>
    rw [List.cons_append, putAll, putAll, List.length_cons]
    cases s.put k c with
    | none => rfl
    | some s' =>
      show s'.putAll (k + 1) (cs ++ ds) = (s'.putAll (k + 1) cs).bind _
      rw [ih, Nat.cast_succ, Int.add_right_comm, Int.add_assoc]

/-- A string that leaves room for its end. -/
theorem Ended.putAll (ended : s.Ended) (cs : List Char) (nonneg : 0 ≤ k)
    (fits : k + cs.length < buflen) :
    ∃ s', s.putAll k cs = some s' ∧ s'.Ended := by
  obtain ⟨s', run, same⟩ := putAll_some s cs nonneg (Int.le_of_lt fits)
  refine ⟨s', run, ?_⟩
  rw [Ended, same (buflen - 1) (Or.inr ?_)]
  · exact ended
  · simp only [buflen] at *
    omega

/-- `strcpy` takes the end along. -/
theorem Ended.strcpy {len : Nat} (ended : s.Ended) (length : t.strlen = some len)
    (lt : len < buflen) : ∃ s', s.strcpy t = some s' ∧ s'.Ended ∧ s' len = '\x00' := by
  have fits : (0 : Int) + (t.take len).length ≤ buflen := by
    rw [length_take]
    omega
  obtain ⟨s₁, run, same⟩ := putAll_some s (t.take len) (k := 0) le_rfl fits
  have here : ((0 : Int) + (t.take len).length).toNat = len := by
    rw [length_take]
    omega
  have last : s₁.putAll (0 + (t.take len).length) ['\x00'] =
      some (Function.update s₁ len '\x00') := by
    rw [Chars.putAll, put_some (by omega) (by rw [length_take]; omega), here]
    rfl
  refine ⟨Function.update s₁ len '\x00', ?_, ?_, Function.update_self ..⟩
  · rw [Chars.strcpy, length]
    show s.putAll 0 _ = _
    rw [putAll_append, run, Option.bind_some]
    exact last
  · rcases eq_or_ne len (buflen - 1) with rfl | ne
    · exact Function.update_self ..
    · refine Ended.end_at ?_ len
      rw [Ended, same (buflen - 1) (Or.inr ?_)]
      · exact ended
      · rw [length_take]
        simp only [buflen] at *
        omega

theorem Ended.strcmp (ended : s.Ended) (t : Chars) : ∃ b, s.strcmp t = some b := by
  rw [Chars.strcmp]
  cases found : (List.range buflen).find? fun k => s k = '\x00' ∨ s k ≠ t k with
  | none =>
    rw [List.find?_eq_none] at found
    have here : s (buflen - 1) = '\x00' ∨ s (buflen - 1) ≠ t (buflen - 1) := Or.inl ended
    exact absurd (decide_eq_true here) (found (buflen - 1) (by simp))
  | some k => exact ⟨_, rfl⟩

/-- The characters from `k` on move up. -/
theorem Ended.shiftLeft (ended : s.Ended) (nonneg : 0 ≤ k) (fits : k + n < buflen) :
    ∃ s', s.shiftLeft k n = some s' ∧ s'.Ended := by
  induction n generalizing s k with
  | zero => exact ⟨s, rfl, ended⟩
  | succ n ih =>
    rw [Nat.cast_succ] at fits
    obtain ⟨s', run, ended'⟩ := ih (ended.update (c := s (k + 1).toNat) nonneg (by
      simp only [buflen] at *
      omega)) (k := k + 1) (by omega) (by omega)
    refine ⟨s', ?_, ended'⟩
    rw [Chars.shiftLeft, get_some (by omega) (by omega)]
    show (s.put k _).bind _ = _
    rw [put_some nonneg (by omega)]
    exact run

end Chars

/-! ## The keys -/

namespace Editor

/-- The strings end inside their arrays, and the counters point into them, but for `i` and
`lastIndex`, which may point past the end of the buffer. -/
structure Sound (ed : Editor) : Prop where
  buf : ed.buf.Ended
  i : 0 ≤ ed.i
  lastIndex : 0 ≤ ed.lastIndex
  commandidx : 0 ≤ ed.commandidx ∧ ed.commandidx ≤ ed.lastCommandIdx + 1
  lastCommandIdx : -1 ≤ ed.lastCommandIdx ∧ ed.lastCommandIdx ≤ historyMax
  prefixListIdx : 0 ≤ ed.prefixListIdx ∧ ed.prefixListIdx < prefixRows
  history : ∀ k, (ed.commandHistory k).Ended
  prefixes : ∀ k, (ed.prefixList k).Ended

/-- The names that continue the last word of the line leave room for the end of the string. -/
def Fits (line : List Char) : Prop :=
  1 < (arguments line).length →
    (arguments line).head? = some "run" ∨ (arguments line).head? = some "load" →
    ∀ name ∈ userPrograms, ((arguments line).getLastD "").toList <+: name.toList →
      (beforeLast line).length + name.toList.length < buflen

/-- The key stays inside the arrays. -/
structure Inside (ed : Editor) (c : Int) : Prop where
  down : c = 227 → 0 ≤ ed.lastCommandIdx → ed.commandidx ≤ historyMax
  firstTab : c = 9 → ed.lastC ≠ 9 → ed.lastC ≠ 255 → ∀ n, ed.buf.strlen = some n →
    ed.buf (n - 1) ≠ ' ' → Fits (ed.buf.take n)
  nextTab : c = 9 → ed.lastC = 9 → 0 < ed.prefixListSize →
    (ed.prefixListIdx + 1).tmod ed.prefixListSize < prefixRows
  delete : c = 0xE9 → 0 < ed.i → max ed.i ed.lastIndex < buflen - 1
  backspace : c = 8 → 0 < ed.i → ed.i < buflen
  enter : c = 10 ∨ c = 13 → max ed.i ed.lastIndex < buflen ∧ 0 ≤ ed.lastCommandIdx

/-- The key is handled inside the arrays. -/
def Handles (run : Option Pressed) : Prop :=
  (∃ ed, run = some (.next ed) ∧ ed.Sound) ∨ ∃ ed, run = some (.done ed) ∧ ed.Sound

variable {ed : Editor} {c : Int} {line : List Char}

theorem Sound.setLastC (sound : ed.Sound) (c : Int) : Sound { ed with lastC := c } :=
  { sound with }

theorem Sound.historyRow {k : Int} (sound : ed.Sound) (nonneg : 0 ≤ k) (le : k ≤ historyMax) :
    ∃ s, ed.historyRow k = some s ∧ s.Ended :=
  ⟨_, if_pos ⟨nonneg, le⟩, sound.history _⟩

theorem Sound.prefixRow {k : Int} (sound : ed.Sound) (nonneg : 0 ≤ k) (lt : k < prefixRows) :
    ∃ s, ed.prefixRow k = some s ∧ s.Ended :=
  ⟨_, if_pos ⟨nonneg, lt⟩, sound.prefixes _⟩

/-- The line becomes a string. -/
theorem Sound.writeLine {s : Chars} (sound : ed.Sound) (ended : s.Ended) :
    ∃ ed', ed.writeLine s = some ed' ∧ ed'.Sound := by
  obtain ⟨len, lt, length⟩ := ended.strlen
  obtain ⟨buf, run, ended'⟩ := Chars.ended_empty.putAll (k := 0) (s.take len) le_rfl (by
    rw [Chars.length_take]
    omega)
  refine ⟨{ ed with buf := buf, i := len, lastIndex := len }, ?_, ?_⟩
  · simp [Editor.writeLine, length, run]
  · exact { sound with buf := ended', i := Int.natCast_nonneg _, lastIndex := Int.natCast_nonneg _ }

theorem Sound.clearandwritecommand (sound : ed.Sound) (le : ed.commandidx ≤ historyMax) (c : Int) :
    Handles (do return .next { (← ed.clearandwritecommand) with lastC := c }) := by
  obtain ⟨s, row, ended⟩ := sound.historyRow sound.commandidx.1 le
  obtain ⟨ed', run, sound'⟩ := sound.writeLine ended
  exact Or.inl ⟨_, by simp [Editor.clearandwritecommand, row, run], sound'.setLastC c⟩

/-! ## Completions -/

/-- `PrefixList` has room for the names. -/
theorem collect_some (ed : Editor) {start tempBuf : List Char} {names : List String} {n : Nat}
    (prefixes : ∀ k, (ed.prefixList k).Ended) (rows : n + names.length ≤ prefixRows)
    (fits : ∀ name ∈ names, tempBuf <+: name.toList →
      start.length + name.toList.length < buflen) :
    ∃ list m, ed.collect start tempBuf names n = some ({ ed with prefixList := list }, m) ∧
      (∀ k, (list k).Ended) := by
  induction names generalizing ed n with
  | nil => exact ⟨ed.prefixList, n, rfl, prefixes⟩
  | cons name names ih =>
    rw [List.length_cons] at rows
    have rest : ∀ name ∈ names, tempBuf <+: name.toList →
        start.length + name.toList.length < buflen := fun name mem => fits name (by simp [mem])
    rw [collect]
    split
    · rename_i begins
      have room := fits name (by simp) begins
      obtain ⟨s₁, run₁, ended₁⟩ := Chars.ended_empty.putAll (k := 0) start le_rfl (by omega)
      obtain ⟨s₂, run₂, -⟩ := ended₁.putAll (k := start.length) name.toList
        (Int.natCast_nonneg _) (by omega)
      obtain ⟨row, run₃, ended₃⟩ := Chars.ended_empty.putAll (k := 0)
        (s₂.take (start.length + name.toList.length)) le_rfl (by
          rw [Chars.length_take]
          omega)
      have here : ed.prefixRow n = some (ed.prefixList n) := if_pos ⟨by omega, by omega⟩
      obtain ⟨list, m, run, ended⟩ := ih { ed with
        prefixList := Function.update ed.prefixList n row } (n := n + 1) (fun k => by
          rcases eq_or_ne k n with rfl | ne
          · simpa using ended₃
          · simpa [ne] using prefixes k) (by omega) rest
      refine ⟨list, m, ?_, ended⟩
      simp [run₁, run₂, run₃, here, run]
    · exact ih ed prefixes (by omega) rest

theorem Sound.showFirst (sound : ed.Sound) : ∃ ed', ed.showFirst = some ed' ∧ ed'.Sound := by
  obtain ⟨s, row, ended⟩ := sound.prefixRow le_rfl (by decide)
  obtain ⟨len, lt, length⟩ := ended.strlen
  obtain ⟨buf, run, ended'⟩ := sound.buf.putAll (k := 0) (s.take len) le_rfl (by
    rw [Chars.length_take]
    omega)
  obtain ⟨n, -, total⟩ := ended'.strlen
  refine ⟨{ ed with buf := buf, prefixListIdx := 0, i := n, lastIndex := n }, ?_, ?_⟩
  · simp [Editor.showFirst, row, length, run, total]
  · exact { sound with
      buf := ended'
      i := Int.natCast_nonneg _
      lastIndex := Int.natCast_nonneg _
      prefixListIdx := ⟨le_rfl, Int.natCast_pos.mpr (by decide)⟩ }

/-- The end of a completion. -/
theorem Sound.completed (sound : ed.Sound) (start tempBuf : List Char) {names : List String}
    (rows : names.length ≤ prefixRows)
    (fits : ∀ name ∈ names, tempBuf <+: name.toList →
      start.length + name.toList.length < buflen) :
    ∃ ed', (do
      let (ed, n) ← ed.collect start tempBuf names 0
      let ed := ed.setPrefixListSize n
      if n ≠ 0 then return some (← ed.showFirst) else return some ed : Option (Option Editor)) =
        some (some ed') ∧ ed'.Sound := by
  obtain ⟨list, m, run, ended⟩ := collect_some ed sound.prefixes (n := 0) (by omega) fits
  have sound' : Sound (setPrefixListSize { ed with prefixList := list } m) :=
    { sound with prefixes := ended }
  obtain ⟨ed', shown, sound''⟩ := sound'.showFirst
  by_cases none : m = 0
  · exact ⟨_, by simp [run, none], none ▸ sound'⟩
  · exact ⟨ed', by simp [run, none, shown], sound''⟩

/-- The names of the two tables are short. -/
theorem names_short : (∀ name ∈ commands.map Prod.fst, name.toList.length < buflen) ∧
    ∀ name ∈ userPrograms, name.toList.length < buflen := by decide +kernel

theorem Sound.complete (sound : ed.Sound) (line : List Char) (short : line.length < buflen)
    (fits : Fits line) :
    ∃ r, ed.complete line = some r ∧ ∀ ed', r = some ed' → ed'.Sound := by
  have done : ∀ {run : Option (Option Editor)}, (∃ ed', run = some (some ed') ∧ ed'.Sound) →
      ∃ r, run = some r ∧ ∀ ed', r = some ed' → ed'.Sound := by
    rintro run ⟨ed', rfl, sound'⟩
    refine ⟨_, rfl, ?_⟩
    rintro _ ⟨⟩
    exact sound'
  rw [Editor.complete]
  by_cases several : (arguments line).length > 1
  · by_cases other : (arguments line).head? ≠ some "run" ∧ (arguments line).head? ≠ some "load"
    · exact ⟨none, by simp [several, other], nofun⟩
    · have known : (arguments line).head? = some "run" ∨ (arguments line).head? = some "load" := by
        tauto
      have before : (beforeLast line).length < buflen := by
        rw [beforeLast, List.length_take]
        omega
      obtain ⟨temp, run, same⟩ := Chars.putAll_some Chars.empty (beforeLast line)
        (k := 0) le_rfl (by omega)
      have zero : temp (beforeLast line).length = '\x00' := same _ (Or.inr (by omega))
      obtain ⟨len, le, length, -⟩ := Chars.strlen_of_zero zero before
      obtain ⟨buf, copied, ended, zero'⟩ := sound.buf.strcpy length (by omega)
      obtain ⟨n, le', total, -⟩ := Chars.strlen_of_zero zero' (by omega)
      have sound' : Sound { ed with buf := buf } := { sound with buf := ended }
      have end_ := sound'.completed (buf.take n) ((arguments line).getLastD "").toList
        (show userPrograms.length ≤ prefixRows by decide) fun name mem begins => by
          have room := fits several known name mem begins
          rw [Chars.length_take]
          omega
      simpa [several, other, run, copied, total] using done end_
  · by_cases one : (arguments line).length = 1
    · have end_ := sound.completed [] (firstWord line)
        (show (commands.map Prod.fst).length ≤ prefixRows by decide) fun name mem _ => by
          simpa using names_short.1 name mem
      simpa [several, one] using done end_
    · have end_ := sound.completed [] (firstWord line)
        (show userPrograms.length ≤ prefixRows by decide) fun name mem _ => by
          simpa using names_short.2 name mem
      simpa [several, one] using done end_

end Editor

namespace Editor

variable {ed : Editor} {c : Int}

theorem Sound.firstTab (sound : ed.Sound)
    (fits : ed.lastC ≠ 255 → ∀ n, ed.buf.strlen = some n → ed.buf (n - 1) ≠ ' ' →
      Fits (ed.buf.take n)) : Handles ed.firstTab := by
  obtain ⟨n, lt, length⟩ := sound.buf.strlen
  have cleared : ed.clearPrefixList.Sound := { sound with prefixes := fun _ => Chars.ended_empty }
  have same : ed.clearPrefixList.buf = ed.buf := rfl
  have same' : (ed.clearPrefixList.setPrefixListSize 0).buf = ed.buf := rfl
  have last : ed.clearPrefixList.lastC = ed.lastC := rfl
  obtain ⟨temp, copied, -⟩ := Chars.ended_empty.strcpy length lt
  by_cases stop : n = 0 ∨ ed.lastC = 255
  · refine Or.inl ⟨_, ?_, cleared⟩
    simp [Editor.firstTab, same, last, length, stop]
  · have sound' : Sound (ed.clearPrefixList.setPrefixListSize 0) := { cleared with }
    have here : ed.buf.get (n - 1) = some (ed.buf (n - 1)) := by
      have back : ((n : Int) - 1).toNat = n - 1 := by omega
      rw [Chars.get_some (by omega) (by omega), back]
    by_cases blank : ed.buf (n - 1) = ' '
    · refine Or.inl ⟨_, ?_, sound'⟩
      simp [Editor.firstTab, same, same', last, length, stop, copied, here, blank]
    · obtain ⟨r, run, ends⟩ := sound'.complete (ed.buf.take n) (by rwa [Chars.length_take])
        (fits (fun h => stop (Or.inr h)) n length blank)
      cases r with
      | none =>
        refine Or.inl ⟨_, ?_, sound'⟩
        simp [Editor.firstTab, same, same', last, length, stop, copied, here, run]
      | some ed' =>
        refine Or.inl ⟨_, ?_, (ends ed' rfl).setLastC 9⟩
        simp [Editor.firstTab, same, same', last, length, stop, copied, here, blank, run]

theorem Sound.nextTab (sound : ed.Sound) (lt : 0 < ed.prefixListSize →
    (ed.prefixListIdx + 1).tmod ed.prefixListSize < prefixRows) : Handles ed.nextTab := by
  rw [Editor.nextTab]
  by_cases pos : ed.prefixListSize > 0
  · have next : 0 ≤ (ed.prefixListIdx + 1).tmod ed.prefixListSize ∧
        (ed.prefixListIdx + 1).tmod ed.prefixListSize < prefixRows :=
      ⟨Int.tmod_nonneg _ (by have := sound.prefixListIdx.1; omega),
        lt pos⟩
    have sound' : Sound { ed with
        prefixListIdx := (ed.prefixListIdx + 1).tmod ed.prefixListSize } :=
      { sound with prefixListIdx := next }
    obtain ⟨s, row, ended⟩ := sound'.prefixRow sound.prefixListIdx.1 sound.prefixListIdx.2
    obtain ⟨t, row', ended'⟩ := sound'.prefixRow next.1 next.2
    obtain ⟨len, -, length⟩ := ended.strlen
    obtain ⟨ed', run, sound''⟩ := sound'.writeLine ended'
    refine Or.inl ⟨_, ?_, sound''.setLastC 9⟩
    simp [pos, Editor.roundAutoComplete, row, length, row', run]
  · exact Or.inl ⟨_, by simp [pos], sound.setLastC 9⟩

theorem Sound.setHistory {k : Int} (sound : ed.Sound) (nonneg : 0 ≤ k) (le : k ≤ historyMax) :
    ∃ ed', ed.setHistory k = some ed' ∧ ed'.Sound ∧ ed'.lastCommandIdx = ed.lastCommandIdx := by
  refine ⟨_, if_pos ⟨nonneg, le⟩, { sound with history := fun j => ?_ }, rfl⟩
  rcases eq_or_ne j k.toNat with rfl | ne
  · simpa using sound.buf
  · simpa [ne] using sound.history j

theorem Sound.shiftHistory (sound : ed.Sound) : ed.shiftHistory.Sound := by
  refine { sound with history := fun k => ?_ }
  simp only [Editor.shiftHistory]
  split
  · exact sound.history _
  · exact sound.history _

theorem Sound.addHistory (sound : ed.Sound) (some_ : 0 ≤ ed.lastCommandIdx) :
    Handles ed.addHistory := by
  have bounds := sound.lastCommandIdx
  rw [Editor.addHistory]
  by_cases full : ed.lastCommandIdx = (historyMax : Int)
  · obtain ⟨ed', set, sound', -⟩ := sound.shiftHistory.setHistory (k := historyMax)
      (by decide) le_rfl
    rw [if_pos full, set]
    exact Or.inr ⟨ed', rfl, sound'⟩
  · have next : ed.lastCommandIdx + 1 ≤ historyMax := by omega
    obtain ⟨row, here, ended⟩ := sound.historyRow some_ bounds.2
    obtain ⟨b, compared⟩ := ended.strcmp ed.buf
    obtain ⟨ed', set, sound', last⟩ := sound.setHistory (k := ed.lastCommandIdx + 1) (by omega) next
    rw [if_neg full, here]
    simp only [Option.bind_eq_bind, Option.bind_some, compared]
    cases b with
    | false =>
      have added : Sound { ed' with lastCommandIdx := ed.lastCommandIdx + 1 } :=
        { sound' with
          commandidx := ⟨sound'.commandidx.1, by
            have le := sound'.commandidx.2
            rw [last] at le
            exact le.trans (by simp only; omega)⟩
          lastCommandIdx := ⟨by simp only; omega, next⟩ }
      rw [if_pos rfl, set]
      exact Or.inr ⟨_, rfl, added⟩
    | true =>
      rw [if_neg nofun]
      exact Or.inr ⟨ed, rfl, sound⟩

/-- The line ends inside the buffer. -/
theorem Sound.enter (sound : ed.Sound) (lt : ed.lastIndex < buflen)
    (some_ : 0 ≤ ed.lastCommandIdx) :
    Handles ed.enter := by
  have ended : Sound { ed with buf := Function.update ed.buf ed.lastIndex.toNat '\x00' } :=
    { sound with buf := sound.buf.end_at _ }
  rw [Editor.enter, Chars.put_some sound.lastIndex lt]
  exact ended.addHistory some_

/-- A key that stays inside, when `lastIndex` is up to date. -/
theorem Sound.press (sound : ed.Sound) (le : ed.i ≤ ed.lastIndex) (inside : ed.Inside c) :
    Handles (ed.press c) := by
  have next : ∀ {run : Option Pressed} {ed' : Editor}, run = some (.next ed') → ed'.Sound →
      Handles run := fun run sound' => Or.inl ⟨_, run, sound'⟩
  have i := sound.i
  have lastIndex := sound.lastIndex
  have commandidx := sound.commandidx
  rw [Editor.press]
  by_cases read : c < 0
  · exact Or.inr ⟨ed, by simp [read], sound⟩
  rw [if_neg read]
  by_cases up : c = 226
  · rw [if_pos up]
    have bounds := sound.lastCommandIdx
    by_cases none : ed.commandidx = 0
    · have row := sound.clearandwritecommand (by omega) c
      simpa [none] using row
    · have sound' : Sound { ed with commandidx := ed.commandidx - 1 } :=
        { sound with commandidx := ⟨by simp only; omega, by simp only; omega⟩ }
      have row := sound'.clearandwritecommand (by simp only; omega) c
      simpa [none] using row
  rw [if_neg up]
  by_cases down : c = 227
  · rw [if_pos down]
    have bounds := sound.lastCommandIdx
    by_cases more : ed.commandidx < ed.lastCommandIdx
    · have sound' : Sound { ed with commandidx := ed.commandidx + 1 } :=
        { sound with commandidx := ⟨by simp only; omega, by simp only; omega⟩ }
      have row := sound'.clearandwritecommand (by simp only; omega) c
      have some_ : 0 ≤ ed.lastCommandIdx := by omega
      simpa [more, some_] using row
    · by_cases some_ : 0 ≤ ed.lastCommandIdx
      · have row := sound.clearandwritecommand (inside.down down some_) c
        simpa [more, some_] using row
      · exact next (by simp [more, some_]) (sound.setLastC c)
  rw [if_neg down]
  by_cases tab : c = 9
  · rw [if_pos tab]
    by_cases first : ed.lastC = 9
    · simpa [first] using sound.nextTab (inside.nextTab tab first)
    · simpa [first] using sound.firstTab (inside.firstTab tab first)
  rw [if_neg tab]
  by_cases left : c = 228
  · rw [if_pos left]
    refine next rfl { sound with i := ?_ }
    simp only
    split <;> omega
  rw [if_neg left]
  by_cases right : c = 229
  · rw [if_pos right]
    refine next rfl { sound with i := ?_ }
    simp only
    split <;> omega
  rw [if_neg right]
  by_cases delete : c = 0xE9 ∧ ed.i > 0
  · rw [if_pos delete]
    have room := inside.delete delete.1 delete.2
    obtain ⟨buf, run, ended⟩ :=
      sound.buf.shiftLeft (n := (ed.lastIndex - ed.i + 1).toNat) i (by omega)
    rw [run]
    exact next rfl { sound with buf := ended, lastIndex := by simp only; omega }
  rw [if_neg delete]
  by_cases printable : c ≥ 32 ∧ ed.i < buflen - 1
  · rw [if_pos printable, Chars.put_some i (by omega)]
    exact next rfl { sound with
      buf := sound.buf.update i printable.2
      i := by simp only; omega
      lastIndex := by simp only; omega }
  rw [if_neg printable]
  by_cases backspace : c = 8 ∧ ed.i > 0
  · rw [if_pos backspace]
    have room := inside.backspace backspace.1 backspace.2
    rw [Chars.get_some i room]
    simp only [Option.bind_eq_bind, Option.bind_some]
    rw [Chars.put_some (by omega) (by omega)]
    exact next rfl { sound with
      buf := sound.buf.update (by omega) (by omega)
      i := by simp only; omega }
  rw [if_neg backspace]
  by_cases line : c = 10 ∨ c = 13
  · rw [if_pos line]
    obtain ⟨room, some_⟩ := inside.enter line
    exact sound.enter (by omega) some_
  · rw [if_neg line]
    exact next rfl (sound.setLastC c)

/-- **A key that stays inside.** -/
theorem Sound.step (sound : ed.Sound) (inside : ed.Inside c) : Handles (ed.step c) := by
  rw [Editor.step]
  split
  · rename_i behind
    have sound' : Sound { ed with lastIndex := ed.i } := { sound with lastIndex := sound.i }
    refine sound'.press le_rfl { inside with delete := fun key pos => ?_, enter := fun key => ?_ }
    · have room := inside.delete key pos
      simp only
      omega
    · have room := (inside.enter key).1
      exact ⟨by simp only; omega, (inside.enter key).2⟩
  · exact sound.press (by omega) inside

/-- A call with any history. -/
theorem Sound.call (sound : ed.Sound) (prefixListSize lastC : Int) :
    (ed.call prefixListSize lastC).Sound where
  buf := Chars.ended_empty
  i := le_rfl
  lastIndex := le_rfl
  commandidx := ⟨by have := sound.lastCommandIdx.1; simp only [Editor.call]; omega, le_rfl⟩
  lastCommandIdx := sound.lastCommandIdx
  prefixListIdx := ⟨le_rfl, Int.natCast_pos.mpr (by decide)⟩
  history := sound.history
  prefixes := sound.prefixes

end Editor

/-! ## Runs -/

/-- The prompt before its first line. -/
def Editor.boot : Editor where
  buf := Chars.empty
  i := 0
  lastIndex := 0
  commandidx := 0
  prefixListIdx := 0
  prefixListSize := 0
  lastC := 0
  lastCommandIdx := -1
  commandHistory := fun _ => Chars.empty
  prefixList := fun _ => Chars.empty

/-- The runs of `run_command_prompt`, from a history of up to 20 strings that end inside their
rows: keys, and after a line the next call.  What `last_c` and `prefix_list_size` hold at first is
anything.  `ok` may restrict the keys. -/
inductive EditorRun (ok : Editor → Int → Prop) : Editor → Prop
  | start {ed : Editor} (history : ed.Sound) (prefixListSize lastC : Int) :
    EditorRun ok (ed.call prefixListSize lastC)
  | key {ed ed' : Editor} {c : Int} (run : EditorRun ok ed) (holds : ok ed c)
    (pressed : ed.step c = some (.next ed')) : EditorRun ok ed'
  | line {ed ed' : Editor} {c : Int} (run : EditorRun ok ed) (holds : ok ed c)
    (pressed : ed.step c = some (.done ed')) (prefixListSize lastC : Int) :
    EditorRun ok (ed'.call prefixListSize lastC)

variable {ed : Editor} {c : Int}

theorem EditorRun.sound (run : EditorRun Editor.Inside ed) : ed.Sound := by
  induction run with
  | start history prefixListSize lastC => exact history.call prefixListSize lastC
  | key _ holds pressed ih =>
    rcases ih.step holds with ⟨_, same, sound⟩ | ⟨_, other, -⟩
    · rw [same] at pressed
      cases pressed
      exact sound
    · rw [other] at pressed
      cases pressed
  | line _ holds pressed prefixListSize lastC ih =>
    rcases ih.step holds with ⟨_, other, -⟩ | ⟨_, same, sound⟩
    · rw [other] at pressed
      cases pressed
    · rw [same] at pressed
      cases pressed
      exact sound.call prefixListSize lastC

/-- **The line editor stays inside its buffers** in every run of keys that do, and the line that it
returns ends inside its buffer. -/
theorem EditorRun.stays_inside (run : EditorRun Editor.Inside ed) (inside : ed.Inside c) :
    ∃ pressed, ed.step c = some pressed ∧
      ∀ ed', pressed = .done ed' → ∃ k < buflen, ed'.buf k = '\x00' := by
  rcases run.sound.step inside with ⟨ed', next, -⟩ | ⟨ed', done, sound⟩
  · exact ⟨_, next, nofun⟩
  · refine ⟨_, done, ?_⟩
    rintro _ ⟨⟩
    exact ⟨buflen - 1, by decide, sound.buf⟩

theorem Editor.sound_boot : Editor.boot.Sound :=
  ⟨rfl, le_rfl, le_rfl, ⟨le_rfl, le_rfl⟩, ⟨le_rfl, by decide⟩, ⟨le_rfl, by decide⟩, fun _ => rfl,
    fun _ => rfl⟩

/-- A key other than Tab that stays inside. -/
def Editor.admits (ed : Editor) (c : Int) : Bool :=
  c ≠ 9 ∧ (c = 227 → 0 ≤ ed.lastCommandIdx → ed.commandidx ≤ historyMax) ∧
    (c = 0xE9 → 0 < ed.i → max ed.i ed.lastIndex < buflen - 1) ∧
    (c = 8 → 0 < ed.i → ed.i < buflen) ∧
    (c = 10 ∨ c = 13 → max ed.i ed.lastIndex < buflen ∧ 0 ≤ ed.lastCommandIdx)

theorem Editor.inside_of_admits (admits : ed.admits c = true) : ed.Inside c := by
  obtain ⟨noTab, down, delete, backspace, enter⟩ := of_decide_eq_true admits
  exact ⟨down, fun tab => absurd tab noTab, fun tab => absurd tab noTab, delete, backspace, enter⟩

/-- Keys one after the other, and the next call after a line. -/
def Editor.types (ed : Editor) : List Int → Option Editor
  | [] => some ed
  | c :: keys =>
    if ed.admits c then
      match ed.step c with
      | some (.next ed') => ed'.types keys
      | some (.done ed') => (ed'.call 0 0).types keys
      | none => none
    else none

theorem EditorRun.types {ed' : Editor} {keys : List Int} (run : EditorRun Editor.Inside ed)
    (typed : ed.types keys = some ed') : EditorRun Editor.Inside ed' := by
  induction keys generalizing ed with
  | nil => exact Option.some.inj typed ▸ run
  | cons c keys ih =>
    rw [Editor.types] at typed
    split at typed
    · rename_i admits
      have inside := Editor.inside_of_admits admits
      split at typed
      · rename_i pressed
        exact ih (run.key inside pressed) typed
      · rename_i pressed
        exact ih (run.line inside pressed 0 0) typed
      · cases typed
    · cases typed

/-- A prompt that remembers a line. -/
def Editor.remembering : Editor :=
  { Editor.boot with
    lastCommandIdx := 0
    commandHistory := fun k =>
      if k = 0 then fun i => ['v', 'e', 'r'].getD i '\x00' else Chars.empty }

theorem Editor.sound_remembering : Editor.remembering.Sound :=
  { Editor.sound_boot with
    commandidx := ⟨le_rfl, by decide⟩
    lastCommandIdx := ⟨by decide, by decide⟩
    history := fun k => by
      rw [Chars.Ended, Editor.remembering]
      dsimp only
      split <;> rfl }

/-- `rux`, the left arrow, a Delete, a Backspace and `n` are typed and entered; then Up twice, Down,
the left and the right arrow, a Backspace and Enter. -/
theorem editor_history : ∃ ed pressed, (Editor.remembering.call 0 0).types
      [0x72, 0x75, 0x78, 228, 0xE9, 8, 0x6E, 13, 226, 226, 227, 228, 229, 8] = some ed ∧
    ed.lastCommandIdx = 1 ∧ ed.step 13 = some pressed ∧
      ∀ ed', pressed = .done ed' → ∃ k < buflen, ed'.buf k = '\x00' := by
  have ends : ((Editor.remembering.call 0 0).types
      [0x72, 0x75, 0x78, 228, 0xE9, 8, 0x6E, 13, 226, 226, 227, 228, 229, 8]).any
      (fun ed => ed.lastCommandIdx = 1 ∧ ed.admits 13) = true := by
    decide +kernel
  obtain ⟨ed, typed, ends⟩ := (Option.any_eq_true _ _).mp ends
  obtain ⟨second, admits⟩ := of_decide_eq_true ends
  obtain ⟨pressed, run, stays⟩ := EditorRun.stays_inside
    ((EditorRun.start Editor.sound_remembering 0 0).types typed) (Editor.inside_of_admits admits)
  exact ⟨ed, pressed, typed, second, run, stays⟩

/-- The first key is Enter: the line is compared with `command_history[-1]`. -/
theorem editor_enter : ¬ ∀ (ed : Editor) (c : Int), EditorRun (fun _ _ => True) ed →
    ∃ pressed, ed.step c = some pressed ∧
      ∀ ed', pressed = .done ed' → ∃ k < buflen, ed'.buf k = '\x00' := by
  intro stays
  obtain ⟨pressed, run, -⟩ := stays _ 13 (.start Editor.sound_boot 0 0)
  have outside : (Editor.boot.call 0 0).step 13 = none := rfl
  rw [outside] at run
  cases run

end Fos
