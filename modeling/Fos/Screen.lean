import Fos.Memlayout
import Mathlib.Data.List.Basic

/-!
# The screen

The CGA output and the keyboard input of `kern/console.c`, which share the cursor and the
length of the line that is being typed.

* `Screen`: the screen buffer, with every index that has been read or written;
* `cgaPutc`, `kbdProcData`: the two functions;
* `ScreenRun.stays`: the cursor stays on the screen, and so do the accesses as long as the Delete
  key is not pressed in a line of 75 characters or more.
-/

namespace Fos

/-- `CRT_COLS` and `CRT_SIZE`. -/
abbrev crtCols : Nat := 80

abbrev crtSize : Nat := 2000

/-- The screen: `crt_buf`, `crt_pos`, `text_length` and the `shift` of `kbd_proc_data`, and the
indices of `crt_buf` that have been accessed. -/
structure Screen where
  crtBuf : Int → BitVec 16
  crtPos : Nat
  textLength : Int
  shift : UInt32
  accessed : List Int

namespace Screen

/-- `crt_buf[i] = c`. -/
def write (s : Screen) (i : Int) (c : BitVec 16) : Screen :=
  { s with crtBuf := Function.update s.crtBuf i c, accessed := s.accessed ++ [i] }

/-- `crt_buf[i] = crt_buf[j]`. -/
def copy (s : Screen) (i j : Int) : Screen :=
  { s with
    crtBuf := Function.update s.crtBuf i (s.crtBuf j)
    accessed := s.accessed ++ [j, i] }

/-! ## Output -/

/-- The end of `cga_putc`: one line up when the cursor has left the screen. -/
def scroll (s : Screen) : Screen :=
  if s.crtPos ≥ crtSize then
    { s with
      crtBuf := fun i =>
        if 0 ≤ i ∧ i < crtSize - crtCols then s.crtBuf (i + crtCols)
        else if crtSize - crtCols ≤ i ∧ i < crtSize then 0x0700 ||| 0x20
        else s.crtBuf i
      accessed := s.accessed ++
        ((List.range (crtSize - crtCols)).flatMap fun i : Nat =>
          [((i + crtCols : Nat) : Int), (i : Int)]) ++
        (List.range crtCols).map fun i : Nat => ((crtSize - crtCols + i : Nat) : Int)
      crtPos := s.crtPos - crtCols }
  else s

/-- The `switch` of `cga_putc`; `blank` is `cons_putc(' ')`. -/
def switch (blank : Screen → Screen) (c : BitVec 32) (s : Screen) : Screen :=
  match (c &&& 0xFF#32).toNat with
  | 8 =>
    -- '\b'
    if s.crtPos > 0 then
      { s with crtPos := s.crtPos - 1 }.write (s.crtPos - 1 : Nat)
        ((c &&& ~~~0xFF#32) ||| 0x20#32).toNat
    else s
  | 10 =>
    -- '\n'
    let pos := (s.crtPos + crtCols) % 65536
    { s with crtPos := pos - pos % crtCols, textLength := 0 }
  | 13 => { s with crtPos := s.crtPos - s.crtPos % crtCols }
  | 9 => blank (blank (blank (blank (blank s))))
  | 228 => if s.crtPos > 0 then { s with crtPos := s.crtPos - 1 } else s
  | 229 => if s.crtPos < crtSize then { s with crtPos := (s.crtPos + 1) % 65536 } else s
  | _ =>
    -- KEY_LF and KEY_RT
    if c ≠ 0xE4#32 ∧ c ≠ 0xE5#32 then
      let s := { s with crtPos := (s.crtPos + 1) % 65536 }.write s.crtPos c.toNat
      if (s.crtPos : Int) > 1920 + s.textLength then
        { s with textLength := s.textLength + 1 }
      else s
    else s

/-- `cga_putc(c)` up to the moving of the hardware cursor. -/
def putc (blank : Screen → Screen) (c : BitVec 32) (s : Screen) : Screen :=
  let c := if c &&& ~~~0xFF#32 = 0 then c ||| 0x0700#32 else c
  (s.switch blank c).scroll

/-- `cga_putc(c)`; a blank is no tab, so that the recursion ends. -/
def cgaPutc (s : Screen) (c : BitVec 32) : Screen := s.putc (putc id 0x20#32) c

/-! ## Input -/

/-- A table of 256 codes: the first ones, and some others. -/
def keyTable (first : String) (others : List (UInt8 × Nat)) (data : UInt8) : Nat :=
  (others.lookup data).getD ((first.toList.map Char.toNat).getD data.toNat 0)

/-- The keys of the right part of the keyboard. -/
def cursorKeys : List (UInt8 × Nat) :=
  [(0x97, 0xE0), (0xC8, 0xE2), (0xC9, 0xE6), (0xCB, 0xE4), (0xCD, 0xE5), (0xCF, 0xE1),
    (0xD0, 0xE3), (0xD1, 0xE7), (0xD2, 0xE8), (0xD3, 0xE9)]

/-- `shiftcode`: `CTL` is 2, `SHIFT` is 1 and `ALT` is 4. -/
def shiftcode (data : UInt8) : UInt32 :=
  match data.toNat with
  | 0x1D => 2
  | 0x2A => 1
  | 0x36 => 1
  | 0x38 => 4
  | 0x9D => 2
  | 0xB8 => 4
  | _ => 0

/-- `togglecode`: `CAPSLOCK` is 8, `NUMLOCK` is 16 and `SCROLLLOCK` is 32. -/
def togglecode (data : UInt8) : UInt32 :=
  match data.toNat with
  | 0x3A => 8
  | 0x45 => 16
  | 0x46 => 32
  | _ => 0

def normalmap : UInt8 → Nat :=
  keyTable ("\x00\x1b123456" ++ "7890-=\x08\t" ++ "qwertyui" ++ "op[]\n\x00as" ++ "dfghjkl;" ++
      "\x27\x60\x00\x5czxcv" ++ "bnm,./\x00*" ++ "\x00 \x00\x00\x00\x00\x00\x00" ++
      "\x00\x00\x00\x00\x00\x00\x007" ++ "89-456+1" ++ "230.")
    ((0x9C, 10) :: (0xB5, 0x2F) :: cursorKeys)

def shiftmap : UInt8 → Nat :=
  keyTable ("\x00\x1b!@#$%^" ++ "&*()_+\x08\t" ++ "QWERTYUI" ++ "OP\x7b\x7d\n\x00AS" ++
      "DFGHJKL:" ++ "\x22~\x00|ZXCV" ++ "BNM<>?\x00*" ++ "\x00 \x00\x00\x00\x00\x00\x00" ++
      "\x00\x00\x00\x00\x00\x00\x007" ++ "89-456+1" ++ "230.")
    ((0x9C, 10) :: (0xB5, 0x2F) :: cursorKeys)

/-- `C(x)` is `x - '@'`, as an `uint8`. -/
def ctlmap : UInt8 → Nat :=
  keyTable ("\x00\x00\x00\x00\x00\x00\x00\x00" ++ "\x00\x00\x00\x00\x00\x00\x00\x00" ++
      "\x11\x17\x05\x12\x14\x19\x15\x09" ++ "\x0f\x10\x00\x00\x0d\x00\x01\x13" ++
      "\x04\x06\x07\x08\x0a\x0b\x0c\x00" ++ "\x00\x00\x00\x1c\x1a\x18\x03\x16" ++
      "\x02\x0e\x0d\x00\x00\u00ef\x00\x00")
    ((0x39, 0xFF) :: (0xB5, 0xEF) :: cursorKeys)

/-- `charcode[shift & (CTL | SHIFT)][data]`. -/
def charcode (shift : UInt32) (data : UInt8) : Nat :=
  match (shift &&& 3).toNat with
  | 0 => normalmap data
  | 1 => shiftmap data
  | _ => ctlmap data

/-- `KEY_DEL`. -/
abbrev keyDel : Nat := 0xE9

/-- The loop of the Delete key. -/
def deleteLoop (s : Screen) (i crtPosLength : Int) : Screen :=
  if crtPosLength ≤ s.textLength then
    deleteLoop (s.copy i (i + 1)) (i + 1) (crtPosLength + 1)
  else s
termination_by (s.textLength + 1 - crtPosLength).toNat
decreasing_by
  simp only [copy]
  omega

/-- `kbd_proc_data` when the code is `KEY_DEL`. -/
def deleteKey (s : Screen) : Screen × Int :=
  if s.textLength > 0 then
    if (s.crtPos : Int) = 1920 + s.textLength then (s, 0)
    else
      let s := { s with textLength := s.textLength - 1 }
      (s.deleteLoop s.crtPos (s.crtPos - 1925), keyDel)
  else (s, 0)

/-- What `kbd_proc_data` makes of a scan code: the code in `data` when it is a key that has been
pressed, and the new `shift`. -/
def pressed (shift : UInt32) (data : UInt8) : Option UInt8 × UInt32 :=
  if data = 0xE0 then (none, shift ||| 64)
  else if data &&& 0x80 ≠ 0 then
    let data := if shift &&& 64 ≠ 0 then data else data &&& 0x7F
    (none, shift &&& ~~~(shiftcode data ||| 64))
  else
    let (data, shift) :=
      if shift &&& 64 ≠ 0 then (data ||| 0x80, shift &&& ~~~64) else (data, shift)
    (some data, (shift ||| shiftcode data) ^^^ togglecode data)

/-- The letter in upper case for a lower case one, and the other way round. -/
def swapCase (c : Nat) : Nat :=
  if 'a'.toNat ≤ c ∧ c ≤ 'z'.toNat then c - ('a'.toNat - 'A'.toNat)
  else if 'A'.toNat ≤ c ∧ c ≤ 'Z'.toNat then c + ('a'.toNat - 'A'.toNat)
  else c

/-- `kbd_proc_data()` when the keyboard has the scan code `data`; the second component is what it
returns.  The test for Ctrl-Alt-Del comes after the Delete key has been dealt with. -/
def kbdProcData (s : Screen) (data : UInt8) : Screen × Int :=
  match pressed s.shift data with
  | (none, shift) => ({ s with shift := shift }, 0)
  | (some data, shift) =>
    let s := { s with shift := shift }
    let c := charcode shift data
    if c = keyDel then s.deleteKey
    else
      let c := if shift &&& 8 ≠ 0 then swapCase c else c
      if shift = 16 ∧ '0'.toNat ≤ c ∧ c ≤ '9'.toNat then (s, 0)
      else if c = 255 then (s, 0)
      else (s, c)

/-! ## The cursor -/

/-- The cursor is on the screen, and the line that is being typed fits in a row. -/
structure OnScreen (s : Screen) : Prop where
  pos : s.crtPos < crtSize
  nonneg : 0 ≤ s.textLength
  row : s.textLength ≤ crtCols

/-- An index of `crt_buf`. -/
def InBuf (i : Int) : Prop := 0 ≤ i ∧ i < crtSize

/-- Going from `s` to `s'` accesses the buffer in its bounds. -/
def Adds (s s' : Screen) : Prop := ∃ l, s'.accessed = s.accessed ++ l ∧ ∀ i ∈ l, InBuf i

theorem Adds.refl (s : Screen) : Adds s s :=
  ⟨[], (List.append_nil _).symm, fun _ mem => absurd mem List.not_mem_nil⟩

theorem Adds.trans {s₁ s₂ s₃ : Screen} (first : Adds s₁ s₂) (second : Adds s₂ s₃) : Adds s₁ s₃ := by
  obtain ⟨l, eq, all⟩ := first
  obtain ⟨l', eq', all'⟩ := second
  exact ⟨l ++ l', by rw [eq', eq, List.append_assoc], List.forall_mem_append.mpr ⟨all, all'⟩⟩

theorem Adds.accessed {s s' : Screen} (adds : Adds s s') (all : ∀ i ∈ s.accessed, InBuf i) :
    ∀ i ∈ s'.accessed, InBuf i := by
  obtain ⟨l, eq, all'⟩ := adds
  rw [eq]
  exact List.forall_mem_append.mpr ⟨all, all'⟩

theorem adds_write (s : Screen) {i : Int} (inside : InBuf i) (c : BitVec 16) :
    Adds s (s.write i c) :=
  ⟨[i], rfl, List.forall_mem_singleton.mpr inside⟩

/-- Where `cga_putc` is before it looks at the end of the screen. -/
structure Moved (s s' : Screen) : Prop where
  pos : s'.crtPos ≤ crtSize
  nonneg : 0 ≤ s'.textLength
  row : s'.textLength ≤ crtCols
  adds : Adds s s'

theorem OnScreen.moved {s : Screen} (on : s.OnScreen) : Moved s s :=
  ⟨Nat.le_of_lt on.pos, on.nonneg, on.row, Adds.refl s⟩

theorem Moved.scroll {s s' : Screen} (moved : Moved s s') :
    s'.scroll.OnScreen ∧ Adds s s'.scroll := by
  have size : crtSize = 2000 := rfl
  have cols : crtCols = 80 := rfl
  have pos := moved.pos
  rw [Screen.scroll]
  split
  · rename_i off
    refine ⟨⟨?_, moved.nonneg, moved.row⟩, moved.adds.trans ?_⟩
    · show s'.crtPos - crtCols < crtSize
      omega
    · refine ⟨_, List.append_assoc _ _ _,
        List.forall_mem_append.mpr ⟨fun i mem => ?_, fun i mem => ?_⟩⟩
      · obtain ⟨k, bound, here⟩ := List.mem_flatMap.mp mem
        rw [List.mem_range] at bound
        rw [List.mem_cons, List.mem_singleton] at here
        rcases here with rfl | rfl <;> constructor <;> omega
      · obtain ⟨k, bound, rfl⟩ := List.mem_map.mp mem
        rw [List.mem_range] at bound
        constructor <;> omega
  · rename_i on
    exact ⟨⟨Nat.lt_of_not_le on, moved.nonneg, moved.row⟩, moved.adds⟩

theorem scroll_of_lt {s : Screen} (on : s.crtPos < crtSize) : s.scroll = s :=
  if_neg (Nat.not_le_of_lt on)

/-- What keeps the cursor on the screen. -/
def Keeps (f : Screen → Screen) : Prop := ∀ s : Screen, s.OnScreen → (f s).OnScreen ∧ Adds s (f s)

theorem Keeps.comp {f g : Screen → Screen} (hf : Keeps f) (hg : Keeps g) : Keeps fun s => f (g s) :=
  fun s on => ⟨(hf _ (hg s on).1).1, (hg s on).2.trans (hf _ (hg s on).1).2⟩

theorem OnScreen.switch {s : Screen} (on : s.OnScreen) {blank : Screen → Screen}
    (keeps : Keeps blank) (c : BitVec 32) : Moved s (s.switch blank c) := by
  have size : crtSize = 2000 := rfl
  have cols : crtCols = 80 := rfl
  have pos := on.pos
  have nonneg := on.nonneg
  have row := on.row
  unfold Screen.switch
  split
  · split
    · refine ⟨?_, nonneg, row, adds_write s (i := (s.crtPos - 1 : Nat)) ⟨by omega, by omega⟩
        (BitVec.ofNat 16 ((c &&& ~~~0xFF#32) ||| 0x20#32).toNat)⟩
      show s.crtPos - 1 ≤ crtSize
      omega
    · exact on.moved
  · refine ⟨?_, Int.le_refl 0, Int.natCast_nonneg crtCols, Adds.refl s⟩
    show (s.crtPos + 80) % 65536 - (s.crtPos + 80) % 65536 % 80 ≤ 2000
    omega
  · exact ⟨by dsimp only; omega, nonneg, row, Adds.refl s⟩
  · obtain ⟨on', adds⟩ := (keeps.comp (keeps.comp (keeps.comp (keeps.comp keeps)))) s on
    exact ⟨Nat.le_of_lt on'.pos, on'.nonneg, on'.row, adds⟩
  · split
    · exact ⟨by dsimp only; omega, nonneg, row, Adds.refl s⟩
    · exact on.moved
  · rw [if_pos pos]
    exact ⟨by dsimp only; omega, nonneg, row, Adds.refl s⟩
  · split
    · have adds : Adds s ({ s with crtPos := (s.crtPos + 1) % 65536 }.write s.crtPos c.toNat) :=
        ⟨[(s.crtPos : Int)], rfl, List.forall_mem_singleton.mpr ⟨by omega, by omega⟩⟩
      dsimp only
      split
      · rename_i longer
        -- the cursor is at most one row behind the start of the last one
        have bound : (s.crtPos + 1) % 65536 ≤ crtSize := by omega
        refine ⟨bound, by dsimp only [write]; omega, ?_, adds⟩
        dsimp only [write] at longer ⊢
        omega
      · exact ⟨by show (s.crtPos + 1) % 65536 ≤ _; omega, nonneg, row, adds⟩
    · exact on.moved

theorem keeps_putc {blank : Screen → Screen} (keeps : Keeps blank) (c : BitVec 32) :
    Keeps (putc blank c) :=
  fun _ on => (on.switch keeps _).scroll

theorem keeps_cgaPutc (c : BitVec 32) : Keeps fun s => s.cgaPutc c :=
  keeps_putc (keeps_putc (fun s on => ⟨on, Adds.refl s⟩) _) c

/-! ## The Delete key -/

/-- The loop copies from the cursor up to the cell behind the line. -/
theorem deleteLoop_spec (s : Screen) (i crtPosLength : Int) :
    (s.deleteLoop i crtPosLength).crtPos = s.crtPos ∧
      (s.deleteLoop i crtPosLength).textLength = s.textLength ∧
      ∃ l, (s.deleteLoop i crtPosLength).accessed = s.accessed ++ l ∧
        (∀ j ∈ l, i ≤ j ∧ j ≤ i + (s.textLength + 1 - crtPosLength)) ∧
        (crtPosLength ≤ s.textLength → i + (s.textLength + 1 - crtPosLength) ∈ l) := by
  induction gap : (s.textLength + 1 - crtPosLength).toNat generalizing s i crtPosLength with
  | zero =>
    rw [deleteLoop, if_neg (by omega)]
    exact ⟨rfl, rfl, [], (List.append_nil _).symm, fun _ mem => absurd mem List.not_mem_nil,
      fun le => by omega⟩
  | succ gap ih =>
    rw [deleteLoop, if_pos (by omega)]
    obtain ⟨pos, length, l, eq, all, last⟩ := ih (s.copy i (i + 1)) (i + 1) (crtPosLength + 1)
      (by dsimp only [copy]; omega)
    dsimp only [copy] at all last
    refine ⟨pos, length, [i + 1, i] ++ l, eq.trans (List.append_assoc _ _ _), ?_, fun le => ?_⟩
    · refine List.forall_mem_append.mpr ⟨fun j mem => ?_, fun j mem => ?_⟩
      · rw [List.mem_cons, List.mem_singleton] at mem
        omega
      · have bounds := all j mem
        omega
    · by_cases more : crtPosLength + 1 ≤ s.textLength
      · have mem := last more
        rw [show i + 1 + (s.textLength + 1 - (crtPosLength + 1)) =
          i + (s.textLength + 1 - crtPosLength) by omega] at mem
        exact List.mem_append_right _ mem
      · rw [show i + (s.textLength + 1 - crtPosLength) = i + 1 by omega]
        exact List.mem_append_left _ (List.mem_cons_self ..)

/-- The Delete key has something to move, and the line does not end in front of the last five
cells of the screen. -/
def LongDelete (s : Screen) : Prop :=
  75 ≤ s.textLength ∧ (s.crtPos : Int) ≠ 1920 + s.textLength ∧
    (s.crtPos : Int) ≤ 1924 + s.textLength

instance (s : Screen) : Decidable s.LongDelete := inferInstanceAs (Decidable (_ ∧ _ ∧ _))

theorem OnScreen.deleteKey {s : Screen} (on : s.OnScreen) :
    s.deleteKey.1.OnScreen ∧ (Adds s s.deleteKey.1 ↔ ¬ s.LongDelete) := by
  have size : crtSize = 2000 := rfl
  have cols : crtCols = 80 := rfl
  have pos := on.pos
  have row := on.row
  unfold Screen.deleteKey
  split
  · rename_i some_
    split
    · rename_i behind
      exact ⟨on, iff_of_true (Adds.refl s) fun long => long.2.1 behind⟩
    · rename_i before
      obtain ⟨samePos, sameLength, l, eq, all, last⟩ :=
        deleteLoop_spec { s with textLength := s.textLength - 1 } s.crtPos (s.crtPos - 1925)
      dsimp only at samePos sameLength eq all last ⊢
      refine ⟨⟨by rw [samePos]; exact pos, by rw [sameLength]; omega, by rw [sameLength]; omega⟩,
        fun adds long => ?_, fun short => ⟨l, eq, fun j mem => ?_⟩⟩
      · obtain ⟨l', eq', all'⟩ := adds
        have same := List.append_cancel_left (eq.symm.trans eq')
        have beyond := all' _ (same ▸ last (by have := long.2.2; omega))
        have lo := long.1
        have hi := beyond.2
        omega
      · have bounds := all j mem
        rw [LongDelete, not_and_or, not_and_or, not_not] at short
        constructor <;> omega
  · rename_i none
    exact ⟨on, iff_of_true (Adds.refl s) fun long => none (by have := long.1; omega)⟩

/-! ## Runs -/

/-- A character that is put out, or a scan code that is read. -/
inductive Op where
  | putc (c : BitVec 32)
  | scan (data : UInt8)

def exec (s : Screen) : Op → Screen
  | .putc c => s.cgaPutc c
  | .scan data => (s.kbdProcData data).1

/-- The scan code is the Delete key. -/
def IsDelete (s : Screen) (data : UInt8) : Prop :=
  ∃ key shift, pressed s.shift data = (some key, shift) ∧ charcode shift key = keyDel

/-- The step is no Delete key in a line that is too long for it. -/
def Short (s : Screen) : Op → Prop
  | .putc _ => True
  | .scan data => s.IsDelete data → ¬ s.LongDelete

theorem OnScreen.shifted {s : Screen} (on : s.OnScreen) (shift : UInt32) :
    ({ s with shift := shift } : Screen).OnScreen :=
  ⟨on.pos, on.nonneg, on.row⟩

/-- A step keeps the cursor on the screen, and accesses the buffer in its bounds if and only if
it is not such a Delete key. -/
theorem OnScreen.exec {s : Screen} (on : s.OnScreen) (op : Op) :
    (s.exec op).OnScreen ∧ (Adds s (s.exec op) ↔ s.Short op) := by
  cases op with
  | putc c =>
    obtain ⟨on', adds⟩ := keeps_cgaPutc c s on
    exact ⟨on', iff_of_true adds trivial⟩
  | scan data =>
    show (s.kbdProcData data).1.OnScreen ∧
      (Adds s (s.kbdProcData data).1 ↔ (s.IsDelete data → ¬ s.LongDelete))
    rw [kbdProcData]
    split
    · rename_i shift_ key
      refine ⟨on.shifted _, iff_of_true (Adds.refl s) fun ⟨_, _, press, _⟩ => ?_⟩
      rw [key] at press
      cases press
    · rename_i key shift press
      dsimp only
      split
      · rename_i delete
        obtain ⟨on', iff_⟩ := (on.shifted shift).deleteKey
        exact ⟨on', iff_.trans ⟨fun short _ => short, fun short =>
          short ⟨key, shift, press, delete⟩⟩⟩
      · rename_i other
        have notDelete : ¬ s.IsDelete data := by
          rintro ⟨_, _, press', delete⟩
          rw [press] at press'
          cases press'
          exact other delete
        have both : ∀ r : Screen × Int, r.1 = { s with shift := shift } →
            r.1.OnScreen ∧ (Adds s r.1 ↔ (s.IsDelete data → ¬ s.LongDelete)) := by
          intro r same
          rw [same]
          exact ⟨on.shifted shift, iff_of_true (Adds.refl s) fun delete => absurd delete notDelete⟩
        refine both _ ?_
        generalize (if shift &&& 8 ≠ 0 then swapCase (charcode shift key)
          else charcode shift key) = c
        split
        · rfl
        · split <;> rfl

end Screen

/-- Characters put out and scan codes read in any order, each of them admitted by `ok`; at
first the cursor is somewhere on the screen and no line has been typed. -/
inductive ScreenRun (ok : Screen → Screen.Op → Prop) : Screen → Prop
  | start {s : Screen} (pos : s.crtPos < crtSize) (none : s.textLength = 0)
      (fresh : s.accessed = []) : ScreenRun ok s
  | step {s : Screen} {op : Screen.Op} (run : ScreenRun ok s) (admitted : ok s op) :
      ScreenRun ok (s.exec op)

variable {ok : Screen → Screen.Op → Prop} {s : Screen}

theorem ScreenRun.onScreen (run : ScreenRun ok s) : s.OnScreen := by
  induction run with
  | start pos none _ => exact ⟨pos, Int.le_of_eq none.symm, by rw [none]; decide⟩
  | step _ _ ih => exact (ih.exec _).1

/-- **The screen is accessed in its bounds.**  In every run the cursor stays on the screen.  In
a run without a Delete key in a line of 75 characters or more, all accesses do. -/
theorem ScreenRun.stays (run : ScreenRun ok s) :
    s.crtPos < crtSize ∧
      ((∀ s op, ok s op → s.Short op) → ∀ i ∈ s.accessed, 0 ≤ i ∧ i < crtSize) := by
  refine ⟨run.onScreen.pos, fun short => ?_⟩
  induction run with
  | start _ _ fresh =>
    rw [fresh]
    exact fun i mem => absurd mem List.not_mem_nil
  | step run admitted ih =>
    exact ((run.onScreen.exec _).2.mpr (short _ _ admitted)).accessed ih

/-! ## A line of 75 characters -/

/-- The cursor at the start of the last row. -/
def lastRow : Screen := ⟨fun _ => 0, 1920, 0, 0, []⟩

/-- Two letters, a step to the left, and the Delete key, in the last row. -/
abbrev deleted : Screen :=
  ((((lastRow.exec (.putc 0x61#32)).exec (.putc 0x62#32)).exec (.putc 0xE4#32)).exec
    (.scan 0xE0)).exec (.scan 0x53)

/-- The Delete key has moved the rest of the line, and a new line moves the screen up. -/
theorem stays_deleted : (deleted.exec (.putc 0x0A#32)).crtPos < crtSize ∧
    ∀ i ∈ (deleted.exec (.putc 0x0A#32)).accessed, 0 ≤ i ∧ i < crtSize := by
  have letters : ScreenRun Screen.Short
      ((lastRow.exec (.putc 0x61#32)).exec (.putc 0x62#32)) :=
    .step (.step (.start (by decide) rfl rfl) trivial) trivial
  have escaped : ScreenRun Screen.Short
      ((((lastRow.exec (.putc 0x61#32)).exec (.putc 0x62#32)).exec (.putc 0xE4#32)).exec
        (.scan 0xE0)) :=
    .step (.step letters trivial) fun _ => by decide +kernel
  have run : ScreenRun Screen.Short (deleted.exec (.putc 0x0A#32)) :=
    .step (.step escaped fun _ => by decide +kernel) trivial
  obtain ⟨pos, bounds⟩ := run.stays
  exact ⟨pos, bounds fun _ _ short => short⟩

/-- The letter `a`, that many times. -/
def typed : Nat → Screen
  | 0 => lastRow
  | n + 1 => (typed n).exec (.putc 0x61#32)

theorem run_typed (n : Nat) : ScreenRun (fun _ _ => True) (typed n) := by
  induction n with
  | zero => exact .start (by decide) rfl rfl
  | succ n ih => exact .step ih trivial

/-- A letter in the last row makes the line longer. -/
theorem cgaPutc_letter {s : Screen} (row : s.crtPos = 1920 + s.textLength.toNat)
    (nonneg : 0 ≤ s.textLength) (room : s.textLength < 79) :
    (s.cgaPutc 0x61#32).crtPos = s.crtPos + 1 ∧
      (s.cgaPutc 0x61#32).textLength = s.textLength + 1 ∧ (s.cgaPutc 0x61#32).shift = s.shift := by
  have code :
      (if 0x61#32 &&& ~~~0xFF#32 = 0 then 0x61#32 ||| 0x0700#32 else 0x61#32) = 0x761#32 := by
    decide
  have wrote : s.switch (Screen.putc id 0x20#32) 0x761#32 =
      { { s with crtPos := (s.crtPos + 1) % 65536 }.write s.crtPos (0x761#32).toNat with
        textLength := s.textLength + 1 } := by
    have longer : (((s.crtPos + 1) % 65536 : Nat) : Int) > 1920 + s.textLength := by omega
    show (if 0x761#32 ≠ 0xE4#32 ∧ 0x761#32 ≠ 0xE5#32 then _ else s) = _
    rw [if_pos (by decide)]
    exact if_pos longer
  have stays : (s.crtPos + 1) % 65536 < 2000 := by omega
  rw [Screen.cgaPutc, Screen.putc, code, wrote, Screen.scroll_of_lt stays]
  exact ⟨Nat.mod_eq_of_lt (by omega), rfl, rfl⟩

theorem typed_row {n : Nat} (room : n ≤ 79) :
    (typed n).crtPos = 1920 + n ∧ (typed n).textLength = n ∧ (typed n).shift = 0 := by
  induction n with
  | zero => exact ⟨rfl, rfl, rfl⟩
  | succ n ih =>
    obtain ⟨pos, length, shift⟩ := ih (by omega)
    obtain ⟨pos', length', shift'⟩ := cgaPutc_letter (s := typed n) (by rw [pos, length]; rfl)
      (by omega) (by omega)
    refine ⟨?_, ?_, shift'.trans shift⟩
    · exact pos'.trans (by rw [pos]; rfl)
    · exact length'.trans (by rw [length]; rfl)

/-- A step back from the end of a line of 75 characters, and the two scan codes of the Delete
key: the cell behind the screen is read. -/
theorem delete_reads {s : Screen} (pos : s.crtPos = 1995) (length : s.textLength = 75)
    (shift : s.shift = 0) :
    (2000 : Int) ∈
      (((s.exec (.putc 228#32)).exec (.scan 0xE0)).exec (.scan 0x53)).accessed := by
  have code : (if 228#32 &&& ~~~0xFF#32 = 0 then 228#32 ||| 0x0700#32 else 228#32) =
      0x7E4#32 := by decide
  have moved : s.switch (Screen.putc id 0x20#32) 0x7E4#32 = { s with crtPos := 1994 } := by
    show (if s.crtPos > 0 then { s with crtPos := s.crtPos - 1 } else s) = _
    rw [pos]
    rfl
  have back : s.exec (.putc 228#32) = { s with crtPos := 1994 } := by
    show (s.switch (Screen.putc id 0x20#32)
      (if 228#32 &&& ~~~0xFF#32 = 0 then 228#32 ||| 0x0700#32 else 228#32)).scroll = _
    rw [code, moved]
    exact Screen.scroll_of_lt (show 1994 < 2000 by decide)
  have escaped : (s.exec (.putc 228#32)).exec (.scan 0xE0) =
      { s with crtPos := 1994, shift := 64 } := by
    rw [back]
    show { s with crtPos := 1994, shift := s.shift ||| 64 } = _
    rw [shift]
    rfl
  have deleted : (((s.exec (.putc 228#32)).exec (.scan 0xE0)).exec (.scan 0x53)).accessed =
      ({ s with crtPos := 1994, shift := 0 } : Screen).deleteKey.1.accessed := by
    have press : Screen.pressed 64 0x53 = (some 0xD3, 0) := by decide
    have key : Screen.charcode 0 0xD3 = Screen.keyDel := by decide
    rw [escaped]
    simp only [Screen.exec, Screen.kbdProcData, press, if_pos key]
  rw [deleted, Screen.deleteKey, if_pos (by rw [length]; decide), if_neg (by
    rw [length]
    show ¬ (1994 : Int) = 1920 + 75
    decide)]
  obtain ⟨-, -, l, eq, -, last⟩ := Screen.deleteLoop_spec
    { s with crtPos := 1994, textLength := s.textLength - 1, shift := 0 } (1994 : Nat)
    ((1994 : Nat) - 1925)
  rw [length] at last
  exact eq ▸ List.mem_append_right _ (last (show (1994 : Int) - 1925 ≤ 75 - 1 by decide))

/-- The Delete key one place before the end of a line of 75 characters leaves the screen. -/
theorem delete_leaves : ¬ ∀ s, ScreenRun (fun _ _ => True) s →
    s.crtPos < crtSize ∧ ∀ i ∈ s.accessed, 0 ≤ i ∧ i < crtSize := by
  intro stays
  obtain ⟨pos, length, shift⟩ := typed_row (Nat.le_of_ble_eq_true rfl : 75 ≤ 79)
  have run : ScreenRun (fun _ _ => True)
      ((((typed 75).exec (.putc 228#32)).exec (.scan 0xE0)).exec (.scan 0x53)) :=
    .step (.step (.step (run_typed 75) trivial) trivial) trivial
  exact absurd ((stays _ run).2 2000 (delete_reads pos length shift)).2 (by decide)

end Fos
