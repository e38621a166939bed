import Mathlib.Algebra.Group.Nat.Defs
import Mathlib.Data.List.Basic
import Mathlib.Tactic.Common

/-!
# Words in byte-addressed memory

Memory of bytes at 32-bit addresses, in which words are little-endian and may lie anywhere; and
the words that follow one another from an address on.

* `Mem.word`, `Mem.setWord`, `Mem.copy`: reading, writing, and the assignment of one range to
  another;
* `Mem.setHalf`, `Mem.memset`: writing 16 bits, and a range of equal bytes;
* `Holds`: a list of words in memory;
* `holds_memset`: a range that is cleared;
* `Holds.congr`: it depends on its own bytes only, so that what is written outside it keeps it;
* `Holds.set`, `Holds.setHalf`: writing one of the words.
-/

namespace X86

/-- Memory, by virtual address. -/
abbrev Mem := BitVec 32 → BitVec 8

/-- The word at an address. -/
def Mem.word (m : Mem) (a : BitVec 32) : BitVec 32 :=
  m (a + 3#32) ++ m (a + 2#32) ++ m (a + 1#32) ++ m a

/-- Writing the word at an address. -/
def Mem.setWord (m : Mem) (a w : BitVec 32) : Mem := fun x =>
  if (x - a).toNat < 4 then w.extractLsb' (8 * (x - a).toNat) 8 else m x

/-- Copying the `n` bytes from `src` on to `dst`. -/
def Mem.copy (m : Mem) (dst src : BitVec 32) (n : Nat) : Mem := fun x =>
  if (x - dst).toNat < n then m (src + (x - dst)) else m x

/-- Writing 16 bits. -/
def Mem.setHalf (m : Mem) (a : BitVec 32) (h : BitVec 16) : Mem := fun x =>
  if (x - a).toNat < 2 then h.extractLsb' (8 * (x - a).toNat) 8 else m x

/-- `memset(dst, c, n)`. -/
def Mem.memset (m : Mem) (dst : BitVec 32) (c : BitVec 8) (n : Nat) : Mem := fun x =>
  if (x - dst).toNat < n then c else m x

variable {m m' : Mem} {a b w : BitVec 32} {ws ws' : List (BitVec 32)} {n : Nat}

/-! ## Addresses -/

theorem add_sub_self (a k : BitVec 32) : a + k - a = k := by
  rw [BitVec.add_comm, BitVec.add_sub_cancel]

theorem toNat_add_ofNat_sub (a : BitVec 32) (lt : n < 2 ^ 32) :
    (a + BitVec.ofNat 32 n - a).toNat = n := by
  rw [add_sub_self, BitVec.toNat_ofNat, Nat.mod_eq_of_lt lt]

/-- The bytes of a range after its first word. -/
theorem add_four_add (a : BitVec 32) (n : Nat) :
    a + 4#32 + BitVec.ofNat 32 n = a + BitVec.ofNat 32 (n + 4) := by
  rw [BitVec.ofNat_add, BitVec.add_assoc, BitVec.add_comm 4#32]

/-! ## One word -/

/-- A word is its bytes. -/
theorem append_bytes (w : BitVec 32) : w.extractLsb' 24 8 ++ w.extractLsb' 16 8 ++
    w.extractLsb' 8 8 ++ w.extractLsb' 0 8 = w := by
  ext i lt
  simp only [BitVec.getElem_append, BitVec.getElem_extractLsb']
  grind

@[simp] theorem word_setWord (m : Mem) (a w : BitVec 32) : (m.setWord a w).word a = w := by
  simp only [Mem.word, Mem.setWord, add_sub_self, BitVec.sub_self]
  exact append_bytes w

/-- A word depends on its own bytes only. -/
theorem word_moved (same : ∀ i < 4, m' (b + BitVec.ofNat 32 i) = m (a + BitVec.ofNat 32 i)) :
    m'.word b = m.word a := by
  have first := same 0 (by decide)
  rw [BitVec.add_zero, BitVec.add_zero] at first
  rw [Mem.word, Mem.word, first, same 1 (by decide), same 2 (by decide), same 3 (by decide)]

/-- Words at two offsets of a structure. -/
theorem word_setWord_of_apart (m : Mem) (a w : BitVec 32) {j k : Nat}
    (apart : j + 4 ≤ k ∨ k + 4 ≤ j)
    (small : j + 4 ≤ 2 ^ 32 ∧ k + 4 ≤ 2 ^ 32) :
    (m.setWord (a + BitVec.ofNat 32 k) w).word (a + BitVec.ofNat 32 j) =
      m.word (a + BitVec.ofNat 32 j) := by
  refine word_moved fun i lt => if_neg ?_
  have far : a + BitVec.ofNat 32 j + BitVec.ofNat 32 i - (a + BitVec.ofNat 32 k) =
      BitVec.ofNat 32 (j + i) - BitVec.ofNat 32 k := by
    rw [BitVec.ofNat_add]
    bv_omega
  rw [far]
  bv_omega

/-- What is written elsewhere. -/
theorem setWord_of_ge (m : Mem) {x : BitVec 32} (w : BitVec 32) (out : 4 ≤ (x - a).toNat) :
    m.setWord a w x = m x :=
  if_neg (Nat.not_lt_of_le out)

theorem memset_of_ge (m : Mem) {x : BitVec 32} (c : BitVec 8) (out : n ≤ (x - a).toNat) :
    m.memset a c n x = m x :=
  if_neg (Nat.not_lt_of_le out)

theorem setHalf_of_ge (m : Mem) {x : BitVec 32} (h : BitVec 16) (out : 2 ≤ (x - a).toNat) :
    m.setHalf a h x = m x :=
  if_neg (Nat.not_lt_of_le out)

/-- The two halves of a word. -/
theorem append_halves (w : BitVec 32) (h : BitVec 16) : w.extractLsb' 24 8 ++ w.extractLsb' 16 8 ++
    h.extractLsb' 8 8 ++ h.extractLsb' 0 8 = w.extractLsb' 16 16 ++ h := by
  ext i lt
  simp only [BitVec.getElem_append, BitVec.getElem_extractLsb']
  grind

/-- The upper half of the word stays. -/
theorem word_setHalf (m : Mem) (a : BitVec 32) (h : BitVec 16) :
    (m.setHalf a h).word a = (m.word a).extractLsb' 16 16 ++ h := by
  rw [← append_halves]
  simp only [Mem.word, Mem.setHalf, add_sub_self, BitVec.sub_self]
  ext i lt
  simp only [BitVec.getElem_append, BitVec.getElem_extractLsb']
  grind

/-- Words at two offsets of a structure. -/
theorem word_setHalf_of_apart (m : Mem) (a : BitVec 32) (h : BitVec 16) {j k : Nat}
    (apart : j + 4 ≤ k ∨ k + 4 ≤ j) (small : j + 4 ≤ 2 ^ 32 ∧ k + 4 ≤ 2 ^ 32) :
    (m.setHalf (a + BitVec.ofNat 32 k) h).word (a + BitVec.ofNat 32 j) =
      m.word (a + BitVec.ofNat 32 j) := by
  refine word_moved fun i lt => setHalf_of_ge m h ?_
  have far : a + BitVec.ofNat 32 j + BitVec.ofNat 32 i - (a + BitVec.ofNat 32 k) =
      BitVec.ofNat 32 (j + i) - BitVec.ofNat 32 k := by
    rw [BitVec.ofNat_add]
    bv_omega
  rw [far]
  bv_omega

/-! ## Lists of words -/

/-- The words `ws` are in memory from the address `a` on. -/
def Holds (m : Mem) (a : BitVec 32) : List (BitVec 32) → Prop
  | [] => True
  | w :: ws => m.word a = w ∧ Holds m (a + 4#32) ws

@[simp] theorem holds_nil : Holds m a [] := trivial

@[simp] theorem holds_cons : Holds m a (w :: ws) ↔ m.word a = w ∧ Holds m (a + 4#32) ws := Iff.rfl

theorem holds_append : Holds m a (ws ++ ws') ↔
    Holds m a ws ∧ Holds m (a + BitVec.ofNat 32 (4 * ws.length)) ws' := by
  induction ws generalizing a with
  | nil => simp
  | cons w ws ih =>
    rw [List.cons_append, holds_cons, holds_cons, ih, add_four_add, List.length_cons, Nat.mul_succ,
      and_assoc]

theorem Holds.getElem (holds : Holds m a ws) {i : Nat} (lt : i < ws.length) :
    m.word (a + BitVec.ofNat 32 (4 * i)) = ws[i] := by
  induction ws generalizing a i with
  | nil => exact absurd lt (Nat.not_lt_zero i)
  | cons w ws ih =>
    cases i with
    | zero =>
      rw [Nat.mul_zero, BitVec.add_zero]
      exact holds.1
    | succ i =>
      rw [Nat.mul_succ, ← add_four_add]
      exact ih holds.2 (Nat.lt_of_succ_lt_succ lt)

theorem holds_of_getElem (same : ∀ i (lt : i < ws.length),
    m.word (a + BitVec.ofNat 32 (4 * i)) = ws[i]) : Holds m a ws := by
  induction ws generalizing a with
  | nil => trivial
  | cons w ws ih =>
    refine ⟨?_, ih fun i lt => ?_⟩
    · have first := same 0 (Nat.succ_pos _)
      rwa [Nat.mul_zero, BitVec.add_zero] at first
    · rw [add_four_add, ← Nat.mul_succ]
      exact same (i + 1) (Nat.succ_lt_succ lt)

/-- Writing one of the words. -/
theorem Holds.set (holds : Holds m a ws) (i : Nat) (w : BitVec 32) (fits : 4 * ws.length ≤ 2 ^ 32)
    (lt : i < ws.length) : Holds (m.setWord (a + BitVec.ofNat 32 (4 * i)) w) a (ws.set i w) := by
  refine holds_of_getElem fun j lt' => ?_
  rw [List.length_set] at lt'
  rw [List.getElem_set]
  split
  · rename_i same
    rw [← same, word_setWord]
  · rw [word_setWord_of_apart m a w (by omega) (by omega)]
    exact holds.getElem lt'

/-- The list of words depends on its own bytes only. -/
theorem Holds.congr (holds : Holds m a ws)
    (same : ∀ i < 4 * ws.length, m' (a + BitVec.ofNat 32 i) = m (a + BitVec.ofNat 32 i)) :
    Holds m' a ws := by
  refine holds_of_getElem fun i lt => ?_
  rw [← holds.getElem lt]
  refine word_moved fun k small => ?_
  rw [BitVec.add_assoc, ← BitVec.ofNat_add]
  exact same (4 * i + k) (by omega)

/-- An assignment elsewhere. -/
theorem copy_of_ge (m : Mem) {x : BitVec 32} (out : n ≤ (x - b).toNat) : m.copy b a n x = m x :=
  if_neg (Nat.not_lt_of_le out)

/-- A word put in front of others. -/
theorem Holds.push (holds : Holds m a ws) (w : BitVec 32) (fits : 4 * (ws.length + 1) ≤ 2 ^ 32) :
    Holds (m.setWord (a - 4#32) w) (a - 4#32) (w :: ws) := by
  refine ⟨word_setWord m _ w, ?_⟩
  rw [BitVec.sub_add_cancel]
  refine holds.congr fun i lt => setWord_of_ge m w ?_
  have far : a + BitVec.ofNat 32 i - (a - 4#32) = BitVec.ofNat 32 (i + 4) := by
    rw [BitVec.ofNat_add]
    bv_omega
  rw [far, BitVec.toNat_ofNat, Nat.mod_eq_of_lt (by omega)]
  omega

/-- A range of zeroes holds words that are zero. -/
theorem holds_memset (m : Mem) (a : BitVec 32) (k : Nat) (fits : 4 * k ≤ 2 ^ 32) :
    Holds (m.memset a 0 (4 * k)) a (List.replicate k 0) := by
  refine holds_of_getElem fun i lt => ?_
  rw [List.length_replicate] at lt
  rw [List.getElem_replicate]
  have zero : ∀ j < 4,
      m.memset a 0 (4 * k) (a + BitVec.ofNat 32 (4 * i) + BitVec.ofNat 32 j) = 0 := by
    intro j small
    rw [BitVec.add_assoc, ← BitVec.ofNat_add, Mem.memset, toNat_add_ofNat_sub a (by omega),
      if_pos (by omega)]
  exact (word_moved (m := fun _ => 0) (a := 0) zero).trans (by decide)

/-- Writing the lower half of one of the words. -/
theorem Holds.setHalf (holds : Holds m a ws) (i : Nat) (h : BitVec 16)
    (fits : 4 * ws.length ≤ 2 ^ 32) (lt : i < ws.length) :
    Holds (m.setHalf (a + BitVec.ofNat 32 (4 * i)) h) a
      (ws.set i (ws[i].extractLsb' 16 16 ++ h)) := by
  refine holds_of_getElem fun j lt' => ?_
  rw [List.length_set] at lt'
  rw [List.getElem_set]
  split
  · rename_i same
    subst same
    rw [word_setHalf, holds.getElem lt]
  · rw [word_setHalf_of_apart m a h (by omega) (by omega)]
    exact holds.getElem lt'

end X86
