import Fos.Memory.Kernel

/-!
# The bytes of a page

A page is 1024 words, and byte `k` of it is byte `k % 4` of word `k / 4`.

* `Page.byte`, `Page.setByte`, `pageOfBytes`: reading and writing bytes;
* `Page.byte_setByte`, `byte_pageOfBytes`, `Page.ext_byte`: what they have to do with each
  other.
-/

namespace Fos

/-- The byte at offset `k` of a page. -/
def Page.byte (p : Page) (k : Nat) : BitVec 8 :=
  (p ⟨k / 4 % 1024, Nat.mod_lt _ (by decide)⟩).extractLsb' (8 * (k % 4)) 8

/-- A word with the byte `k` replaced. -/
def setByteOf (w : Word) (k : Nat) (b : BitVec 8) : Word :=
  (w &&& ~~~(0xFF#32 <<< (8 * k))) ||| (b.setWidth 32 <<< (8 * k))

/-- The page with the byte at offset `k` replaced. -/
def Page.setByte (p : Page) (k : Nat) (b : BitVec 8) : Page :=
  let i : Fin 1024 := ⟨k / 4 % 1024, Nat.mod_lt _ (by decide)⟩
  Function.update p i (setByteOf (p i) (k % 4) b)

/-- The page that the bytes `b` make up. -/
def pageOfBytes (b : Nat → BitVec 8) : Page :=
  fun i => b (4 * i + 3) ++ b (4 * i + 2) ++ b (4 * i + 1) ++ b (4 * i)

section Words

variable (w : Word) (b : BitVec 8) {j k : Nat}

theorem getLsbD_mask (i : Nat) : (0xFF#32).getLsbD i = decide (i < 8) := by
  rw [show (0xFF#32) = BitVec.ofNat 32 (2 ^ 8 - 1) from rfl, BitVec.getLsbD_ofNat,
    Nat.testBit_two_pow_sub_one]
  simp only [Bool.and_eq_decide, decide_eq_true_eq]
  congr 1
  exact propext (by omega)

theorem extract_setByteOf (lt : k < 4) :
    (setByteOf w k b).extractLsb' (8 * k) 8 = b := by
  refine BitVec.eq_of_getLsbD_eq fun i small => ?_
  have bound : 8 * k + i < 32 := by omega
  have le : ¬ 8 * k + i < 8 * k := by omega
  have rest : 8 * k + i - 8 * k = i := by omega
  simp only [setByteOf, BitVec.getLsbD_extractLsb', small, decide_true, Bool.true_and,
    BitVec.getLsbD_or, BitVec.getLsbD_and, BitVec.getLsbD_not, BitVec.getLsbD_shiftLeft, bound,
    getLsbD_mask, BitVec.getLsbD_setWidth, le, rest]
  simp only [decide_true, Bool.not_true, Bool.and_false, Bool.false_or, decide_false,
    Bool.not_false, Bool.true_and, show i < 32 by omega]

theorem extract_setByteOf_of_ne (lt : j < 4) (ne : j ≠ k) :
    (setByteOf w k b).extractLsb' (8 * j) 8 = w.extractLsb' (8 * j) 8 := by
  refine BitVec.eq_of_getLsbD_eq fun i small => ?_
  have bound : 8 * j + i < 32 := by omega
  simp only [setByteOf, BitVec.getLsbD_extractLsb', small, decide_true, Bool.true_and,
    BitVec.getLsbD_or, BitVec.getLsbD_and, BitVec.getLsbD_not, BitVec.getLsbD_shiftLeft, bound,
    getLsbD_mask, BitVec.getLsbD_setWidth]
  by_cases le : 8 * k ≤ 8 * j + i
  · have high : 8 ≤ 8 * j + i - 8 * k := by omega
    simp [BitVec.getLsbD_of_ge b _ high, Nat.not_lt_of_le high]
  · simp [Nat.lt_of_not_le le]

/-- Words are equal if their bytes are. -/
theorem ext_bytes {w w' : Word}
    (bytes : ∀ k < 4, w.extractLsb' (8 * k) 8 = w'.extractLsb' (8 * k) 8) : w = w' := by
  refine BitVec.eq_of_getLsbD_eq fun i small => ?_
  have eq := congrArg (fun x => x.getLsbD (i % 8)) (bytes (i / 8) (by omega))
  have split : 8 * (i / 8) + i % 8 = i := by omega
  have lt : i % 8 < 8 := by omega
  simpa [lt, split, BitVec.getLsbD_extractLsb'] using eq

/-- The bytes of a word that is put together from bytes. -/
theorem extract_append (b₀ b₁ b₂ b₃ : BitVec 8) (k : Nat) (lt : k < 4) :
    (b₃ ++ b₂ ++ b₁ ++ b₀).extractLsb' (8 * k) 8 =
      if k = 0 then b₀ else if k = 1 then b₁ else if k = 2 then b₂ else b₃ := by
  refine BitVec.eq_of_getLsbD_eq fun i small => ?_
  simp only [BitVec.getLsbD_extractLsb', BitVec.getLsbD_append, small, decide_true, Bool.true_and]
  rcases (by omega : k = 0 ∨ k = 1 ∨ k = 2 ∨ k = 3) with rfl | rfl | rfl | rfl
  · simp [small]
  · simp only [show ¬ 8 * 1 + i < 8 by omega, show 8 * 1 + i - 8 = i by omega, small]
    simp
  · simp only [show ¬ 8 * 2 + i < 8 by omega, show ¬ 8 * 2 + i - 8 < 8 by omega,
      show 8 * 2 + i - 8 - 8 = i by omega, small]
    simp
  · simp only [show ¬ 8 * 3 + i < 8 by omega, show ¬ 8 * 3 + i - 8 < 8 by omega,
      show ¬ 8 * 3 + i - 8 - 8 < 8 by omega, show 8 * 3 + i - 8 - 8 - 8 = i by omega]
    simp

end Words

theorem byte_ne {k k' : Nat} (lt : k < pageSize) (lt' : k' < pageSize)
    (same : k / 4 % 1024 = k' / 4 % 1024) (ne : k ≠ k') : k % 4 ≠ k' % 4 := by
  simp only [pageSize] at lt lt'
  omega

theorem Page.byte_setByte (p : Page) (b : BitVec 8) {k k' : Nat} (lt : k < pageSize)
    (lt' : k' < pageSize) :
    (p.setByte k b).byte k' = if k' = k then b else p.byte k' := by
  unfold Page.setByte Page.byte
  by_cases eq : k' = k
  · subst eq
    simp only [Function.update_self, if_true]
    exact extract_setByteOf _ _ (Nat.mod_lt _ (by decide))
  · rw [if_neg eq]
    by_cases word : k' / 4 % 1024 = k / 4 % 1024
    · simp only [word, Function.update_self]
      exact extract_setByteOf_of_ne _ _ (Nat.mod_lt _ (by decide)) (byte_ne lt' lt word eq)
    · rw [Function.update_of_ne]
      exact fun same => word (congrArg Fin.val same)

/-- Pages are equal if their bytes are. -/
theorem Page.ext_byte {p q : Page} (bytes : ∀ k < pageSize, p.byte k = q.byte k) : p = q := by
  funext i
  refine ext_bytes fun k lt => ?_
  have word : (4 * i.val + k) / 4 % 1024 = i := by omega
  have byte : (4 * i.val + k) % 4 = k := by omega
  have eq := bytes (4 * i + k) (by simp only [pageSize]; omega)
  simpa only [Page.byte, word, byte, Fin.eta] using eq

theorem byte_pageOfBytes (b : Nat → BitVec 8) {k : Nat} (lt : k < pageSize) :
    (pageOfBytes b).byte k = b k := by
  simp only [pageSize] at lt
  have word : k / 4 % 1024 = k / 4 := by omega
  simp only [Page.byte, pageOfBytes, word]
  rw [extract_append _ _ _ _ _ (Nat.mod_lt _ (by decide))]
  have parts := Nat.div_add_mod k 4
  split
  · congr 1
    omega
  · split
    · congr 1
      omega
    · split
      · congr 1
        omega
      · congr 1
        omega

theorem byte_zeroes (k : Nat) : Page.byte zeroes k = 0 := by
  simp [Page.byte, zeroes]

end Fos
