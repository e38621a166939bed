import Mathlib.Data.Fintype.Basic
import Mathlib.Data.Fintype.Prod
import Fos.Arena.Count
import Fos.Memory.Mapping

/-!
# Reference counts count mappings

Runs of `map_frame` and `unmap_frame` over frames that `allocate_frame` has handed out, in
any page directories; a frame may be mapped at many addresses.

* `Ledger`: which frames are handed out and not freed, and what was mapped last where;
* `Accounts`: the entries are those of the ledger and `references` counts them;
* `Accounts.call`: every call keeps that, and frees a frame with its last mapping;
* `MapRun.counts`: the law for every run.
-/

namespace Fos

open Arena Linked Exec

/-- The user addresses of page directories, page by page. -/
abbrev Slot := Nat × PageNo

/-- The slots of the given directories. -/
def slotsOf (dirs : Finset Nat) : Finset Slot :=
  dirs ×ˢ Finset.univ.filter fun p : PageNo => p.1 < 955

theorem mem_slotsOf {dirs : Finset Nat} {k : Slot} :
    k ∈ slotsOf dirs ↔ k.1 ∈ dirs ∧ k.2.1 < 955 := by
  simp [slotsOf]

/-- The frame that an entry holds. -/
def heldBy (w : Word) : Option Nat := if w = 0 then none else some (frameOf w)

/-- The frames that have been handed out and not freed since, and the frame that was mapped
last in each slot and not unmapped since. -/
structure Ledger where
  owned : Set Nat
  mapped : Slot → Option Nat

namespace Ledger

/-- Nothing has been handed out. -/
def empty : Ledger := ⟨∅, fun _ => none⟩

/-- A slot is assigned; a frame whose last mapping goes is freed. -/
def assign (dirs : Finset Nat) (b : Ledger) (k : Slot) (x : Option Nat) : Ledger where
  mapped := Function.update b.mapped k x
  owned := {f | f ∈ b.owned ∧
    ¬ (b.mapped k = some f ∧ holders (slotsOf dirs) (Function.update b.mapped k x) f = ∅)}

/-- A frame is handed out. -/
def handOut (b : Ledger) (f : Nat) : Ledger := { b with owned := insert f b.owned }

end Ledger

/-- The calls of a run. -/
inductive MapCall where
  | allocate
  | map (d f va : Nat) (perm : Word)
  | unmap (d va : Nat)

namespace MapCall

/-- The function that is called, with the frame that `allocate_frame` stores. -/
def prog : MapCall → Prog Nat
  | .allocate => allocateFrame
  | .map d f va perm => do
    mapFrame d f va perm
    return 0
  | .unmap d va => do
    unmapFrame d va
    return 0

/-- The ledger after a call, given its result. -/
def record (dirs : Finset Nat) (b : Ledger) (r : Nat) : MapCall → Ledger
  | .allocate => b.handOut r
  | .map d f va _ => b.assign dirs (d, pageNo va) (some f)
  | .unmap d va => b.assign dirs (d, pageNo va) none

/-- Frames are mapped while they are handed out, at user addresses, with permission bits, and
at no more than 65535 addresses at a time. -/
def Allowed (dirs : Finset Nat) (b : Ledger) : MapCall → Prop
  | .allocate => True
  | .map d f va perm => d ∈ dirs ∧ UserVa va ∧ f ∈ b.owned ∧ IsPerm (perm ||| permPresent) ∧
      (holders (slotsOf dirs) (Function.update b.mapped (d, pageNo va) (some f)) f).card ≤ 65535
  | .unmap d va => d ∈ dirs ∧ UserVa va

/-- The slot that a call is about. -/
def slot : MapCall → Option Slot
  | .allocate => none
  | .map d _ va _ => some (d, pageNo va)
  | .unmap d va => some (d, pageNo va)

end MapCall

/-- The entries are those of the ledger, they refer to frames that are handed out, and
`references` counts them. -/
structure Accounts (dirs : Finset Nat) (s : Kernel) (b : Ledger) (a : TableView)
    (free : List Nat) : Prop where
  tabled : Tabled s a free
  placed : ∀ d, d ∈ dirs ↔ a.place (.dir d) = some d
  owned : ∀ f ∈ b.owned, a.use f = .taken
  entry : ∀ k ∈ slotsOf dirs, b.mapped k = heldBy (a.page (.table k.1 k.2.1) k.2.2)
  present : ∀ k ∈ slotsOf dirs, a.page (.table k.1 k.2.1) k.2.2 ≠ 0 →
    present (a.page (.table k.1 k.2.1) k.2.2)
  held : ∀ k ∈ slotsOf dirs, ∀ f, b.mapped k = some f → f ∈ b.owned
  refs : ∀ f ∈ b.owned, (s.references f).toNat = (holders (slotsOf dirs) b.mapped f).card

variable {dirs : Finset Nat} {s : Kernel} {b : Ledger} {a : TableView} {free rest : List Nat}
  {d f t va : Nat}

theorem Accounts.not_free (accounts : Accounts dirs s b a free) (owned : f ∈ b.owned) :
    f ∉ free := by
  rw [accounts.tabled.free_use, accounts.owned f owned]
  rintro ⟨⟩

/-! ## The steps -/

theorem Accounts.allocate (accounts : Accounts dirs s b a (f :: rest)) :
    Accounts dirs (s.takeFrame f) (b.handOut f) (a.retire f .taken) rest := by
  have fresh : f ∉ b.owned := fun owned => accounts.not_free owned (by simp)
  have nobody : holders (slotsOf dirs) b.mapped f = ∅ := by
    refine Finset.eq_empty_of_forall_notMem fun k member => ?_
    rw [mem_holders] at member
    exact fresh (accounts.held k member.1 f member.2)
  refine ⟨accounts.tabled.takeFrame, accounts.placed, fun g owned => ?_, accounts.entry,
    accounts.present,
    fun k member g held => Set.mem_insert_of_mem _ (accounts.held k member g held),
    fun g owned => ?_⟩
  · rcases owned with rfl | owned
    · simp [Arena.View.retire]
    · have ne : g ≠ f := fun eq => fresh (eq ▸ owned)
      simpa [Arena.View.retire, Function.update_of_ne ne] using accounts.owned g owned
  · rcases owned with rfl | owned
    · simp [Kernel.takeFrame, Kernel.initializeFrameInfo, Ledger.handOut, nobody]
    · have ne : g ≠ f := fun eq => fresh (eq ▸ owned)
      have same : (s.takeFrame f).references g = s.references g :=
        Function.update_of_ne ne ..
      rw [same]
      exact accounts.refs g owned

/-- A new table has no entries. -/
theorem Accounts.withTable {i : Fin 1024} (accounts : Accounts dirs s b a (t :: rest))
    (dir : d ∈ dirs) (user : i < 955) (absent : a.place (.table d i) = none) :
    Accounts dirs (s.withTable d i t) b (newTableIn a d i t) rest := by
  have page : ∀ d' i', (newTableIn a d i t).page (.table d' i') = a.page (.table d' i') :=
    accounts.tabled.dirs.newTableIn_page absent
  have fresh : ∀ g ∈ b.owned, g ≠ t := by
    rintro g owned rfl
    exact accounts.not_free owned (by simp)
  refine ⟨accounts.tabled.withTable ((accounts.placed d).mp dir) user absent, fun d' => ?_,
    fun g owned => ?_, fun k member => ?_, fun k member => ?_, accounts.held, fun g owned => ?_⟩
  · rw [(newTableIn_place ..).1]
    exact accounts.placed d'
  · simpa [newTableIn, Arena.View.put, Arena.View.write,
      Function.update_of_ne (fresh g owned)] using accounts.owned g owned
  · rw [page]
    exact accounts.entry k member
  · rw [page]
    exact accounts.present k member
  · have same : (s.withTable d i t).references g = s.references g := by
      simp [Kernel.withTable, Kernel.setPage, Kernel.setWord, Kernel.setReferences,
        Kernel.takeFrame, Kernel.initializeFrameInfo, Function.update_of_ne (fresh g owned),
        Kernel.removeFrame]
    rw [same]
    exact accounts.refs g owned

/-- A frame that is handed out goes back to the free list. -/
theorem Tabled.giveFrame (tabled : Tabled s a free) (taken : a.use f = .taken) :
    Tabled ((s.initializeFrameInfo f).insertFrame f) (a.retire f .free) (f :: free) := by
  have loose : (a.use f).Loose := by
    rw [taken]
    exact loose_taken
  have notin : f ∉ free := by
    rw [tabled.free_use, taken]
    rintro ⟨⟩
  refine ⟨⟨tabled.dirs.wf.retire loose loose_free, tabled.dirs.stores, tabled.dirs.self,
    tabled.dirs.present⟩, freeFrame_rep tabled.freeList notin, fun g => ?_, fun g ne => ?_,
    tabled.small⟩
  · rcases eq_or_ne g f with rfl | ne
    · simp [Arena.View.retire]
    · have free := tabled.free_use g
      simpa [Arena.View.retire, Function.update_of_ne ne, ne] using free
  · rcases eq_or_ne g f with rfl | other
    · exact tabled.bound g (by simp [taken])
    · refine tabled.bound g ?_
      simpa [Arena.View.retire, Function.update_of_ne other] using ne

/-- The entry of a slot after a write to the entry of `k`. -/
theorem write_page {k k' : Slot} {w : Word} :
    (a.write (.table k.1 k.2.1) k.2.2 w).page (.table k'.1 k'.2.1) k'.2.2 =
      if k' = k then w else a.page (.table k'.1 k'.2.1) k'.2.2 := by
  obtain ⟨d, i, j⟩ := k
  obtain ⟨d', i', j'⟩ := k'
  simp only [Arena.View.write]
  by_cases same : TableObj.table d' i' = .table d i
  · obtain ⟨rfl, rfl⟩ := TableObj.table.inj same
    rw [Function.update_self]
    by_cases eq : j' = j
    · simp [eq]
    · rw [Function.update_of_ne eq, if_neg (by simp [eq])]
  · rw [Function.update_of_ne same, if_neg]
    rintro ⟨⟩
    exact same rfl

theorem heldBy_of_ne {w : Word} (ne : w ≠ 0) : heldBy w = some (frameOf w) := if_neg ne

/-- An entry that is zero comes to hold a frame, which has one more mapping. -/
theorem Accounts.fill {k : Slot} {perm : Word} (accounts : Accounts dirs s b a free)
    (member : k ∈ slotsOf dirs) (table : a.place (.table k.1 k.2.1) = some t)
    (empty : b.mapped k = none) (owned : f ∈ b.owned) (isPerm : IsPerm (perm ||| permPresent))
    (few : (holders (slotsOf dirs) (Function.update b.mapped k (some f)) f).card ≤ 65535) :
    Accounts dirs (s.addMapping f t k.2.2 perm) (b.assign dirs k (some f))
      (a.write (.table k.1 k.2.1) k.2.2
        (constructEntry (toPhysicalAddress f) (perm ||| permPresent))) free := by
  have bit := present_constructEntry f perm
  have small : f < 1048576 := by
    have lt := accounts.tabled.bound f (by simp [accounts.owned f owned])
    exact lt.trans_le accounts.tabled.small
  have frame : frameOf (constructEntry (toPhysicalAddress f) (perm ||| permPresent)) = f :=
    frameOf_constructEntry small isPerm
  have same : (b.assign dirs k (some f)).owned = b.owned := by
    ext g
    simp [Ledger.assign, empty]
  refine ⟨(accounts.tabled.setReferences f _).setEntry table _ _, accounts.placed,
    fun g mem => accounts.owned g (same ▸ mem), fun k' member' => ?_, fun k' member' => ?_,
    fun k' member' g held => ?_, fun g mem => ?_⟩
  · rw [write_page]
    rcases eq_or_ne k' k with rfl | ne
    · rw [if_pos rfl, heldBy_of_ne (ne_zero_of_present bit), frame]
      exact Function.update_self ..
    · rw [if_neg ne, ← accounts.entry k' member']
      exact Function.update_of_ne ne ..
  · rw [write_page]
    split
    · exact fun _ => bit
    · exact accounts.present k' member'
  · rw [same]
    rcases eq_or_ne k' k with rfl | ne
    · simp only [Ledger.assign, Function.update_self, Option.some.injEq] at held
      exact held ▸ owned
    · simp only [Ledger.assign, Function.update_of_ne ne] at held
      exact accounts.held k' member' g held
  · rw [same] at mem
    have count := card_holders_update (m := b.mapped) member (some f) g
    have old := accounts.refs g mem
    simp only [empty, reduceCtorEq, if_false, Nat.add_zero] at count
    change ((s.setReferences f (s.references f + 1)).references g).toNat =
      (holders (slotsOf dirs) (Function.update b.mapped k (some f)) g).card
    rcases eq_or_ne g f with rfl | ne
    · rw [if_pos rfl] at count
      have step : (s.references g + 1).toNat = (s.references g).toNat + 1 := by
        have one : (1 : BitVec 16).toNat = 1 := rfl
        rw [BitVec.toNat_add, one, Nat.mod_eq_of_lt]
        omega
      simp only [Kernel.setReferences, Function.update_self, step]
      omega
    · have other : ¬ some f = some g := by simpa using ne.symm
      rw [if_neg other] at count
      simp only [Kernel.setReferences, Function.update_of_ne ne]
      omega

/-- An entry is cleared; a frame whose last mapping this was goes to the free list. -/
theorem Accounts.drop {k : Slot} (accounts : Accounts dirs s b a free)
    (member : k ∈ slotsOf dirs) (table : a.place (.table k.1 k.2.1) = some t)
    (held : b.mapped k = some f) :
    ∃ a' free', Accounts dirs ((s.dropReference f).setWord t k.2.2 0) (b.assign dirs k none)
      a' free' ∧ (f ∉ (b.assign dirs k none).owned → f ∈ free' ∧
        ((s.dropReference f).setWord t k.2.2 0).references f = 0) ∧
      a'.place = a.place ∧ a'.page = (a.write (.table k.1 k.2.1) k.2.2 0).page := by
  have owned := accounts.held k member f held
  have taken := accounts.owned f owned
  have counted := accounts.refs f owned
  have counts : ∀ g, (holders (slotsOf dirs) (Function.update b.mapped k none) g).card +
      (if f = g then 1 else 0) = (holders (slotsOf dirs) b.mapped g).card := by
    intro g
    have count := card_holders_update (m := b.mapped) member none g
    simpa [held] using count
  have mine := counts f
  rw [if_pos rfl] at mine
  -- the entries do not depend on what becomes of the frame
  have entries : ∀ k' ∈ slotsOf dirs, Function.update b.mapped k none k' =
      heldBy ((a.write (.table k.1 k.2.1) k.2.2 0).page (.table k'.1 k'.2.1) k'.2.2) := by
    intro k' member'
    rw [write_page]
    rcases eq_or_ne k' k with rfl | ne
    · rw [if_pos rfl]
      exact Function.update_self ..
    · rw [if_neg ne, ← accounts.entry k' member']
      exact Function.update_of_ne ne ..
  have presents : ∀ k' ∈ slotsOf dirs,
      (a.write (.table k.1 k.2.1) k.2.2 0).page (.table k'.1 k'.2.1) k'.2.2 ≠ 0 →
      Fos.present ((a.write (.table k.1 k.2.1) k.2.2 0).page (.table k'.1 k'.2.1) k'.2.2) := by
    intro k' member'
    rw [write_page]
    split
    · exact fun ne => absurd rfl ne
    · exact accounts.present k' member'
  have still : ∀ k' ∈ slotsOf dirs, ∀ g, Function.update b.mapped k none k' = some g →
      g ∈ (b.assign dirs k none).owned := by
    intro k' member' g here
    rcases eq_or_ne k' k with rfl | ne
    · simp at here
    · refine ⟨accounts.held k' member' g (by rwa [Function.update_of_ne ne] at here), ?_⟩
      rintro ⟨-, nobody⟩
      have there : k' ∈ holders (slotsOf dirs) (Function.update b.mapped k none) g :=
        mem_holders.mpr ⟨member', here⟩
      rw [nobody] at there
      simp at there
  have old : ∀ g ∈ (b.assign dirs k none).owned, g ∈ b.owned := fun g mem => mem.1
  by_cases last : s.references f = 1
  · -- the last mapping: the frame is freed
    have none_left : holders (slotsOf dirs) (Function.update b.mapped k none) f = ∅ := by
      rw [last] at counted
      have one : (1 : BitVec 16).toNat = 1 := rfl
      rw [one] at counted
      exact Finset.card_eq_zero.mp (by omega)
    have gone : ∀ g ∈ (b.assign dirs k none).owned, g ≠ f := by
      rintro g mem rfl
      exact mem.2 ⟨held, none_left⟩
    have state : (s.dropReference f).setWord t k.2.2 0 =
        ((s.initializeFrameInfo f).insertFrame f).setWord t k.2.2 0 := by
      rw [Kernel.dropReference, if_pos last]
    rw [state]
    refine ⟨(a.retire f .free).write (.table k.1 k.2.1) k.2.2 0, f :: free,
      ⟨(accounts.tabled.giveFrame taken).setEntry table _ _, accounts.placed, fun g mem => ?_,
        entries, presents, still, fun g mem => ?_⟩, fun _ => ⟨by simp, Function.update_self ..⟩,
      rfl, rfl⟩
    · simpa [Arena.View.write, Arena.View.retire, Function.update_of_ne (gone g mem)]
        using accounts.owned g mem.1
    · have ne := gone g mem
      have count := counts g
      rw [if_neg ne.symm] at count
      have same : (((s.initializeFrameInfo f).insertFrame f).setWord t k.2.2 0).references g =
          s.references g := Function.update_of_ne ne ..
      rw [same, accounts.refs g mem.1, ← count]
      rfl
  · -- other mappings are left
    have one : (1 : BitVec 16).toNat = 1 := rfl
    have less : (s.references f - 1).toNat = (s.references f).toNat - 1 := by
      rw [BitVec.toNat_sub_of_le, one]
      rw [BitVec.le_def, one]
      omega
    have many : (s.references f).toNat ≠ 1 := fun eq => last (BitVec.eq_of_toNat_eq eq)
    have some_left : holders (slotsOf dirs) (Function.update b.mapped k none) f ≠ ∅ := by
      intro nobody
      rw [nobody, Finset.card_empty] at mine
      omega
    have same : (b.assign dirs k none).owned = b.owned := by
      ext g
      refine ⟨fun mem => mem.1, fun mem => ⟨mem, ?_⟩⟩
      rintro ⟨here, nobody⟩
      obtain rfl : f = g := by simpa [held] using here
      exact some_left nobody
    have state : (s.dropReference f).setWord t k.2.2 0 =
        (s.setReferences f (s.references f - 1)).setWord t k.2.2 0 := by
      rw [Kernel.dropReference, if_neg last]
    rw [state]
    refine ⟨a.write (.table k.1 k.2.1) k.2.2 0, free,
      ⟨(accounts.tabled.setReferences f _).setEntry table _ _, accounts.placed,
        fun g mem => accounts.owned g mem.1, entries, presents, still, fun g mem => ?_⟩,
      fun gone => absurd (same ▸ owned) gone, rfl, rfl⟩
    have count := counts g
    have old := accounts.refs g mem.1
    change ((s.setReferences f (s.references f - 1)).references g).toNat =
      (holders (slotsOf dirs) (Function.update b.mapped k none) g).card
    rcases eq_or_ne g f with rfl | ne
    · rw [if_pos rfl] at count
      simp only [Kernel.setReferences, Function.update_self, less]
      omega
    · rw [if_neg ne.symm] at count
      simp only [Kernel.setReferences, Function.update_of_ne ne]
      omega

/-! ## The calls -/

/-- A frame that is mapped where it was mapped already. -/
theorem Ledger.assign_same {k : Slot} (member : k ∈ slotsOf dirs) (held : b.mapped k = some f) :
    b.assign dirs k (some f) = b := by
  have update : Function.update b.mapped k (some f) = b.mapped := by
    rw [← held, Function.update_eq_self]
  have holder : k ∈ holders (slotsOf dirs) b.mapped f := mem_holders.mpr ⟨member, held⟩
  cases b with
  | mk owned mapped =>
    simp only [Ledger.assign, Ledger.mk.injEq] at *
    refine ⟨?_, update⟩
    ext g
    refine ⟨fun mem => mem.1, fun mem => ⟨mem, ?_⟩⟩
    rintro ⟨here, nobody⟩
    obtain rfl : f = g := by simpa [held] using here
    rw [update] at nobody
    simp [nobody] at holder

/-- Assigning a slot is emptying it first. -/
theorem Ledger.assign_assign {k : Slot} (member : k ∈ slotsOf dirs) (other : b.mapped k ≠ some f) :
    (b.assign dirs k none).assign dirs k (some f) = b.assign dirs k (some f) := by
  simp only [Ledger.assign, Function.update_self, Function.update_idem, Ledger.mk.injEq, and_true]
  ext g
  have count := card_holders_update (m := b.mapped) member none g
  have count' := card_holders_update (m := b.mapped) member (some f) g
  simp only [Set.mem_ofPred_eq, reduceCtorEq, false_and, not_false_eq_true, and_true]
  refine and_congr_right fun _ => not_congr (and_congr_right fun here => ?_)
  have ne : ¬ some f = some g := fun eq => other (here.trans eq.symm)
  rw [if_neg ne] at count'
  have absent : ¬ (none : Option Nat) = some g := by simp
  rw [if_neg absent] at count
  rw [← Finset.card_eq_zero, ← Finset.card_eq_zero]
  omega

theorem Ledger.assign_none {k : Slot} (empty : b.mapped k = none) : b.assign dirs k none = b := by
  have update : Function.update b.mapped k none = b.mapped := by
    rw [← empty, Function.update_eq_self]
  cases b with
  | mk owned mapped =>
    simp only [Ledger.assign, Ledger.mk.injEq] at *
    refine ⟨?_, update⟩
    ext g
    simp [empty]

/-- A call frees no frame but the one that was mapped at its address. -/
theorem Ledger.freed {k : Slot} {x : Option Nat} (mem : f ∈ b.owned)
    (gone : f ∉ (b.assign dirs k x).owned) : b.mapped k = some f := by
  by_contra other
  exact gone ⟨mem, fun h => other h.1⟩

/-- What a call does to the accounts: the ledger is kept, a frame is freed with its last
mapping, and the other entries stay. -/
def Recorded (dirs : Finset Nat) (b b' : Ledger) (a : TableView) (k : Option Slot) (s' : Kernel) :
    Prop :=
  ∃ a' free', Accounts dirs s' b' a' free' ∧
    (∀ f ∈ b.owned, f ∉ b'.owned → f ∈ free' ∧ s'.references f = 0) ∧
    ∀ k' ∈ slotsOf dirs, some k' ≠ k →
      a'.page (.table k'.1 k'.2.1) k'.2.2 = a.page (.table k'.1 k'.2.1) k'.2.2

theorem Accounts.mapped_iff {k : Slot} (accounts : Accounts dirs s b a free)
    (member : k ∈ slotsOf dirs) (f : Nat) : b.mapped k = some f ↔
      a.page (.table k.1 k.2.1) k.2.2 ≠ 0 ∧ frameOf (a.page (.table k.1 k.2.1) k.2.2) = f := by
  rw [accounts.entry k member, heldBy]
  split <;> simp_all

theorem Accounts.unmap (accounts : Accounts dirs s b a free) (dir : d ∈ dirs) (user : UserVa va) :
    wp (unmapFrame d va) (fun _ s' => Recorded dirs b (b.assign dirs (d, pageNo va) none) a
      (some (d, pageNo va)) s') (fun _ _ => True) s := by
  have member : (d, pageNo va) ∈ slotsOf dirs := mem_slotsOf.mpr ⟨dir, user⟩
  apply accounts.tabled.unmapFrame_wp ((accounts.placed d).mp dir) user
  · intro zero
    have empty : b.mapped (d, pageNo va) = none :=
      (accounts.entry _ member).trans (if_pos zero)
    rw [Ledger.assign_none empty]
    exact ⟨a, free, accounts, fun f mem gone => absurd mem gone, fun _ _ _ => rfl⟩
  · intro t table entry _
    have held : b.mapped (d, pageNo va) = some (frameOf (entryIn a d va)) :=
      (accounts.mapped_iff member _).mpr ⟨entry, rfl⟩
    obtain ⟨a', free', accounts', gives, -, pages⟩ := accounts.drop member table held
    refine ⟨a', free', accounts', fun f mem gone => ?_, fun k' _ ne => ?_⟩
    · obtain rfl : frameOf (entryIn a d va) = f := by
        simpa [held] using Ledger.freed mem gone
      exact gives gone
    · rw [pages, write_page, if_neg]
      rintro rfl
      exact ne rfl
  · exact fun _ _ => trivial

/-- A frame is mapped where no frame is. -/
theorem Accounts.fill_recorded {perm : Word} (accounts : Accounts dirs s b a free)
    (dir : d ∈ dirs) (user : UserVa va) (table : a.place (.table d (pdx va)) = some t)
    (empty : b.mapped (d, pageNo va) = none) (owned : f ∈ b.owned)
    (isPerm : IsPerm (perm ||| permPresent))
    (few : (holders (slotsOf dirs) (Function.update b.mapped (d, pageNo va) (some f)) f).card ≤
      65535) :
    Recorded dirs b (b.assign dirs (d, pageNo va) (some f)) a (some (d, pageNo va))
      (s.addMapping f t (ptx va) perm) := by
  have member : (d, pageNo va) ∈ slotsOf dirs := mem_slotsOf.mpr ⟨dir, user⟩
  refine ⟨_, _, accounts.fill member table empty owned isPerm few, fun g mem gone => ?_,
    fun k' _ ne => ?_⟩
  · have held := Ledger.freed mem gone
    rw [empty] at held
    cases held
  · rw [write_page, if_neg]
    rintro rfl
    exact ne rfl

theorem Accounts.map {perm : Word} (accounts : Accounts dirs s b a free) (dir : d ∈ dirs)
    (user : UserVa va) (owned : f ∈ b.owned) (isPerm : IsPerm (perm ||| permPresent))
    (few : (holders (slotsOf dirs) (Function.update b.mapped (d, pageNo va) (some f)) f).card ≤
      65535) :
    wp (mapFrame d f va perm) (fun _ s' => Recorded dirs b
      (b.assign dirs (d, pageNo va) (some f)) a (some (d, pageNo va)) s') (fun _ _ => True) s := by
  have member : (d, pageNo va) ∈ slotsOf dirs := mem_slotsOf.mpr ⟨dir, user⟩
  have unmapped : entryIn a d va = 0 → b.mapped (d, pageNo va) = none :=
    fun zero => (accounts.entry _ member).trans (if_pos zero)
  apply accounts.tabled.mapFrame_wp ((accounts.placed d).mp dir) user
  · -- mapped there already
    intro here same
    have held : b.mapped (d, pageNo va) = some f :=
      (accounts.mapped_iff member f).mpr ⟨ne_zero_of_present here, same⟩
    rw [Ledger.assign_same member held]
    exact ⟨a, free, accounts, fun f mem gone => absurd mem gone, fun _ _ _ => rfl⟩
  · -- no frame is mapped there
    intro t table absent
    have zero : entryIn a d va = 0 := by
      by_contra entry
      exact absent (accounts.present _ member entry)
    exact accounts.fill_recorded dir user table (unmapped zero) owned isPerm few
  · -- another frame is mapped there
    intro t table here other _
    have held : b.mapped (d, pageNo va) = some (frameOf (entryIn a d va)) :=
      (accounts.mapped_iff member _).mpr ⟨ne_zero_of_present here, rfl⟩
    have ne : b.mapped (d, pageNo va) ≠ some f := fun eq =>
      other (Option.some.inj (held.symm.trans eq))
    obtain ⟨a', free', accounts', gives, place, pages⟩ := accounts.drop member table held
    have empty : (b.assign dirs (d, pageNo va) none).mapped (d, pageNo va) = none :=
      Function.update_self ..
    have owned' : f ∈ (b.assign dirs (d, pageNo va) none).owned := ⟨owned, fun h => ne h.1⟩
    have idem : Function.update (Function.update b.mapped (d, pageNo va) none) (d, pageNo va)
        (some f) = Function.update b.mapped (d, pageNo va) (some f) := Function.update_idem ..
    have table' : a'.place (.table d (pdx va)) = some t := place ▸ table
    have filled := accounts'.fill member table' empty owned' isPerm (by
      change (holders (slotsOf dirs) (Function.update (Function.update b.mapped (d, pageNo va) none)
        (d, pageNo va) (some f)) f).card ≤ 65535
      rwa [idem])
    rw [Ledger.assign_assign member ne] at filled
    refine ⟨_, free', filled, fun g mem gone => ?_, fun k' member' differs => ?_⟩
    · obtain rfl : frameOf (entryIn a d va) = g := by
        simpa [held] using Ledger.freed mem gone
      rw [← Ledger.assign_assign member ne] at gone
      obtain ⟨there, zero⟩ := gives fun still => gone ⟨still, fun h => by
        rw [empty] at h
        cases h.1⟩
      exact ⟨there, (Function.update_of_ne other ..).trans zero⟩
    · have away : k' ≠ (d, pageNo va) := by
        rintro rfl
        exact differs rfl
      rw [write_page, if_neg away, pages, write_page, if_neg away]
  · -- the table is new
    intro t rest absent list
    subst list
    have made := accounts.withTable dir user absent
    have zero := accounts.tabled.entryIn_zero absent
    obtain ⟨a', free', accounts', kept, pages⟩ := made.fill_recorded dir user
      (newTableIn_place a d (pdx va) t d).2 (unmapped zero) owned isPerm few
    refine ⟨a', free', accounts', kept, fun k' member' differs => ?_⟩
    rw [pages k' member' differs, accounts.tabled.dirs.newTableIn_page absent]
  · exact fun _ _ => trivial
  · exact fun _ _ _ => trivial

/-- Every call keeps the accounts. -/
theorem Accounts.call {call : MapCall} {r : Nat} {s' : Kernel}
    (accounts : Accounts dirs s b a free) (allowed : call.Allowed dirs b)
    (run : call.prog s = .ok r s') :
    Recorded dirs b (call.record dirs b r) a call.slot s' := by
  have ends : wp call.prog (fun r s' => Recorded dirs b (call.record dirs b r) a call.slot s')
      (fun _ _ => True) s := by
    cases call with
    | allocate =>
      have first := accounts.tabled.freeList.first
      simp only [MapCall.prog, allocateFrame, wp_bind, wp_get]
      cases free with
      | nil =>
        rw [first]
        trivial
      | cons f rest =>
        rw [first]
        exact ⟨_, _, accounts.allocate, fun g mem gone => absurd (Set.mem_insert_of_mem f mem) gone,
          fun _ _ _ => rfl⟩
    | map d f va perm =>
      obtain ⟨dir, user, owned, isPerm, few⟩ := allowed
      simp only [MapCall.prog, wp_bind, wp_pure]
      exact accounts.map dir user owned isPerm few
    | unmap d va =>
      obtain ⟨dir, user⟩ := allowed
      simp only [MapCall.prog, wp_bind, wp_pure]
      exact accounts.unmap dir user
  rwa [wp_ok run] at ends

/-! ## Runs -/

/-- The directories `dirs` and no others lie in memory, and no entry maps anything yet. -/
def Blank (dirs : Finset Nat) (s : Kernel) : Prop :=
  ∃ a free, Tabled s a free ∧ (∀ d, d ∈ dirs ↔ a.place (.dir d) = some d) ∧
    ∀ d i, a.page (.table d i) = zeroes

/-- The runs of allowed calls, with their ledgers. -/
inductive MapRun (dirs : Finset Nat) : Kernel → Ledger → Prop
  | start {s : Kernel} : Blank dirs s → MapRun dirs s .empty
  | call {s s' : Kernel} {b : Ledger} {r : Nat} (call : MapCall) : MapRun dirs s b →
    call.Allowed dirs b → call.prog s = .ok r s' → MapRun dirs s' (call.record dirs b r)

theorem Blank.accounts (blank : Blank dirs s) :
    ∃ a free, Accounts dirs s .empty a free := by
  obtain ⟨a, free, tabled, placed, zero⟩ := blank
  refine ⟨a, free, tabled, placed, fun f mem => absurd mem id, fun k _ => ?_, fun k _ ne => ?_,
    fun k _ f held => ?_, fun f mem => absurd mem id⟩
  · rw [zero]
    rfl
  · rw [zero] at ne
    exact absurd rfl ne
  · cases held

theorem MapRun.accounts (run : MapRun dirs s b) : ∃ a free, Accounts dirs s b a free := by
  induction run with
  | start blank => exact blank.accounts
  | call call _ allowed ends accounts =>
    obtain ⟨a, free, accounts⟩ := accounts
    obtain ⟨a', free', accounts', -⟩ := accounts.call allowed ends
    exact ⟨a', free', accounts'⟩

/-- The number of page table entries that hold the frame. -/
def mappings (dirs : Finset Nat) (s : Kernel) (f : Nat) : Nat :=
  (holders (slotsOf dirs) (fun k => heldBy (pteAt s.mem k.1 k.2)) f).card

/-- What holds after a call about the slot `k`. -/
structure Counted (dirs : Finset Nat) (s s' : Kernel) (b b' : Ledger) (k : Slot) : Prop where
  references : ∀ f ∈ b.owned, (s'.references f).toNat = mappings dirs s' f
  freed : ∃ free free', s.freeFrameList.Rep s.frameLinks free ∧
    s'.freeFrameList.Rep s'.frameLinks free' ∧ ∀ f ∈ b.owned, free.count f = 0 ∧
      free'.count f = if mappings dirs s f = 1 ∧ mappings dirs s' f = 0 then 1 else 0
  found : ∀ d ∈ dirs, ∀ va, UserVa va →
    ∃ table, getFrameInfo d va s' = .ok (b'.mapped (d, pageNo va), table) s'
  others : ∀ k' ∈ slotsOf dirs, k' ≠ k → pteAt s'.mem k'.1 k'.2 = pteAt s.mem k'.1 k'.2

theorem Accounts.pteAt {k : Slot} (accounts : Accounts dirs s b a free)
    (member : k ∈ slotsOf dirs) :
    Fos.pteAt s.mem k.1 k.2 = a.page (.table k.1 k.2.1) k.2.2 := by
  obtain ⟨dir, user⟩ := mem_slotsOf.mp member
  exact accounts.tabled.dirs.pteAt ((accounts.placed _).mp dir) user

theorem Accounts.mappings (accounts : Accounts dirs s b a free) (f : Nat) :
    Fos.mappings dirs s f = (holders (slotsOf dirs) b.mapped f).card := by
  rw [Fos.mappings]
  refine congrArg _ (holders_congr fun k member => ?_)
  rw [accounts.pteAt member, accounts.entry k member]

/-- A frame is freed by an assignment exactly if that ends its only mapping. -/
theorem Ledger.freed_iff {k : Slot} {x : Option Nat} (member : k ∈ slotsOf dirs)
    (mem : f ∈ b.owned) : f ∉ (b.assign dirs k x).owned ↔
      (holders (slotsOf dirs) b.mapped f).card = 1 ∧
        (holders (slotsOf dirs) (b.assign dirs k x).mapped f).card = 0 := by
  have count := card_holders_update (m := b.mapped) member x f
  have freed : f ∉ (b.assign dirs k x).owned ↔ b.mapped k = some f ∧
      holders (slotsOf dirs) (Function.update b.mapped k x) f = ∅ := by
    refine ⟨fun gone => ?_, fun ends still => still.2 ends⟩
    by_contra other
    exact gone ⟨mem, other⟩
  rw [freed, ← Finset.card_eq_zero]
  change _ ↔ _ ∧ (holders (slotsOf dirs) (Function.update b.mapped k x) f).card = 0
  constructor
  · rintro ⟨held, nobody⟩
    have other : ¬ x = some f := by
      rintro rfl
      have holder : k ∈ holders (slotsOf dirs) (Function.update b.mapped k (some f)) f :=
        mem_holders.mpr ⟨member, Function.update_self ..⟩
      rw [Finset.card_eq_zero.mp nobody] at holder
      simp at holder
    rw [if_pos held, if_neg other] at count
    exact ⟨by omega, nobody⟩
  · rintro ⟨one, nobody⟩
    by_cases held : b.mapped k = some f
    · exact ⟨held, nobody⟩
    · rw [if_neg held] at count
      omega

/-- The frame that `get_frame_info` finds is that of the ledger. -/
theorem Accounts.getFrameInfo (accounts : Accounts dirs s b a free) (dir : d ∈ dirs)
    (user : UserVa va) :
    ∃ table, Fos.getFrameInfo d va s = .ok (b.mapped (d, pageNo va), table) s := by
  have member : (d, pageNo va) ∈ slotsOf dirs := mem_slotsOf.mpr ⟨dir, user⟩
  have ends : wp (Fos.getFrameInfo d va) (fun r s' => r.1 = b.mapped (d, pageNo va) ∧ s' = s)
      (fun _ _ => False) s := by
    apply accounts.tabled.getFrameInfo_wp ((accounts.placed d).mp dir) user
    · intro zero
      exact ⟨((accounts.entry _ member).trans (if_pos zero)).symm, rfl⟩
    · intro t _ entry _
      exact ⟨((accounts.mapped_iff member _).mpr ⟨entry, rfl⟩).symm, rfl⟩
    · intro wild _
      refine wild ?_
      by_cases zero : entryIn a d va = 0
      · rw [zero, frameOf_zero]
        exact Nat.zero_lt_of_lt (accounts.tabled.place_lt ((accounts.placed d).mp dir))
      · apply accounts.tabled.bound
        have held : b.mapped (d, pageNo va) = some (frameOf (entryIn a d va)) :=
          (accounts.mapped_iff member _).mpr ⟨zero, rfl⟩
        rw [accounts.owned _ (accounts.held _ member _ held)]
        rintro ⟨⟩
  obtain ⟨⟨frame, table⟩, s', run, rfl, rfl⟩ := wp_returns ends
  exact ⟨table, run⟩

/-- **Reference counts count mappings.**  After every call of every run `references` is the
number of entries that hold a frame, a frame is freed by the call that ends its last mapping
and by no other, `get_frame_info` finds what was mapped last, and other entries stay. -/
theorem MapRun.counts {call : MapCall} {k : Slot} {r : Nat} {s' : Kernel} (run : MapRun dirs s b)
    (slot : call.slot = some k) (allowed : call.Allowed dirs b) (ends : call.prog s = .ok r s') :
    Counted dirs s s' b (call.record dirs b r) k := by
  obtain ⟨a, free, accounts⟩ := run.accounts
  obtain ⟨a', free', accounts', gives, pages⟩ := accounts.call allowed ends
  obtain ⟨x, member, record⟩ :
      ∃ x, k ∈ slotsOf dirs ∧ call.record dirs b r = b.assign dirs k x := by
    cases call with
    | allocate => cases slot
    | map d f va perm =>
      cases slot
      exact ⟨some f, mem_slotsOf.mpr ⟨allowed.1, allowed.2.1⟩, rfl⟩
    | unmap d va =>
      cases slot
      exact ⟨none, mem_slotsOf.mpr allowed, rfl⟩
  rw [record] at accounts' gives ⊢
  rw [slot] at pages
  refine ⟨fun f mem => ?_, ⟨free, free', accounts.tabled.freeList, accounts'.tabled.freeList,
    fun f mem => ⟨List.count_eq_zero.mpr (accounts.not_free mem), ?_⟩⟩,
    fun d dir va user => accounts'.getFrameInfo dir user, fun k' member' ne => ?_⟩
  · rw [accounts'.mappings]
    by_cases still : f ∈ (b.assign dirs k x).owned
    · exact accounts'.refs f still
    · rw [(gives f mem still).2, ((Ledger.freed_iff member mem).mp still).2]
      rfl
  · have freed := Ledger.freed_iff (x := x) member mem
    rw [← accounts.mappings, ← accounts'.mappings] at freed
    split
    · rename_i last
      exact List.count_eq_one_of_mem accounts'.tabled.freeList.nodup
        (gives f mem (freed.mpr last)).1
    · rename_i more
      refine List.count_eq_zero.mpr (accounts'.not_free ?_)
      by_contra gone
      exact more (freed.mp gone)
  · have other : some k' ≠ some k := by simpa using ne
    rw [accounts'.pteAt member', accounts.pteAt member', pages k' member' other]

/-- The kernel boots with its own directory only, which maps nothing below `USER_TOP`. -/
theorem Machine.blank_boot (m : Machine) : Blank {m.ptrPageDirectory} m.boot := by
  refine ⟨m.bootView.tables, m.bootView.free, m.rep_boot.tabled, fun d => ?_, fun d i => ?_⟩
  · rw [Finset.mem_singleton]
    constructor
    · rintro rfl
      exact m.tables_boot.2.1
    · intro dir
      simp only [View.tables] at dir
      split at dir
      · rename_i use
        exact (Option.some.inj ((m.rep_boot.wf.place_use .kernelDir d).mpr use)).symm
      · rename_i e use
        have nobody : m.bootView.place (.pageDir e) = none := rfl
        rw [(m.rep_boot.wf.place_use (.pageDir e) d).mpr use] at nobody
        cases nobody
      · cases dir
  · simp only [View.tables]
    split <;> rfl

/-- The first frame that is mapped is mapped once. -/
theorem Ledger.card_first {k : Slot} (member : k ∈ slotsOf dirs) (f : Nat) :
    (holders (slotsOf dirs) (Function.update Ledger.empty.mapped k (some f)) f).card = 1 := by
  have nobody : holders (slotsOf dirs) Ledger.empty.mapped f = ∅ := by
    simp [holders, Ledger.empty]
  have count := card_holders_update member (m := Ledger.empty.mapped) (some f) f
  rwa [nobody, if_pos rfl, if_neg nofun, Finset.card_empty] at count

/-- A frame is allocated, and mapped for the first time. -/
theorem Machine.mapRun_boot (m : Machine) : ∃ (dirs : Finset Nat) (s s' : Kernel) (b : Ledger)
    (call : MapCall) (k : Slot) (r : Nat), MapRun dirs s b ∧ call.slot = some k ∧
      call.Allowed dirs b ∧ call.prog s = .ok r s' ∧ b.owned.Nonempty := by
  obtain ⟨tabled, dir, absent⟩ := m.tables_boot
  obtain ⟨va, user⟩ : ∃ va, UserVa va := ⟨0x800000, by decide⟩
  have start : MapRun {m.ptrPageDirectory} m.boot .empty := .start m.blank_boot
  have mem : m.ptrPageDirectory ∈ ({m.ptrPageDirectory} : Finset Nat) :=
    Finset.mem_singleton_self _
  generalize ({m.ptrPageDirectory} : Finset Nat) = dirs at start mem
  have room := m.free_bootView
  match free : m.bootView.free with
  | [] => simp [free] at room
  | [f] => simp [free] at room
  | f :: t :: rest =>
    rw [free] at tabled
    have first := tabled.freeList.first
    have allocate : wp MapCall.allocate.prog (fun r s' => r = f ∧ s' = m.boot.takeFrame f)
        (fun _ _ => False) m.boot := by
      simp only [MapCall.prog, allocateFrame, wp_bind, wp_get]
      rw [first]
      exact ⟨rfl, rfl⟩
    obtain ⟨r, s, taken, rfl, rfl⟩ := wp_returns allocate
    have run := start.call .allocate trivial taken
    have made := tabled.takeFrame.mapFrame_new dir user (absent _) r permUser
    have map : wp (MapCall.map m.ptrPageDirectory r va permUser).prog
        (fun _ _ => True) (fun _ _ => False) (m.boot.takeFrame r) := by
      rw [MapCall.prog, wp_bind, wp_ok made]
      trivial
    obtain ⟨_, s', mapped, -⟩ := wp_returns map
    have owned : r ∈ (MapCall.allocate.record dirs .empty r).owned := Set.mem_insert r _
    have member : (m.ptrPageDirectory, pageNo va) ∈ slotsOf dirs := mem_slotsOf.mpr ⟨mem, user⟩
    have few := Ledger.card_first member r
    exact ⟨dirs, _, s', _, .map m.ptrPageDirectory r va permUser, _, _, run, rfl,
      ⟨mem, user, owned, by decide, few.le.trans (by decide)⟩, mapped, r, owned⟩

/-- The first mapping of a frame is counted. -/
theorem mapRun_counts_first : ∃ (dirs : Finset Nat) (s s' : Kernel) (b b' : Ledger) (k : Slot),
    Counted dirs s s' b b' k ∧ b.owned.Nonempty := by
  obtain ⟨dirs, s, s', b, call, k, r, run, slot, allowed, ends, owned⟩ := smallMachine.mapRun_boot
  exact ⟨dirs, s, s', b, _, k, run.counts slot allowed ends, owned⟩

end Fos
