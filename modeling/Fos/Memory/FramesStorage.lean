import Fos.Memory.Mapping
import Fos.Memory.PageFileSpecs

/-!
# The storage of frames

`add_frame_to_storage`, `get_frame_from_storage` and `clear_frames_storage` of
`kern/memory_manager.c`: a page directory with tables that maps indices to frames, each index as
the address of the page with that number.

* `StorageDir`, `Stored`: the frames of the tables, and the frames that are stored in them;
* `Stored.addFrame_wp`, `Stored.getFrame_wp`: one call;
* `runCalls`, `answers`: a sequence of calls, and what a map answers to it;
* `Cleared`, `Emptied`: what clearing changes;
* `framesStorage_maps`.
-/

namespace Fos

open Linked Exec

/-- `index * PAGE_SIZE`. -/
def indexVa (index : Nat) : Nat := index * pageSize % word32

/-- `add_frame_to_storage(frames_storage, ptr_frame_info, index)`. -/
def addFrameToStorage (framesStorage f index : Nat) : Prog Unit := do
  let table ← tableFor framesStorage (indexVa index)
  writeWord table (ptx (indexVa index)) (constructEntry (toPhysicalAddress f) (0 ||| permPresent))

/-- `get_frame_from_storage(frames_storage, index)`. -/
def getFrameFromStorage (framesStorage index : Nat) : Prog (Option Nat) := do
  let (frame, _) ← getFrameInfo framesStorage (indexVa index)
  return frame

/-- The body of the loop of `clear_frames_storage`. -/
def clearStorageEntry (framesStorage : Nat) (i : Fin 1024) : Prog Unit := do
  let entry ← readWord framesStorage i
  if entry ≠ 0 then
    freeFrame (← toFrameInfo (extractAddress entry))
    writeWord framesStorage i 0

/-- `clear_frames_storage(frames_storage)`. -/
def clearFramesStorage (framesStorage : Nat) : Prog Unit :=
  tableEntries.forM (clearStorageEntry framesStorage)

/-! ## The tables of a storage -/

/-- The entry of a table that may be missing. -/
def dirWord (table : Option Nat) : Word := table.elim 0 tableWord

/-- The entry of a frame that is stored. -/
abbrev frameWord (f : Nat) : Word := constructEntry (toPhysicalAddress f) (0 ||| permPresent)

def storedWord (frame : Option Nat) : Word := frame.elim 0 frameWord

/-- The frames `tables` hold the tables of the storage, apart from the free frames. -/
structure StorageDir (s : Kernel) (storage : Nat) (free : List Nat)
    (tables : Fin 1024 → Option Nat) : Prop where
  list : s.freeFrameList.Rep s.frameLinks free
  bound : ∀ f ∈ free, f < s.globals.numberOfFrames
  pos : 0 < s.globals.numberOfFrames
  small : s.globals.numberOfFrames ≤ 1048576
  notFree : storage ∉ free
  dir : ∀ i, s.mem storage i = dirWord (tables i)
  lt : ∀ i t, tables i = some t → t < s.globals.numberOfFrames
  apart : ∀ i t, tables i = some t → t ≠ storage ∧ t ∉ free
  inj : ∀ i j t, tables i = some t → tables j = some t → i = j

/-- The frames `stored` are in the tables. -/
structure Stored (s : Kernel) (storage : Nat) (free : List Nat) (tables : Fin 1024 → Option Nat)
    (stored : PageNo → Option Nat) : Prop extends StorageDir s storage free tables where
  entry : ∀ i t, tables i = some t → ∀ j, s.mem t j = storedWord (stored (i, j))
  absent : ∀ i, tables i = none → ∀ j, stored (i, j) = none
  frames : ∀ p f, stored p = some f → f < s.globals.numberOfFrames

/-- The page `storage` is zeroed, and the free frames are not in use for it. -/
structure Zeroed (s : Kernel) (storage : Nat) (free : List Nat) : Prop where
  list : s.freeFrameList.Rep s.frameLinks free
  bound : ∀ f ∈ free, f < s.globals.numberOfFrames
  pos : 0 < s.globals.numberOfFrames
  small : s.globals.numberOfFrames ≤ 1048576
  notFree : storage ∉ free
  page : s.mem storage = zeroes

variable {s : Kernel} {storage t f va : Nat} {free rest : List Nat} {i : Fin 1024}
  {tables : Fin 1024 → Option Nat} {stored : PageNo → Option Nat} {E : Stop → Kernel → Prop}

theorem Zeroed.start (zeroed : Zeroed s storage free) :
    Stored s storage free (fun _ => none) fun _ => none where
  list := zeroed.list
  bound := zeroed.bound
  pos := zeroed.pos
  small := zeroed.small
  notFree := zeroed.notFree
  dir i := congrFun zeroed.page i
  lt _ _ table := nomatch table
  apart _ _ table := nomatch table
  inj _ _ _ table := nomatch table
  entry _ _ table := nomatch table
  absent _ _ _ := rfl
  frames _ _ frame := nomatch frame

theorem present_tableWord (t : Nat) : present (tableWord t) = true :=
  (getLsbD_constructEntry t _ (by decide : 0 < 12)).trans (by decide)

theorem present_frameWord (f : Nat) : present (frameWord f) = true := present_constructEntry f 0

theorem frameOf_tableWord (small : t < 1048576) : frameOf (tableWord t) = t :=
  frameOf_constructEntry small (by decide)

theorem frameOf_frameWord (small : f < 1048576) : frameOf (frameWord f) = f :=
  frameOf_constructEntry small (by decide)

/-! ## One call -/

theorem StorageDir.getPageTable_wp {Q : Option Nat → Kernel → Prop}
    (here : StorageDir s storage free tables) (done : Q (tables (pdx va)) s) :
    wp (getPageTable storage va) Q E s := by
  have small := here.small
  simp only [getPageTable, wp_bind, wp_readWord, here.dir]
  cases table : tables (pdx va) with
  | none =>
    rw [table] at done
    apply staticKernelVirtualAddress_wp
    · rw [ppn_extractAddress, dirWord, Option.elim_none, frameOf_zero]
      exact here.pos
    · simpa [dirWord, permPresent] using done
  | some t =>
    rw [table] at done
    have lt := here.lt _ t table
    have frame : frameOf (dirWord (some t)) = t := frameOf_tableWord (by omega)
    have bit : present (dirWord (some t)) = true := present_tableWord t
    apply staticKernelVirtualAddress_wp
    · rwa [ppn_extractAddress, frame]
    · simp only [ppn_extractAddress, and_present, bit, if_true, frame, wp_pure]
      exact done

/-- `__static_cpt` in a storage. -/
theorem Stored.withTable (here : Stored s storage (t :: rest) tables stored)
    (absent : tables i = none) :
    Stored (s.withTable storage i t) storage rest (Function.update tables i (some t)) stored := by
  have t_free : t ∈ t :: rest := List.mem_cons_self
  have t_storage : t ≠ storage := fun same => here.notFree (same ▸ t_free)
  have t_rest : t ∉ rest := (List.nodup_cons.mp here.list.nodup).1
  have lt := here.bound t t_free
  have apart : ∀ j u, tables j = some u → u ≠ t := by
    rintro j u table rfl
    exact (here.apart j u table).2 t_free
  have old : ∀ j u, Function.update tables i (some t) j = some u →
      (j = i ∧ u = t) ∨ (j ≠ i ∧ tables j = some u) := by
    intro j u table
    rcases eq_or_ne j i with rfl | ne
    · rw [Function.update_self] at table
      exact Or.inl ⟨rfl, (Option.some.inj table).symm⟩
    · rw [Function.update_of_ne ne] at table
      exact Or.inr ⟨ne, table⟩
  have mem : ∀ u, u ≠ t → u ≠ storage → (s.withTable storage i t).mem u = s.mem u := by
    intro u u_t u_storage
    simp only [Kernel.withTable, Kernel.setWord, Kernel.setPage, Function.update_of_ne u_t,
      Function.update_of_ne u_storage]
    rfl
  refine ⟨⟨takeFrame_rep here.list, fun f mem => here.bound f (List.mem_cons_of_mem t mem),
    here.pos, here.small, fun mem => here.notFree (List.mem_cons_of_mem t mem), fun j => ?_,
    fun j u table => ?_, fun j u table => ?_, fun j k u table table' => ?_⟩, fun j u table k => ?_,
    fun j table k => ?_, here.frames⟩
  · have page : (s.withTable storage i t).mem storage =
        Function.update (s.mem storage) i (tableWord t) := by
      simp only [Kernel.withTable, Kernel.setWord, Kernel.setPage,
        Function.update_of_ne t_storage.symm, Function.update_self]
      rfl
    rw [page]
    rcases eq_or_ne j i with rfl | ne
    · rw [Function.update_self, Function.update_self]
      rfl
    · rw [Function.update_of_ne ne, Function.update_of_ne ne, here.dir]
  · rcases old j u table with ⟨-, rfl⟩ | ⟨-, there⟩
    · exact lt
    · exact here.lt j u there
  · rcases old j u table with ⟨-, rfl⟩ | ⟨-, there⟩
    · exact ⟨t_storage, t_rest⟩
    · exact ⟨(here.apart j u there).1,
        fun mem => (here.apart j u there).2 (List.mem_cons_of_mem t mem)⟩
  · rcases old j u table with ⟨at_i, same⟩ | ⟨-, there⟩ <;>
      rcases old k u table' with ⟨at_i', same'⟩ | ⟨-, there'⟩
    · rw [at_i, at_i']
    · exact absurd same (apart k u there')
    · exact absurd same' (apart j u there)
    · exact here.inj j k u there there'
  · rcases old j u table with ⟨rfl, rfl⟩ | ⟨-, there⟩
    · have page : (s.withTable storage j u).mem u = zeroes := by
        simp [Kernel.withTable, Kernel.setPage]
      rw [page, here.absent j absent]
      rfl
    · rw [mem u (apart j u there) (here.apart j u there).1]
      exact here.entry j u there k
  · rcases eq_or_ne j i with rfl | ne
    · exact here.absent j absent k
    · rw [Function.update_of_ne ne] at table
      exact here.absent j table k

/-- A frame is stored in a table that is there. -/
theorem Stored.setFrame {j : Fin 1024} (here : Stored s storage free tables stored)
    (table : tables i = some t) (lt : f < s.globals.numberOfFrames) :
    Stored (s.setWord t j (frameWord f)) storage free tables
      (Function.update stored (i, j) (some f)) := by
  have t_storage : t ≠ storage := (here.apart i t table).1
  refine ⟨⟨here.list, here.bound, here.pos, here.small, here.notFree, fun k => ?_, here.lt,
    here.apart, here.inj⟩, fun k u table' l => ?_, fun k absent l => ?_, fun p g frame => ?_⟩
  · simp only [Kernel.setWord, Kernel.setPage, Function.update_of_ne t_storage.symm]
    exact here.dir k
  · rcases eq_or_ne u t with rfl | ne
    · obtain rfl := here.inj k i u table' table
      simp only [Kernel.setWord, Kernel.setPage, Function.update_self]
      rcases eq_or_ne l j with rfl | other
      · rw [Function.update_self, Function.update_self]
        rfl
      · rw [Function.update_of_ne other, Function.update_of_ne (by simpa using other)]
        exact here.entry k u table l
    · have other : (k, l) ≠ (i, j) := by
        rintro same
        obtain ⟨rfl, rfl⟩ := Prod.mk.inj same
        exact ne (Option.some.inj (table'.symm.trans table))
      simp only [Kernel.setWord, Kernel.setPage, Function.update_of_ne ne,
        Function.update_of_ne other]
      exact here.entry k u table' l
  · have other : (k, l) ≠ (i, j) := by
      rintro same
      obtain ⟨rfl, rfl⟩ := Prod.mk.inj same
      rw [absent] at table
      cases table
    rw [Function.update_of_ne other]
    exact here.absent k absent l
  · rcases eq_or_ne p (i, j) with rfl | ne
    · rw [Function.update_self] at frame
      exact Option.some.inj frame ▸ lt
    · rw [Function.update_of_ne ne] at frame
      exact here.frames p g frame

theorem Stored.getFrame_wp {index : Nat} {Q : Option Nat → Kernel → Prop}
    (here : Stored s storage free tables stored)
    (done : Q (stored (pageNo (indexVa index))) s) :
    wp (getFrameFromStorage storage index) Q E s := by
  have small := here.small
  simp only [getFrameFromStorage, getFrameInfo, wp_bind]
  apply here.getPageTable_wp
  cases table : tables (pdx (indexVa index)) with
  | none =>
    have none := here.absent _ table (ptx (indexVa index))
    rw [pageNo, none] at done
    exact done
  | some t =>
    have entry := here.entry _ t table (ptx (indexVa index))
    simp only [wp_bind, wp_readWord, entry]
    rw [pageNo] at done
    cases frame : stored (pdx (indexVa index), ptx (indexVa index)) with
    | none =>
      rw [frame] at done
      exact done
    | some f =>
      have lt := here.frames _ f frame
      have number : ppn (extractAddress (storedWord (some f))) = f := by
        rw [ppn_extractAddress]
        exact frameOf_frameWord (by omega)
      rw [frame] at done
      simp only [if_pos (show storedWord (some f) ≠ 0 from
        ne_zero_of_present (present_frameWord f)), wp_bind]
      apply toFrameInfo_wp
      · rwa [number]
      · rw [number]
        exact done

theorem Stored.tableFor_wp {Q : Nat → Kernel → Prop} (here : Stored s storage free tables stored)
    (found : ∀ t, tables (pdx va) = some t → Q t s)
    (made : ∀ t rest, tables (pdx va) = none → free = t :: rest →
      Q t (s.withTable storage (pdx va) t))
    (full : tables (pdx va) = none → free = [] → E outOfMemory s) :
    wp (tableFor storage va) Q E s := by
  simp only [tableFor, wp_bind]
  apply here.getPageTable_wp
  cases table : tables (pdx va) with
  | some t => exact found t table
  | none =>
    simp only [staticCpt, wp_bind]
    refine allocateFrame_listed_wp here.list (fun t rest list => ?_) (full table)
    have lt : t < s.globals.numberOfFrames := here.bound t (by simp [list])
    apply staticKernelVirtualAddress_wp
    · rwa [ppn_toPhysicalAddress]
    · rw [ppn_toPhysicalAddress]
      exact made t rest table list

theorem Stored.addFrame_wp {index : Nat} {Q : Unit → Kernel → Prop}
    (here : Stored s storage free tables stored) (lt : f < s.globals.numberOfFrames)
    (found : ∀ t s', tables (pdx (indexVa index)) = some t → s'.globals = s.globals →
      Stored s' storage free tables
        (Function.update stored (pageNo (indexVa index)) (some f)) → Q () s')
    (made : ∀ t rest s', tables (pdx (indexVa index)) = none → free = t :: rest →
      s'.globals = s.globals →
      Stored s' storage rest (Function.update tables (pdx (indexVa index)) (some t))
        (Function.update stored (pageNo (indexVa index)) (some f)) → Q () s')
    (full : tables (pdx (indexVa index)) = none → free = [] → E outOfMemory s) :
    wp (addFrameToStorage storage f index) Q E s := by
  simp only [addFrameToStorage, wp_bind, wp_writeWord]
  refine here.tableFor_wp (fun t table => ?_) (fun t rest absent list => ?_) full
  · exact found t _ table rfl (here.setFrame table lt)
  · subst list
    exact made t rest _ absent rfl rfl
      ((here.withTable absent).setFrame (Function.update_self ..) lt)

/-! ## A sequence of calls -/

/-- `add_frame_to_storage` with a frame, or `get_frame_from_storage`, at an index. -/
inductive StorageCall where
  | add (f index : Nat)
  | get (index : Nat)

def StorageCall.index : StorageCall → Nat
  | .add _ index => index
  | .get index => index

/-- The calls one after another, with what the second function returns. -/
def runCalls (storage : Nat) : List StorageCall → Prog (List (Option Nat))
  | [] => return []
  | .add f index :: calls => do
    addFrameToStorage storage f index
    runCalls storage calls
  | .get index :: calls => do
    let frame ← getFrameFromStorage storage index
    return frame :: (← runCalls storage calls)

/-- What a map from indices to frames answers. -/
def answers (map : Nat → Option Nat) : List StorageCall → List (Option Nat)
  | [] => []
  | .add f index :: calls => answers (Function.update map index (some f)) calls
  | .get index :: calls => map index :: answers map calls

/-- The entries of the directory that the calls need. -/
def tablesFor : List StorageCall → Finset (Fin 1024)
  | [] => ∅
  | .add _ index :: calls => insert (pdx (indexVa index)) (tablesFor calls)
  | .get _ :: calls => tablesFor calls

theorem indexVa_aligned (index : Nat) : Aligned (indexVa index) := by
  simp only [indexVa, pageSize, word32]
  constructor <;> simp only [pageSize, word32] <;> omega

/-- Different indices have different entries. -/
theorem pageNo_indexVa_inj {index index' : Nat} (lt : index < 2 ^ 20) (lt' : index' < 2 ^ 20)
    (same : pageNo (indexVa index) = pageNo (indexVa index')) : index = index' := by
  have va := (indexVa_aligned index).pageNo_inj (indexVa_aligned index') same
  simp only [indexVa, pageSize, word32] at va
  omega

/-- The map that the storage stands for. -/
def Maps (stored : PageNo → Option Nat) (map : Nat → Option Nat) : Prop :=
  ∀ index < 2 ^ 20, stored (pageNo (indexVa index)) = map index

theorem Maps.add {map : Nat → Option Nat} {index : Nat} (maps : Maps stored map)
    (lt : index < 2 ^ 20) (f : Nat) :
    Maps (Function.update stored (pageNo (indexVa index)) (some f))
      (Function.update map index (some f)) := by
  intro index' lt'
  rcases eq_or_ne index' index with rfl | ne
  · rw [Function.update_self, Function.update_self]
  · rw [Function.update_of_ne ne,
      Function.update_of_ne fun same => ne (pageNo_indexVa_inj lt' lt same), maps index' lt']

/-- With a table more, one table less is needed. -/
theorem card_tablesFor_made {needed : Finset (Fin 1024)} {n : Nat} (absent : tables i = none)
    (enough : ((insert i needed).filter (tables · = none)).card ≤ n + 1) (t : Nat) :
    (needed.filter (Function.update tables i (some t) · = none)).card ≤ n := by
  refine Nat.le_of_lt_succ (lt_of_lt_of_le (Finset.card_lt_card ?_) enough)
  refine ⟨fun j mem => ?_, fun sub => ?_⟩
  · rw [Finset.mem_filter] at mem ⊢
    refine ⟨Finset.mem_insert_of_mem mem.1, ?_⟩
    rcases eq_or_ne j i with rfl | ne
    · exact absent
    · exact (Function.update_of_ne ne ..).symm.trans mem.2
  · have mem := sub (Finset.mem_filter.mpr ⟨Finset.mem_insert_self i needed, absent⟩)
    rw [Finset.mem_filter, Function.update_self] at mem
    cases mem.2

theorem exists_table_made (absent : tables i = none) (t u : Nat) :
    (∃ j, Function.update tables i (some t) j = some u) ↔ (∃ j, tables j = some u) ∨ u = t := by
  constructor
  · rintro ⟨j, table⟩
    rcases eq_or_ne j i with rfl | ne
    · rw [Function.update_self] at table
      exact Or.inr (Option.some.inj table).symm
    · rw [Function.update_of_ne ne] at table
      exact Or.inl ⟨j, table⟩
  · rintro (⟨j, table⟩ | rfl)
    · refine ⟨j, ?_⟩
      rw [Function.update_of_ne]
      · exact table
      · rintro rfl
        rw [absent] at table
        cases table
    · exact ⟨i, Function.update_self ..⟩

/-- A run of the calls, with the frames that it takes for tables. -/
theorem Stored.run {map : Nat → Option Nat} {calls : List StorageCall}
    (here : Stored s storage free tables stored) (maps : Maps stored map)
    (inRange : ∀ call ∈ calls, call.index < 2 ^ 20)
    (frames : ∀ f index, .add f index ∈ calls → f < s.globals.numberOfFrames)
    (enough : ((tablesFor calls).filter (tables · = none)).card ≤ free.length) :
    wp (runCalls storage calls) (fun results s' => results = answers map calls ∧
      ∃ taken rest tables' stored', free = taken ++ rest ∧
        Stored s' storage rest tables' stored' ∧
        ∀ t, (∃ i, tables' i = some t) ↔ (∃ i, tables i = some t) ∨ t ∈ taken)
      (fun _ _ => False) s := by
  induction calls generalizing s free tables stored map with
  | nil =>
    exact ⟨rfl, [], free, tables, stored, rfl, here, fun t => by simp⟩
  | cons call calls ih =>
    have later : ∀ call ∈ calls, call.index < 2 ^ 20 :=
      fun call mem => inRange call (List.mem_cons_of_mem _ mem)
    have frames' : ∀ f index, .add f index ∈ calls → f < s.globals.numberOfFrames :=
      fun f index mem => frames f index (List.mem_cons_of_mem _ mem)
    cases call with
    | get index =>
      simp only [runCalls, wp_bind]
      apply here.getFrame_wp
      refine wp_mono (ih here maps later frames' enough) (fun results s' ends => ?_)
        fun _ _ stop => stop
      obtain ⟨rfl, rest⟩ := ends
      refine ⟨?_, rest⟩
      rw [maps index (inRange _ List.mem_cons_self)]
      rfl
    | add f index =>
      have lt := inRange _ List.mem_cons_self
      simp only [runCalls, wp_bind]
      refine here.addFrame_wp (frames f index List.mem_cons_self)
        (fun t s' table globals here' => ?_) (fun t rest s' absent list globals here' => ?_)
        fun absent full => ?_
      · refine ih here' (maps.add lt f) later (globals ▸ frames') (le_trans ?_ enough)
        refine Finset.card_le_card fun i mem => ?_
        rw [Finset.mem_filter] at mem ⊢
        exact ⟨Finset.mem_insert_of_mem mem.1, mem.2⟩
      · subst list
        have fewer := card_tablesFor_made absent enough t
        refine wp_mono (ih here' (maps.add lt f) later (globals ▸ frames') fewer)
          (fun results s'' ends => ?_) fun _ _ stop => stop
        obtain ⟨rfl, taken, rest', tables', stored', rfl, here'', exactly⟩ := ends
        refine ⟨rfl, t :: taken, rest', tables', stored', rfl, here'', fun u => ?_⟩
        rw [exactly u, exists_table_made absent, List.mem_cons, or_assoc]
      · have needed : pdx (indexVa index) ∈
            (tablesFor (.add f index :: calls)).filter (tables · = none) :=
          Finset.mem_filter.mpr ⟨Finset.mem_insert_self _ _, absent⟩
        have pos := Finset.card_pos.mpr ⟨_, needed⟩
        rw [full, List.length_nil] at enough
        omega

/-! ## Clearing -/

/-- The state after the table in the frame `t` has been given up. -/
def Kernel.clearedEntry (s : Kernel) (storage : Nat) (i : Fin 1024) (t : Nat) : Kernel :=
  ((s.initializeFrameInfo t).insertFrame t).setWord storage i 0

theorem StorageDir.clearEntry_wp {Q : Unit → Kernel → Prop}
    (here : StorageDir s storage free tables) (empty : tables i = none → Q () s)
    (freed : ∀ t, tables i = some t → Q () (s.clearedEntry storage i t)) :
    wp (clearStorageEntry storage i) Q E s := by
  have small := here.small
  simp only [clearStorageEntry, wp_bind, wp_readWord, here.dir]
  cases table : tables i with
  | none => exact empty table
  | some t =>
    have lt := here.lt i t table
    have number : ppn (extractAddress (dirWord (some t))) = t := by
      rw [ppn_extractAddress]
      exact frameOf_tableWord (by omega)
    simp only [if_pos (show dirWord (some t) ≠ 0 from ne_zero_of_present (present_tableWord t)),
      wp_bind]
    apply toFrameInfo_wp
    · rwa [number]
    · rw [number]
      exact freed t table

/-- What clearing changes: the frames `freed` are on the free list again. -/
structure Cleared (s s' : Kernel) (storage : Nat) (freed free : List Nat)
    (tables : Fin 1024 → Option Nat) : Prop where
  dir : StorageDir s' storage (freed ++ free) tables
  references : ∀ f ∉ freed, s'.references f = s.references f
  mem : ∀ f, f ≠ storage → s'.mem f = s.mem f
  links : ∀ f, f ∉ freed → f ∉ free → s'.frameLinks.next f = s.frameLinks.next f ∧
    s'.frameLinks.prev f = s.frameLinks.prev f

theorem StorageDir.clearedEntry (here : StorageDir s storage free tables)
    (table : tables i = some t) :
    Cleared s (s.clearedEntry storage i t) storage [t] free (Function.update tables i none) := by
  obtain ⟨t_storage, fresh⟩ := here.apart i t table
  have old : ∀ j u, Function.update tables i none j = some u → j ≠ i ∧ tables j = some u := by
    intro j u there
    rcases eq_or_ne j i with rfl | ne
    · rw [Function.update_self] at there
      cases there
    · rw [Function.update_of_ne ne] at there
      exact ⟨ne, there⟩
  refine ⟨⟨freeFrame_rep here.list fresh, fun f mem => ?_, here.pos, here.small, fun mem => ?_,
    fun j => ?_, fun j u there =>
    here.lt j u (old j u there).2, fun j u there => ?_, fun j k u there there' =>
    here.inj j k u (old j u there).2 (old k u there').2⟩, fun f notin => ?_, fun f ne => ?_,
    fun f notin notin' => freeFrame_links here.list fresh
      (by simpa using ⟨by simpa using notin, notin'⟩)⟩
  · rcases List.mem_cons.mp mem with rfl | mem
    · exact here.lt i f table
    · exact here.bound f mem
  · rcases List.mem_cons.mp mem with same | mem
    · exact t_storage same.symm
    · exact here.notFree mem
  · have page : (s.clearedEntry storage i t).mem storage =
        Function.update (s.mem storage) i 0 := Function.update_self ..
    rw [page]
    rcases eq_or_ne j i with rfl | ne
    · rw [Function.update_self, Function.update_self]
      rfl
    · rw [Function.update_of_ne ne, Function.update_of_ne ne, here.dir]
  · obtain ⟨ne, there⟩ := old j u there
    refine ⟨(here.apart j u there).1, fun mem => ?_⟩
    rcases List.mem_cons.mp mem with rfl | mem
    · exact ne (here.inj j i u there table)
    · exact (here.apart j u there).2 mem
  · exact Function.update_of_ne (by simpa using notin) ..
  · exact Function.update_of_ne ne ..

/-- The loop over the entries of the directory. -/
theorem StorageDir.clear_wp {entries : List (Fin 1024)} (here : StorageDir s storage free tables)
    (nodup : entries.Nodup) :
    wp (entries.forM (clearStorageEntry storage))
      (fun _ s' => Cleared s s' storage (entries.filterMap tables).reverse free
        fun i => if i ∈ entries then none else tables i) (fun _ _ => False) s := by
  induction entries generalizing s free tables with
  | nil =>
    exact ⟨here, fun _ _ => rfl, fun _ _ => rfl, fun _ _ _ => ⟨rfl, rfl⟩⟩
  | cons i entries ih =>
    obtain ⟨notin, nodup⟩ := List.nodup_cons.mp nodup
    rw [wp_forM_cons]
    apply here.clearEntry_wp
    · intro empty
      refine wp_mono (ih here nodup) (fun _ s' cleared => ?_) fun _ _ stop => stop
      have same : (fun j => if j ∈ i :: entries then none else tables j) =
          fun j => if j ∈ entries then none else tables j := by
        funext j
        by_cases here : j = i
        · simp [here, empty]
        · simp [here]
      rw [List.filterMap_cons_none empty, same]
      exact cleared
    · intro t table
      have step := here.clearedEntry table
      refine wp_mono (ih step.dir nodup) (fun _ s' cleared => ?_) fun _ _ stop => stop
      have rest : entries.filterMap (Function.update tables i none) = entries.filterMap tables :=
        List.filterMap_congr fun j mem =>
          Function.update_of_ne (ne_of_mem_of_not_mem mem notin) ..
      have same : (fun j => if j ∈ i :: entries then none else tables j) =
          fun j => if j ∈ entries then none else Function.update tables i none j := by
        funext j
        by_cases here : j = i
        · simp [here]
        · simp [here]
      rw [List.filterMap_cons_some table, List.reverse_cons, same]
      rw [rest] at cleared
      refine ⟨by simpa using cleared.dir, fun f notin => ?_, fun f ne => ?_,
        fun f notin notin' => ?_⟩
      · rw [List.mem_append, not_or] at notin
        exact (cleared.references f notin.1).trans (step.references f notin.2)
      · exact (cleared.mem f ne).trans (step.mem f ne)
      · rw [List.mem_append, not_or] at notin
        obtain ⟨next, prev⟩ := cleared.links f notin.1
          (by simpa using ⟨by simpa using notin.2, notin'⟩)
        obtain ⟨next', prev'⟩ := step.links f notin.2 notin'
        exact ⟨next.trans next', prev.trans prev'⟩

/-- What `clear_frames_storage` is for: the storage is as at first, exactly the frames `taken` are
back on the free list, each once, and every other frame is as it was. -/
structure Emptied (s s' : Kernel) (storage : Nat) (taken free : List Nat) : Prop where
  zeroed : ∃ freed, freed.Perm taken ∧ Zeroed s' storage (freed ++ free)
  references : ∀ f ∉ taken, s'.references f = s.references f
  mem : ∀ f, f ≠ storage → s'.mem f = s.mem f
  links : ∀ f, f ∉ taken → f ∉ free → s'.frameLinks.next f = s.frameLinks.next f ∧
    s'.frameLinks.prev f = s.frameLinks.prev f

theorem StorageDir.clearFramesStorage_wp {taken : List Nat}
    (here : StorageDir s storage free tables) (nodup : taken.Nodup)
    (exactly : ∀ t, t ∈ taken ↔ ∃ i, tables i = some t) :
    wp (clearFramesStorage storage) (fun _ s' => Emptied s s' storage taken free)
      (fun _ _ => False) s := by
  have perm : (tableEntries.filterMap tables).reverse.Perm taken := by
    refine (List.reverse_perm _).trans ((List.perm_ext_iff_of_nodup ?_ nodup).mpr fun t => ?_)
    · refine nodup_tableEntries.filterMap fun i j t there there' => ?_
      exact here.inj i j t there there'
    · rw [exactly, List.mem_filterMap]
      exact ⟨fun ⟨i, _, table⟩ => ⟨i, table⟩, fun ⟨i, table⟩ => ⟨i, mem_tableEntries i, table⟩⟩
  refine wp_mono (here.clear_wp nodup_tableEntries) (fun _ s' cleared => ?_)
    fun _ _ stop => stop
  have gone : (fun i => if i ∈ tableEntries then none else tables i) = fun _ => none := by
    funext i
    rw [if_pos (mem_tableEntries i)]
  have dir := cleared.dir
  rw [gone] at dir
  refine ⟨⟨_, perm, dir.list, dir.bound, dir.pos, dir.small, dir.notFree, funext dir.dir⟩,
    fun f notin => cleared.references f fun mem => notin (perm.mem_iff.mp mem), cleared.mem,
    fun f notin => cleared.links f fun mem => notin (perm.mem_iff.mp mem)⟩

/-- **The storage of frames is a map.** From a zeroed page on, every sequence of calls for which
there are enough free frames answers like one, and what it takes off the free list are the
tables to which the page refers; `clear_frames_storage` then gives back exactly these. -/
theorem framesStorage_maps {calls : List StorageCall} (zeroed : Zeroed s storage free)
    (inRange : ∀ call ∈ calls, call.index < 2 ^ 20)
    (frames : ∀ f index, .add f index ∈ calls → f < s.globals.numberOfFrames)
    (enough : (tablesFor calls).card ≤ free.length) :
    ∃ taken rest s₁ s₂, free = taken ++ rest ∧
      runCalls storage calls s = .ok (answers (fun _ => none) calls) s₁ ∧
      s₁.freeFrameList.Rep s₁.frameLinks rest ∧
      (∀ t, t ∈ taken ↔ ∃ i, s₁.mem storage i ≠ 0 ∧ frameOf (s₁.mem storage i) = t) ∧
      clearFramesStorage storage s₁ = .ok () s₂ ∧ Emptied s₁ s₂ storage taken rest := by
  have maps : Maps (fun _ => none) fun _ => none := fun _ _ => rfl
  have runs := zeroed.start.run maps inRange frames (by simpa using enough)
  obtain ⟨_, s₁, run, rfl, taken, rest, tables, stored, rfl, here, exactly⟩ := wp_returns runs
  have exactly' : ∀ t, t ∈ taken ↔ ∃ i, tables i = some t := fun t => by simp [exactly t]
  have nodup := (List.nodup_append.mp zeroed.list.nodup).1
  have clears := here.toStorageDir.clearFramesStorage_wp nodup exactly'
  obtain ⟨_, s₂, clear, emptied⟩ := wp_returns clears
  refine ⟨taken, rest, s₁, s₂, rfl, run, here.list, fun t => ?_, clear, emptied⟩
  rw [exactly']
  have small := here.small
  constructor
  · rintro ⟨i, table⟩
    have lt := here.lt i t table
    refine ⟨i, ?_⟩
    rw [here.dir, table]
    exact ⟨ne_zero_of_present (present_tableWord t), frameOf_tableWord (by omega)⟩
  · rintro ⟨i, entry, rfl⟩
    rw [here.dir] at entry ⊢
    cases table : tables i with
    | none =>
      rw [table] at entry
      exact absurd rfl entry
    | some t =>
      have lt := here.lt i t table
      exact ⟨i, table.trans (congrArg some (frameOf_tableWord (by omega)).symm)⟩

/-- A frame that is taken and cleared is a storage to start with. -/
theorem Tabled.zeroed {a : TableView} (tabled : Tabled s a free) (two : 2 ≤ free.length) :
    ∃ s' storage rest, Zeroed s' storage rest ∧ 1 ≤ rest.length ∧ s'.globals = s.globals := by
  match free, two with
  | f :: rest, two =>
    have bound : ∀ g ∈ f :: rest, g < s.globals.numberOfFrames := by
      intro g mem
      refine tabled.bound g ?_
      rw [(tabled.free_use g).mp mem]
      rintro ⟨⟩
    refine ⟨(s.takeFrame f).setPage f zeroes, f, rest, ⟨takeFrame_rep tabled.freeList,
      fun g mem => bound g (List.mem_cons_of_mem f mem),
      Nat.zero_lt_of_lt (bound f List.mem_cons_self), tabled.small,
      (List.nodup_cons.mp tabled.freeList.nodup).1, Function.update_self ..⟩, ?_, rfl⟩
    rw [List.length_cons] at two
    omega

/-- After the boot a frame is stored at the index of a kernel address. -/
theorem framesStorage_boot : ∃ s s' storage,
    runCalls storage [.add 5 0xF0000, .get 0xF0000, .get 7] s = .ok [some 5, none] s' := by
  have room := smallMachine.free_bootView
  obtain ⟨s, storage, rest, zeroed, one, globals⟩ :=
    smallMachine.tables_boot.1.zeroed (le_trans (by decide) room)
  have all : s.globals.numberOfFrames = 1024 := by
    rw [globals, smallMachine.rep_boot.globals]
    rfl
  have inRange : ∀ call ∈ [StorageCall.add 5 0xF0000, .get 0xF0000, .get 7],
      call.index < 2 ^ 20 := by decide
  obtain ⟨_, _, s', _, _, run, _⟩ := framesStorage_maps zeroed inRange
    (fun f index mem => by
      obtain ⟨rfl, -⟩ : f = 5 ∧ index = 0xF0000 := by simpa using mem
      rw [all]
      decide) one
  exact ⟨s, s', storage, run⟩

end Fos
