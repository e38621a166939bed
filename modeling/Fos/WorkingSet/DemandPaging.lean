import Fos.WorkingSet.Invariant

/-!
# Demand paging

A program loads and stores bytes, and its accesses to pages that are not present fault.  Pages
are evicted and read back behind its back, but what it sees is plain memory: a byte is what was
stored last, or what the page file had when the page was first read in.

* `PagingRun`: loads, stores and faults, with what is known of the bytes;
* `Knows`: what is known is in memory, and in the page file where the page is not modified;
* `Running.transparent`: every load returns what is known.
-/

namespace Fos

open Arena Exec WriteBack

variable {s s' s₁ s₂ : Kernel} {v v' : View} {e va f : Nat} {env₀ env₁ : Env} {w w' : WorkingSet}

/-! ## What a program knows -/

/-- What is known of the bytes of an environment, by their addresses. -/
abbrev Bytes := Nat → Option (BitVec 8)

/-- At the start: the bytes of a page that is modified, and those others that are in the page
file too. -/
def Kernel.startBytes (s : Kernel) (e : Nat) : Bytes := fun a =>
  let b := (s.mem (frameOf (s.pageEntry e a))).byte (a % pageSize)
  if UserVa a ∧ s.pageEntry e a ≠ 0 ∧
      (modified (s.pageEntry e a) ∨ (s.filePage e a).byte (a % pageSize) = b) then some b
  else none

/-- After a fault: a page that had no frame and has one now, and is in the page file, has been
read in, with which those of its bytes that have not been stored are known. -/
def Bytes.readIn (known : Bytes) (e va : Nat) (s s' : Kernel) : Bytes := fun a =>
  if pageNo a = pageNo va ∧ s.pageEntry e va = 0 ∧ s'.pageEntry e va ≠ 0 ∧
      s.pageFileEntry e va ≠ 0 then
    some ((known a).getD ((s.filePage e va).byte (a % pageSize)))
  else known a

/-- `PagingRun e s s' known`: the environment loads and stores bytes, its accesses to pages that
are not present fault, and the faults are handled. -/
inductive PagingRun (e : Nat) (s : Kernel) : Kernel → Bytes → Prop where
  | start : PagingRun e s s (s.startBytes e)
  | load {s₁ s₂ : Kernel} {known : Bytes} {va f : Nat} : PagingRun e s s₁ known → va < word32 →
    UserVa va → translate va true false s₁ = .ok (some f) s₂ → PagingRun e s s₂ known
  | store {s₁ s₂ : Kernel} {known : Bytes} {va f : Nat} {b : BitVec 8} :
    PagingRun e s s₁ known → va < word32 → UserVa va →
    translate va true true s₁ = .ok (some f) s₂ →
    PagingRun e s (s₂.setPage f ((s₂.mem f).setByte (va % pageSize) b))
      (Function.update known va (some b))
  | fault {s₁ s₂ : Kernel} {known : Bytes} {va : Nat} : PagingRun e s s₁ known → va < word32 →
    UserVa va → ¬ present (pteAt s₁.mem (ppn s₁.globals.cr3) (pageNo va)) →
    faultHandler va s₁ = .ok () s₂ → PagingRun e s s₂ (known.readIn e va s₁ s₂)

/-! ## Pages and offsets -/

/-- The offset of a byte in its page. -/
def offset (va : Nat) : Fin pageSize := ⟨va % pageSize, Nat.mod_lt _ (by decide)⟩

/-- The address of a byte of a page. -/
def addressAt (p : PageNo) (k : Fin pageSize) : Nat := p.1 * ptSize + p.2 * pageSize + k

def Page.at (p : Page) (k : Fin pageSize) : BitVec 8 := p.byte k

/-- What is known of the bytes, by their pages. -/
def Bytes.pages (known : Bytes) (p : PageNo) (k : Fin pageSize) : Option (BitVec 8) :=
  known (addressAt p k)

theorem addressAt_lt (p : PageNo) (k : Fin pageSize) : addressAt p k < word32 := by
  have first := p.1.isLt
  have second := p.2.isLt
  have third := k.isLt
  simp only [addressAt, ptSize, pageSize, word32] at *
  omega

theorem pageNo_addressAt (p : PageNo) (k : Fin pageSize) : pageNo (addressAt p k) = p := by
  have first := p.1.isLt
  have second := p.2.isLt
  have third := k.isLt
  refine Prod.ext (Fin.ext ?_) (Fin.ext ?_) <;>
    simp only [pageNo, pdx, ptx, addressAt, ptSize, pageSize] at * <;> omega

theorem addressAt_mod (p : PageNo) (k : Fin pageSize) : addressAt p k % pageSize = k := by
  have third := k.isLt
  simp only [addressAt, ptSize, pageSize] at *
  omega

theorem addressAt_pageNo (lt : va < word32) : addressAt (pageNo va) (offset va) = va := by
  simp only [addressAt, pageNo, pdx, ptx, offset, ptSize, pageSize, word32] at *
  omega

/-- A byte becomes known. -/
theorem Bytes.pages_update (known : Bytes) (lt : va < word32) (b : BitVec 8) :
    Bytes.pages (Function.update known va (some b)) = Function.update known.pages (pageNo va)
      (Function.update (known.pages (pageNo va)) (offset va) (some b)) := by
  funext p k
  by_cases here : addressAt p k = va
  · obtain rfl : p = pageNo va := by rw [← here, pageNo_addressAt]
    obtain rfl : k = offset va :=
      Fin.ext ((addressAt_mod _ k).symm.trans (congrArg (· % pageSize) here))
    rw [Bytes.pages, here, Function.update_self, Function.update_self, Function.update_self]
  · rw [Bytes.pages, Function.update_of_ne here]
    by_cases page : p = pageNo va
    · subst page
      have ne : k ≠ offset va := fun eq => here (eq ▸ addressAt_pageNo lt)
      rw [Function.update_self, Function.update_of_ne ne, Bytes.pages]
    · rw [Function.update_of_ne page, Bytes.pages]

/-! ## The two tiers -/

/-- What is known is in memory, and in the page file where the page is not modified. -/
def Knows (e : Nat) (known : Bytes) (s : Kernel) : Prop :=
  ∃ env v w, Running e env s v w ∧ Shows Page.at known.pages userPages (v.tiers e)

/-- A page has no entry if it is not in memory. -/
theorem Space.pageEntry_zero (space : Space e env₀ s v w) (user : UserVa va) :
    s.pageEntry e va = 0 ↔ v.memory e (pageNo va) = none := by
  obtain ⟨d, dir⟩ := space.dir
  rw [space.toSound.pageEntry dir user]
  have entry := space.rep.memory_ne_none (n := pageNo va) (e := e)
  rw [← not_iff_not]
  exact entry.symm

/-- The page in memory. -/
theorem Space.memory_eq (space : Space e env₀ s v w) (user : UserVa va)
    (entry : s.pageEntry e va ≠ 0) :
    v.memory e (pageNo va) = some (s.mem (frameOf (s.pageEntry e va))) := by
  obtain ⟨d, dir⟩ := space.dir
  rw [space.toSound.pageEntry dir user] at entry ⊢
  have here := space.rep.place_child (child_userPageAt e va) entry
  rw [View.memory_of_place here, ← space.rep.mem here]
  rfl

/-- The page in the page file. -/
theorem Sound.stored_eq (sound : Sound s v) (e va : Nat) :
    v.stored e (pageNo va) =
      if s.pageFileEntry e va ≠ 0 then some (s.filePage e va) else none := by
  have entry : s.pageFileEntry e va = v.dfn e va := sound.file.pageFileEntry e va
  rw [Kernel.filePage, entry, sound.rep.globals, View.stored, ite_not]
  rfl

theorem Kernel.startBytes_some {x : BitVec 8} (known : s.startBytes e va = some x) :
    s.pageEntry e va ≠ 0 ∧ (s.mem (frameOf (s.pageEntry e va))).byte (va % pageSize) = x ∧
      (modified (s.pageEntry e va) ∨ (s.filePage e va).byte (va % pageSize) = x) := by
  simp only [Kernel.startBytes] at known
  split at known
  · rename_i found
    obtain rfl := Option.some.inj known
    exact ⟨found.2.1, rfl, found.2.2⟩
  · cases known

/-- What is known at the start. -/
theorem Space.shows_start (space : Space e env₀ s v w)
    (backed : ∀ va < word32, UserVa va → s.pageEntry e va ≠ 0 → s.pageFileEntry e va ≠ 0) :
    Shows Page.at (s.startBytes e).pages userPages (v.tiers e) := by
  intro p user
  have userAt : ∀ k, UserVa (addressAt p k) := fun k => by
    show (pageNo (addressAt p k)).1 < 955
    rw [pageNo_addressAt]
    exact user
  obtain ⟨d, dir⟩ := space.dir
  have entry : ∀ k, s.pageEntry e (addressAt p k) = v.ptes e p := fun k => by
    rw [space.toSound.pageEntry dir (userAt k), View.pte_eq, pageNo_addressAt]
  have memory := fun k => space.memory_eq (userAt k)
  have stored := fun k => space.toSound.stored_eq e (addressAt p k)
  simp only [pageNo_addressAt] at memory stored
  refine ⟨fun {q k x} here known => ?_, fun {q k x} _ clean there known => ?_,
    fun {k x} out known => ?_, fun here => ?_⟩
  · obtain ⟨nonzero, byte, -⟩ := Kernel.startBytes_some known
    have same := Option.some.inj (here.symm.trans (memory k nonzero))
    rw [addressAt_mod] at byte
    rw [same]
    exact byte
  · obtain ⟨nonzero, -, dirty | byte⟩ := Kernel.startBytes_some known
    · rw [entry] at dirty
      exact absurd clean (by simp [View.tiers, tiersOf, dirty])
    · have file := backed _ (addressAt_lt p k) (userAt k) nonzero
      have same := (stored k).symm.trans there
      rw [if_pos file] at same
      obtain rfl := Option.some.inj same
      rw [addressAt_mod] at byte
      exact byte
  · obtain ⟨nonzero, -⟩ := Kernel.startBytes_some known
    exact absurd ((space.pageEntry_zero (userAt k)).mpr (by rwa [pageNo_addressAt])) nonzero
  · have nonzero : s.pageEntry e (addressAt p 0) ≠ 0 := fun zero => here (by
      rw [← pageNo_addressAt p 0]
      exact (space.pageEntry_zero (userAt 0)).mp zero)
    have file := backed _ (addressAt_lt p 0) (userAt 0) nonzero
    show v.stored e p ≠ none
    rw [stored 0, if_pos file]
    rintro ⟨⟩

theorem Running.knows (running : Running e env₀ s v w)
    (backed : ∀ va < word32, UserVa va → s.pageEntry e va ≠ 0 → s.pageFileEntry e va ≠ 0) :
    Knows e (s.startBytes e) s := ⟨env₀, v, w, running, running.shows_start backed⟩

/-! ## Steps -/

/-- A load returns what is known, and nothing else becomes known. -/
theorem Knows.load {known : Bytes} (knows : Knows e known s) (lt : va < word32) (user : UserVa va)
    (run : translate va true false s = .ok (some f) s') : Knows e known s' ∧
      ∀ b, known va = some b → (s'.mem f).byte (va % pageSize) = b := by
  obtain ⟨env, v, w, running, shows⟩ := knows
  obtain ⟨here, v', running', tiers⟩ := running.access user lt run (s'.mem f)
  rw [Kernel.setPage_mem] at running'
  refine ⟨⟨env, v', w, running', ?_⟩, fun b is => ?_⟩
  · have same : v'.tiers e = v.tiers e := by
      rw [tiers, ← here, Function.update_eq_self]
      exact tiersOf_congr (modified_update (by simp [modified, accessed, permUsed]))
    rwa [same]
  · refine (shows (pageNo va) user).here (k := offset va) here ?_
    rw [Bytes.pages, addressAt_pageNo lt, is]

/-- A byte of a page in memory is overwritten. -/
theorem shows_storeByte {known : Bytes} {t : Tiers PageNo Page} {p : Page}
    (shows : Shows Page.at known.pages userPages t) (here : t.memory (pageNo va) = some p)
    (lt : va < word32) (b : BitVec 8) :
    Shows Page.at (Bytes.pages (Function.update known va (some b))) userPages
      (t.write (pageNo va) (p.setByte (va % pageSize) b)) := by
  rw [known.pages_update lt]
  refine shows.write here fun k => ?_
  rw [Page.at, Page.byte_setByte _ _ (Nat.mod_lt _ (by decide)) k.isLt, Page.at]
  simp only [offset, Fin.ext_iff]

/-- The byte that is stored is known. -/
theorem Knows.store {known : Bytes} (knows : Knows e known s) (lt : va < word32)
    (user : UserVa va) (run : translate va true true s = .ok (some f) s') (b : BitVec 8) :
    Knows e (Function.update known va (some b))
      (s'.setPage f ((s'.mem f).setByte (va % pageSize) b)) := by
  obtain ⟨env, v, w, running, shows⟩ := knows
  obtain ⟨here, v', running', tiers⟩ := running.access user lt run
    ((s'.mem f).setByte (va % pageSize) b)
  refine ⟨env, v', w, running', ?_⟩
  have dirty : modified (accessed (v.ptes e (pageNo va)) true) = true := by
    simp [modified, accessed, permModified]
  rw [tiers, tiersOf_update, dirty]
  exact shows_storeByte shows here lt b

/-- What is read in is known. -/
theorem Space.pages_readIn {known : Bytes} (space : Space e env₀ s v w)
    (space' : Space e env₁ s' v' w') (user : UserVa va)
    (resident : v'.memory e (pageNo va) ≠ none) : (known.readIn e va s s').pages =
      fetched Page.at known.pages (v.tiers e) (pageNo va) := by
  have nonzero : s'.pageEntry e va ≠ 0 :=
    fun zero => resident ((space'.pageEntry_zero user).mp zero)
  have stored := space.toSound.stored_eq e va
  have zero := space.pageEntry_zero user
  cases here : v.memory e (pageNo va) with
  | some q =>
    have entry : s.pageEntry e va ≠ 0 := fun entry => by simp [zero.mp entry] at here
    simp only [fetched, View.tiers, tiersOf, here]
    funext p k
    exact if_neg fun read => entry read.2.1
  | none =>
    by_cases file : s.pageFileEntry e va = 0
    · rw [if_neg (not_not.mpr file)] at stored
      simp only [fetched, View.tiers, tiersOf, here, stored]
      funext p k
      exact if_neg fun read => read.2.2.2 file
    · rw [if_pos file] at stored
      simp only [fetched, View.tiers, tiersOf, here, stored]
      funext p k
      rw [Bytes.pages, Bytes.readIn, pageNo_addressAt, addressAt_mod]
      by_cases same : p = pageNo va
      · subst same
        rw [if_pos ⟨rfl, zero.mpr here, nonzero, file⟩, Function.update_self]
        rfl
      · rw [if_neg fun read => same read.1, Function.update_of_ne same]
        rfl

theorem readIn_of_zero {known : Bytes} (zero : s.pageEntry e va = 0 → s'.pageEntry e va = 0) :
    known.readIn e va s s' = known :=
  funext fun _ => if_neg fun read => read.2.2.1 (zero read.2.1)

/-- What is known stays true when a fault is handled. -/
theorem Space.handled {known : Bytes} (space : Space e env₀ s v w)
    (space' : Space e env₁ s' v' w') (user : UserVa va)
    (shows : Shows Page.at known.pages userPages (v.tiers e)) (handled : v.Handled v' e va) :
    Shows Page.at (known.readIn e va s s').pages userPages (v'.tiers e) := by
  cases handled with
  | table _ _ same =>
    rw [same, readIn_of_zero fun zero => ?_]
    · exact shows
    · rw [space'.pageEntry_zero user]
      rw [space.pageEntry_zero user] at zero
      exact (congrFun (congrArg Tiers.memory same) _).trans zero
  | page come =>
    have page := pageNo_roundDown va
    have fetch := come.pages shows.backed
    rw [page] at fetch
    have resident : v'.memory e (pageNo va) ≠ none :=
      space'.rep.memory_ne_none.mpr (ne_zero_of_present (page ▸ come.allows.1))
    rw [space.pages_readIn space' user resident]
    exact shows.fetched fetch

/-- The page that has been brought in can be accessed. -/
theorem Running.translates (running : Running e env₀ s v w) (user : UserVa va)
    (allows : Allows (v.ptes e (pageNo va)) true true) (write : Bool) :
    ∃ f s', translate va true write s = .ok (some f) s' := by
  have ends : wp (translate va true write) (fun r _ => ∃ f, r = some f) (fun _ _ => False) s := by
    apply Fos.translate_wp true write running.rep running.current user
    · exact fun f _ _ _ _ => ⟨f, rfl⟩
    · exact fun denied => absurd ⟨allows.1, fun _ => allows.2.1 rfl, allows.2.2⟩ denied
  obtain ⟨_, s', run, f, rfl⟩ := wp_returns ends
  exact ⟨f, s', run⟩

/-- There is no page table. -/
theorem Running.table_zero (running : Running e env₀ s v w) (user : UserVa va) :
    s.mem (ppn s.globals.cr3) (pdx va) = 0 ↔ v.place (.pageTable e (pdx va)) = none := by
  have dir : v.place (.pageDir e) = some (ppn s.globals.cr3) := by
    rw [running.rep.globals]
    exact running.current
  rw [running.rep.mem dir]
  exact (running.rep.place_none (Obj.child_pageDir user)).symm

/-! ## Runs -/

theorem Knows.fault {known : Bytes} (knows : Knows e known s) (lt : va < word32)
    (user : UserVa va) (absent : ¬ present (pteAt s.mem (ppn s.globals.cr3) (pageNo va)))
    (run : faultHandler va s = .ok () s') : Knows e (known.readIn e va s s') s' := by
  obtain ⟨env, v, w, running, shows⟩ := knows
  have ends : wp (faultHandler va) (fun _ s' => Knows e (known.readIn e va s s') s')
      (fun _ _ => True) s :=
    running.faultHandler_wp lt user absent
      (fun s' env' v' w' running' _ handled => ⟨env', v', w', running',
        running.handled running'.toSpace user shows handled⟩)
      ⟨fun _ _ _ => trivial, fun _ _ _ => trivial, fun _ _ => trivial⟩ fun _ => trivial
  exact (wp_ok run).mp ends

/-- What is known in a run is true. -/
theorem PagingRun.knows {known : Bytes} (start : Knows e (s.startBytes e) s)
    (run : PagingRun e s s' known) : Knows e known s' := by
  induction run with
  | start => exact start
  | load _ lt user access ih => exact (ih.load lt user access).1
  | store _ lt user access ih => exact ih.store lt user access _
  | fault _ lt user absent handled ih => exact ih.fault lt user absent handled

/-- **Demand paging is transparent**, for an environment whose pages are in the page file: in
every run, a load returns the byte that was stored last, and if there is none the byte that the
page file had when the page was first read in.  An access to a page of the page file or of the
stack that is not present is handled, unless the memory or the page file is full: it makes the
page table if there is none, and otherwise the access can be repeated. -/
theorem Running.transparent (running : Running e env₀ s v w)
    (backed : ∀ va < word32, UserVa va → s.pageEntry e va ≠ 0 → s.pageFileEntry e va ≠ 0) :
    ∀ s₁ known, PagingRun e s s₁ known →
      (∀ va < word32, UserVa va → ∀ f s₂, translate va true false s₁ = .ok (some f) s₂ →
        ∀ b, known va = some b → (s₂.mem f).byte (va % pageSize) = b) ∧
      ∀ va < ustackTop, ¬ present (pteAt s₁.mem (ppn s₁.globals.cr3) (pageNo va)) →
        s₁.pageFileEntry e va ≠ 0 ∨ ustackBottom ≤ va →
        wp (faultHandler va) (fun _ s₂ => PagingRun e s s₂ (known.readIn e va s₁ s₂) ∧
            (s₁.mem (ppn s₁.globals.cr3) (pdx va) = 0 ∧
                s₂.mem (ppn s₂.globals.cr3) (pdx va) ≠ 0 ∨
              ∀ write, ∃ f s₃, translate va true write s₂ = .ok (some f) s₃))
          (fun x _ => x = noVirtualSpace ∨ x = outOfMemory) s₁ := by
  intro s₁ known run
  have knows := run.knows (running.knows backed)
  refine ⟨fun va lt user f s₂ access => (knows.load lt user access).2,
    fun va below absent legal => ?_⟩
  obtain ⟨env, v₁, w₁, running₁, -⟩ := knows
  have user : UserVa va := userVa_of_lt (below.trans (by decide))
  have lt : va < word32 := below.trans (by decide)
  have page := running₁.legal below legal
  have ends : wp (faultHandler va) (fun _ s₂ => s₁.mem (ppn s₁.globals.cr3) (pdx va) = 0 ∧
        s₂.mem (ppn s₂.globals.cr3) (pdx va) ≠ 0 ∨
      ∀ write, ∃ f s₃, translate va true write s₂ = .ok (some f) s₃)
      (fun x _ => x = noVirtualSpace ∨ x = outOfMemory) s₁ := by
    refine running₁.faultHandler_wp lt user absent (fun s₂ env₂ v₂ w₂ running₂ _ handled => ?_)
      ⟨fun _ illegal => absurd page illegal, fun _ _ _ => Or.inl rfl, fun _ _ => Or.inr rfl⟩
      fun beyond => absurd below (Nat.not_lt_of_le beyond)
    cases handled with
    | table none some _ =>
      exact Or.inl ⟨(running₁.table_zero user).mpr none, fun zero =>
        some ((running₂.table_zero user).mp zero)⟩
    | page come => exact Or.inr (running₂.translates user (pageNo_roundDown va ▸ come.allows))
  rw [wp] at ends ⊢
  cases handled : faultHandler va s₁ with
  | ok _ s₂ =>
    rw [handled] at ends
    exact ⟨.fault run lt user absent handled, ends⟩
  | error x s₂ =>
    rw [handled] at ends
    exact ends

/-- What a program does: it loads or stores a byte, or its access faults. -/
inductive Access where
  | load (va : Nat)
  | store (va : Nat) (b : BitVec 8)
  | fault (va : Nat)

/-- The state after it, with what is known then. -/
def Access.exec (e : Nat) (p : Kernel × Bytes) : Access → Option (Kernel × Bytes)
  | .load va =>
    match translate va true false p.1 with
    | .ok (some _) s => if va < word32 ∧ UserVa va then some (s, p.2) else none
    | _ => none
  | .store va b =>
    match translate va true true p.1 with
    | .ok (some f) s =>
      if va < word32 ∧ UserVa va then
        some (s.setPage f ((s.mem f).setByte (va % pageSize) b), Function.update p.2 va (some b))
      else none
    | _ => none
  | .fault va =>
    if va < word32 ∧ UserVa va ∧
        ¬ present (pteAt p.1.mem (ppn p.1.globals.cr3) (pageNo va)) then
      (after (faultHandler va) p.1).map fun s => (s, p.2.readIn e va p.1 s)
    else none

theorem PagingRun.exec {p p' : Kernel × Bytes} {a : Access} (run : PagingRun e s p.1 p.2)
    (ends : a.exec e p = some p') : PagingRun e s p'.1 p'.2 := by
  cases a with
  | load va =>
    rw [Access.exec] at ends
    split at ends
    · rename_i access
      obtain ⟨⟨lt, user⟩, ⟨⟩⟩ := Option.ite_none_right_eq_some.mp ends
      exact run.load lt user access
    · cases ends
  | store va b =>
    rw [Access.exec] at ends
    split at ends
    · rename_i access
      obtain ⟨⟨lt, user⟩, ⟨⟩⟩ := Option.ite_none_right_eq_some.mp ends
      exact run.store lt user access
    · cases ends
  | fault va =>
    obtain ⟨⟨lt, user, absent⟩, ends⟩ := Option.ite_none_right_eq_some.mp ends
    obtain ⟨s₁, handled, rfl⟩ := Option.map_eq_some_iff.mp ends
    obtain ⟨_, handled⟩ := after_eq_some.mp handled
    exact run.fault lt user absent handled

/-- A byte of the stack is stored, its page is evicted for two others and read back in. -/
theorem transparent_stack : ∃ s s₁ known s₂ f s₃, startSpace 0 2 1 bootKernel = .ok () s ∧
    PagingRun 0 s s₁ known ∧
    ¬ present (pteAt s₁.mem (ppn s₁.globals.cr3) (pageNo 0xEEBFD010)) ∧
    faultHandler 0xEEBFD010 s₁ = .ok () s₂ ∧
    translate 0xEEBFD010 true false s₂ = .ok (some f) s₃ ∧ (s₃.mem f).byte 0x10 = 7 := by
  obtain ⟨s, env, v, w, running, queue, -, -, -, -, started⟩ :=
    smallMachine.running_boot 0 2 1 (by decide) (by decide) (by decide)
  rw [boot_smallMachine] at started
  have backed : ∀ va < word32, UserVa va → s.pageEntry 0 va ≠ 0 → s.pageFileEntry 0 va ≠ 0 := by
    intro va lt user entry
    have here : v.memory 0 (pageNo va) ≠ none := mt (running.pageEntry_zero user).mpr entry
    rw [← pageNo_roundDown va, running.memory_ne_none (roundDown_aligned lt) user.roundDown, queue]
      at here
    cases here
  have ends : (after (startSpace 0 2 1) bootKernel).any (fun s =>
      ([Access.fault 0xEEBFD010, .fault 0xEEBFD010, .store 0xEEBFD010 7, .fault 0xEEBFC000,
        .fault 0xEEBFB000].foldlM (Access.exec 0) (s, s.startBytes 0)).any fun p =>
        p.2 0xEEBFD010 = some 7 ∧
        ¬ present (pteAt p.1.mem (ppn p.1.globals.cr3) (pageNo 0xEEBFD010)) ∧
        p.1.pageFileEntry 0 0xEEBFD010 ≠ 0 ∧ p.1.mem (ppn p.1.globals.cr3) (pdx 0xEEBFD010) ≠ 0 ∧
        (after (faultHandler 0xEEBFD010) p.1).isSome) = true := by
    decide +kernel
  rw [after_eq_some.mpr ⟨(), started⟩, Option.any_some] at ends
  obtain ⟨⟨s₁, known⟩, run, ends⟩ := (Option.any_eq_true _ _).mp ends
  obtain ⟨stored, absent, file, table, handled⟩ := of_decide_eq_true ends
  obtain ⟨s₂, handled⟩ := Option.isSome_iff_exists.mp handled
  obtain ⟨_, handled⟩ := after_eq_some.mp handled
  have stored : known 0xEEBFD010 = some 7 := stored
  have paging : PagingRun 0 s s₁ known :=
    foldlM_steps (R := fun _ p => PagingRun 0 s p.1 p.2) (fun _ _ _ _ run ends => run.exec ends)
      (l := []) .start run
  have back := (running.transparent backed s₁ known paging).2 0xEEBFD010 (by decide) absent
    (Or.inl file)
  rw [wp_ok handled] at back
  obtain ⟨paging', repeated⟩ := back
  obtain ⟨f, s₃, loaded⟩ := (repeated.resolve_left fun new => table new.1) false
  refine ⟨s, s₁, known, s₂, f, s₃, started, paging, absent, handled, loaded, ?_⟩
  refine (running.transparent backed s₂ _ paging').1 0xEEBFD010 (by decide) (by decide) f s₃ loaded
    7 ?_
  rw [Bytes.readIn, stored]
  exact ite_self _

end Fos
