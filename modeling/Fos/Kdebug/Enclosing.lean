import Fos.Kdebug.Binsearch

/-!
# The entry that contains an address

`stab_binsearch` looks for the last entry up to `addr`, and for the end of its region.

* `Table.Finds`: what its comment asks for; `Table.Apart`: when the two agree;
* `resume_below`, `resume_between`, `resume_later`: what becomes of the search after an exact
  match, where `addr++` has added 4;
* `Matched`: the state there; `Matched.wrapped`, `Matched.again`, `Matched.between`: its three ends;
* `stabBinsearch_finds_iff`.
-/

namespace Fos.Kdebug

/-- `left` is the entry of the range with the greatest value up to the address. -/
structure Table.Encloses (t : Table) (left right : Int) (addr : UInt32) (found : Int) : Prop where
  lo : left ≤ found
  hi : found ≤ right
  entry : t.Matches found
  upTo : t.value found ≤ addr.toNat
  greatest : ∀ i, left ≤ i → i ≤ right → t.Matches i → t.value i ≤ addr.toNat →
    t.value i ≤ t.value found

/-- `last` is just before the next entry after `found`, or at the end of the range. -/
structure Table.UpTo (t : Table) (right found last : Int) : Prop where
  lo : found ≤ last
  hi : last ≤ right
  free : t.Free (found + 1) last
  next : last = right ∨ t.Matches (last + 1)

/-- The search ends with the entry that contains the address and the end of its region, if there
is one, and with an empty region if there are no entries. -/
def Table.Finds (t : Table) (left right : Int) (addr : UInt32) : Prop :=
  ∃ passes found last,
  (∀ fuel ≥ passes, stabBinsearch t fuel left right addr = some (found, last)) ∧
    (t.Free left right → last < found) ∧
    ((∃ i, left ≤ i ∧ i ≤ right ∧ t.Matches i ∧ t.value i ≤ addr.toNat) →
      t.Encloses left right addr found ∧ t.UpTo right found last)

/-- `next` is the entry after `e`. -/
structure Table.Next (t : Table) (right e next : Int) : Prop where
  lo : e < next
  hi : next ≤ right
  entry : t.Matches next
  free : t.Free (e + 1) (next - 1)

/-- The entry at the address, if there is one, is more than 4 below the entry after it, or the
halving of the range comes to it after that one. (At the end of the address space, where `addr`
wraps around on the second match, the next entry may also be the next in the table.) -/
def Table.Apart (t : Table) (left right : Int) (addr : UInt32) : Prop :=
  ∀ e, left ≤ e → e ≤ right → t.Matches e → t.value e = addr.toNat →
    addr.toNat + 4 < 2 ^ 32 ∧ ∀ next, t.Next right e next →
      t.halving e left right < next ∨ addr.toNat + 4 < t.value next ∨
        (t.value next = addr.toNat + 4 ∧ 2 ^ 32 ≤ addr.toNat + 8 ∧ next = e + 1)

/-! ## How the search ends -/

variable {t : Table} {left right found last e r : Int} {addr : UInt32}

/-- The loop from the state on, and what follows it. -/
def Ends (t : Table) (s : Search) (found last : Int) : Prop :=
  ∃ s', Reach t s s' ∧ s'.r < s'.l ∧ s'.finish t = (found, last)

theorem Reach.ends {s s' : Search} (reach : Reach t s s') (ends : Ends t s' found last) :
    Ends t s found last :=
  let ⟨s'', reach', rest⟩ := ends
  ⟨s'', reach.trans reach', rest⟩

theorem Ends.run (ends : Ends t ⟨left, right, left, right, false, addr⟩ found last) :
    ∃ passes, ∀ fuel ≥ passes, stabBinsearch t fuel left right addr = some (found, last) := by
  obtain ⟨s', reach, crossed, finish⟩ := ends
  obtain ⟨passes, run⟩ := reach.loop crossed
  refine ⟨passes, fun fuel enough => ?_⟩
  rw [stabBinsearch, run fuel enough, ← finish]
  rfl

theorem Ends.finds_iff (ends : Ends t ⟨left, right, left, right, false, addr⟩ found last) :
    t.Finds left right addr ↔ (t.Free left right → last < found) ∧
      ((∃ i, left ≤ i ∧ i ≤ right ∧ t.Matches i ∧ t.value i ≤ addr.toNat) →
        t.Encloses left right addr found ∧ t.UpTo right found last) := by
  obtain ⟨passes, run⟩ := ends.run
  constructor
  · rintro ⟨passes', found', last', run', rest⟩
    have same := (run (max passes passes') (Nat.le_max_left ..)).symm.trans
      (run' (max passes passes') (Nat.le_max_right ..))
    obtain ⟨rfl, rfl⟩ := Prod.mk.inj (Option.some.inj same)
    exact rest
  · exact fun rest => ⟨passes, found, last, run, rest⟩

/-! ## Without an entry at the address -/

/-- An entry up to the address lies in front of the right end. -/
theorem Settled.inside {s s' : Search} (settled : Settled t s s') (rising : t.Rising s.l s.r)
    {i : Int} (hi : i ≤ s.r) (entry : t.Matches i) (upTo : t.value i ≤ s.addr.toNat) :
    i ≤ s'.r := by
  by_contra after
  rcases settled.edge with same | ⟨there, greater⟩
  · omega
  · have := rising.le settled.lo (by omega) hi there entry
    omega

theorem finds_of_noMatch (rising : t.Rising left right)
    (noMatch : ∀ i, left ≤ i → i ≤ right → t.Matches i → t.value i ≠ addr.toNat) :
    (∃ found last, Ends t ⟨left, right, left, right, false, addr⟩ found last) ∧
      t.Finds left right addr := by
  by_cases range : left ≤ right + 1
  · obtain ⟨s', reach, settled⟩ :=
      @reach_noMatch t ⟨left, right, left, right, false, addr⟩ range rfl rising noMatch
    by_cases any : ∃ i, left ≤ i ∧ i ≤ right ∧ t.Matches i
    · have hit : s'.anyMatches = true := settled.any.mpr (Or.inr any)
      have ends : Ends t ⟨left, right, left, right, false, addr⟩
          (t.rescan s'.regionLeft s'.regionRight) s'.regionRight :=
        ⟨s', reach, settled.crossed, if_pos hit⟩
      refine ⟨⟨_, _, ends⟩, ends.finds_iff.mpr ⟨fun none => ?_, ?_⟩⟩
      · obtain ⟨i, lo, hi, entry⟩ := any
        exact absurd entry (none i lo hi)
      · rintro ⟨i, lo, hi, entry, upTo⟩
        have edge := settled.edge
        dsimp only at edge
        rcases settled.left with ⟨-, free⟩ | ⟨lo', hi', entry', free⟩
        · exact absurd entry (free i lo (settled.inside rising hi entry upTo))
        · have hi₁ := settled.hi
          dsimp only at lo' hi₁
          rw [settled.right, Table.rescan_of_free hi' free]
          refine ⟨⟨lo', by omega, entry', Nat.le_of_lt (settled.less _ lo' hi' entry'), ?_⟩,
            ⟨hi', hi₁, free, edge.imp_right And.left⟩⟩
          intro i lo hi entry upTo
          have before : i ≤ s'.regionLeft := by
            by_contra after
            exact free i (by omega) (settled.inside rising hi entry upTo) entry
          exact rising.le lo before (by omega) entry entry'
    · have miss : s'.anyMatches = false := by
        by_contra hit
        exact any ((settled.any.mp (by simpa using hit)).resolve_left Bool.false_ne_true)
      have ends : Ends t ⟨left, right, left, right, false, addr⟩
          s'.regionLeft (s'.regionLeft - 1) :=
        ⟨s', reach, settled.crossed, by rw [Search.finish, miss]; rfl⟩
      refine ⟨⟨_, _, ends⟩, ends.finds_iff.mpr ⟨fun _ => by omega, ?_⟩⟩
      rintro ⟨i, lo, hi, entry, -⟩
      exact absurd ⟨i, lo, hi, entry⟩ any
  · have ends : Ends t ⟨left, right, left, right, false, addr⟩ left (left - 1) :=
      ⟨_, .refl, by dsimp only; omega, rfl⟩
    refine ⟨⟨_, _, ends⟩, ends.finds_iff.mpr ⟨fun _ => by omega, ?_⟩⟩
    rintro ⟨i, lo, hi, -⟩
    omega

/-! ## After an exact match -/

/-- The address has wrapped around: the entry that was found is out of the region again. -/
theorem resume_below {b : UInt32} (hi : e ≤ r) (entry : t.Matches e) (rising : t.Rising e r)
    (low : b.toNat < t.value e) : Ends t ⟨e, r, e, r, true, b⟩ (e - 1) (e - 1) := by
  have above : ∀ i, e ≤ i → i ≤ r → t.Matches i → b.toNat < t.value i := fun i lo hi there =>
    Nat.lt_of_lt_of_le low (rising.le (Int.le_refl e) lo hi entry there)
  obtain ⟨s', reach, settled⟩ := @reach_noMatch t ⟨e, r, e, r, true, b⟩ (by dsimp only; omega) rfl
    rising fun i lo hi there => Nat.ne_of_gt (above i lo hi there)
  have out : s'.r = e - 1 := by
    have lo := settled.lo
    dsimp only at lo
    by_contra inside
    exact absurd (settled.less e (Int.le_refl e) (by omega) entry) (Nat.lt_asymm low)
  have stays : s'.regionLeft = e := by
    rcases settled.left with ⟨same, -⟩ | ⟨lo, hi, -⟩
    · exact same
    · dsimp only at lo
      omega
  refine ⟨s', reach, settled.crossed, ?_⟩
  rw [Search.finish, if_pos (settled.any.mpr (Or.inl rfl)), settled.right, out, stays,
    Table.rescan_of_le (by omega)]

/-- No entry has the new address: the search ends at the last entry below it. -/
theorem resume_between {b : UInt32} (hi : e ≤ r) (entry : t.Matches e) (rising : t.Rising e r)
    (more : t.value e < b.toNat)
    (noMatch : ∀ i, e < i → i ≤ r → t.Matches i → t.value i ≠ b.toNat) :
    ∃ found last, Ends t ⟨e, r, e, r, true, b⟩ found last ∧ e ≤ found ∧ found ≤ last ∧ last ≤ r ∧
      t.Matches found ∧ t.Free (found + 1) last ∧
      (∀ i, e ≤ i → i ≤ last → t.Matches i → t.value i < b.toNat) ∧
      (last = r ∨ (t.Matches (last + 1) ∧ b.toNat < t.value (last + 1))) := by
  obtain ⟨s', reach, settled⟩ := @reach_noMatch t ⟨e, r, e, r, true, b⟩ (by dsimp only; omega) rfl
    rising fun i lo hi there => by
      dsimp only at lo hi
      rcases Int.lt_or_eq_of_le lo with after | rfl
      · exact noMatch i after hi there
      · exact Nat.ne_of_lt more
  have lo := settled.lo
  have edge := settled.edge
  dsimp only at lo edge
  have inside : e ≤ s'.r := by
    by_contra out
    rcases edge with same | ⟨-, greater⟩
    · omega
    · rw [show s'.r + 1 = e by omega] at greater
      omega
  rcases settled.left with ⟨-, free⟩ | ⟨lo', hi', entry', free⟩
  · exact absurd entry (free e (Int.le_refl e) inside)
  · refine ⟨s'.regionLeft, s'.r, ⟨s', reach, settled.crossed, ?_⟩, lo', hi', settled.hi,
      entry', free,
      settled.less, edge⟩
    rw [Search.finish, if_pos (settled.any.mpr (Or.inl rfl)), settled.right,
      Table.rescan_of_free hi' free]

theorem toNat_add_four (b : UInt32) :
    (b.toNat + 4 < 2 ^ 32 ∧ (b + 4).toNat = b.toNat + 4) ∨
      (2 ^ 32 ≤ b.toNat + 4 ∧ (b + 4).toNat < b.toNat) := by
  have bound := b.toNat_lt
  have sum : (b + 4).toNat = (b.toNat + 4) % 2 ^ 32 := UInt32.toNat_add b 4
  omega

/-- The search never goes back behind the entry, as long as the address has not wrapped around. -/
theorem resume_later {b : UInt32} (hi : e ≤ r) (entry : t.Matches e) (rising : t.Rising e r)
    (four : b.toNat = t.value e + 4) :
    ∃ found last, Ends t ⟨e, r, e, r, true, b⟩ found last ∧ e ≤ found := by
  induction gap : (r - e).toNat using Nat.strong_induction_on generalizing e r b with
  | _ gap ih =>
    by_cases again : ∃ i, e < i ∧ i ≤ r ∧ t.Matches i ∧ t.value i = b.toNat
    · obtain ⟨i, after, hi', entry', equal⟩ := again
      obtain ⟨r', reach, -, le, le', -⟩ := @reach_match t ⟨e, r, e, r, true, b⟩ i
        (Int.le_of_lt after) hi' entry' equal rfl rising
      dsimp only at reach le'
      have rising' := rising.mono (Int.le_of_lt after) le'
      rcases toNat_add_four b with ⟨-, sum⟩ | ⟨-, low⟩
      · obtain ⟨found, last, ends, le''⟩ := ih _ (by omega) (b := b + 4) le entry' rising'
          (by omega) rfl
        exact ⟨found, last, reach.ends ends, by omega⟩
      · exact ⟨i - 1, i - 1, reach.ends (resume_below le entry' rising' (equal.symm ▸ low)),
          by omega⟩
    · obtain ⟨found, last, ends, le, -⟩ := resume_between hi entry rising (by omega)
        fun i after hi' there equal => again ⟨i, after, hi', there, equal⟩
      exact ⟨found, last, ends, le⟩

/-! ## With an entry at the address -/

theorem encloses_iff (rising : t.Rising left right) (lo : left ≤ e) (hi : e ≤ right)
    (entry : t.Matches e) (equal : t.value e = addr.toNat) :
    t.Encloses left right addr found ↔ found = e := by
  constructor
  · intro encloses
    have least := encloses.greatest e lo hi entry (Nat.le_of_eq equal)
    have upTo := encloses.upTo
    rcases Int.lt_trichotomy found e with before | same | after
    · have := rising found e encloses.lo before hi encloses.entry entry
      omega
    · exact same
    · have := rising e found lo after encloses.hi entry encloses.entry
      omega
  · rintro rfl
    exact ⟨lo, hi, entry, Nat.le_of_eq equal, fun i _ _ _ upTo => by omega⟩

/-- The entry after `e`, if one of its successors is in the range. -/
theorem exists_next {i : Int} (after : e < i) (hi : i ≤ right) (entry : t.Matches i) :
    ∃ next, t.Next right e next ∧ next ≤ i := by
  induction gap : (i - e).toNat using Nat.strong_induction_on generalizing i with
  | _ gap ih =>
    by_cases free : t.Free (e + 1) (i - 1)
    · exact ⟨i, ⟨after, hi, entry, free⟩, Int.le_refl i⟩
    · obtain ⟨j, lo, le, entry'⟩ : ∃ j, e + 1 ≤ j ∧ j ≤ i - 1 ∧ t.Matches j := by
        simpa [Table.Free] using free
      obtain ⟨next, isNext, le'⟩ := ih _ (by omega) (i := j) (by omega) (by omega) entry' rfl
      exact ⟨next, isNext, by omega⟩

theorem Table.Next.le {next i : Int} (isNext : t.Next right e next) (after : e < i)
    (entry : t.Matches i) : next ≤ i := by
  by_contra before
  exact isNext.free i (by omega) (by omega) entry

/-- `Table.Apart` at the entry `e` that has the address, when the halving leaves `r`. -/
def Table.ApartAt (t : Table) (right : Int) (addr : UInt32) (e r : Int) : Prop :=
  addr.toNat + 4 < 2 ^ 32 ∧ ∀ next, t.Next right e next →
    r < next ∨ addr.toNat + 4 < t.value next ∨
      (t.value next = addr.toNat + 4 ∧ 2 ^ 32 ≤ addr.toNat + 8 ∧ next = e + 1)

theorem apart_iff (rising : t.Rising left right) (lo : left ≤ e) (hi : e ≤ right)
    (entry : t.Matches e) (equal : t.value e = addr.toNat) :
    t.Apart left right addr ↔ t.ApartAt right addr e (t.halving e left right) := by
  refine ⟨fun apart => apart e lo hi entry equal, fun cond e' lo' hi' entry' equal' => ?_⟩
  have same : e' = e := by
    rcases Int.lt_trichotomy e' e with before | same | after
    · have := rising e' e lo' before hi entry' entry
      omega
    · exact same
    · have := rising e e' lo after hi' entry entry'
      omega
  exact same ▸ cond

/-- The search has come to the entry `e` with the address, and goes on up to `r`. -/
structure Matched (t : Table) (left right : Int) (addr : UInt32) (e r : Int) : Prop where
  rising : t.Rising left right
  lo : left ≤ e
  le : e ≤ r
  hi : r ≤ right
  entry : t.Matches e
  equal : t.value e = addr.toNat
  edge : r = right ∨ t.Matches (r + 1)
  reach : Reach t ⟨left, right, left, right, false, addr⟩ ⟨e, r, e, r, true, addr + 4⟩

/-- The search ends, and finds what it should exactly under the condition. -/
def Decided (t : Table) (left right : Int) (addr : UInt32) (e r : Int) : Prop :=
  (∃ found last, Ends t ⟨left, right, left, right, false, addr⟩ found last) ∧
    (t.Finds left right addr ↔ t.ApartAt right addr e r)

theorem Matched.decided (here : Matched t left right addr e r)
    (ends : Ends t ⟨e, r, e, r, true, addr + 4⟩ found last)
    (cond : found = e ∧ t.UpTo right found last ↔ t.ApartAt right addr e r) :
    Decided t left right addr e r := by
  have ends := here.reach.ends ends
  have hi := Int.le_trans here.le here.hi
  refine ⟨⟨_, _, ends⟩, ?_⟩
  rw [ends.finds_iff, encloses_iff here.rising here.lo hi here.entry here.equal, ← cond]
  exact ⟨fun both => both.2 ⟨e, here.lo, hi, here.entry, Nat.le_of_eq here.equal⟩,
    fun both => ⟨fun none => absurd here.entry (none e here.lo hi), fun _ => both⟩⟩

theorem Matched.rising_rest (here : Matched t left right addr e r) : t.Rising e r :=
  here.rising.mono here.lo here.hi

/-- The address wraps around at once. -/
theorem Matched.wrapped (here : Matched t left right addr e r)
    (wrap : 2 ^ 32 ≤ addr.toNat + 4) (low : (addr + 4).toNat < addr.toNat) :
    Decided t left right addr e r := by
  refine here.decided (resume_below here.le here.entry here.rising_rest (here.equal.symm ▸ low)) ?_
  refine iff_of_false (fun finds => by omega) fun cond => ?_
  have := cond.1
  omega

/-- There is an entry at the address plus 4, which is matched too. -/
theorem Matched.again (here : Matched t left right addr e r) (noWrap : addr.toNat + 4 < 2 ^ 32)
    (sum : (addr + 4).toNat = addr.toNat + 4) {i : Int} (after : e < i) (hi : i ≤ r)
    (entry : t.Matches i) (equal : t.value i = (addr + 4).toNat) :
    Decided t left right addr e r := by
  obtain ⟨r', reach, -, le, le', -⟩ := @reach_match t ⟨e, r, e, r, true, addr + 4⟩ i
    (Int.le_of_lt after) hi entry equal rfl here.rising_rest
  dsimp only at reach le'
  have rising := here.rising_rest.mono (Int.le_of_lt after) le'
  have lo := here.lo
  have within := here.hi
  obtain ⟨next, isNext, upTo⟩ := exists_next after (Int.le_trans hi here.hi) entry
  have value : t.value next ≤ addr.toNat + 4 :=
    sum ▸ equal ▸ here.rising_rest.le (by have := isNext.lo; omega) upTo hi isNext.entry entry
  rcases toNat_add_four (addr + 4) with ⟨noWrap', sum'⟩ | ⟨wrap', low'⟩
  · obtain ⟨found, last, ends, later⟩ :=
      @resume_later t i r' (addr + 4 + 4) le entry rising (by omega)
    refine here.decided (reach.ends ends) (iff_of_false (fun finds => by omega) fun cond => ?_)
    rcases cond.2 next isNext with _ | _ | _ <;> omega
  · refine here.decided (reach.ends (resume_below le entry rising (equal.symm ▸ low'))) ?_
    constructor
    · rintro ⟨found, -⟩
      refine ⟨noWrap, fun next' isNext' => Or.inr (Or.inr ?_)⟩
      have same : next' = i := by
        have := isNext'.le after entry
        have := isNext'.lo
        omega
      rw [same]
      exact ⟨by omega, by omega, by omega⟩
    · rintro ⟨-, cond⟩
      obtain ⟨nextValue, -, adjacent⟩ := ((cond next isNext).resolve_left (by omega)).resolve_left
        (by omega)
      have same : next = i := by
        rcases Int.lt_or_eq_of_le upTo with before | same
        · have := here.rising next i (by omega) before (by omega) isNext.entry entry
          omega
        · exact same
      refine ⟨by omega, by omega, by omega, fun j lo hi => by omega, Or.inr ?_⟩
      rw [show i - 1 + 1 = i by omega]
      exact entry

/-- The search goes on to the last entry below the address plus 4. -/
theorem Matched.between (here : Matched t left right addr e r) (noWrap : addr.toNat + 4 < 2 ^ 32)
    (sum : (addr + 4).toNat = addr.toNat + 4)
    (noMatch : ∀ i, e < i → i ≤ r → t.Matches i → t.value i ≠ (addr + 4).toNat) :
    Decided t left right addr e r := by
  have equal := here.equal
  obtain ⟨found, last, ends, lo, hi, le, entry, free, less, edge⟩ :=
    @resume_between t e r (addr + 4) here.le here.entry here.rising_rest (by omega) noMatch
  refine here.decided ends ?_
  constructor
  · rintro ⟨rfl, upTo⟩
    refine ⟨noWrap, fun next isNext => ?_⟩
    have out : last < next := by
      by_contra inside
      exact free next (by have := isNext.lo; omega) (by omega) isNext.entry
    rcases edge with same | ⟨there, greater⟩
    · exact Or.inl (by omega)
    · have same : next = last + 1 := by
        have := isNext.le (by omega) there
        omega
      exact Or.inr (Or.inl (by rw [same]; omega))
  · rintro ⟨-, cond⟩
    have out : ∀ next, t.Next right e next → last < next := by
      intro next isNext
      have after := isNext.lo
      by_contra inside
      have := less next (by omega) (by omega) isNext.entry
      rcases cond next isNext with _ | _ | _ <;> omega
    have same : found = e := by
      by_contra ne
      obtain ⟨next, isNext, upTo⟩ := @exists_next t right e found (by omega)
        (Int.le_trans hi (Int.le_trans le here.hi)) entry
      have := out next isNext
      omega
    subst same
    refine ⟨rfl, hi, Int.le_trans le here.hi, free, ?_⟩
    rcases edge with rfl | ⟨there, -⟩
    · exact here.edge
    · exact Or.inr there

/-- The search after the exact match, against the condition. -/
theorem finds_iff_of_match (rising : t.Rising left right) (lo : left ≤ e) (hi : e ≤ right)
    (entry : t.Matches e) (equal : t.value e = addr.toNat) :
    (∃ found last, Ends t ⟨left, right, left, right, false, addr⟩ found last) ∧
      (t.Finds left right addr ↔ t.Apart left right addr) := by
  obtain ⟨r, reach, halve, le, le', edge⟩ := @reach_match t
    ⟨left, right, left, right, false, addr⟩ e lo hi entry equal rfl rising
  have here : Matched t left right addr e r := ⟨rising, lo, le, le', entry, equal, edge, reach⟩
  rw [apart_iff rising lo hi entry equal, ← halve]
  rcases toNat_add_four addr with ⟨noWrap, sum⟩ | ⟨wrap, low⟩
  · by_cases again : ∃ i, e < i ∧ i ≤ r ∧ t.Matches i ∧ t.value i = (addr + 4).toNat
    · obtain ⟨i, after, hi', entry', equal'⟩ := again
      exact here.again noWrap sum after hi' entry' equal'
    · exact here.between noWrap sum fun i after hi' there equal' =>
        again ⟨i, after, hi', there, equal'⟩
  · exact here.wrapped wrap low

/-- The loop ends. It finds the entry that contains the address exactly if no entry at the address
is followed too closely by one that the halving comes to later. -/
theorem stabBinsearch_finds_iff (rising : t.Rising left right) :
    (∃ passes found last, ∀ fuel ≥ passes,
      stabBinsearch t fuel left right addr = some (found, last)) ∧
      (t.Finds left right addr ↔ t.Apart left right addr) := by
  by_cases exact : ∃ e, left ≤ e ∧ e ≤ right ∧ t.Matches e ∧ t.value e = addr.toNat
  · obtain ⟨e, lo, hi, entry, equal⟩ := exact
    obtain ⟨⟨found, last, ends⟩, same⟩ := finds_iff_of_match rising lo hi entry equal
    obtain ⟨passes, run⟩ := ends.run
    exact ⟨⟨passes, found, last, run⟩, same⟩
  · obtain ⟨⟨found, last, ends⟩, finds⟩ := @finds_of_noMatch t left right addr rising
      fun i lo hi entry equal => exact ⟨i, lo, hi, entry, equal⟩
    obtain ⟨passes, run⟩ := ends.run
    refine ⟨⟨passes, found, last, run⟩, iff_of_true finds ?_⟩
    exact fun e lo hi entry equal => absurd ⟨e, lo, hi, entry, equal⟩ exact

/-- Two entries of one type, at 100 and at 101. -/
def twoFunctions : Table := ⟨fun m => ⟨0x24, 100 + (UInt32.ofNat m.toNat)⟩, 0x24⟩

theorem rising_twoFunctions : twoFunctions.Rising 0 1 := by
  intro i j lo lt hi _ _
  obtain rfl : i = 0 := by omega
  obtain rfl : j = 1 := by omega
  decide

/-- At the second entry the search is right. -/
theorem finds_second : twoFunctions.Finds 0 1 101 :=
  (stabBinsearch_finds_iff rising_twoFunctions).2.mpr fun e lo hi _ equal => by
    have last : e = 1 := by
      by_contra ne
      obtain rfl : e = 0 := by omega
      exact absurd equal (by decide)
    exact ⟨by decide, fun next isNext => absurd isNext.lo (by have := isNext.hi; omega)⟩

theorem twoFunctions_run (fuel : Nat) :
    stabBinsearch twoFunctions (fuel + 4) 0 1 100 = some (1, 1) := by
  have here (m : Int) : twoFunctions.Matches m := by rfl
  have scan (l m : Int) : twoFunctions.backScan l m = m := by
    rw [Table.backScan, if_neg fun scan => scan.2 (here m)]
  have rescan (l m : Int) : twoFunctions.rescan l m = m := by
    rw [Table.rescan, if_neg fun scan => scan.2 (here m)]
  simp only [stabBinsearch, searchLoop, Search.step, scan, Search.finish, rescan]
  rfl

/-- At the first one it ends with the second, which starts after the address. -/
theorem misses_first : twoFunctions.Rising 0 1 ∧ ¬ twoFunctions.Finds 0 1 100 := by
  refine ⟨rising_twoFunctions, ?_⟩
  rintro ⟨passes, found, last, run, -, finds⟩
  obtain ⟨rfl, rfl⟩ := Prod.mk.inj (Option.some.inj
    ((run (passes + 4) (by omega)).symm.trans (twoFunctions_run passes)))
  exact absurd (finds ⟨0, Int.le_refl 0, by omega, rfl, by decide⟩).1.upTo (by decide)

end Fos.Kdebug
