import Fos.Ring.Buffer

/-!
# Console input

The input buffer of `kern/console.c`: device interrupts put characters into it with
`cons_intr`, and `cons_getc` polls the devices and takes the next one.

* `ConsRun`: any polls and reads from the start, with what the devices delivered, what
  `cons_getc` returned, and how many characters were unread at most;
* `ConsRun.fifo`: the characters come out in order, and all of them if there was room;
* `consGetc2_eq_iff`: when `cons_getc2`, which polls the devices itself, does the same.
-/

namespace Fos

/-- `CONSBUFSIZE`. -/
abbrev consBufSize : Nat := 512

/-- `cons`. -/
abbrev Cons : Type := Ring.Buffer UInt8

/-- A character that `(*proc)()` returns to `cons_intr`. -/
def Cons.input (cons : Cons) (c : UInt8) : Cons := if c = 0 then cons else cons.put consBufSize c

/-- `cons_intr(proc)`, where `proc` returns the characters and then -1. -/
def consIntr (proc : List UInt8) (cons : Cons) : Cons := proc.foldl Cons.input cons

/-- `cons_getc()`; the serial port and the keyboard have these characters. -/
def consGetc (serial kbd : List UInt8) (cons : Cons) : UInt8 × Cons :=
  match (consIntr kbd (consIntr serial cons)).get consBufSize with
  | (some c, cons) => (c, cons)
  | (none, cons) => (0, cons)

/-! ## Runs -/

/-- The console with the characters other than 0 that have been delivered and returned, and
the most that were delivered and not returned at any time. -/
structure ConsLog where
  cons : Cons
  delivered : List UInt8
  returned : List UInt8
  peak : Nat

/-- At first the buffer is empty. -/
def ConsLog.boot : ConsLog := ⟨⟨fun _ => 0, 0, 0⟩, [], [], 0⟩

/-- A character of a device, with its record. -/
def ConsLog.deliver (log : ConsLog) (c : UInt8) : ConsLog :=
  if c = 0 then { log with cons := log.cons.input c }
  else
    { log with
      cons := log.cons.input c
      delivered := log.delivered ++ [c]
      peak := max log.peak (log.delivered.length + 1 - log.returned.length) }

/-- A poll. -/
def ConsLog.intr (log : ConsLog) (proc : List UInt8) : ConsLog := proc.foldl ConsLog.deliver log

/-- A read. -/
def ConsLog.getc (log : ConsLog) (serial kbd : List UInt8) : ConsLog :=
  let polled := (log.intr serial).intr kbd
  let (c, cons) := consGetc serial kbd log.cons
  { polled with
    cons := cons
    returned := if c = 0 then polled.returned else polled.returned ++ [c] }

/-- Polls and reads in any order. -/
inductive ConsRun : ConsLog → Prop where
  | boot : ConsRun ConsLog.boot
  | intr {log : ConsLog} (proc : List UInt8) (run : ConsRun log) : ConsRun (log.intr proc)
  | getc {log : ConsLog} (serial kbd : List UInt8) (run : ConsRun log) :
      ConsRun (log.getc serial kbd)

/-! ## Order -/

/-- The reader is past `k` delivered characters: the returned ones are among them, and they
are the same ones unless too many have been unread. -/
structure ConsLog.Reads (log : ConsLog) (k : Nat) : Prop where
  holds : Ring.Holds consBufSize log.cons log.delivered k
  nonzero : ∀ c ∈ log.delivered, c ≠ 0
  returned : log.returned.Sublist (log.delivered.take k)
  whole : log.peak < consBufSize → log.returned = log.delivered.take k

variable {log : ConsLog} {k : Nat}

theorem ConsLog.reads_boot : ConsLog.boot.Reads 0 :=
  ⟨⟨rfl, rfl, Nat.le_refl 0, by decide, fun i x _ here => (by cases here)⟩,
    fun c mem => (by cases mem), List.Sublist.refl [], fun _ => rfl⟩

theorem ConsLog.Reads.deliver (reads : log.Reads k) (c : UInt8) :
    ∃ k, (log.deliver c).Reads k := by
  by_cases zero : c = 0
  · refine ⟨k, ?_⟩
    rw [ConsLog.deliver, Cons.input, if_pos zero, if_pos zero]
    exact reads
  · have nonzero : ∀ d ∈ log.delivered ++ [c], d ≠ 0 := by
      intro d mem
      rcases List.mem_append.mp mem with old | new
      · exact reads.nonzero d old
      · rwa [List.mem_singleton.mp new]
    have le := reads.holds.le
    rw [ConsLog.deliver, Cons.input, if_neg zero, if_neg zero]
    by_cases room : log.delivered.length + 1 - k < consBufSize
    · refine ⟨k, reads.holds.put c room, nonzero, ?_, fun few => ?_⟩
      · show log.returned.Sublist ((log.delivered ++ [c]).take k)
        rw [List.take_append_of_le_length le]
        exact reads.returned
      · show log.returned = (log.delivered ++ [c]).take k
        rw [List.take_append_of_le_length le]
        exact reads.whole (Nat.lt_of_le_of_lt (Nat.le_max_left ..) few)
    · refine ⟨_, reads.holds.put_full c room, nonzero, ?_, fun few => ?_⟩
      · show log.returned.Sublist ((log.delivered ++ [c]).take (log.delivered.length + 1))
        rw [List.take_of_length_le (by simp)]
        exact (reads.returned.trans (List.take_sublist ..)).trans (List.sublist_append_left ..)
      · -- as many characters as the buffer has cells were unread
        have same := reads.whole (Nat.lt_of_le_of_lt (Nat.le_max_left ..) few)
        have length : log.returned.length = k := by
          rw [same, List.length_take, Nat.min_eq_left le]
        have unread := Nat.lt_of_le_of_lt (Nat.le_max_right ..) few
        rw [length] at unread
        exact absurd unread room

theorem ConsLog.Reads.intr (reads : log.Reads k) (proc : List UInt8) :
    ∃ k, (log.intr proc).Reads k := by
  induction proc generalizing log k with
  | nil => exact ⟨k, reads⟩
  | cons c proc ih =>
    obtain ⟨k', reads'⟩ := reads.deliver c
    exact ih reads'

theorem ConsLog.intr_cons (log : ConsLog) (proc : List UInt8) :
    (log.intr proc).cons = consIntr proc log.cons := by
  induction proc generalizing log with
  | nil => rfl
  | cons c proc ih =>
    have step : (log.deliver c).cons = log.cons.input c := by
      rw [ConsLog.deliver]
      split <;> rfl
    exact (ih (log.deliver c)).trans (by rw [step]; rfl)

/-- What a read returns is the next character that the reader is not past, or 0 if it is past
all of them. -/
theorem ConsLog.Reads.getc (reads : log.Reads k) (serial kbd : List UInt8) :
    ∃ k, (log.getc serial kbd).Reads k ∧
      ((consGetc serial kbd log.cons).1 = 0 → k = (log.getc serial kbd).delivered.length) := by
  obtain ⟨k₁, reads₁⟩ := reads.intr serial
  obtain ⟨k₂, reads₂⟩ := reads₁.intr kbd
  have cons : ((log.intr serial).intr kbd).cons = consIntr kbd (consIntr serial log.cons) := by
    rw [ConsLog.intr_cons, ConsLog.intr_cons]
  have read : consGetc serial kbd log.cons =
      match ((log.intr serial).intr kbd).cons.get consBufSize with
      | (some c, cons) => (c, cons)
      | (none, cons) => (0, cons) := by rw [cons, consGetc]
  rw [ConsLog.getc]
  generalize (log.intr serial).intr kbd = polled at reads₂ read
  rw [read]
  rcases reads₂.holds.get with ⟨all, none⟩ | ⟨c, here, got, holds⟩
  · rw [none]
    exact ⟨k₂, reads₂, fun _ => all⟩
  · have mem : c ∈ polled.delivered := List.mem_of_getElem? here
    have nonzero : c ≠ 0 := reads₂.nonzero c mem
    have took : polled.delivered.take (k₂ + 1) = polled.delivered.take k₂ ++ [c] := by
      rw [List.take_add_one, here]
      rfl
    rw [show polled.cons.get consBufSize = (some c, (polled.cons.get consBufSize).2) from
      Prod.ext got rfl]
    refine ⟨k₂ + 1, ⟨holds, reads₂.nonzero, ?_, fun few => ?_⟩, fun zero => absurd zero nonzero⟩
    · show (if c = 0 then polled.returned else polled.returned ++ [c]).Sublist _
      rw [if_neg nonzero, took]
      exact reads₂.returned.append (List.Sublist.refl [c])
    · show (if c = 0 then polled.returned else polled.returned ++ [c]) = _
      rw [if_neg nonzero, took, reads₂.whole few]

theorem ConsRun.reads (run : ConsRun log) : ∃ k, log.Reads k := by
  induction run with
  | boot => exact ⟨0, ConsLog.reads_boot⟩
  | intr proc _ ih =>
    obtain ⟨k, reads⟩ := ih
    exact reads.intr proc
  | getc serial kbd _ ih =>
    obtain ⟨k, reads⟩ := ih
    obtain ⟨k', reads', -⟩ := reads.getc serial kbd
    exact ⟨k', reads'⟩

/-- **Console input is a FIFO**: what `cons_getc` returns is delivered in this order, each
character once.  If no more than `CONSBUFSIZE - 1` characters are ever unread none is missing,
and 0 is only returned when all have been read. -/
theorem ConsRun.fifo (run : ConsRun log) :
    log.returned.Sublist log.delivered ∧
      (log.peak ≤ consBufSize - 1 → log.returned <+: log.delivered) ∧
      ∀ serial kbd, (log.getc serial kbd).peak ≤ consBufSize - 1 →
        (consGetc serial kbd log.cons).1 = 0 →
        (log.getc serial kbd).returned = (log.getc serial kbd).delivered := by
  obtain ⟨k, reads⟩ := run.reads
  refine ⟨reads.returned.trans (List.take_sublist ..), fun few => ?_, fun serial kbd few zero => ?_⟩
  · rw [reads.whole (Nat.lt_of_le_of_lt few (by decide))]
    exact List.take_prefix ..
  · obtain ⟨k', reads', all⟩ := reads.getc serial kbd
    rw [reads'.whole (Nat.lt_of_le_of_lt few (by decide)), all zero, List.take_length]

/-- Two characters come by an interrupt, a third with a read, and the last after a second read. -/
def ConsLog.typed : ConsLog :=
  (((ConsLog.boot.intr [0x72, 0x75]).getc [] [0x6E]).getc [] []).intr [0x0D]

/-- They are returned in the order in which they came, and none is missing when a read returns 0. -/
theorem fifo_typed : (ConsLog.typed.returned = [0x72, 0x75] ∧
      ConsLog.typed.returned.Sublist ConsLog.typed.delivered ∧
      ConsLog.typed.returned <+: ConsLog.typed.delivered) ∧
    ∃ log : ConsLog, ConsRun log ∧ log.delivered = [0x72, 0x75, 0x6E, 0x0D] ∧
      (log.getc [] []).returned = (log.getc [] []).delivered := by
  have run : ConsRun .typed := .intr _ (.getc _ _ (.getc _ _ (.intr _ .boot)))
  obtain ⟨order, whole, -⟩ := run.fifo
  have emptied : ConsRun ((ConsLog.typed.getc [] []).getc [] []) := .getc _ _ (.getc _ _ run)
  exact ⟨⟨by decide, order, whole (by decide)⟩, _, emptied, by decide,
    emptied.fifo.2.2 [] [] (by decide) (by decide)⟩

/-! ## The second reader -/

/-- What a device's `proc_data()` returns: nothing for -1, and 0 for no character yet. -/
abbrev ProcData : Type := Option UInt8

/-- `cons_getc2()`.  It only looks into the buffer if the keyboard has just had a character. -/
def consGetc2 (serialExists : Bool) (serial kbd : ProcData) (cons : Cons) : UInt8 × Cons :=
  let store (c : ProcData) (cons : Cons) : Cons :=
    match c with
    | none => cons
    | some c => if c = 0 then cons else cons.put consBufSize c
  let cons := if serialExists then store serial cons else cons
  let cons := store kbd cons
  let c2 : Int := match kbd with
    | none => -1
    | some c => c.toNat
  if c2 > 0 then
    match cons.get consBufSize with
    | (some c, cons) => (c, cons)
    | (none, cons) => (0, cons)
  else (0, cons)

/-- The characters that `cons_intr` gets from the serial port: none if there is no port. -/
def polled (serialExists : Bool) (serial : ProcData) : List UInt8 :=
  if serialExists then serial.toList else []

/-- The keyboard has a character. -/
def HasKey (kbd : ProcData) : Prop := ∃ c, c ≠ 0 ∧ kbd = some c

/-- There is nothing to read once the character of the serial port has been stored. -/
def NothingWaits (serialExists : Bool) (serial : ProcData) (cons : Cons) : Prop :=
  (consIntr (polled serialExists serial) cons).rpos =
    (consIntr (polled serialExists serial) cons).wpos

/-- The two readers store the same characters. -/
theorem consGetc2_stored (serialExists : Bool) (serial kbd : ProcData) (cons : Cons) :
    consGetc2 serialExists serial kbd cons =
      if (match kbd with
        | none => (-1 : Int)
        | some c => c.toNat) > 0 then
        consGetc (polled serialExists serial) kbd.toList cons
      else (0, consIntr kbd.toList (consIntr (polled serialExists serial) cons)) := by
  cases serialExists <;> cases serial <;> cases kbd <;> rfl

/-- Taking a character moves the reader. -/
theorem next_ne (p : Nat) : Ring.next consBufSize p ≠ p := by
  rw [Ring.next]
  split
  · rename_i last
    exact fun zero => absurd (zero ▸ last : 0 + 1 = consBufSize) (by decide)
  · exact Nat.succ_ne_self p

theorem consGetc_eq_zero_iff (serial kbd : List UInt8) (cons : Cons) :
    consGetc serial kbd cons = (0, consIntr kbd (consIntr serial cons)) ↔
      (consIntr kbd (consIntr serial cons)).rpos = (consIntr kbd (consIntr serial cons)).wpos := by
  rw [consGetc]
  generalize consIntr kbd (consIntr serial cons) = stored
  by_cases same : stored.rpos = stored.wpos
  · simp [Ring.Buffer.get, same]
  · rw [Ring.Buffer.get, if_pos same]
    refine iff_of_false (fun equal => ?_) same
    exact next_ne stored.rpos (congrArg (fun r => r.2.rpos) equal)

/-- **`cons_getc2` reads what `cons_getc` does** if and only if the keyboard has a character, or
there is nothing to read. -/
theorem consGetc2_eq_iff (serialExists : Bool) (serial kbd : ProcData) (cons : Cons) :
    consGetc2 serialExists serial kbd cons =
        consGetc (polled serialExists serial) kbd.toList cons ↔
      HasKey kbd ∨ NothingWaits serialExists serial cons := by
  rw [consGetc2_stored]
  by_cases key : HasKey kbd
  · obtain ⟨c, nonzero, rfl⟩ := key
    have pos : (c.toNat : Int) > 0 := by
      have positive : c.toNat ≠ 0 := fun zero => nonzero (UInt8.toNat_inj.mp zero)
      omega
    rw [if_pos pos]
    exact iff_of_true rfl (Or.inl ⟨c, nonzero, rfl⟩)
  · have unstored : consIntr kbd.toList (consIntr (polled serialExists serial) cons) =
        consIntr (polled serialExists serial) cons := by
      cases kbd with
      | none => rfl
      | some c =>
        have zero : c = 0 := by_contra fun nonzero => key ⟨c, nonzero, rfl⟩
        rw [zero]
        rfl
    have notPos : ¬ (match kbd with
        | none => (-1 : Int)
        | some c => c.toNat) > 0 := by
      cases kbd with
      | none => decide
      | some c =>
        have zero : c = 0 := by_contra fun nonzero => key ⟨c, nonzero, rfl⟩
        rw [zero]
        decide
    rw [if_neg notPos, eq_comm, consGetc_eq_zero_iff, unstored, NothingWaits]
    exact ⟨Or.inr, fun or => or.resolve_left key⟩

/-- A character that came earlier is not read. -/
theorem consGetc2_waits : ¬ ∀ (serialExists : Bool) (serial kbd : ProcData) (cons : Cons),
    consGetc2 serialExists serial kbd cons =
      consGetc (polled serialExists serial) kbd.toList cons := by
  intro agree
  have read := congrArg Prod.fst (agree true none none ⟨fun _ => 0x72, 0, 1⟩)
  exact absurd read (by decide)

end Fos
