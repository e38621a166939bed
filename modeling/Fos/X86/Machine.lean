import Fos.X86.Memory

/-!
# A processor that takes interrupts

The registers of an i386 that programs see, the instructions with which interrupts are entered and
left, and what the processor does itself then: it changes to the stack of the task state segment
when an outer ring is interrupted, and back in `iret`.

* `Cpu`, `State`, `Instr.exec`: registers, memory and instructions;
* `State.interrupt`: the delivery of an interrupt;
* `Pushed`: what has been pushed since, as a list of words.
-/

namespace X86

/-- The registers.  Of `esp`, `eip`, `cs` and `ss`, the ones that are in use. -/
structure Cpu where
  eax : BitVec 32
  ecx : BitVec 32
  edx : BitVec 32
  ebx : BitVec 32
  esp : BitVec 32
  ebp : BitVec 32
  esi : BitVec 32
  edi : BitVec 32
  eip : BitVec 32
  eflags : BitVec 32
  cs : BitVec 16
  ds : BitVec 16
  es : BitVec 16
  ss : BitVec 16
  deriving DecidableEq

/-- The ring in which the processor is: the low bits of `cs`. -/
def ring (cs : BitVec 16) : BitVec 16 := cs &&& 3

/-- Registers and memory. -/
structure State where
  cpu : Cpu
  mem : Mem

/-- The data segment registers that are saved. -/
inductive Seg where
  | ds
  | es

def Cpu.seg (c : Cpu) : Seg → BitVec 16
  | .ds => c.ds
  | .es => c.es

def Cpu.setSeg (c : Cpu) (w : BitVec 16) : Seg → Cpu
  | .ds => { c with ds := w }
  | .es => { c with es := w }

/-- The instructions that enter and leave interrupts. -/
inductive Instr where
  /-- `push $imm` -/
  | pushl (imm : BitVec 32)
  /-- `push %ds`, `push %es` -/
  | pushSeg (r : Seg)
  /-- `push %esp` -/
  | pushEsp
  | pushal
  | popal
  /-- `pop %ds`, `pop %es` -/
  | popSeg (r : Seg)
  /-- `mov $imm, %ax` -/
  | movAx (imm : BitVec 16)
  /-- `mov %ax, %ds`, `mov %ax, %es` -/
  | movSegAx (r : Seg)
  /-- `mov $imm, %esp` -/
  | movEsp (imm : BitVec 32)
  /-- `add $imm, %esp` -/
  | addEsp (imm : BitVec 32)
  | iret

namespace State

/-- Pushing a word. -/
def push (s : State) (w : BitVec 32) : State where
  cpu := { s.cpu with esp := s.cpu.esp - 4#32 }
  mem := s.mem.setWord (s.cpu.esp - 4#32) w

/-- Popping a word. -/
def pop (s : State) : BitVec 32 × State :=
  (s.mem.word s.cpu.esp, { s with cpu := { s.cpu with esp := s.cpu.esp + 4#32 } })

/-- `pushal`, which pushes the stack pointer that it found. -/
def pushal (s : State) : State :=
  let c := s.cpu
  (((((((s.push c.eax).push c.ecx).push c.edx).push c.ebx).push c.esp).push c.ebp).push c.esi).push
    c.edi

/-- `popal`, which passes over the stack pointer. -/
def popal (s : State) : State :=
  let (edi, s) := s.pop
  let (esi, s) := s.pop
  let (ebp, s) := s.pop
  let (_, s) := s.pop
  let (ebx, s) := s.pop
  let (edx, s) := s.pop
  let (ecx, s) := s.pop
  let (eax, s) := s.pop
  { s with cpu := { s.cpu with
      eax := eax, ecx := ecx, edx := edx, ebx := ebx, ebp := ebp, esi := esi, edi := edi } }

/-- `iret` in the inner ring: it goes on in the ring of the `cs` that it pops, with the stack that
it pops if that is an outer ring. -/
def iret (s : State) : State :=
  let inner := s.cpu.cs
  let (eip, s) := s.pop
  let (cs, s) := s.pop
  let (eflags, s) := s.pop
  let cs := cs.setWidth 16
  let s := { s with cpu := { s.cpu with eip := eip, cs := cs, eflags := eflags } }
  if ring cs = ring inner then s else
    let (esp, s) := s.pop
    let (ss, s) := s.pop
    { s with cpu := { s.cpu with esp := esp, ss := ss.setWidth 16 } }

end State

/-- Executing an instruction.  A segment register is pushed as a word and popped as its low half. -/
def Instr.exec (s : State) : Instr → State
  | .pushl imm => s.push imm
  | .pushSeg r => s.push ((s.cpu.seg r).setWidth 32)
  | .pushEsp => s.push s.cpu.esp
  | .pushal => s.pushal
  | .popal => s.popal
  | .popSeg r => let (w, s) := s.pop; { s with cpu := s.cpu.setSeg (w.setWidth 16) r }
  | .movAx imm => { s with cpu := { s.cpu with eax := s.cpu.eax.extractLsb' 16 16 ++ imm } }
  | .movSegAx r => { s with cpu := s.cpu.setSeg (s.cpu.eax.setWidth 16) r }
  | .movEsp imm => { s with cpu := { s.cpu with esp := imm } }
  | .addEsp imm => { s with cpu := { s.cpu with esp := s.cpu.esp + imm } }
  | .iret => s.iret

/-- Executing one instruction after the other. -/
def State.run (s : State) (code : List Instr) : State := code.foldl Instr.exec s

@[simp] theorem run_nil (s : State) : s.run [] = s := rfl

@[simp] theorem run_cons (s : State) (i : Instr) (code : List Instr) :
    s.run (i :: code) = (i.exec s).run code := rfl

/-- `ts_esp0` and `ts_ss0` of the task state segment. -/
structure Taskstate where
  esp0 : BitVec 32
  ss0 : BitVec 16

/-- An interrupt or trap gate to code in ring 0: the segment of the code, whether it is a trap
gate, the ring from which `int` may use it, and the code, which stands for its address. -/
structure Gate where
  sel : BitVec 16
  istrap : Bool
  dpl : BitVec 16
  code : List Instr

/-- The flags `TF`, `NT`, `RF` and `VM`, which interrupts clear, and `IF`, which trap gates keep. -/
def clearedFlags (istrap : Bool) : BitVec 32 := if istrap then 0x34100 else 0x34300

/-- The stack on which an interrupt is taken: that of the task state segment, with the interrupted
stack pointer on it, unless ring 0 is interrupted. -/
def State.interruptStack (s : State) (ts : Taskstate) : State :=
  if ring s.cpu.cs = 0 then s else
    let inner : State := { s with cpu := { s.cpu with esp := ts.esp0, ss := ts.ss0 } }
    (inner.push (s.cpu.ss.setWidth 32)).push s.cpu.esp

/-- The processor's part of an interrupt: the interrupted `eflags`, `cs` and `eip` are pushed, and
an error code if there is one. -/
def State.interrupt (s : State) (ts : Taskstate) (gate : Gate) (err : Option (BitVec 32)) : State :=
  let frame := (((s.interruptStack ts).push s.cpu.eflags).push (s.cpu.cs.setWidth 32)).push
    s.cpu.eip
  let frame := match err with
    | some err => frame.push err
    | none => frame
  { frame with cpu := { frame.cpu with
      cs := gate.sel, eflags := s.cpu.eflags &&& ~~~ clearedFlags gate.istrap } }

/-! ## What an interrupt leaves alone -/

/-- The registers that an interrupt leaves to its handler to save. -/
structure SameRegs (c c' : Cpu) : Prop where
  eax : c'.eax = c.eax
  ecx : c'.ecx = c.ecx
  edx : c'.edx = c.edx
  ebx : c'.ebx = c.ebx
  ebp : c'.ebp = c.ebp
  esi : c'.esi = c.esi
  edi : c'.edi = c.edi
  ds : c'.ds = c.ds
  es : c'.es = c.es

theorem SameRegs.refl (c : Cpu) : SameRegs c c :=
  ⟨rfl, rfl, rfl, rfl, rfl, rfl, rfl, rfl, rfl⟩

theorem SameRegs.push {s : State} {c : Cpu} (same : SameRegs c s.cpu) (w : BitVec 32) :
    SameRegs c (s.push w).cpu :=
  ⟨same.eax, same.ecx, same.edx, same.ebx, same.ebp, same.esi, same.edi, same.ds, same.es⟩

theorem cs_push (s : State) (w : BitVec 32) : (s.push w).cpu.cs = s.cpu.cs := rfl

theorem cs_pushal (s : State) : s.pushal.cpu.cs = s.cpu.cs := by
  simp only [State.pushal, cs_push]

theorem ss_push (s : State) (w : BitVec 32) : (s.push w).cpu.ss = s.cpu.ss := rfl

theorem ss_pushal (s : State) : s.pushal.cpu.ss = s.cpu.ss := by
  simp only [State.pushal, ss_push]

theorem ss_interrupt (s : State) (ts : Taskstate) (gate : Gate) (err : Option (BitVec 32)) :
    (s.interrupt ts gate err).cpu.ss = (s.interruptStack ts).cpu.ss := by
  cases err <;> rfl

theorem SameRegs.jump {c c' : Cpu} (same : SameRegs c c') (cs : BitVec 16) (eflags : BitVec 32) :
    SameRegs c { c' with cs := cs, eflags := eflags } :=
  ⟨same.eax, same.ecx, same.edx, same.ebx, same.ebp, same.esi, same.edi, same.ds, same.es⟩

theorem sameRegs_interruptStack (s : State) (ts : Taskstate) :
    SameRegs s.cpu (s.interruptStack ts).cpu := by
  rw [State.interruptStack]
  split
  · exact .refl _
  · refine SameRegs.push (SameRegs.push ?_ _) _
    exact ⟨rfl, rfl, rfl, rfl, rfl, rfl, rfl, rfl, rfl⟩

theorem sameRegs_interrupt (s : State) (ts : Taskstate) (gate : Gate) (err : Option (BitVec 32)) :
    SameRegs s.cpu (s.interrupt ts gate err).cpu := by
  have frame := (((sameRegs_interruptStack s ts).push s.cpu.eflags).push
    (s.cpu.cs.setWidth 32)).push s.cpu.eip
  cases err with
  | none => exact frame.jump _ _
  | some err => exact (frame.push err).jump _ _

/-! ## What has been pushed -/

/-- Since `s` the words `ws` have been pushed, the last one in front, and nothing else has been
written. -/
structure Pushed (s s' : State) (ws : List (BitVec 32)) : Prop where
  esp : s'.cpu.esp = s.cpu.esp - BitVec.ofNat 32 (4 * ws.length)
  holds : Holds s'.mem s'.cpu.esp ws
  elsewhere : ∀ x, 4 * ws.length ≤ (x - s'.cpu.esp).toNat → s'.mem x = s.mem x

variable {s s' s'' : State} {ws ws' : List (BitVec 32)} {w : BitVec 32}

theorem Pushed.refl (s : State) : Pushed s s [] where
  esp := by simp
  holds := trivial
  elsewhere _ _ := rfl

/-- Other registers may change. -/
theorem Pushed.cpu (pushed : Pushed s s' ws) {c : Cpu} (esp : c.esp = s'.cpu.esp) :
    Pushed s { s' with cpu := c } ws where
  esp := esp.trans pushed.esp
  holds := by
    rw [esp]
    exact pushed.holds
  elsewhere := by
    rw [esp]
    exact pushed.elsewhere

theorem Pushed.push (pushed : Pushed s s' ws) (w : BitVec 32)
    (fits : 4 * (ws.length + 1) ≤ 2 ^ 32 := by
      (try simp only [List.length_append, List.length_cons, List.length_nil, Option.toList])
      omega) : Pushed s (s'.push w) (w :: ws) where
  esp := by
    have esp := pushed.esp
    simp only [State.push, esp, List.length_cons, Nat.mul_add, BitVec.ofNat_add]
    bv_omega
  holds := pushed.holds.push w fits
  elsewhere x out := by
    simp only [State.push, List.length_cons] at out ⊢
    rw [setWord_of_ge _ _ (by omega)]
    refine pushed.elsewhere x ?_
    have back : x - (s'.cpu.esp - 4#32) = x - s'.cpu.esp + 4#32 := by bv_omega
    rw [back] at out
    bv_omega

theorem Pushed.pushal (pushed : Pushed s s' ws) (fits : 4 * (ws.length + 8) ≤ 2 ^ 32) :
    Pushed s s'.pushal (s'.cpu.edi :: s'.cpu.esi :: s'.cpu.ebp :: s'.cpu.esp :: s'.cpu.ebx ::
      s'.cpu.edx :: s'.cpu.ecx :: s'.cpu.eax :: ws) := by
  have four := (((pushed.push s'.cpu.eax).push s'.cpu.ecx).push s'.cpu.edx).push s'.cpu.ebx
  exact (((four.push s'.cpu.esp).push s'.cpu.ebp).push s'.cpu.esi).push s'.cpu.edi

theorem esp_pushal (s : State) : s.pushal.cpu.esp = s.cpu.esp - 32#32 :=
  ((Pushed.refl s).pushal (by decide)).esp

/-- An interrupt pushes on the stack on which it is taken. -/
theorem Pushed.interrupt {ts : Taskstate} (pushed : Pushed s' (s.interruptStack ts) ws)
    (gate : Gate) (err : Option (BitVec 32)) (fits : 4 * (ws.length + 4) ≤ 2 ^ 32 := by simp) :
    Pushed s' (s.interrupt ts gate err)
      (err.toList ++ [s.cpu.eip, s.cpu.cs.setWidth 32, s.cpu.eflags] ++ ws) := by
  have frame := ((pushed.push s.cpu.eflags).push (s.cpu.cs.setWidth 32)).push s.cpu.eip
  cases err with
  | none => exact frame.cpu rfl
  | some w => exact (frame.push w).cpu rfl

theorem pushed_interruptStack (ts : Taskstate) (outer : ring s.cpu.cs ≠ 0) :
    Pushed { s with cpu := { s.cpu with esp := ts.esp0 } } (s.interruptStack ts)
      [s.cpu.esp, s.cpu.ss.setWidth 32] := by
  have base := Pushed.refl { s with cpu := { s.cpu with esp := ts.esp0 } }
  rw [State.interruptStack, if_neg outer]
  exact ((base.cpu (c := { s.cpu with esp := ts.esp0, ss := ts.ss0 }) rfl).push _).push _

theorem interruptStack_inner {ts : Taskstate} (inner : ring s.cpu.cs = 0) :
    s.interruptStack ts = s :=
  if_pos inner

end X86
