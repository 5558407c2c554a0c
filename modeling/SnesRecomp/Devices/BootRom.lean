import SnesRecomp.Devices.Spc

/-!
# The program in the boot ROM

The bytes of `bootRom` are a program for the sound processor: it clears page zero, says that it is
ready, and then takes blocks of bytes from the main processor through the ports, until it jumps to
the program that was sent.  `Boot` is what the program works on, `Boot.step` what each of its 32
instructions does, and `shows_step` that `spc_runOpcode` does this when it comes to the instruction.
-/

namespace SnesRecomp

/-- The instructions, in the order of their addresses. -/
inductive BootPoint
  | start | setSp | zeroA | clear | clearDec | clearBne | readyA | readyB
  | waitCmp | waitBne | waitBra | syncMov | syncBne | loopCmp | loopBne | loadData | ack | storeData
  | incY | incBne | incHigh | pageBpl | endCmp | endBpl
  | loadDest | storeDest | loadKick | ackKick | movAY | movXA | kickBne | jump
  deriving DecidableEq

/-- Where an instruction is. -/
def BootPoint.pc : BootPoint → Word
  | .start => 0xFFC0
  | .setSp => 0xFFC2
  | .zeroA => 0xFFC3
  | .clear => 0xFFC5
  | .clearDec => 0xFFC6
  | .clearBne => 0xFFC7
  | .readyA => 0xFFC9
  | .readyB => 0xFFCC
  | .waitCmp => 0xFFCF
  | .waitBne => 0xFFD2
  | .waitBra => 0xFFD4
  | .syncMov => 0xFFD6
  | .syncBne => 0xFFD8
  | .loopCmp => 0xFFDA
  | .loopBne => 0xFFDC
  | .loadData => 0xFFDE
  | .ack => 0xFFE0
  | .storeData => 0xFFE2
  | .incY => 0xFFE4
  | .incBne => 0xFFE5
  | .incHigh => 0xFFE7
  | .pageBpl => 0xFFE9
  | .endCmp => 0xFFEB
  | .endBpl => 0xFFED
  | .loadDest => 0xFFEF
  | .storeDest => 0xFFF1
  | .loadKick => 0xFFF3
  | .ackKick => 0xFFF5
  | .movAY => 0xFFF7
  | .movXA => 0xFFF8
  | .kickBne => 0xFFF9
  | .jump => 0xFFFB

/-- What the program works on. -/
structure Boot where
  point : BootPoint
  a : Byte
  x : Byte
  y : Byte
  sp : Byte
  z : Bool
  n : Bool
  ram : Nat → Byte
  ports : ApuPorts

namespace Boot

def flags (value : Byte) (b : Boot) : Boot := { b with z := value == 0, n := value.getLsbD 7 }

/-- A store to a port, which goes to sound RAM too. -/
def out (p : BitVec 2) (value : Byte) (b : Boot) : Boot :=
  { b with
    ports := { b.ports with outPorts := Function.update b.ports.outPorts p value }
    ram := Function.update b.ram (0xF4 + p.toNat) value }

/-- The pointer in the first two bytes. -/
def dest (b : Boot) : Word := mkWord (b.ram 0) (b.ram 1)

/-- An instruction of the program. -/
def step (b : Boot) : Boot :=
  match b.point with
  | .start => flags 0xEF { b with point := .setSp, x := 0xEF }
  | .setSp => { b with point := .zeroA, sp := b.x }
  | .zeroA => flags 0 { b with point := .clear, a := 0 }
  | .clear => { b with point := .clearDec, ram := Function.update b.ram b.x.toNat b.a }
  | .clearDec => flags (b.x - 1) { b with point := .clearBne, x := b.x - 1 }
  | .clearBne => { b with point := if b.z then .readyA else .clear }
  | .readyA => out 0 0xAA { b with point := .readyB }
  | .readyB => out 1 0xBB { b with point := .waitCmp }
  | .waitCmp => flags (b.ports.inPorts 0 - 0xCC) { b with point := .waitBne }
  | .waitBne => { b with point := if b.z then .waitBra else .waitCmp }
  | .waitBra => { b with point := .loadDest }
  | .syncMov => flags (b.ports.inPorts 0) { b with point := .syncBne, y := b.ports.inPorts 0 }
  | .syncBne => { b with point := if b.z then .loopCmp else .syncMov }
  | .loopCmp => flags (b.y - b.ports.inPorts 0) { b with point := .loopBne }
  | .loopBne => { b with point := if b.z then .loadData else .pageBpl }
  | .loadData => flags (b.ports.inPorts 1) { b with point := .ack, a := b.ports.inPorts 1 }
  | .ack => out 0 b.y { b with point := .storeData }
  | .storeData =>
    { b with
      point := .incY, ram := Function.update b.ram (b.dest + b.y.setWidth 16).toNat b.a }
  | .incY => flags (b.y + 1) { b with point := .incBne, y := b.y + 1 }
  | .incBne => { b with point := if b.z then .incHigh else .loopCmp }
  | .incHigh =>
    flags (b.ram 1 + 1) { b with point := .pageBpl, ram := Function.update b.ram 1 (b.ram 1 + 1) }
  | .pageBpl => { b with point := if b.n then .endCmp else .loopCmp }
  | .endCmp => flags (b.y - b.ports.inPorts 0) { b with point := .endBpl }
  | .endBpl => { b with point := if b.n then .loadDest else .loopCmp }
  | .loadDest =>
    let word := mkWord (b.ports.inPorts 2) (b.ports.inPorts 3)
    { b with
      point := .storeDest, a := b.ports.inPorts 2, y := b.ports.inPorts 3
      z := word == 0, n := word.getLsbD 15 }
  | .storeDest =>
    { b with
      point := .loadKick, ram := Function.update (Function.update b.ram 0 b.a) 1 b.y }
  | .loadKick =>
    let word := mkWord (b.ports.inPorts 0) (b.ports.inPorts 1)
    { b with
      point := .ackKick, a := b.ports.inPorts 0, y := b.ports.inPorts 1
      z := word == 0, n := word.getLsbD 15 }
  | .ackKick => out 0 b.a { b with point := .movAY }
  | .movAY => flags b.y { b with point := .movXA, a := b.y }
  | .movXA => flags b.a { b with point := .kickBne, x := b.a }
  | .kickBne => { b with point := if b.z then .jump else .syncMov }
  | .jump => b

end Boot

/-- What the sound unit shows of the program. -/
def Apu.boot (p : BootPoint) (apu : Apu) : Boot :=
  ⟨p, apu.spc.a, apu.spc.x, apu.spc.y, apu.spc.sp, apu.spc.z, apu.spc.n, apu.ram, apu.ports⟩

/-- The processor runs, sees the boot ROM and page zero, and the DSP does not write to sound RAM. -/
structure InRom (apu : Apu) : Prop where
  readable : apu.romReadable = true
  runs : apu.spc.stopped = false
  page : apu.spc.p = false
  echo : apu.dsp.echoWrites = false

theorem inRom_iff (apu : Apu) : InRom apu ↔ apu.romReadable = true ∧ apu.spc.stopped = false ∧
    apu.spc.p = false ∧ apu.dsp.echoWrites = false :=
  ⟨fun ⟨h₁, h₂, h₃, h₄⟩ => ⟨h₁, h₂, h₃, h₄⟩, fun ⟨h₁, h₂, h₃, h₄⟩ => ⟨h₁, h₂, h₃, h₄⟩⟩

/-- The processor is in front of an instruction of the program. -/
structure Shows (b : Boot) (apu : Apu) : Prop where
  rom : InRom apu
  pc : apu.spc.pc = b.point.pc
  view : apu.boot b.point = b

/-- No register is at the address. -/
def NotRegister (adr : Word) : Prop := adr.toNat < 0xF0 ∨ 0xFF < adr.toNat

namespace Spc

/-! ### Reads and writes -/

theorem cpuRead_rom {apu : Apu} {adr : Word} (hrom : apu.romReadable = true) (h : 0xFFC0 ≤ adr.toNat) :
    apu.cpuRead adr = (bootRom.getD (adr.toNat - 0xFFC0) 0, apu) := by
  unfold Apu.cpuRead
  split
  all_goals first | omega | skip
  rw [if_pos ⟨hrom, h⟩]

theorem cpuRead_snd {adr : Word} (h : NotRegister adr) (apu : Apu) : (apu.cpuRead adr).2 = apu := by
  unfold Apu.cpuRead
  unfold NotRegister at h
  split
  all_goals first | omega | rfl

theorem cpuRead_page {adr : Word} (h : adr.toNat < 0xF0) (apu : Apu) :
    apu.cpuRead adr = (apu.ram adr.toNat, apu) := by
  unfold Apu.cpuRead
  split
  all_goals first | omega | skip
  rw [if_neg (by omega)]

theorem cpuWrite_of_notRegister {adr : Word} (h : NotRegister adr) (val : Byte) (apu : Apu) :
    apu.cpuWrite adr val = apu.setRam adr.toNat val := by
  unfold Apu.cpuWrite Apu.writeRegister
  unfold NotRegister at h
  split
  all_goals first | omega | rfl

theorem cpuRead_zero (apu : Apu) : apu.cpuRead 0#16 = (apu.ram 0, apu) := cpuRead_page (by decide) apu

theorem cpuRead_one (apu : Apu) : apu.cpuRead 1#16 = (apu.ram 1, apu) := cpuRead_page (by decide) apu

theorem cpuWrite_zero (apu : Apu) (val : Byte) : apu.cpuWrite 0#16 val = apu.setRam 0 val :=
  cpuWrite_of_notRegister (.inl (by decide)) val apu

theorem cpuWrite_one (apu : Apu) (val : Byte) : apu.cpuWrite 1#16 val = apu.setRam 1 val :=
  cpuWrite_of_notRegister (.inl (by decide)) val apu

/-- The input ports. -/
theorem cpuRead_ports (apu : Apu) :
    apu.cpuRead 0xF4#16 = (apu.ports.inPorts 0, apu) ∧ apu.cpuRead 0xF5#16 = (apu.ports.inPorts 1, apu) ∧
      apu.cpuRead 0xF6#16 = (apu.ports.inPorts 2, apu) ∧ apu.cpuRead 0xF7#16 = (apu.ports.inPorts 3, apu) :=
  ⟨rfl, rfl, rfl, rfl⟩

/-- The output ports of the program. -/
theorem cpuWrite_ports (apu : Apu) (val : Byte) :
    apu.cpuWrite 0xF4#16 val = (apu.writePort 0 val).setRam 0xF4 val ∧
      apu.cpuWrite 0xF5#16 val = (apu.writePort 1 val).setRam 0xF5 val := ⟨rfl, rfl⟩

theorem readOpcode_rom {apu : Apu} (hrom : apu.romReadable = true) (h : 0xFFC0 ≤ apu.spc.pc.toNat) :
    readOpcode apu =
      (bootRom.getD (apu.spc.pc.toNat - 0xFFC0) 0, set (fun spc => { spc with pc := spc.pc + 1 }) apu) :=
  cpuRead_rom hrom h

/-! ### Operations -/

set_option maxRecDepth 4000 in
theorem opOf_boot :
    opOf 0xCD#8 = .mem .movx .imm ∧ opOf 0xBD#8 = .movpx ∧ opOf 0xE8#8 = .mem .mov .imm ∧
      opOf 0xC6#8 = .mem .movs .ind ∧ opOf 0x1D#8 = .decx ∧ opOf 0xD0#8 = .branch .z false ∧
      opOf 0x8F#8 = .movmImm ∧ opOf 0x78#8 = .pair .cmpm .dpImm ∧ opOf 0x2F#8 = .bra ∧
      opOf 0xEB#8 = .mem .movy .dp ∧ opOf 0x7E#8 = .mem .cmpy .dp ∧ opOf 0xE4#8 = .mem .mov .dp ∧
      opOf 0xCB#8 = .mem .movsy .dp ∧ opOf 0xD7#8 = .mem .movs .idy ∧ opOf 0xFC#8 = .incy ∧
      opOf 0xAB#8 = .mem .inc .dp ∧ opOf 0x10#8 = .branch .n false ∧ opOf 0xBA#8 = .movw ∧
      opOf 0xDA#8 = .movws ∧ opOf 0xC4#8 = .mem .movs .dp ∧ opOf 0xDD#8 = .movay ∧
      opOf 0x5D#8 = .movxa ∧ opOf 0x1F#8 = .jmpIax := by decide

/-- A comparison sets the flags of the difference. -/
theorem compare_eq (value other : Byte) (spc : Spc) :
    Spc.compare value (~~~other) spc =
      setZN (value - other) { spc with c := decide (0xFF < value.toNat + (~~~other).toNat + 1) } := by
  have hsub : BitVec.ofNat 8 (value.toNat + (~~~other).toNat + 1) = value - other := by
    apply BitVec.eq_of_toNat_eq
    simp only [BitVec.toNat_ofNat, BitVec.toNat_not, BitVec.toNat_sub]
    omega
  rw [Spc.compare, hsub]

theorem compare_ready (value : Byte) (spc : Spc) :
    Spc.compare value 0x33#8 spc =
      setZN (value - 0xCC) { spc with c := decide (0xFF < value.toNat + (0x33#8).toNat + 1) } :=
  compare_eq value 0xCC spc

theorem page_eq {spc : Spc} (h : spc.p = false) (low : Byte) : page spc low = low.setWidth 16 := by
  apply BitVec.eq_of_toNat_eq
  have hlow := low.isLt
  simp only [page, h, Bool.false_eq_true, if_false, mkWord_toNat, BitVec.toNat_setWidth]
  change 0 * 256 + low.toNat = _
  omega

end Spc

/-! ### The processor runs the program -/

section Step

open Spc

attribute [local simp] runOpcode readOpcode_rom cpuRead_rom bootRom opOf_boot exec adr adrPair adrDpWord memOp
  pairOp load Spc.store compareWith comparePair change incOf wordOp transfer readWord doBranch jumpBy Flag.of
  setZN setZNWord Spc.set Spc.read Spc.write Spc.a Spc.x Spc.y compare_eq compare_ready page_eq cpuRead_zero cpuRead_one
  cpuWrite_zero cpuWrite_one cpuRead_ports cpuWrite_ports Apu.writePort Apu.setRam Apu.ram Apu.boot
  BootPoint.pc Boot.step Boot.flags Boot.out Boot.dest

theorem shows_step {b : Boot} {apu : Apu} (h : Shows b apu) (hjump : b.point ≠ .jump)
    (hclear : b.point = .clear → b.x.toNat < 0xF0)
    (hstore : b.point = .storeData → NotRegister (b.dest + b.y.setWidth 16)) :
    Shows b.step (runOpcode apu).2 := by
  obtain ⟨⟨hrom, hruns, hpage, hecho⟩, hpc, hview⟩ := h
  obtain ⟨p, a, x, y, sp, z, n, ram, ports⟩ := b
  simp only [Apu.boot, Boot.mk.injEq, true_and] at hview
  obtain ⟨rfl, rfl, rfl, rfl, rfl, rfl, rfl, rfl⟩ := hview
  dsimp only at hpc hjump hclear hstore
  suffices hrun : InRom (runOpcode apu).2 ∧
      (runOpcode apu).2.spc.pc = (apu.boot p).step.point.pc ∧
        (runOpcode apu).2.boot (apu.boot p).step.point = (apu.boot p).step from
    ⟨hrun.1, hrun.2.1, hrun.2.2⟩
  cases p
  case clear =>
    have hlt : apu.spc.x.toNat < 0xF0 := hclear rfl
    have hmod : apu.spc.x.toNat % 0x10000 = apu.spc.x.toNat := Nat.mod_eq_of_lt (by omega)
    have hx : NotRegister (apu.spc.x.setWidth 16) := .inl (by rwa [BitVec.toNat_setWidth, hmod])
    simp [inRom_iff, hpc, hrom, hruns, hpage, hecho, cpuRead_snd hx, cpuWrite_of_notRegister hx, hmod]
  case storeData =>
    have hadr := hstore rfl
    simp only [Boot.dest, Apu.ram] at hadr
    simp [inRom_iff, hpc, hrom, hruns, hpage, hecho, cpuRead_snd hadr, cpuWrite_of_notRegister hadr]
  case jump => exact absurd rfl hjump
  case clearBne | waitBne | syncBne | loopBne | incBne | kickBne =>
    cases hz : apu.spc.z <;> simp [inRom_iff, hpc, hrom, hruns, hpage, hecho, hz]
  case pageBpl | endBpl =>
    cases hn : apu.spc.n <;> simp [inRom_iff, hpc, hrom, hruns, hpage, hecho, hn]
  all_goals simp [inRom_iff, hpc, hrom, hruns, hpage, hecho]

/-- The jump to what the pointer says. -/
theorem shows_jump {b : Boot} {apu : Apu} (h : Shows b apu) (hjump : b.point = .jump) (hx : b.x = 0) :
    InRom (runOpcode apu).2 ∧ (runOpcode apu).2.spc.pc = b.dest ∧ (runOpcode apu).2.boot .jump = b := by
  obtain ⟨⟨hrom, hruns, hpage, hecho⟩, hpc, hview⟩ := h
  obtain ⟨p, a, x, y, sp, z, n, ram, ports⟩ := b
  simp only [Apu.boot, Boot.mk.injEq, true_and] at hview
  obtain ⟨rfl, rfl, rfl, rfl, rfl, rfl, rfl, rfl⟩ := hview
  dsimp only at hpc hjump hx
  subst hjump
  simp [inRom_iff, hpc, hrom, hruns, hpage, hecho, hx, readOpcodeWord, mkWord]

end Step

end SnesRecomp
