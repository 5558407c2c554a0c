import SnesRecomp.Recompiler.Calls
import SnesRecomp.Recompiler.Decode
import SnesRecomp.Tiers.Bridge

/-!
# Return frames

A call pushes the address of its own last byte, and `RTL` frames the bank as well; the
return adds one.  Seven places push such a frame and two pairs of returns pop it, each
with its own arithmetic.  Beside them the decoder computes where the code behind a call
begins, and the bridge where it goes on after a bounce.

`framesAgree_iff` compares them all with the address after the call in the caller's
bank.  The pushes agree everywhere.  The interpreter's `RTL` drops the top bit of the
bank, and the bridge carries into the bank where the others wrap.
-/

namespace SnesRecomp.Tiers

open Recompiler Interp816

variable {M : Type}

/-! ### `cpu_dispatch_call_pc` -/

/-- The frame `cpu_dispatch_call_pc` pushes. -/
def pushDispatchFrame (bus : Bus M) (sourcePc24 : Addr) (cpu : CpuState) (m : M) : CpuState × M :=
  let iret16 : Word := ((sourcePc24 &&& 0xFFFFFF) + 2).setWidth 16
  let m := bus.write8 0x00 cpu.S (hiByte iret16) m
  let cpu := { cpu with S := cpu.S - 1 }
  let m := bus.write8 0x00 cpu.S (loByte iret16) m
  ({ cpu with S := cpu.S - 1 }, m)

/-- `cpu_dispatch_call_pc`. -/
def cpuDispatchCallPc (bus : Bus M) (table : DispatchTable M) (stepCap : Nat)
    (pc24 sourcePc24 : Addr) (cpu : CpuState) (m : M) : RecompReturn × CpuState × M :=
  let pc24 := pc24 &&& 0xFFFFFF
  let s := pushDispatchFrame bus sourcePc24 cpu m
  match cpuDispatchFind table s.1 pc24 with
  | some fp => fp { s.1 with hostReturnValid := 2 } s.2
  | none => interpTierRunCall bus table stepCap pc24 s.1 s.2

/-- The frame `_emit_indirect_dispatch` pushes for a `JSR (abs,X)`. -/
def emitIndirectCallPush (bus : Bus M) (sitePc24 : Nat) (s : EmitState M) : EmitState M :=
  let iret16 : Word := BitVec.ofNat 16 ((sitePc24 + 2) &&& 0xFFFF)
  let s := Recompiler.pushByte bus (loByte iret16) (Recompiler.pushByte bus (hiByte iret16) s)
  { s with cpu := { s.cpu with hostReturnValid := 2 } }

/-! ### Frames on the stack -/

/-- The bytes of a frame; a near one has no bank. -/
structure ReturnFrame where
  lo : Byte
  hi : Byte
  bank : Option Byte
  deriving DecidableEq, Repr

namespace ReturnFrame

/-- The frame pushed by compiled code. -/
def emitPush (f : ReturnFrame) (bus : Bus M) (s : EmitState M) : EmitState M :=
  let s :=
    match f.bank with
    | some bank => Recompiler.pushByte bus bank s
    | none => s
  Recompiler.pushByte bus f.lo (Recompiler.pushByte bus f.hi s)

/-- The frame pushed by the interpreter. -/
def interpPush (f : ReturnFrame) (bus : ByteBus M) (i : Interp816 M) : Interp816 M :=
  let i :=
    match f.bank with
    | some bank => Interp816.pushByte bus bank i
    | none => i
  Interp816.pushByte bus f.lo (Interp816.pushByte bus f.hi i)

/-- The next pops of compiled code read the frame. -/
structure OnEmitStack (f : ReturnFrame) (bus : Bus M) (s : EmitState M) : Prop where
  lo : (popByte bus s).1 = f.lo
  hi : (popByte bus (popByte bus s).2).1 = f.hi
  bank : ∀ b ∈ f.bank, (popByte bus (popByte bus (popByte bus s).2).2).1 = b

/-- The next pulls of the interpreter read the frame. -/
structure OnInterpStack (f : ReturnFrame) (bus : ByteBus M) (i : Interp816 M) : Prop where
  lo : (pullByte bus i).1 = f.lo
  hi : (pullByte bus (pullByte bus i).2).1 = f.hi
  bank : ∀ b ∈ f.bank, (pullByte bus (pullByte bus (pullByte bus i).2).2).1 = b

end ReturnFrame

/-! ### Producers and consumers -/

structure CallSite where
  bank : Byte
  pc : Word
  deriving DecidableEq, Repr

/-- The 24-bit address of the call. -/
def CallSite.addr (site : CallSite) : Nat := (site.bank.toNat <<< 16) ||| site.pc.toNat

/-- Who pushes the frame. -/
inductive Producer
  | emittedJsr | emittedJsl | emittedJsrIax
  | dispatchCall
  | interpJsr | interpJsl | interpJsrIax
  deriving DecidableEq, Repr

namespace Producer

/-- The call instruction. -/
def opcode : Producer → Byte
  | emittedJsr | interpJsr => 0x20
  | emittedJsl | interpJsl => 0x22
  | emittedJsrIax | dispatchCall | interpJsrIax => 0xFC

def long : Producer → Bool
  | emittedJsl | interpJsl => true
  | _ => false

def interpreted : Producer → Bool
  | interpJsr | interpJsl | interpJsrIax => true
  | _ => false

def length (p : Producer) : Word := if p.long then 4 else 3

/-- The frame of the call: the address of its last byte. -/
def frame (p : Producer) (site : CallSite) : ReturnFrame :=
  let last := site.pc + (p.length - 1)
  ⟨loByte last, hiByte last, if p.long then some site.bank else none⟩

/-- The instruction after the call, in the caller's bank. -/
def next (p : Producer) (site : CallSite) : Addr := bankAddr site.bank (site.pc + p.length)

/-- The code pushes the frame, and nothing else. -/
def Pushes (p : Producer) (site : CallSite) : Prop :=
  match p with
  | emittedJsr => ∀ (M : Type) (bus : Bus M) (s : EmitState M),
    emitReturnFramePush bus false (some site.addr) s =
      let s := (p.frame site).emitPush bus s
      { s with cpu := { s.cpu with hostReturnValid := 2 } }
  | emittedJsl => ∀ (M : Type) (bus : Bus M) (s : EmitState M),
    emitReturnFramePush bus true (some site.addr) s =
      let s := (p.frame site).emitPush bus s
      { s with cpu := { s.cpu with hostReturnValid := 3 } }
  | emittedJsrIax => ∀ (M : Type) (bus : Bus M) (s : EmitState M),
    emitIndirectCallPush bus site.addr s =
      let s := (p.frame site).emitPush bus s
      { s with cpu := { s.cpu with hostReturnValid := 2 } }
  | dispatchCall => ∀ (M : Type) (bus : Bus M) (s : EmitState M),
    pushDispatchFrame bus (BitVec.ofNat 32 site.addr) s.cpu s.mem =
      (((p.frame site).emitPush bus s).cpu, ((p.frame site).emitPush bus s).mem)
  -- the opcode itself is fetched, so the program counter is one past the site
  | interpJsr => ∀ (M : Type) (bus : ByteBus M) (i : Interp816 M),
    i.k = site.bank → i.pc = site.pc + 1 →
      let target := readOpcodeWord bus i
      jsr bus i = { (p.frame site).interpPush bus target.2 with pc := target.1 }
  | interpJsl => ∀ (M : Type) (bus : ByteBus M) (i : Interp816 M),
    i.k = site.bank → i.pc = site.pc + 1 →
      let target := readOpcodeWord bus i
      let newK := readOpcode bus target.2
      jsl bus i =
        { (p.frame site).interpPush bus newK.2 with pc := target.1, k := newK.1 &&& 0x7F }
  | interpJsrIax => ∀ (M : Type) (bus : ByteBus M) (i : Interp816 M),
    i.k = site.bank → i.pc = site.pc + 1 →
      let target := adrIax bus i
      jsrIax bus i = { (p.frame site).interpPush bus target.2 with pc := target.1 }

end Producer

/-- Who pops it. -/
inductive Consumer
  | emitted | interp
  deriving DecidableEq, Repr

/-- The return takes control to `addr`; a near one runs in the caller's bank. -/
def Consumer.Returns (c : Consumer) (long : Bool) (bank : Byte) (f : ReturnFrame) (addr : Addr) :
    Prop :=
  match c with
  | emitted => ∀ (M : Type) (bus : Bus M) (s : EmitState M), f.OnEmitStack bus s →
    (long = false → s.cpu.PB = bank) → (popReturn bus long s).1 = addr
  | interp => ∀ (M : Type) (bus : ByteBus M) (i : Interp816 M), f.OnInterpStack bus i →
    (long = false → i.k = bank) → pc24 (if long then rtl bus i else rts bus i) = addr

/-- The popped frame, the decoder and the bridge all name the instruction after the call. -/
structure FramesAgree (p : Producer) (c : Consumer) (site : CallSite) (maps : ExitMaps) (rom : Rom)
    (insn : Insn) (key : DecodeKey) : Prop where
  popped : c.Returns p.long site.bank (p.frame site) (p.next site)
  decoded : ∀ s ∈ labeledSuccessors maps rom insn key site.bank.toNat,
    s.1.pc = (p.next site).toNat
  resumed : p.interpreted = true → ∀ (M : Type) (table : DispatchTable M) (i : Interp816 M)
    (cpu : CpuState) (b : BridgeState M),
    bounce table p.opcode (BitVec.ofNat 32 site.addr) i cpu = .again b →
      pc24 b.interp = p.next site

/-- Where they do. -/
def AgreeWhen (p : Producer) (c : Consumer) (site : CallSite) (maps : ExitMaps) (insn : Insn) :
    Prop :=
  (c = .interp → p.long = true → site.bank < 0x80) ∧
    inlineArgBytes maps insn site.bank.toNat % 0x10000 = 0 ∧
    (p.interpreted = true → site.pc.toNat + p.length.toNat < 0x10000)

/-! ### Addresses -/

theorem bankAddr_toNat (k : Byte) (a : Word) :
    (bankAddr k a).toNat = k.toNat * 65536 + a.toNat := by
  have hk := k.isLt
  have ha := a.isLt
  have hshift : k.toNat <<< 16 < 2 ^ 32 := by
    rw [Nat.shiftLeft_eq]
    omega
  rw [bankAddr, BitVec.toNat_or, BitVec.toNat_shiftLeft, BitVec.toNat_setWidth,
    BitVec.toNat_setWidth, Nat.mod_eq_of_lt (by omega : k.toNat < 2 ^ 32),
    Nat.mod_eq_of_lt hshift, Nat.mod_eq_of_lt (by omega : a.toNat < 2 ^ 32),
    Bits.shiftLeft_or_eq_add ha]
  rfl

theorem bankAddr_bank_inj {k k' : Byte} {a : Word} : bankAddr k a = bankAddr k' a ↔ k = k' := by
  refine ⟨fun h => BitVec.eq_of_toNat_eq ?_, fun h => congrArg (bankAddr · a) h⟩
  have hNat := congrArg BitVec.toNat h
  rw [bankAddr_toNat, bankAddr_toNat] at hNat
  omega

namespace CallSite

theorem addr_eq (site : CallSite) : site.addr = site.bank.toNat * 65536 + site.pc.toNat :=
  Bits.shiftLeft_or_eq_add site.pc.isLt

theorem ofNat_addr_add_two (site : CallSite) :
    BitVec.ofNat 16 (site.addr + 2) = site.pc + 2 := by
  apply BitVec.eq_of_toNat_eq
  rw [BitVec.toNat_ofNat, BitVec.toNat_add, addr_eq]
  show _ = (site.pc.toNat + 2) % 65536
  omega

theorem ofNat_addr_add_three (site : CallSite) :
    BitVec.ofNat 16 (site.addr + 3) = site.pc + 3 := by
  apply BitVec.eq_of_toNat_eq
  rw [BitVec.toNat_ofNat, BitVec.toNat_add, addr_eq]
  show _ = (site.pc.toNat + 3) % 65536
  omega

theorem ofNat_bank (site : CallSite) :
    BitVec.ofNat 8 ((site.addr >>> 16) &&& 0xFF) = site.bank := by
  apply BitVec.eq_of_toNat_eq
  have hb := site.bank.isLt
  have hpc := site.pc.isLt
  rw [BitVec.toNat_ofNat, Bits.and_0xFF, Nat.shiftRight_eq_div_pow, addr_eq]
  omega

end CallSite

/-! ### The producers -/

/-- What is pushed, for a call of three or of four bytes. -/
theorem frame_near {p : Producer} (h : p.long = false) (site : CallSite) :
    p.frame site = ⟨loByte (site.pc + 2), hiByte (site.pc + 2), none⟩ := by
  unfold Producer.frame Producer.length
  rw [h]
  rfl

theorem frame_long {p : Producer} (h : p.long = true) (site : CallSite) :
    p.frame site = ⟨loByte (site.pc + 3), hiByte (site.pc + 3), some site.bank⟩ := by
  unfold Producer.frame Producer.length
  rw [h]
  rfl

theorem source_add_two (site : CallSite) :
    (((BitVec.ofNat 32 site.addr &&& 0xFFFFFF) + 2 : Addr).setWidth 16 : Word) = site.pc + 2 := by
  apply BitVec.eq_of_toNat_eq
  have hb := site.bank.isLt
  have hpc := site.pc.isLt
  have hmask : (BitVec.ofNat 32 site.addr &&& 0xFFFFFF).toNat = site.addr := by
    rw [BitVec.toNat_and, BitVec.toNat_ofNat, Nat.mod_eq_of_lt (by rw [CallSite.addr_eq]; omega)]
    refine (Nat.and_two_pow_sub_one_eq_mod site.addr 24).trans (Nat.mod_eq_of_lt ?_)
    rw [CallSite.addr_eq]
    omega
  rw [BitVec.toNat_setWidth, BitVec.toNat_add, hmask, BitVec.toNat_add, CallSite.addr_eq]
  show (site.bank.toNat * 65536 + site.pc.toNat + 2) % 2 ^ 32 % 2 ^ 16 =
    (site.pc.toNat + 2) % 2 ^ 16
  omega

/-- Where the interpreter's program counter stands when the frame is pushed. -/
theorem pc_after_word {pc : Word} : pc + 1 + 1 + 1 - 1 = pc + 2 := by
  apply BitVec.eq_of_toNat_eq
  simp only [BitVec.toNat_sub, BitVec.toNat_add]
  show (65536 - 1 + (((pc.toNat + 1) % 65536 + 1) % 65536 + 1) % 65536) % 65536 =
    (pc.toNat + 2) % 65536
  omega

theorem pc_after_long {pc : Word} : pc + 1 + 1 + 1 + 1 - 1 = pc + 3 := by
  apply BitVec.eq_of_toNat_eq
  simp only [BitVec.toNat_sub, BitVec.toNat_add]
  show (65536 - 1 + ((((pc.toNat + 1) % 65536 + 1) % 65536 + 1) % 65536 + 1) % 65536) % 65536 =
    (pc.toNat + 3) % 65536
  omega

/-- Every producer pushes the frame of its call. -/
theorem producer_pushes (p : Producer) (site : CallSite) : p.Pushes site := by
  cases p with
  | emittedJsr =>
    intro M bus s
    rw [frame_near rfl, ← site.ofNat_addr_add_two]
    rfl
  | emittedJsl =>
    intro M bus s
    rw [frame_long rfl, ← site.ofNat_addr_add_three, ← site.ofNat_bank]
    rfl
  | emittedJsrIax =>
    intro M bus s
    rw [frame_near rfl, ← site.ofNat_addr_add_two, ← Bits.ofNat_and_0xFFFF]
    rfl
  | dispatchCall =>
    intro M bus s
    rw [frame_near rfl, ← source_add_two]
    rfl
  | interpJsr =>
    intro M bus i hk hpc
    have hlast : (readOpcodeWord bus i).2.pc - 1 = site.pc + 2 := by
      show i.pc + 1 + 1 - 1 = _
      rw [hpc, pc_after_word]
    rw [frame_near rfl, ← hlast]
    rfl
  | interpJsl =>
    intro M bus i hk hpc
    have hlast : (readOpcode bus (readOpcodeWord bus i).2).2.pc - 1 = site.pc + 3 := by
      show i.pc + 1 + 1 + 1 - 1 = _
      rw [hpc, pc_after_long]
    rw [frame_long rfl, ← hlast, ← hk]
    rfl
  | interpJsrIax =>
    intro M bus i hk hpc
    have hlast : (adrIax bus i).2.pc - 1 = site.pc + 2 := by
      show i.pc + 1 + 1 - 1 = _
      rw [hpc, pc_after_word]
    rw [frame_near rfl, ← hlast]
    rfl

/-! ### The consumers -/

/-- The popped word plus one. -/
theorem frame_word (p : Producer) (site : CallSite) :
    mkWord (p.frame site).lo (p.frame site).hi + 1 = site.pc + p.length := by
  show mkWord (loByte (site.pc + (p.length - 1))) (hiByte (site.pc + (p.length - 1))) + 1 = _
  rw [mkWord_loByte_hiByte, BitVec.add_assoc, BitVec.sub_add_cancel]

theorem frame_bank (p : Producer) (site : CallSite) (h : p.long = true) :
    site.bank ∈ (p.frame site).bank := by
  show site.bank ∈ if p.long then some site.bank else none
  rw [if_pos h]
  rfl

theorem emitted_returns (p : Producer) (site : CallSite) :
    Consumer.emitted.Returns p.long site.bank (p.frame site) (p.next site) := by
  intro M bus s hframe hbank
  have hword := frame_word p site
  rw [← hframe.lo, ← hframe.hi] at hword
  unfold Producer.next
  rw [← hword]
  cases hlong : p.long with
  | false =>
    rw [← hbank hlong]
    rfl
  | true =>
    rw [← hframe.bank site.bank (frame_bank p site hlong)]
    rfl

/-- Three bytes of memory behind the stack pointer zero. -/
def threeBytes (f : ReturnFrame) (bank : Byte) : Interp816 (Addr → Byte) :=
  Interp816.zeroed fun a => if a = 1 then f.lo else if a = 2 then f.hi else bank

def flatBus : ByteBus (Addr → Byte) where
  read adr m := (m adr, m)
  write adr val m := Function.update m adr val

theorem interp_returns_iff (p : Producer) (site : CallSite) :
    Consumer.interp.Returns p.long site.bank (p.frame site) (p.next site) ↔
      (p.long = true → site.bank < 0x80) := by
  have hword := frame_word p site
  have hmask : ∀ b : Byte, b &&& 0x7F = b ↔ b < 0x80 := by decide
  cases hlong : p.long with
  | false =>
    refine iff_of_true ?_ (fun h => by cases h)
    intro M bus i hframe hbank
    rw [← hframe.lo, ← hframe.hi] at hword
    unfold Producer.next
    rw [← hword, ← hbank rfl]
    rfl
  | true =>
    have hbank := frame_bank p site hlong
    constructor
    · intro hreturns _
      have hstack : (p.frame site).OnInterpStack flatBus (threeBytes (p.frame site) site.bank) := by
        refine ⟨rfl, rfl, fun b hb => ?_⟩
        exact Option.some.inj (hbank.symm.trans hb)
      have hnext := hreturns _ flatBus _ hstack (fun h => by cases h)
      have hpc : pc24 (rtl flatBus (threeBytes (p.frame site) site.bank)) =
          bankAddr (site.bank &&& 0x7F) (mkWord (p.frame site).lo (p.frame site).hi + 1) := rfl
      rw [if_pos rfl, hpc, hword] at hnext
      exact (hmask site.bank).mp (bankAddr_bank_inj.mp hnext)
    · intro hlow M bus i hframe _
      rw [← hframe.lo, ← hframe.hi] at hword
      have hpulled := hframe.bank site.bank hbank
      have hpc : pc24 (rtl bus i) =
          bankAddr ((pullByte bus (pullByte bus (pullByte bus i).2).2).1 &&& 0x7F)
            (mkWord (pullByte bus i).1 (pullByte bus (pullByte bus i).2).1 + 1) := rfl
      rw [if_pos rfl, hpc, hword, hpulled, (hmask site.bank).mpr (hlow rfl)]
      rfl

/-! ### The decoder -/

/-- What the decoder fills in from the opcode. -/
theorem eq_of_decodeInsn {rom : Rom} {offset pc bank : Nat} {m x : Bool} {insn : Insn}
    (h : decodeInsn rom offset pc bank m x = some insn) :
    insn.addr = ((bank <<< 16) ||| pc) ∧ insn.mnem = (opcodeRow insn.opcode).mnem ∧
      insn.length = (opcodeRow insn.opcode).len.length m x := by
  simp only [decodeInsn, Option.bind_eq_bind, Option.bind_eq_some_iff, Option.pure_def,
    Option.some.injEq] at h
  obtain ⟨op, -, operand, -, rfl⟩ := h
  exact ⟨rfl, rfl, rfl⟩

theorem opcodeRow_call (p : Producer) :
    ((opcodeRow p.opcode).mnem = .jsr ∨ (opcodeRow p.opcode).mnem = .jsl) ∧
      ∀ m x, (opcodeRow p.opcode).len.length m x = p.length.toNat := by
  cases p <;> decide

theorem next_toNat (p : Producer) (site : CallSite) :
    (p.next site).toNat = site.bank.toNat * 65536 + (site.pc.toNat + p.length.toNat) % 65536 := by
  rw [Producer.next, bankAddr_toNat, BitVec.toNat_add]

theorem addr24_toNat (bank : Byte) (pc : Nat) :
    Recompiler.addr24 bank.toNat pc = bank.toNat * 65536 + pc % 65536 := by
  have hb := bank.isLt
  rw [Recompiler.addr24, Bits.and_0xFF, Bits.and_0xFFFF, Nat.mod_eq_of_lt hb,
    Bits.shiftLeft_or_eq_add (by omega)]
  omega

/-- The decoder goes on behind the call and its argument bytes. -/
theorem decoded_iff (p : Producer) (site : CallSite) (maps : ExitMaps) {rom : Rom} {offset : Nat}
    {m x : Bool} {insn : Insn}
    (hdec : decodeInsn rom offset site.pc.toNat site.bank.toNat m x = some insn)
    (hop : insn.opcode = p.opcode) (key : DecodeKey) :
    (∀ s ∈ labeledSuccessors maps rom insn key site.bank.toNat, s.1.pc = (p.next site).toNat) ↔
      inlineArgBytes maps insn site.bank.toNat % 0x10000 = 0 := by
  obtain ⟨haddr, hmnem, hlen⟩ := eq_of_decodeInsn hdec
  obtain ⟨hcall, hlength⟩ := opcodeRow_call p
  rw [hop] at hmnem hlen
  rw [hlength] at hlen
  rw [← hmnem] at hcall
  obtain ⟨hne, hpc⟩ := labeledSuccessors_call maps rom key site.bank.toNat hcall
  have hlow : insn.addr &&& 0xFFFF = site.pc.toNat := by
    have hsite := site.pc.isLt
    rw [haddr, Bits.shiftLeft_or_eq_add hsite, Bits.and_0xFFFF]
    omega
  have hiff : Recompiler.addr24 site.bank.toNat (nextPc maps insn site.bank.toNat) = (p.next site).toNat ↔
      inlineArgBytes maps insn site.bank.toNat % 0x10000 = 0 := by
    rw [addr24_toNat, next_toNat, nextPc, hlow, hlen]
    omega
  rw [← hiff]
  constructor
  · intro h
    obtain ⟨s, hs⟩ := List.exists_mem_of_ne_nil _ hne
    rw [← (hpc s hs).1]
    exact h s hs
  · intro h s hs
    rw [(hpc s hs).1]
    exact h

/-! ### The bridge -/

/-- The address the bridge resumes at. -/
def resumeAddr (p : Producer) (site : CallSite) : Addr :=
  (BitVec.ofNat 32 site.addr + callLen p.opcode) &&& 0xFFFFFF

theorem callLen_opcode (p : Producer) : (callLen p.opcode).toNat = p.length.toNat := by
  cases p <;> rfl

theorem resumeAddr_toNat (p : Producer) (site : CallSite) :
    (resumeAddr p site).toNat =
      (site.bank.toNat * 65536 + site.pc.toNat + p.length.toNat) % 2 ^ 24 := by
  have hb := site.bank.isLt
  have hpc := site.pc.isLt
  have hlen : p.length.toNat ≤ 4 := by cases p <;> decide
  have hsum : (BitVec.ofNat 32 site.addr + callLen p.opcode).toNat =
      site.bank.toNat * 65536 + site.pc.toNat + p.length.toNat := by
    rw [BitVec.toNat_add, BitVec.toNat_ofNat, callLen_opcode, CallSite.addr_eq]
    omega
  rw [resumeAddr, BitVec.toNat_and, hsum]
  exact Nat.and_two_pow_sub_one_eq_mod _ 24

theorem pc24_resume (p : Producer) (site : CallSite) :
    bankAddr ((resumeAddr p site >>> 16).setWidth 8) ((resumeAddr p site).setWidth 16) =
      resumeAddr p site := by
  have h := resumeAddr_toNat p site
  apply BitVec.eq_of_toNat_eq
  rw [bankAddr_toNat, BitVec.toNat_setWidth, BitVec.toNat_setWidth, BitVec.toNat_ushiftRight,
    Nat.shiftRight_eq_div_pow]
  omega

theorem resumeAddr_eq_next_iff (p : Producer) (site : CallSite) :
    resumeAddr p site = p.next site ↔ site.pc.toNat + p.length.toNat < 0x10000 := by
  have hb := site.bank.isLt
  have hpc := site.pc.isLt
  have hlen : p.length.toNat ≤ 4 := by cases p <;> decide
  rw [← BitVec.toNat_inj, resumeAddr_toNat, next_toNat]
  omega

/-- Every bounce that goes on resumes there. -/
theorem bounce_pc24 {table : DispatchTable M} {p : Producer} {site : CallSite} {i : Interp816 M}
    {cpu : CpuState} {b : BridgeState M}
    (h : bounce table p.opcode (BitVec.ofNat 32 site.addr) i cpu = .again b) :
    pc24 b.interp = resumeAddr p site := by
  unfold bounce at h
  dsimp only at h
  split at h
  · cases h
  · obtain rfl := BridgeFlow.again.inj h
    exact pc24_resume p site

/-- Without a body the call is over at once. -/
theorem bounce_noBodies (p : Producer) (site : CallSite) (i : Interp816 M) (cpu : CpuState) :
    ∃ b, bounce noBodies p.opcode (BitVec.ofNat 32 site.addr) i cpu = .again b := by
  unfold bounce cpuDispatchPcPaired
  rw [cpuDispatchFind_noBodies]
  exact ⟨_, rfl⟩

theorem resumed_iff (p : Producer) (site : CallSite) :
    (∀ (M : Type) (table : DispatchTable M) (i : Interp816 M) (cpu : CpuState)
      (b : BridgeState M), bounce table p.opcode (BitVec.ofNat 32 site.addr) i cpu = .again b →
        pc24 b.interp = p.next site) ↔ site.pc.toNat + p.length.toNat < 0x10000 := by
  rw [← resumeAddr_eq_next_iff]
  constructor
  · intro h
    obtain ⟨b, hb⟩ := bounce_noBodies p site (Interp816.zeroed ()) cpuStateInit
    rw [← h _ _ _ _ b hb]
    exact (bounce_pc24 hb).symm
  · intro h M table i cpu b hb
    rw [bounce_pc24 hb, h]

/-! ### All of them -/

/-- **Every call pushes the frame of its last byte.  The return, the decoder and the
bridge all take it to the instruction after the call exactly when the interpreter's `RTL`
is not used from a bank above `$7F`, the callee reads no argument bytes, and an interpreted
call does not end at the end of its bank.** -/
theorem framesAgree_iff (p : Producer) (c : Consumer) (site : CallSite) (maps : ExitMaps)
    {rom : Rom} {offset : Nat} {m x : Bool} {insn : Insn}
    (hdec : decodeInsn rom offset site.pc.toNat site.bank.toNat m x = some insn)
    (hop : insn.opcode = p.opcode) (key : DecodeKey) :
    p.Pushes site ∧ (FramesAgree p c site maps rom insn key ↔ AgreeWhen p c site maps insn) := by
  refine ⟨producer_pushes p site, ?_⟩
  have hpopped : c.Returns p.long site.bank (p.frame site) (p.next site) ↔
      (c = .interp → p.long = true → site.bank < 0x80) := by
    cases c with
    | emitted => exact iff_of_true (emitted_returns p site) (fun h => by cases h)
    | interp => exact (interp_returns_iff p site).trans ⟨fun h _ => h, fun h => h rfl⟩
  have hdecoded := decoded_iff p site maps hdec hop key
  have hresumed := resumed_iff p site
  constructor
  · rintro ⟨h1, h2, h3⟩
    exact ⟨hpopped.mp h1, hdecoded.mp h2, fun h => hresumed.mp (h3 h)⟩
  · rintro ⟨h1, h2, h3⟩
    exact ⟨hpopped.mpr h1, hdecoded.mpr h2, fun h => hresumed.mpr (h3 h)⟩

/-- An image that starts with `JSL $009000`. -/
def jslImage : Rom := ⟨4, fun n => [0x22, 0x00, 0x90, 0x00].getD n 0⟩

/-- That call, decoded at an address of bank zero. -/
def jslAt (pc : Nat) : Insn where
  addr := pc
  opcode := 0x22
  mnem := .jsl
  mode := .long
  operand := 0x9000
  length := 4
  mFlag := true
  xFlag := true
  constZFoldUnconditional := false
  constZFoldDeadPc24 := none

/-- At `$008000` everything agrees. -/
theorem framesAgree_8000 :
    Producer.interpJsl.Pushes ⟨0, 0x8000⟩ ∧
      (FramesAgree .interpJsl .emitted ⟨0, 0x8000⟩ .unknown jslImage (jslAt 0x8000)
          ⟨0x8000, true, true, []⟩ ↔
        AgreeWhen .interpJsl .emitted ⟨0, 0x8000⟩ .unknown (jslAt 0x8000)) :=
  framesAgree_iff .interpJsl .emitted ⟨0, 0x8000⟩ .unknown
    (show decodeInsn jslImage 0 0x8000 0 true true = some (jslAt 0x8000) from by decide)
    rfl ⟨0x8000, true, true, []⟩

/-- `JSR $9000`, as the same decoder reads it. -/
def jsrAt (pc : Nat) : Insn := { jslAt pc with opcode := 0x20, mnem := .jsr, mode := .abs, length := 3 }

/-- After a `JSR` in the last three bytes of bank zero control returns to `$000000`, but the
bridge goes on at `$010000`; a frame of bank `$80` takes the interpreter's `RTL` to bank
`$00`. -/
theorem not_framesAgree_bankEnd :
    ¬ FramesAgree .interpJsr .emitted ⟨0, 0xFFFD⟩ .unknown jslImage (jsrAt 0xFFFD)
        ⟨0xFFFD, true, true, []⟩ ∧
      ¬ FramesAgree .emittedJsl .interp ⟨0x80, 0x8000⟩ .unknown jslImage (jslAt 0x808000)
        ⟨0x808000, true, true, []⟩ := by
  constructor
  · intro h
    have hresume := h.resumed rfl Unit noBodies (Interp816.zeroed ()) cpuStateInit _ rfl
    revert hresume
    decide
  · intro h
    have hreturn := h.popped _ flatBus (threeBytes (Producer.emittedJsl.frame ⟨0x80, 0x8000⟩) 0x80)
      ⟨rfl, rfl, fun b hb => Option.some.inj hb⟩ (fun hlong => by cases hlong)
    revert hreturn
    decide

end SnesRecomp.Tiers
