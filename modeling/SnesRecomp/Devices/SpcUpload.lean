import SnesRecomp.Devices.BootRuns
import SnesRecomp.Runtime.Bus

/-!
# Uploads without the boot ROM

`RtlUploadSpcImageFromDp` of `common_rtl.c` walks the blocks of an upload in the ROM of the game and
puts them into sound RAM itself.  The first one stands for a whole run of the program in the boot ROM
and the main processor: `rtlUploadSpcImageFromDp_eq_bootRom`.  The clocks of the pacing are left out.
-/

namespace SnesRecomp

/-! ### The upload -/

def streamWord (rom : Nat → Byte) (p : Nat) : Word := mkWord (rom p) (rom (p + 1))

/-- The copy of one block. -/
def copyBlock (rom : Nat → Byte) (p : Nat) (target : Word) (n : Nat) (ram : Nat → Byte) : Nat → Byte :=
  (List.range n).foldl
    (fun ram i => Function.update ram (target + BitVec.ofNat 16 i).toNat (rom (p + i))) ram

/-- The loop over the blocks, with how many more may come; the entry is `none` when there were too many. -/
def uploadLoop (rom : Nat → Byte) (left p : Nat) (ram : Nat → Byte) : Option Word × (Nat → Byte) :=
  let n := (streamWord rom p).toNat
  let target := streamWord rom (p + 2)
  if n = 0 then (some target, ram)
  else
    let ram := copyBlock rom (p + 4) target n ram
    match left with
    | 0 => (none, ram)
    | left + 1 => uploadLoop rom left (p + 4 + n) ram

/-- What is done behind the blocks; the boot ROM is readable until the first upload. -/
def Apu.afterUpload (finalPc : Word) (apu : Apu) : Apu :=
  let iplPhase := apu.romReadable
  let apu := { apu with ports := ⟨fun _ => 0, fun _ => 0, []⟩, auxPorts := fun _ => 0 }
  if iplPhase then
    let apu := { apu with romReadable := false, cpuCyclesLeft := 0 }
    if finalPc = 0 then apu
    else
      { apu with
        spc :=
          { apu.spc with
            a := 0, x := 0, y := 0, sp := if apu.spc.sp = 0 then 0xEF else apu.spc.sp, pc := finalPc } }
  else apu

/-- The sound unit behind an upload from `p` on. -/
def uploadSpcImage (rom : Nat → Byte) (p : Nat) (apu : Apu) : Bool × Apu :=
  let r := uploadLoop rom 512 p apu.ram
  let apu := { apu with dsp := { apu.dsp with apuRam := r.2 } }
  match r.1 with
  | none => (false, apu)
  | some finalPc => (true, apu.afterUpload finalPc)

/-- The pointer to the blocks, in the direct page. -/
def streamStart (cart : Cart) (gRam : Nat → Byte) (cpu : CpuState) : Nat :=
  let dp (k : Nat) : Byte := gRam (cpu.D + BitVec.ofNat 16 k).toNat
  romPtr cart (addr24 (dp 2) (mkWord (dp 0) (dp 1)))

/-- `RtlUploadSpcImageFromDpInternal`. -/
def rtlUploadSpcImageFromDp (cart : Cart) (gRom gRam : Nat → Byte) (updateCpuResult : Bool) (cpu : CpuState)
    (apu : Apu) : Bool × CpuState × Apu :=
  let r := uploadSpcImage gRom (streamStart cart gRam cpu) apu
  let cpu :=
    if r.1 && updateCpuResult then
      { cpu with
        A := cpu.A &&& 0xFF00, X := 0, Y := 0, flagZ := true, flagN := false
        P := cpu.P &&& ~~~0x82 ||| 0x02 }
    else cpu
  (r.1, cpu, r.2)

/-! ### The blocks in the ROM -/

/-- The ROM has the blocks from `p` on, each behind its length and its address. -/
def Encodes (rom : Nat → Byte) : Nat → List UploadBlock → Word → Prop
  | p, [], entry => streamWord rom p = 0 ∧ streamWord rom (p + 2) = entry
  | p, bl :: bs, entry =>
    (streamWord rom p).toNat = bl.bytes.length ∧ streamWord rom (p + 2) = bl.target ∧
      (∀ i < bl.bytes.length, bl.bytes[i]? = some (rom (p + 4 + i))) ∧
        Encodes rom (p + 4 + bl.bytes.length) bs entry

theorem copyBlock_eq {rom : Nat → Byte} {p : Nat} (target : Word) {bytes : List Byte}
    (h : ∀ i < bytes.length, bytes[i]? = some (rom (p + i))) (ram : Nat → Byte) :
    copyBlock rom p target bytes.length ram = placeBytes target bytes ram := by
  induction bytes using List.reverseRecOn with
  | nil => rfl
  | append_singleton bytes b ih =>
      have hlast := h bytes.length (by rw [List.length_append]; exact Nat.lt_succ_self _)
      rw [List.getElem?_concat_length, Option.some.injEq] at hlast
      have hinit : ∀ i < bytes.length, bytes[i]? = some (rom (p + i)) := by
        intro i hi
        rw [← h i (by rw [List.length_append]; exact Nat.lt_succ_of_lt hi), List.getElem?_append_left hi]
      rw [placeBytes_concat, ← ih hinit, copyBlock, List.length_append, List.length_singleton,
        List.range_succ, List.foldl_append, hlast]
      rfl

theorem uploadLoop_eq {rom : Nat → Byte} {blocks : List UploadBlock} {entry : Word} {left p : Nat}
    (henc : Encodes rom p blocks entry) (hleft : blocks.length ≤ left) (ram : Nat → Byte) :
    uploadLoop rom left p ram = (some entry, image blocks ram) := by
  induction blocks generalizing left p ram with
  | nil =>
      rw [uploadLoop.eq_def]
      dsimp only
      rw [henc.1, henc.2]
      rfl
  | cons bl bs ih =>
      obtain ⟨hlength, htarget, hbytes, hrest⟩ := henc
      have hne : bl.bytes.length ≠ 0 := fun h => bl.bytes_ne (List.eq_nil_of_length_eq_zero h)
      cases left with
      | zero => exact absurd hleft (Nat.not_succ_le_zero _)
      | succ left =>
          rw [uploadLoop.eq_def]
          dsimp only
          rw [hlength, htarget, if_neg hne, copyBlock_eq bl.target hbytes]
          exact ih hrest (Nat.le_of_succ_le_succ hleft) _

theorem placeBytes_agrees {ram ram' : Nat → Byte} (h : Agrees ram ram') (t : Word) (bytes : List Byte) :
    Agrees (placeBytes t bytes ram) (placeBytes t bytes ram') := by
  induction bytes generalizing t ram ram' with
  | nil => exact h
  | cons b bytes ih => exact ih (h.update t.toNat b) (t + 1)

theorem image_agrees {ram ram' : Nat → Byte} (h : Agrees ram ram') (blocks : List UploadBlock) :
    Agrees (image blocks ram) (image blocks ram') := by
  induction blocks generalizing ram ram' with
  | nil => exact h
  | cons bl bs ih => exact ih (placeBytes_agrees h bl.target bl.bytes)

/-! ### Before the upload -/

def UploadEvent.isCycle : UploadEvent → Bool
  | .cycle .. => true
  | .send .. => false

/-- The program of the boot ROM with nothing sent yet. -/
def Unsent (blocks : List UploadBlock) (entry : Word) (t : Upload) : Prop :=
  ∃ b, Shows b t.apu ∧ Clearing blocks entry b ⟨0, uploadMessages 0xCC blocks entry, false⟩ ∧
    Comm ⟨0, uploadMessages 0xCC blocks entry, false⟩ t.toSend b.ports ∧ b.ports.inPorts 0 = 0 ∧
      b.ports.portQueue = []

/-- The program does not write to its input ports. -/
theorem Boot.step_ports (b : Boot) :
    b.step.ports.inPorts = b.ports.inPorts ∧ b.step.ports.portQueue = b.ports.portQueue := by
  obtain ⟨point, a, x, y, sp, z, n, ram, ports⟩ := b
  cases point <;> exact ⟨rfl, rfl⟩

variable {blocks : List UploadBlock} {entry : Word}

theorem Unsent.cycleSpc {t : Upload} (h : Unsent blocks entry t) :
    Unsent blocks entry ⟨t.apu.cycleSpc, t.toSend⟩ := by
  unfold Apu.cycleSpc
  obtain ⟨b, hshows, hclearing, hcomm, hport, hqueue⟩ := h
  split
  · have hinv : BootInv blocks entry b _ := .clearing hclearing
    have hpoint := hclearing.point
    have hjump : b.point ≠ .jump := by
      intro hjump
      rw [hjump] at hpoint
      exact hpoint.elim
    have hstore : b.point ≠ .storeData := by
      intro hstore
      rw [hstore] at hpoint
      exact hpoint.elim
    have hnext := shows_step hshows hjump hinv.clear_lt fun h => absurd h hstore
    obtain ⟨hin, hout⟩ := b.step_ports
    rcases hclearing.step hcomm with ⟨arrived, hstep, hcomm', harrived⟩ | ⟨harrived, -⟩
    · have hfalse : arrived = false := by
        by_contra htrue
        rcases harrived (Bool.eq_true_of_not_eq_false htrue) with h | h
        · exact nomatch h
        · rw [hport] at h
          exact absurd h (by decide)
      subst hfalse
      exact ⟨_, ⟨⟨hnext.rom.1, hnext.rom.2, hnext.rom.3, hnext.rom.4⟩, hnext.pc, hnext.view⟩, hstep, hcomm',
        (congrFun hin 0).trans hport, hout.trans hqueue⟩
    · exact nomatch harrived
  · exact ⟨b, ⟨⟨hshows.rom.1, hshows.rom.2, hshows.rom.3, hshows.rom.4⟩, hshows.pc, hshows.view⟩, hclearing, hcomm,
      hport, hqueue⟩

theorem Unsent.cycle {t : Upload} (h : Unsent blocks entry t) (produced : BitVec 64)
    (shadow : Int → Int → Int × Int) : Unsent blocks entry (uploadStep (.cycle produced shadow) t) := by
  obtain ⟨b, hshows, hclearing, hcomm, hport, hqueue⟩ := h.cycleSpc
  have hb : b.ports = t.apu.cycleSpc.ports := congrArg Boot.ports hshows.view.symm
  have hsame : (t.apu.cycleSpc.cycleSample produced shadow).ports = t.apu.cycleSpc.ports := by
    unfold Apu.cycleSample
    split
    · rw [hb] at hqueue
      dsimp only
      rw [ApuPorts.drainPortQueue, hqueue]
      change { t.apu.cycleSpc.ports with portQueue := [] } = _
      rw [← hqueue]
    · rfl
  have hsample := sameProgram_sample produced shadow hshows.rom
  have hnext := hshows.of_same
    (⟨hsample.spc, hsample.readable, hsample.ram, hsample.echo⟩ :
      SameProgram t.apu.cycleSpc (t.apu.cycle produced shadow))
  have hports : (t.apu.cycle produced shadow).ports = b.ports := hsame.trans hb.symm
  rw [hports] at hnext
  exact ⟨b, hnext, hclearing, hcomm, hport, hqueue⟩

theorem unsent_run (blocks : List UploadBlock) (entry : Word) {cs : List UploadEvent}
    (hcs : ∀ e ∈ cs, e.isCycle = true) : Unsent blocks entry (uploadRun blocks entry cs) := by
  induction cs using List.reverseRecOn with
  | nil =>
      obtain ⟨hshows, hclearing⟩ := clearing_start blocks entry
      exact ⟨_, hshows, hclearing, comm_start blocks entry, rfl, rfl⟩
  | append_singleton cs e ih =>
      have hunsent := ih fun e he => hcs e (List.mem_append_left _ he)
      have he := hcs e (List.mem_append_right _ List.mem_cons_self)
      rw [uploadRun, Runs.final_append]
      cases e with
      | cycle produced shadow => exact hunsent.cycle produced shadow
      | send target => exact absurd he Bool.false_ne_true

/-- The stack pointer is still that of the reset, or the program has set it. -/
theorem Clearing.sp {b : Boot} {pos : UploadPos} (h : Clearing blocks entry b pos) : b.sp = 0 ∨ b.sp = 0xEF := by
  have hpoint := h.point
  obtain ⟨point, a, x, y, sp, z, n, ram, ports⟩ := b
  cases point <;> dsimp only at hpoint
  case start => exact .inl hpoint
  case setSp => exact .inl hpoint.1
  case readyA | readyB | waitCmp => exact .inr hpoint
  all_goals exact .inr hpoint.1

/-! ### The two uploads -/

/-- The two sound units start the same program. -/
structure SameStart (apu apu' : Apu) : Prop where
  pc : apu.spc.pc = apu'.spc.pc
  a : apu.spc.a = apu'.spc.a
  x : apu.spc.x = apu'.spc.x
  y : apu.spc.y = apu'.spc.y
  sp : apu.spc.sp = apu'.spc.sp
  p : apu.spc.p = apu'.spc.p
  ram : Agrees apu.ram apu'.ram

/-- The upload of the runtime, at any time before the first message. -/
theorem uploadSpcImage_first {rom : Nat → Byte} {p : Nat} (henc : Encodes rom p blocks entry)
    (hcount : blocks.length ≤ 512) (hentry : entry ≠ 0) {t : Upload} (hunsent : Unsent blocks entry t) :
    (uploadSpcImage rom p t.apu).1 = true ∧ (uploadSpcImage rom p t.apu).2.spc.pc = entry ∧
      (uploadSpcImage rom p t.apu).2.spc.a = 0 ∧ (uploadSpcImage rom p t.apu).2.spc.x = 0 ∧
      (uploadSpcImage rom p t.apu).2.spc.y = 0 ∧ (uploadSpcImage rom p t.apu).2.spc.sp = 0xEF ∧
      (uploadSpcImage rom p t.apu).2.spc.p = false ∧
        Agrees (uploadSpcImage rom p t.apu).2.ram (image blocks fun _ => 0) := by
  obtain ⟨b, ⟨hrom, hpc, hview⟩, hclearing, -⟩ := hunsent
  have hsp : t.apu.spc.sp = 0 ∨ t.apu.spc.sp = 0xEF := by
    have hsp := hclearing.sp
    rwa [← hview] at hsp
  have hram : Agrees t.apu.ram fun _ => 0 := by
    have hram := hclearing.ram
    rwa [← hview] at hram
  have hsp' : (if t.apu.spc.sp = 0 then 0xEF else t.apu.spc.sp) = 0xEF := by
    rcases hsp with h | h <;> rw [h] <;> rfl
  have hupload : uploadSpcImage rom p t.apu =
      (true, ({ t.apu with dsp := { t.apu.dsp with apuRam := image blocks t.apu.ram } } : Apu).afterUpload entry) := by
    rw [uploadSpcImage, uploadLoop_eq henc hcount]
  rw [hupload]
  simp only [Apu.afterUpload, hrom.readable, if_true, if_neg hentry, hsp']
  exact ⟨trivial, trivial, trivial, trivial, trivial, trivial, hrom.page, image_agrees hram blocks⟩

/-- **The upload of the runtime is that of the boot ROM**: whenever the program in the boot ROM hands over,
in any order of cycles and writes, the processor starts as behind the upload of the runtime, with the same
registers and the same sound RAM. -/
theorem rtlUploadSpcImageFromDp_eq_bootRom (hclear : ∀ bl ∈ blocks, bl.Clear) {cart : Cart}
    {gRom gRam : Nat → Byte} {cpu : CpuState}
    (henc : Encodes gRom (streamStart cart gRam cpu) blocks entry) (hcount : blocks.length ≤ 512)
    (hentry : entry ≠ 0) {cs : List UploadEvent} (hcs : ∀ e ∈ cs, e.isCycle = true)
    (updateCpuResult : Bool) (es : List UploadEvent) :
    let upload := rtlUploadSpcImageFromDp cart gRom gRam updateCpuResult cpu (uploadRun blocks entry cs).apu
    upload.1 = true ∧
      ((∃ p : BootPoint, (uploadRun blocks entry es).apu.spc.pc = p.pc) ∨
        ∃ es₁ es₂, es = es₁ ++ es₂ ∧ SameStart upload.2.2 (uploadRun blocks entry es₁).apu) := by
  intro upload
  obtain ⟨hok, hpc, ha, hx, hy, hsp, hp, hram⟩ :=
    uploadSpcImage_first henc hcount hentry (unsent_run blocks entry hcs)
  refine ⟨hok, ?_⟩
  rcases booting_or_handedOver entry hclear es with ⟨b, pos, hshows, -⟩ | ⟨es₁, es₂, hes, hover⟩
  · exact .inl ⟨b.point, hshows.pc⟩
  · refine .inr ⟨es₁, es₂, hes, hpc.trans hover.pc.symm, ha.trans hover.a.symm, hx.trans hover.x.symm,
      hy.trans hover.y.symm, hsp.trans hover.sp.symm, hp.trans hover.rom.page.symm, fun c hc => ?_⟩
    exact (hram c hc).trans (hover.ram c hc).symm

/-- The block as it stands in a ROM, with the entry behind it. -/
def shortRom (n : Nat) : Byte := [3, 0, 0, 2, 1, 2, 3, 0, 0, 0, 2].getD n 0

/-- The direct page points to `$00:8000`. -/
def startRam (a : Nat) : Byte := if a = 1 then 0x80 else 0

theorem encodes_shortRom :
    Encodes shortRom (streamStart romOnlyCart startRam cpuStateInit) [shortBlock] 0x200 := by
  have hstart : streamStart romOnlyCart startRam cpuStateInit = 0 := by decide
  rw [hstart]
  refine ⟨rfl, rfl, ?_, rfl, rfl⟩
  decide

/-- A cycle in front of the upload. -/
def firstCycle : List UploadEvent := [.cycle 0 fun l r => (l, r)]

def shortUpload : Bool × CpuState × Apu :=
  rtlUploadSpcImageFromDp romOnlyCart shortRom startRam false cpuStateInit
    (uploadRun [shortBlock] 0x200 firstCycle).apu

theorem rtlUploadSpcImageFromDp_eq_bootRom_short : shortUpload.1 = true ∧
    ∃ es₁ es₂, bootEvents = es₁ ++ es₂ ∧
      SameStart shortUpload.2.2 (uploadRun [shortBlock] 0x200 es₁).apu := by
  have hcs : ∀ e ∈ firstCycle, e.isCycle = true := by
    intro e he
    obtain rfl := List.mem_singleton.mp he
    rfl
  obtain ⟨hok, hstart⟩ := rtlUploadSpcImageFromDp_eq_bootRom shortBlock_clear encodes_shortRom (by decide)
    (by decide) hcs false bootEvents
  exact ⟨hok, hstart.resolve_left fun ⟨p, hp⟩ => not_bootPoint_bootEvents p hp⟩

end SnesRecomp
