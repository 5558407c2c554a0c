import SnesRecomp.Runtime.Bus

/-!
# Word accesses against byte accesses

The interpreter tier reaches memory a byte at a time; the compiled code uses
`cpuRead16` and `cpuWrite16`.  Both are reduced here to the same kind of object, a
pair of **locations**: `route` is the location a byte helper picks for `bank:addr`,
and `wordLocs` the two locations a word helper picks.

`wordIsTwoBytes_iff`: outside the register window the word helpers act as two byte
accesses at `bank:addr` and `(bank:addr) + 1` exactly when `wordAdjacent` holds.  It
fails

* at `$7F:FFFF`, where the WRAM test rejects the whole word;
* at `$1FFF` of a low bank, where the high byte goes to `g_ram[0x2000]` and not to
  the register `$2000`;
* in ROM, when the next address is not the next byte of the image: the last byte of a
  bank below a bank of WRAM or SRAM, the last byte of a half bank, and the last byte
  of the image.
-/

namespace SnesRecomp

variable {H : Type}

/-! ### Locations -/

/-- The byte an address selects. -/
inductive Loc
  | wram (off : Nat)
  | reg (addr : Word)
  | sram (off : Nat)
  | rom (off : Nat)
  deriving DecidableEq, Repr

def route (cart : Cart) (bank : Byte) (addr : Word) : Loc :=
  match cpuRamOffset bank addr with
  | some off => .wram off
  | none =>
    if isHwReg bank addr then .reg addr
    else
      match cpuSramOffset cart bank addr with
      | some off => .sram off
      | none => .rom (romPtr cart (addr24 bank addr))

def readLoc (io : RegIo H) : Loc → Mem H → Byte × Mem H
  | .wram off, m => (m.ram off, m)
  | .reg addr, m => io.readReg addr m
  | .sram off, m => (m.sram off, m)
  | .rom off, m => (m.rom off, m)

def writeLoc (io : RegIo H) : Loc → Byte → Mem H → Mem H
  | .wram off, v, m => m.setRam off v
  | .reg addr, v, m => io.writeReg addr v m
  | .sram off, v, m => m.setSram off v
  | .rom _, _, m => m

theorem cpuRead8_eq_readLoc (cart : Cart) (io : RegIo H) (bank : Byte) (addr : Word) (m : Mem H) :
    cpuRead8 cart io bank addr m = readLoc io (route cart bank addr) m := by
  unfold cpuRead8 route
  cases cpuRamOffset bank addr with
  | some off => rfl
  | none =>
    cases isHwReg bank addr with
    | true => rfl
    | false => cases cpuSramOffset cart bank addr <;> rfl

theorem cpuWrite8_eq_writeLoc (cart : Cart) (io : RegIo H) (bank : Byte) (addr : Word) (v : Byte)
    (m : Mem H) : cpuWrite8 cart io bank addr v m = writeLoc io (route cart bank addr) v m := by
  unfold cpuWrite8 route
  cases cpuRamOffset bank addr with
  | some off => rfl
  | none =>
    cases isHwReg bank addr with
    | true => rfl
    | false => cases cpuSramOffset cart bank addr <;> rfl

/-- The two locations of `cpu_read16` and `cpu_write16` past their WRAM test. -/
def cartLocs (cart : Cart) (bank : Byte) (addr : Word) : Loc × Loc :=
  match cpuSramOffset cart bank addr with
  | some lo =>
    match cpuSramOffset cart bank (addr + 1) with
    | some hi => (.sram lo, .sram hi)
    | none => (.sram lo, route cart bank (addr + 1))
  | none =>
    let p := romPtr cart (addr24 bank addr)
    (.rom p, .rom (p + 1))

/-- The two locations of a word access that is not a register access. -/
def wordLocs (cart : Cart) (bank : Byte) (addr : Word) : Loc × Loc :=
  match cpuRamOffset bank addr with
  | some off => if off + 1 < 0x20000 then (.wram off, .wram (off + 1)) else cartLocs cart bank addr
  | none => cartLocs cart bank addr

def readPair (io : RegIo H) (p : Loc × Loc) (m : Mem H) : Word × Mem H :=
  let lo := readLoc io p.1 m
  let hi := readLoc io p.2 lo.2
  (mkWord lo.1 hi.1, hi.2)

def writePair (io : RegIo H) (p : Loc × Loc) (v : Word) (m : Mem H) : Mem H :=
  writeLoc io p.2 (hiByte v) (writeLoc io p.1 (loByte v) m)

theorem cpuRead16NotRam_eq {cart : Cart} {io : RegIo H} {bank : Byte} {addr : Word}
    (hw : isHwReg bank addr = false) (m : Mem H) :
    cpuRead16NotRam cart io bank addr m = readPair io (cartLocs cart bank addr) m := by
  simp only [cpuRead16NotRam, cartLocs, hw, Bool.false_eq_true, if_false, cpuRead8_eq_readLoc]
  cases cpuSramOffset cart bank addr with
  | none => rfl
  | some lo => cases cpuSramOffset cart bank (addr + 1) <;> rfl

theorem cpuWrite16NotRam_eq {cart : Cart} {io : RegIo H} {bank : Byte} {addr : Word}
    (hw : isHwReg bank addr = false) (v : Word) (m : Mem H) :
    cpuWrite16NotRam cart io bank addr v m = writePair io (cartLocs cart bank addr) v m := by
  simp only [cpuWrite16NotRam, cartLocs, hw, Bool.false_eq_true, if_false, cpuWrite8_eq_writeLoc]
  cases cpuSramOffset cart bank addr with
  | none => rfl
  | some lo => cases cpuSramOffset cart bank (addr + 1) <;> rfl

theorem cpuRead16_eq_readPair {cart : Cart} {io : RegIo H} {bank : Byte} {addr : Word}
    (hw : isHwReg bank addr = false) (m : Mem H) :
    cpuRead16 cart io bank addr m = readPair io (wordLocs cart bank addr) m := by
  simp only [cpuRead16, wordLocs, cpuRead16NotRam_eq hw]
  cases cpuRamOffset bank addr with
  | none => rfl
  | some off =>
    by_cases h : off + 1 < 0x20000
    · simp only [h, if_true]
      rfl
    · simp only [h, if_false]

theorem cpuWrite16_eq_writePair {cart : Cart} {io : RegIo H} {bank : Byte} {addr : Word}
    (hw : isHwReg bank addr = false) (v : Word) (m : Mem H) :
    cpuWrite16 cart io bank addr v m = writePair io (wordLocs cart bank addr) v m := by
  simp only [cpuWrite16, wordLocs, cpuWrite16NotRam_eq hw]
  cases cpuRamOffset bank addr with
  | none => rfl
  | some off =>
    by_cases h : off + 1 < 0x20000
    · simp only [h, if_true]
      rfl
    · simp only [h, if_false]

/-! ### The next address -/

/-- The 24-bit address after `bank:addr`. -/
def nextAddr (bank : Byte) (addr : Word) : Byte × Word :=
  if addr = 0xFFFF then (bank + 1, 0) else (bank, addr + 1)

/-- The locations of two byte accesses at `bank:addr` and the address after it. -/
def byteLocs (cart : Cart) (bank : Byte) (addr : Word) : Loc × Loc :=
  (route cart bank addr, route cart (nextAddr bank addr).1 (nextAddr bank addr).2)

theorem lowBank_iff {bank : Byte} :
    lowBank bank = true ↔ bank.toNat ≤ 0x3F ∨ 0x80 ≤ bank.toNat ∧ bank.toNat ≤ 0xBF := by
  simp [lowBank, BitVec.le_def]

theorem isHwReg_iff {bank : Byte} {addr : Word} :
    isHwReg bank addr = true ↔
      lowBank bank = true ∧ 0x2000 ≤ addr.toNat ∧ addr.toNat < 0x6000 := by
  simp only [isHwReg, BitVec.lt_def, BitVec.le_def]
  by_cases h : addr.toNat < 0x2000 ∨ 0x6000 ≤ addr.toNat
  · simp [h]
    omega
  · simp [h]
    omega

theorem cpuSramOffset_some {cart : Cart} {bank : Byte} {addr : Word} {off : Nat}
    (h : cpuSramOffset cart bank addr = some off) :
    addr.toNat < 0x8000 ∧ (0x70 ≤ bank.toNat ∧ bank.toNat < 0x7E ∨ 0xF0 ≤ bank.toNat ∨
      lowBank bank = true ∧ 0x6000 ≤ addr.toNat) := by
  unfold cpuSramOffset at h
  split at h
  · cases h
  · split at h
    · rename_i h1
      simp [BitVec.le_def, BitVec.lt_def] at h1
      omega
    · split at h
      · rename_i h1
        simp [BitVec.le_def, BitVec.lt_def] at h1
        rw [lowBank_iff]
        omega
      · cases h

theorem cpuRamOffset_eq_some {bank : Byte} {addr : Word} {off : Nat} :
    cpuRamOffset bank addr = some off ↔
      bank = 0x7E ∧ off = addr.toNat ∨ bank = 0x7F ∧ off = 0x10000 + addr.toNat ∨
        lowBank bank = true ∧ addr.toNat < 0x2000 ∧ off = addr.toNat := by
  have hne : (0x7E : Byte) ≠ 0x7F := by decide
  have h7E : lowBank 0x7E = false := by decide
  have h7F : lowBank 0x7F = false := by decide
  unfold cpuRamOffset
  split
  · subst bank
    simp only [Option.some.injEq, hne, h7E, Bool.false_eq_true, false_and, or_false, true_and]
    exact eq_comm
  · split
    · subst bank
      simp only [Option.some.injEq, hne.symm, h7F, Bool.false_eq_true, false_and, or_false,
        true_and, false_or]
      exact eq_comm
    · rename_i h1 h2
      simp only [h1, h2, false_and, false_or, BitVec.lt_def]
      split
      · rename_i h3
        simp only [Bool.and_eq_true, decide_eq_true_eq] at h3
        simp only [Option.some.injEq, h3.2, true_and]
        exact ⟨fun h => ⟨h3.1, h.symm⟩, fun h => h.2.symm⟩
      · rename_i h3
        simp only [Bool.and_eq_true, decide_eq_true_eq] at h3
        simp only [reduceCtorEq, false_iff]
        exact fun h => h3 ⟨h.2.1, h.1⟩

theorem nextAddr_of_lt {bank : Byte} {addr : Word} (h : addr.toNat < 0xFFFF) :
    nextAddr bank addr = (bank, addr + 1) := by
  rw [nextAddr, if_neg]
  rintro rfl
  exact absurd h (by decide)

theorem toNat_add_one {addr : Word} (h : addr.toNat < 0xFFFF) :
    (addr + 1).toNat = addr.toNat + 1 := by
  rw [BitVec.toNat_add]
  exact Nat.mod_eq_of_lt (by simp; omega)

theorem eq_0xFFFF_of_not_lt {addr : Word} (h : ¬ addr.toNat < 0xFFFF) : addr = 0xFFFF := by
  have := addr.isLt
  apply BitVec.eq_of_toNat_eq
  show addr.toNat = 0xFFFF
  omega

theorem route_of_ram {cart : Cart} {bank : Byte} {addr : Word} {off : Nat}
    (h : cpuRamOffset bank addr = some off) : route cart bank addr = .wram off := by
  rw [route, h]

theorem route_of_reg {cart : Cart} {bank : Byte} {addr : Word}
    (hr : cpuRamOffset bank addr = none) (hw : isHwReg bank addr = true) :
    route cart bank addr = .reg addr := by
  simp only [route, hr, hw, if_true]

theorem route_of_sram {cart : Cart} {bank : Byte} {addr : Word} {off : Nat}
    (hr : cpuRamOffset bank addr = none) (hw : isHwReg bank addr = false)
    (hs : cpuSramOffset cart bank addr = some off) : route cart bank addr = .sram off := by
  simp only [route, hr, hw, hs, Bool.false_eq_true, if_false]

theorem route_of_rom {cart : Cart} {bank : Byte} {addr : Word}
    (hr : cpuRamOffset bank addr = none) (hw : isHwReg bank addr = false)
    (hs : cpuSramOffset cart bank addr = none) :
    route cart bank addr = .rom (romPtr cart (addr24 bank addr)) := by
  simp only [route, hr, hw, hs, Bool.false_eq_true, if_false]

/-! ### Telling locations apart -/

/-- A memory with `1` at one location. -/
def probe (h : H) : Loc → Mem H
  | .wram off => ⟨fun i => if i = off then 1 else 0, fun _ => 0, fun _ => 0, h⟩
  | .sram off => ⟨fun _ => 0, fun i => if i = off then 1 else 0, fun _ => 0, h⟩
  | .rom off => ⟨fun _ => 0, fun _ => 0, fun i => if i = off then 1 else 0, h⟩
  | .reg _ => ⟨fun _ => 0, fun _ => 0, fun _ => 0, h⟩

/-- Locations whose access does not involve a device. -/
def Loc.Plain : Loc → Prop
  | .reg _ => False
  | _ => True

theorem readLoc_snd_of_plain {io : RegIo H} {l : Loc} (hl : l.Plain) (m : Mem H) :
    (readLoc io l m).2 = m := by
  cases l with
  | reg addr => exact hl.elim
  | wram off => rfl
  | sram off => rfl
  | rom off => rfl

theorem readLoc_probe {io : RegIo H} {l l' : Loc} (hl : l.Plain) (hl' : l'.Plain) (h : H) :
    (readLoc io l' (probe h l)).1 = if l' = l then 1 else 0 := by
  cases l <;> cases l' <;> first | exact hl.elim | exact hl'.elim | simp [readLoc, probe]

/-- Pairs of plain locations that read alike in every memory are equal. -/
theorem eq_of_readPair_eq [Inhabited H] (io : RegIo H) {p q : Loc × Loc}
    (hp : p.1.Plain ∧ p.2.Plain) (hq : q.1.Plain ∧ q.2.Plain)
    (h : ∀ m : Mem H, (readPair io p m).1 = (readPair io q m).1) : p = q := by
  have key : ∀ m : Mem H, (readLoc io p.1 m).1 = (readLoc io q.1 m).1 ∧
      (readLoc io p.2 m).1 = (readLoc io q.2 m).1 := by
    intro m
    have hm := h m
    simp only [readPair, readLoc_snd_of_plain hp.1, readLoc_snd_of_plain hq.1] at hm
    exact mkWord_inj.mp hm
  have h1 := (key (probe default p.1)).1
  have h2 := (key (probe default p.2)).2
  rw [readLoc_probe hp.1 hp.1, readLoc_probe hp.1 hq.1, if_pos rfl] at h1
  rw [readLoc_probe hp.2 hp.2, readLoc_probe hp.2 hq.2, if_pos rfl] at h2
  have e1 : q.1 = p.1 := by
    by_contra hne
    simp [hne] at h1
  have e2 : q.2 = p.2 := by
    by_contra hne
    simp [hne] at h2
  exact (Prod.ext e1 e2).symm

/-! ### Words as two bytes -/

/-- A word access at `bank:addr` is two byte accesses at `bank:addr` and the address
after it, for every memory and value. -/
def WordIsTwoBytes (cart : Cart) (io : RegIo H) (bank : Byte) (addr : Word) : Prop :=
  let next := nextAddr bank addr
  (∀ (v : Word) (m : Mem H),
    let word := cpuWrite16 cart io bank addr v m
    let bytes := cpuWrite8 cart io next.1 next.2 (hiByte v) (cpuWrite8 cart io bank addr (loByte v) m)
    word.ram = bytes.ram ∧ word.sram = bytes.sram) ∧
  ∀ m : Mem H,
    let lo := cpuRead8 cart io bank addr m
    let hi := cpuRead8 cart io next.1 next.2 lo.2
    (cpuRead16 cart io bank addr m).1 = mkWord lo.1 hi.1

/-- The address after `bank:addr` is the byte the word helpers take for the high one. -/
def wordAdjacent (cart : Cart) (bank : Byte) (addr : Word) : Bool :=
  match route cart bank addr with
  | .wram _ => !(bank == 0x7F && addr == 0xFFFF) && !(lowBank bank && addr == 0x1FFF)
  | .rom off => route cart (nextAddr bank addr).1 (nextAddr bank addr).2 == .rom (off + 1)
  | .sram _ => true
  | .reg _ => true

theorem wordIsTwoBytes_of_eq {cart : Cart} (io : RegIo H) {bank : Byte} {addr : Word}
    (hw : isHwReg bank addr = false) (h : wordLocs cart bank addr = byteLocs cart bank addr) :
    WordIsTwoBytes cart io bank addr := by
  refine ⟨fun v m => ?_, fun m => ?_⟩
  · rw [cpuWrite16_eq_writePair hw, h, cpuWrite8_eq_writeLoc, cpuWrite8_eq_writeLoc]
    exact ⟨rfl, rfl⟩
  · rw [cpuRead16_eq_readPair hw, h]
    simp only [cpuRead8_eq_readLoc]
    rfl

/-- Past WRAM and registers the high byte of an SRAM word is the byte at the next address. -/
theorem cartLocs_of_sram {cart : Cart} {bank : Byte} {addr : Word} {lo : Nat}
    (hs : cpuSramOffset cart bank addr = some lo) :
    cartLocs cart bank addr = (.sram lo, route cart bank (addr + 1)) := by
  obtain ⟨ha, hb⟩ := cpuSramOffset_some hs
  have hn := toNat_add_one (show addr.toNat < 0xFFFF by omega)
  simp only [cartLocs, hs]
  cases hh : cpuSramOffset cart bank (addr + 1) with
  | none => rfl
  | some hi =>
    obtain ⟨ha', hb'⟩ := cpuSramOffset_some hh
    have hr : cpuRamOffset bank (addr + 1) = none := by
      cases hr : cpuRamOffset bank (addr + 1) with
      | none => rfl
      | some off =>
        rw [lowBank_iff] at hb
        rcases cpuRamOffset_eq_some.mp hr with ⟨rfl, -⟩ | ⟨rfl, -⟩ | ⟨hl, h2, -⟩
        · simp at hb
        · simp at hb
        · rw [lowBank_iff] at hl
          omega
    have hw : isHwReg bank (addr + 1) = false := by
      rw [Bool.eq_false_iff, Ne, isHwReg_iff]
      rintro ⟨hl, h2, h6⟩
      rw [lowBank_iff] at hb hl
      omega
    rw [route_of_sram hr hw hh]

theorem wordLocs_of_wram {cart : Cart} {bank : Byte} {addr : Word} {off : Nat}
    (hr : cpuRamOffset bank addr = some off) (h : wordAdjacent cart bank addr = true) :
    wordLocs cart bank addr = byteLocs cart bank addr := by
  simp only [wordAdjacent, route_of_ram hr, Bool.and_eq_true, Bool.not_eq_true',
    Bool.and_eq_false_iff, beq_eq_false_iff_ne] at h
  have hoff := cpuRamOffset_eq_some.mp hr
  have hlt := addr.isLt
  by_cases ha : addr.toNat < 0xFFFF
  · have hn := toNat_add_one ha
    have hnext : cpuRamOffset bank (addr + 1) = some (off + 1) := by
      rw [cpuRamOffset_eq_some, hn]
      rcases hoff with ⟨hb, ho⟩ | ⟨hb, ho⟩ | ⟨hb, hlo, ho⟩
      · exact Or.inl ⟨hb, by omega⟩
      · exact Or.inr (Or.inl ⟨hb, by omega⟩)
      · refine Or.inr (Or.inr ⟨hb, ?_, by omega⟩)
        rcases h.2 with h2 | h2
        · rw [hb] at h2
          cases h2
        · have : addr.toNat ≠ 0x1FFF := fun e => h2 (BitVec.eq_of_toNat_eq e)
          omega
    have h20 : off + 1 < 0x20000 := by
      rcases hoff with ⟨_, ho⟩ | ⟨_, ho⟩ | ⟨_, _, ho⟩ <;> omega
    simp only [wordLocs, byteLocs, hr, h20, if_true, nextAddr_of_lt ha, route_of_ram hr,
      route_of_ram hnext]
  · obtain rfl := eq_0xFFFF_of_not_lt ha
    -- only bank `$7E` is left: `$7F:FFFF` is excluded and low banks end at `$1FFF`
    have hb : bank = 0x7E := by
      rcases hoff with ⟨hb, _⟩ | ⟨hb, _⟩ | ⟨_, hlo, _⟩
      · exact hb
      · rcases h.1 with h1 | h1
        · exact absurd hb h1
        · exact absurd rfl h1
      · exact absurd hlo (by decide)
    subst hb
    rfl

theorem wordLocs_eq_byteLocs {cart : Cart} {bank : Byte} {addr : Word}
    (hw : isHwReg bank addr = false) (h : wordAdjacent cart bank addr = true) :
    wordLocs cart bank addr = byteLocs cart bank addr := by
  cases hr : cpuRamOffset bank addr with
  | some off => exact wordLocs_of_wram hr h
  | none =>
    simp only [wordLocs, hr]
    cases hs : cpuSramOffset cart bank addr with
    | some lo =>
      obtain ⟨ha, -⟩ := cpuSramOffset_some hs
      rw [cartLocs_of_sram hs, byteLocs, route_of_sram hr hw hs, nextAddr_of_lt (by omega)]
    | none =>
      simp only [wordAdjacent, route_of_rom hr hw hs, beq_iff_eq] at h
      simp only [cartLocs, hs, byteLocs, route_of_rom hr hw hs, h]

/-- At `$7F:FFFF` the word helpers skip WRAM and address ROM. -/
theorem not_wordIsTwoBytes_7F_FFFF [Inhabited H] (cart : Cart) (io : RegIo H) :
    ¬ WordIsTwoBytes cart io 0x7F 0xFFFF := by
  rintro ⟨hwrite, -⟩
  have h := (hwrite 0x0001 (probe default (.rom 0))).1
  simp only [cpuWrite16_eq_writePair (show isHwReg 0x7F 0xFFFF = false by decide),
    cpuWrite8_eq_writeLoc] at h
  have hs : cpuSramOffset cart 0x7F 0xFFFF = none := by simp [cpuSramOffset]
  have hl : wordLocs cart 0x7F 0xFFFF =
      (.rom (romPtr cart (addr24 0x7F 0xFFFF)), .rom (romPtr cart (addr24 0x7F 0xFFFF) + 1)) := by
    have hr : cpuRamOffset 0x7F 0xFFFF = some 0x1FFFF := rfl
    simp only [wordLocs, hr, cartLocs, hs, Nat.reduceAdd, Nat.reduceLT, if_false]
  have hb1 : route cart 0x7F 0xFFFF = .wram 0x1FFFF := rfl
  have hb2 : route cart (nextAddr 0x7F 0xFFFF).1 (nextAddr 0x7F 0xFFFF).2 = .wram 0 := rfl
  rw [hl, hb1, hb2] at h
  have := congrFun h 0x1FFFF
  simp [writePair, writeLoc, Mem.setRam, probe, loByte, hiByte] at this

/-- At `$1FFF` of a low bank the word helpers store the high byte in WRAM; the byte at
the next address is the register `$2000`, whose store leaves WRAM alone. -/
theorem not_wordIsTwoBytes_1FFF [Inhabited H] (cart : Cart) (io : RegIo H)
    (hmsu : ∀ v m, (io.writeReg 0x2000 v m).ram = m.ram) {bank : Byte}
    (hb : lowBank bank = true) : ¬ WordIsTwoBytes cart io bank 0x1FFF := by
  rintro ⟨hwrite, -⟩
  have h := (hwrite 0x0100 (probe default (.rom 0))).1
  have hw : isHwReg bank 0x1FFF = false := by simp [isHwReg]
  have hr : cpuRamOffset bank 0x1FFF = some 0x1FFF :=
    cpuRamOffset_eq_some.mpr (Or.inr (Or.inr ⟨hb, by decide, rfl⟩))
  have hn : nextAddr bank 0x1FFF = (bank, 0x2000) := rfl
  have hr2 : cpuRamOffset bank 0x2000 = none := by
    rw [Option.eq_none_iff_forall_not_mem]
    intro off ho
    rw [Option.mem_def, cpuRamOffset_eq_some] at ho
    rw [lowBank_iff] at hb ho
    rcases ho with ⟨rfl, -⟩ | ⟨rfl, -⟩ | ⟨-, hlt, -⟩
    · simp at hb
    · simp at hb
    · simp at hlt
  have hw2 : isHwReg bank 0x2000 = true := by simp [isHwReg, hb]
  simp only [cpuWrite16_eq_writePair hw, cpuWrite8_eq_writeLoc, hn, wordLocs, hr,
    route_of_ram hr, route_of_reg hr2 hw2, writePair, writeLoc, hmsu] at h
  have := congrFun h 0x2000
  simp [Mem.setRam, probe, hiByte] at this

theorem route_eq_rom {cart : Cart} {bank : Byte} {addr : Word} {off : Nat}
    (h : route cart bank addr = .rom off) :
    cpuRamOffset bank addr = none ∧ isHwReg bank addr = false ∧
      cpuSramOffset cart bank addr = none ∧ off = romPtr cart (addr24 bank addr) := by
  unfold route at h
  split at h
  · cases h
  · rename_i hr
    split at h
    · cases h
    · rename_i hw
      split at h
      · cases h
      · rename_i hs
        cases h
        exact ⟨hr, by simpa using hw, hs, rfl⟩

/-- No register follows a ROM address. -/
theorem plain_next_of_rom {cart : Cart} {bank : Byte} {addr : Word} {off : Nat}
    (h : route cart bank addr = .rom off) :
    (route cart (nextAddr bank addr).1 (nextAddr bank addr).2).Plain := by
  obtain ⟨hr, hw, -, -⟩ := route_eq_rom h
  have hw' : isHwReg (nextAddr bank addr).1 (nextAddr bank addr).2 = false := by
    rw [Bool.eq_false_iff, Ne, isHwReg_iff]
    rintro ⟨hl, h2, h6⟩
    by_cases ha : addr.toNat < 0xFFFF
    · rw [nextAddr_of_lt ha] at hl h2 h6
      rw [toNat_add_one ha] at h2 h6
      by_cases h1 : addr.toNat < 0x2000
      · rw [cpuRamOffset_eq_some.mpr (Or.inr (Or.inr ⟨hl, h1, rfl⟩))] at hr
        cases hr
      · rw [isHwReg_iff.mpr ⟨hl, by omega, by omega⟩] at hw
        cases hw
    · obtain rfl := eq_0xFFFF_of_not_lt ha
      simp [nextAddr] at h2
  unfold route
  rw [hw']
  split
  · trivial
  · simp only [Bool.false_eq_true, if_false]
    split <;> trivial

/-- In ROM both bytes of a word come from the image. -/
theorem route_next_of_wordIsTwoBytes [Inhabited H] {cart : Cart} {io : RegIo H} {bank : Byte}
    {addr : Word} {off : Nat} (h : WordIsTwoBytes cart io bank addr)
    (hr : route cart bank addr = .rom off) :
    route cart (nextAddr bank addr).1 (nextAddr bank addr).2 = .rom (off + 1) := by
  obtain ⟨hram, hw, hs, ho⟩ := route_eq_rom hr
  have hl : wordLocs cart bank addr = (.rom off, .rom (off + 1)) := by
    simp only [wordLocs, hram, cartLocs, hs, ho]
  have hpair : ((.rom off, .rom (off + 1)) : Loc × Loc) = byteLocs cart bank addr := by
    refine eq_of_readPair_eq io ⟨trivial, trivial⟩ ⟨?_, plain_next_of_rom hr⟩ fun m => ?_
    · show (route cart bank addr).Plain
      rw [hr]
      trivial
    · have hm := h.2 m
      rw [cpuRead16_eq_readPair hw, hl] at hm
      simp only [cpuRead8_eq_readLoc] at hm
      exact hm
  exact (congrArg Prod.snd hpair).symm

/-- **A word access is two byte accesses exactly at adjacent addresses.**  `hmsu` is how
`WriteReg` treats `$2000`, an MSU-1 port: WRAM stays as it is. -/
theorem wordIsTwoBytes_iff [Inhabited H] (cart : Cart) (io : RegIo H)
    (hmsu : ∀ v m, (io.writeReg 0x2000 v m).ram = m.ram) (bank : Byte) (addr : Word)
    (hw : isHwReg bank addr = false) :
    WordIsTwoBytes cart io bank addr ↔ wordAdjacent cart bank addr = true := by
  constructor
  · intro h
    unfold wordAdjacent
    cases hr : route cart bank addr with
    | reg a => rfl
    | sram off => rfl
    | rom off => exact beq_iff_eq.mpr (route_next_of_wordIsTwoBytes h hr)
    | wram off =>
      simp only [Bool.and_eq_true, Bool.not_eq_true', Bool.eq_false_iff, Ne, beq_iff_eq]
      constructor
      · rintro ⟨rfl, rfl⟩
        exact not_wordIsTwoBytes_7F_FFFF cart io h
      · rintro ⟨hb, rfl⟩
        exact not_wordIsTwoBytes_1FFF cart io hmsu hb h
  · intro h
    exact wordIsTwoBytes_of_eq io hw (wordLocs_eq_byteLocs hw h)

/-- Devices that ignore every store and read as zero. -/
def quietIo : RegIo Unit where
  readReg _ m := (0, m)
  writeReg _ _ m := m
  apuPorts _ m := (0, m)
  writeVramWord _ m := m

/-- A word at `$7E:FFFF` continues in bank `$7F`. -/
theorem wordIsTwoBytes_7E_FFFF : WordIsTwoBytes ⟨0x80000, 0x2000⟩ quietIo 0x7E 0xFFFF :=
  (wordIsTwoBytes_iff ⟨0x80000, 0x2000⟩ quietIo (fun _ _ => rfl) 0x7E 0xFFFF (by decide)).mpr
    (by decide)

/-- A word stored at `$00:1FFF` leaves its high byte in `g_ram[0x2000]`; the two byte
stores leave that byte alone. -/
theorem not_wordIsTwoBytes_00_1FFF :
    isHwReg 0x00 0x1FFF = false ∧ ¬ WordIsTwoBytes ⟨0x80000, 0x2000⟩ quietIo 0x00 0x1FFF := by
  refine ⟨by decide, fun h => ?_⟩
  have hram := congrFun (h.1 0x1234 (probe () (.rom 0))).1 0x2000
  revert hram
  decide

end SnesRecomp
