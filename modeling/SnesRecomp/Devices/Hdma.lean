import SnesRecomp.Devices.Dma
import SnesRecomp.Lib.Bits

/-!
# HDMA tables

`SimpleHdma_Init` and `SimpleHdma_DoLine` of `common_rtl.c`.  A table is a list of entries, each a
byte that says for how many lines it stands and whether it transfers on every one of them, and its
data, in the table itself or behind a pointer.

`tableLines` expands a table line by line.  `hdmaLines_init`: the calls of `SimpleHdma_DoLine` write to
the PPU what it lists, for any number of lines.
-/

namespace SnesRecomp

/-- The memory of the process, with the places of `g_ram` and `g_rom` in it. -/
structure Host where
  byte : Nat → Byte
  cart : Cart
  gRam : Nat
  gRom : Nat

/-- `SimpleHdma_GetPtr`. -/
def Host.getPtr (h : Host) (p : Nat) : Nat :=
  let bank := (p >>> 16) &&& 0xFF
  let addr := p &&& 0xFFFF
  if bank = 0x7E then h.gRam + addr
  else if bank = 0x7F then h.gRam + 0x10000 + addr
  else if (bank < 0x40 ∨ 0x80 ≤ bank ∧ bank < 0xC0) ∧ addr < 0x2000 then h.gRam + addr
  else h.gRom + romPtr h.cart (BitVec.ofNat 32 p)

/-- `SimpleHdma`; `table` is `none` for the null pointer. -/
structure SimpleHdma where
  table : Option Nat
  indirPtr : Nat
  repCount : Byte
  mode : Byte
  ppuAddr : Byte
  indirBank : Byte
  deriving DecidableEq, Repr

/-- `transferLength`. -/
def transferLength (mode : BitVec 3) : Nat := [1, 2, 2, 4, 4, 4, 2, 4].getD mode.toNat 0

/-- `SimpleHdma_Init`. -/
def simpleHdmaInit (h : Host) (dc : DmaChannel) (c : SimpleHdma) : SimpleHdma :=
  if dc.hdmaActive then
    { c with
      table := some (h.getPtr (dc.aAdr.toNat ||| dc.aBank.toNat <<< 16))
      repCount := 0
      mode := dc.mode.setWidth 8 ||| bitAt dc.indirect 6
      ppuAddr := dc.bAdr
      indirBank := dc.indBank }
  else { c with table := none }

/-- `c->mode & 0x40`. -/
def SimpleHdma.indirect (c : SimpleHdma) : Bool := c.mode.getLsbD 6

/-- The bytes of one line. -/
def SimpleHdma.length (c : SimpleHdma) : Nat := transferLength (c.mode.setWidth 3)

/-- The calls of `ppu_write` for one line, with the bytes from `data` on. -/
def SimpleHdma.writes (h : Host) (c : SimpleHdma) (data : Nat) : List (Byte × Byte) :=
  (List.range c.length).map fun j =>
    (loByte (0x2100 + c.ppuAddr.setWidth 16 +
      (bAdrOffset (c.mode.setWidth 3) (BitVec.ofNat 2 j)).setWidth 16), h.byte (data + j))

/-- The loop over the bytes of a line. -/
def SimpleHdma.transfer (h : Host) (c : SimpleHdma) (table : Nat) : SimpleHdma × List (Byte × Byte) :=
  if c.indirect then ({ c with indirPtr := c.indirPtr + c.length }, c.writes h c.indirPtr)
  else ({ c with table := some (table + c.length) }, c.writes h table)

/-- The data of an indirect entry. -/
def SimpleHdma.pointer (h : Host) (c : SimpleHdma) (table : Nat) : Nat :=
  h.getPtr (c.indirBank.toNat <<< 16 ||| (h.byte table).toNat ||| (h.byte (table + 1)).toNat * 256)

/-- `SimpleHdma_DoLine`, with what it writes. -/
def simpleHdmaDoLine (h : Host) (c : SimpleHdma) : SimpleHdma × List (Byte × Byte) :=
  match c.table with
  | none => (c, [])
  | some table =>
    if c.repCount &&& 0x7F = 0 then
      let rep := h.byte table
      if rep = 0 then ({ c with repCount := rep, table := none }, [])
      else
        let line :=
          if c.indirect then
            { c with
              repCount := rep, indirPtr := c.pointer h (table + 1)
              table := some (table + 3) : SimpleHdma }.transfer h (table + 3)
          else { c with repCount := rep, table := some (table + 1) : SimpleHdma }.transfer h (table + 1)
        ({ line.1 with repCount := line.1.repCount - 1 }, line.2)
    else if c.repCount &&& 0x80 ≠ 0 then
      let line := c.transfer h table
      ({ line.1 with repCount := line.1.repCount - 1 }, line.2)
    else ({ c with repCount := c.repCount - 1 }, [])

/-- What the calls for some lines write, a list for each line. -/
def hdmaLines (h : Host) : Nat → SimpleHdma → List (List (Byte × Byte))
  | 0, _ => []
  | n + 1, c => (simpleHdmaDoLine h c).2 :: hdmaLines h n (simpleHdmaDoLine h c).1

/-! ### The expanded table -/

/-- The lines an entry stands for. -/
def entryLines (rep : Byte) : Nat := if rep.toNat % 128 = 0 then 128 else rep.toNat % 128

theorem entryLines_pos (rep : Byte) : 0 < entryLines rep := by
  rw [entryLines]
  split <;> omega

/-- A repeating entry transfers on every line, another one on its first; `$80` does not repeat. -/
def repeats (rep : Byte) : Bool := 0x80 < rep.toNat

/-- The transfers of an entry in its first lines. -/
def transfersIn (rep : Byte) (k : Nat) : Nat := if repeats rep then k else 1

/-- What an entry writes on a line. -/
def entryLine (h : Host) (c : SimpleHdma) (rep : Byte) (data k : Nat) : List (Byte × Byte) :=
  if k = 0 ∨ repeats rep then c.writes h (data + k * c.length) else []

/-- The data of the entry at an address. -/
def entryData (h : Host) (c : SimpleHdma) (table : Nat) : Nat :=
  if c.indirect then c.pointer h (table + 1) else table + 1

/-- The entry behind it. -/
def nextEntry (h : Host) (c : SimpleHdma) (table : Nat) : Nat :=
  if c.indirect then table + 3
  else table + 1 + transfersIn (h.byte table) (entryLines (h.byte table)) * c.length

/-- A table, expanded to a number of lines.  A zero ends it. -/
def tableLines (h : Host) (c : SimpleHdma) (n table : Nat) : List (List (Byte × Byte)) :=
  let rep := h.byte table
  let lines := (List.range (entryLines rep)).map (entryLine h c rep (entryData h c table))
  if rep = 0 then List.replicate n []
  else if n ≤ entryLines rep then lines.take n
  else lines ++ tableLines h c (n - entryLines rep) (nextEntry h c table)
termination_by n
decreasing_by
  have hpos := entryLines_pos (h.byte table)
  omega

/-! ### An entry -/

/-- The registers within an entry, when some of its lines are done. -/
def midEntry (h : Host) (c : SimpleHdma) (table k : Nat) : SimpleHdma :=
  { c with
    repCount := h.byte table - BitVec.ofNat 8 k
    table := some (if c.indirect then table + 3
      else table + 1 + transfersIn (h.byte table) k * c.length)
    indirPtr := if c.indirect then c.pointer h (table + 1) + transfersIn (h.byte table) k * c.length
      else c.indirPtr }

section Entry

variable {h : Host} {c : SimpleHdma} {table k : Nat}

theorem and_low (b : Byte) : b &&& 0x7F = 0 ↔ b.toNat % 128 = 0 := by
  rw [← BitVec.toNat_inj, BitVec.toNat_and, show (0x7F : Byte).toNat = 2 ^ 7 - 1 from rfl,
    Nat.and_two_pow_sub_one_eq_mod]
  rfl

theorem and_high (b : Byte) : b &&& 0x80 ≠ 0 ↔ 128 ≤ b.toNat := by
  have hall : ∀ b : Byte, b &&& 0x80 ≠ 0 ↔ 128 ≤ b.toNat := by decide
  exact hall b

theorem rep_toNat (rep : Byte) (hk : k ≤ entryLines rep) (hrep : rep ≠ 0) :
    (rep - BitVec.ofNat 8 k).toNat = rep.toNat - k := by
  have hlt := rep.isLt
  have hpos : rep.toNat ≠ 0 := fun hz => hrep (BitVec.eq_of_toNat_eq hz)
  rw [BitVec.toNat_sub, BitVec.toNat_ofNat]
  rw [entryLines] at hk
  split at hk <;> omega

/-- Inside an entry the counter does not run out, and says whether the entry repeats. -/
theorem mid_counter (rep : Byte) (hrep : rep ≠ 0) (hpos : 0 < k) (hk : k < entryLines rep) :
    (rep - BitVec.ofNat 8 k) &&& 0x7F ≠ 0 ∧
      ((rep - BitVec.ofNat 8 k) &&& 0x80 ≠ 0 ↔ repeats rep = true) := by
  have hlt := rep.isLt
  have hne : rep.toNat ≠ 0 := fun hz => hrep (BitVec.eq_of_toNat_eq hz)
  rw [Ne, and_low, and_high, rep_toNat rep (Nat.le_of_lt hk) hrep, repeats, decide_eq_true_eq]
  rw [entryLines] at hk
  split at hk <;> omega

/-- Behind its last line the counter has run out. -/
theorem last_counter (rep : Byte) (hrep : rep ≠ 0) :
    (rep - BitVec.ofNat 8 (entryLines rep)) &&& 0x7F = 0 := by
  have hlt := rep.isLt
  have hne : rep.toNat ≠ 0 := fun hz => hrep (BitVec.eq_of_toNat_eq hz)
  rw [and_low, rep_toNat rep (Nat.le_refl _) hrep, entryLines]
  split <;> omega

/-- The first line of an entry. -/
theorem doLine_first (htable : c.table = some table) (hdone : c.repCount &&& 0x7F = 0)
    (hrep : h.byte table ≠ 0) :
    simpleHdmaDoLine h c =
      (midEntry h c table 1, entryLine h c (h.byte table) (entryData h c table) 0) := by
  have hone : transfersIn (h.byte table) 1 = 1 := by
    rw [transfersIn]
    split <;> rfl
  have hline : ∀ data, entryLine h c (h.byte table) data 0 = c.writes h data := fun data => by
    rw [entryLine, if_pos (.inl rfl), Nat.zero_mul, Nat.add_zero]
  rw [simpleHdmaDoLine, htable]
  simp only [if_pos hdone, if_neg hrep, hline, midEntry, hone, Nat.one_mul, entryData]
  cases hind : c.indirect with
  | true =>
    have hkeeps : ∀ rep ptr t, SimpleHdma.indirect { c with repCount := rep, indirPtr := ptr, table := t } =
        true := fun _ _ _ => hind
    simp only [if_true, SimpleHdma.transfer, hkeeps]
    rfl
  | false =>
    have hkeeps : ∀ rep t, SimpleHdma.indirect { c with repCount := rep, table := t } = false :=
      fun _ _ => hind
    simp only [Bool.false_eq_true, if_false, SimpleHdma.transfer, hkeeps]
    rfl

/-- A line on which no entry starts. -/
theorem doLine_running (htable : c.table = some table) (hlow : c.repCount &&& 0x7F ≠ 0) :
    simpleHdmaDoLine h c =
      (if c.repCount &&& 0x80 ≠ 0 then
        ({ (c.transfer h table).1 with repCount := (c.transfer h table).1.repCount - 1 },
          (c.transfer h table).2)
      else ({ c with repCount := c.repCount - 1 }, [])) := by
  rw [simpleHdmaDoLine, htable]
  simp only [if_neg hlow]

theorem transfersIn_repeats {rep : Byte} (hrepeats : repeats rep = true) (k : Nat) :
    transfersIn rep k = k := by
  rw [transfersIn, if_pos hrepeats]

/-- A later line of an entry. -/
theorem doLine_mid (hrep : h.byte table ≠ 0) (hpos : 0 < k) (hk : k < entryLines (h.byte table)) :
    simpleHdmaDoLine h (midEntry h c table k) =
      (midEntry h c table (k + 1), entryLine h c (h.byte table) (entryData h c table) k) := by
  obtain ⟨hlow, hhigh⟩ := mid_counter (h.byte table) hrep hpos hk
  have hnext : h.byte table - BitVec.ofNat 8 k - 1 = h.byte table - BitVec.ofNat 8 (k + 1) := by
    rw [BitVec.ofNat_add, BitVec.sub_sub]
    rfl
  rw [doLine_running rfl hlow]
  cases hrepeats : repeats (h.byte table) with
  | false =>
    have hzero : ¬ (midEntry h c table k).repCount &&& 0x80 ≠ 0 := fun hh => by
      rw [hhigh.mp hh] at hrepeats
      cases hrepeats
    have hcond : ¬ (k = 0 ∨ repeats (h.byte table) = true) := by
      rw [hrepeats]
      simp only [Bool.false_eq_true, or_false]
      omega
    have hsame : ∀ j, transfersIn (h.byte table) j = 1 := fun j => by
      rw [transfersIn, hrepeats]
      rfl
    rw [if_neg hzero, entryLine, if_neg hcond]
    simp only [midEntry, hnext, hsame]
  | true =>
    have hmoved : ∀ base, base + k * c.length + c.length = base + (k + 1) * c.length := fun base => by
      rw [Nat.succ_mul, Nat.add_assoc]
    have hset : (midEntry h c table k).repCount &&& 0x80 ≠ 0 := hhigh.mpr hrepeats
    have hcond : k = 0 ∨ repeats (h.byte table) = true := .inr hrepeats
    rw [if_pos hset, entryLine, if_pos hcond, entryData]
    cases hind : c.indirect with
    | true =>
      have hmid : (midEntry h c table k).indirect = true := hind
      rw [SimpleHdma.transfer, if_pos hmid]
      simp only [midEntry, hind, if_true, transfersIn_repeats hrepeats, hnext, ← hmoved]
      rfl
    | false =>
      have hmid : ¬ (midEntry h c table k).indirect = true := by
        show ¬ c.indirect = true
        rw [hind]
        decide
      rw [SimpleHdma.transfer, if_neg hmid]
      simp only [midEntry, hind, Bool.false_eq_true, if_false, transfersIn_repeats hrepeats, hnext, ← hmoved]
      rfl

/-- Some more lines of an entry. -/
theorem lines_mid (hrep : h.byte table ≠ 0) (n : Nat) {j : Nat} (hpos : 0 < k)
    (hk : k + j ≤ entryLines (h.byte table)) :
    hdmaLines h (j + n) (midEntry h c table k) =
      (List.range j).map (fun i => entryLine h c (h.byte table) (entryData h c table) (k + i)) ++
        hdmaLines h n (midEntry h c table (k + j)) := by
  induction j generalizing k with
  | zero => rw [Nat.zero_add]; rfl
  | succ j ih =>
    rw [Nat.succ_add, hdmaLines, doLine_mid hrep hpos (by omega), ih (by omega) (by omega),
      List.range_succ_eq_map, List.map_cons, List.map_map, Nat.add_zero, List.cons_append]
    have hfun : (fun i => entryLine h c (h.byte table) (entryData h c table) (k + i)) ∘ Nat.succ =
        fun i => entryLine h c (h.byte table) (entryData h c table) (k + 1 + i) := by
      funext i
      simp only [Function.comp_apply]
      congr 1
      omega
    rw [hfun, show k + 1 + j = k + (j + 1) by omega]
    rfl

/-- The first lines of an entry. -/
theorem lines_entry (htable : c.table = some table) (hdone : c.repCount &&& 0x7F = 0)
    (hrep : h.byte table ≠ 0) (n : Nat) {j : Nat} (hpos : 0 < j)
    (hj : j ≤ entryLines (h.byte table)) :
    hdmaLines h (j + n) c =
      (List.range j).map (entryLine h c (h.byte table) (entryData h c table)) ++
        hdmaLines h n (midEntry h c table j) := by
  obtain ⟨j, rfl⟩ := Nat.exists_eq_succ_of_ne_zero (Nat.ne_of_gt hpos)
  rw [Nat.succ_add, hdmaLines, doLine_first htable hdone hrep, lines_mid hrep n Nat.one_pos (by omega),
    List.range_succ_eq_map, List.map_cons, List.map_map, List.cons_append, Nat.add_comm 1 j]
  have hfun : entryLine h c (h.byte table) (entryData h c table) ∘ Nat.succ =
      fun i => entryLine h c (h.byte table) (entryData h c table) (1 + i) := by
    funext i
    rw [Function.comp_apply, Nat.succ_eq_one_add]
  rw [hfun]

end Entry

/-! ### The table -/

theorem hdmaLines_none (h : Host) (n : Nat) {c : SimpleHdma} (hnone : c.table = none) :
    hdmaLines h n c = List.replicate n [] := by
  induction n with
  | zero => rfl
  | succ n ih =>
    have hline : simpleHdmaDoLine h c = (c, []) := by
      rw [simpleHdmaDoLine, hnone]
    rw [hdmaLines, hline, ih, List.replicate_succ]

/-- The expansion only looks at the registers that no line changes. -/
theorem tableLines_mid (h : Host) (c : SimpleHdma) (table k n t : Nat) :
    tableLines h (midEntry h c table k) n t = tableLines h c n t := by
  induction n using Nat.strongRecOn generalizing t with
  | ind n ih =>
    have hline : entryLine h (midEntry h c table k) = entryLine h c := rfl
    have hdata : entryData h (midEntry h c table k) = entryData h c := rfl
    have hnext : nextEntry h (midEntry h c table k) = nextEntry h c := rfl
    have hpos := entryLines_pos (h.byte t)
    rw [tableLines, hline, hdata, hnext]
    conv_rhs => rw [tableLines]
    split
    next => rfl
    next =>
      split
      next => rfl
      next => rw [ih _ (by omega)]

/-- **The lines write what the expanded table lists**, from any line on that an entry starts on. -/
theorem hdmaLines_eq (h : Host) (n : Nat) {c : SimpleHdma} {table : Nat} (htable : c.table = some table)
    (hdone : c.repCount &&& 0x7F = 0) : hdmaLines h n c = tableLines h c n table := by
  induction n using Nat.strongRecOn generalizing c table with
  | ind n ih =>
    have hpos := entryLines_pos (h.byte table)
    rw [tableLines]
    split
    next hrep =>
      cases n with
      | zero => rfl
      | succ n =>
        have hline : simpleHdmaDoLine h c = ({ c with repCount := h.byte table, table := none }, []) := by
          rw [simpleHdmaDoLine, htable]
          simp only [if_pos hdone, if_pos hrep]
        rw [hdmaLines, hline, hdmaLines_none h n rfl, List.replicate_succ]
    next hrep =>
      split
      next hshort =>
        cases n with
        | zero => rfl
        | succ n =>
          have hlines := lines_entry htable hdone hrep 0 (Nat.succ_pos n) hshort
          rw [Nat.add_zero] at hlines
          rw [hlines, ← List.map_take, List.take_range, Nat.min_eq_left hshort, hdmaLines, List.append_nil]
      next hlong =>
        obtain ⟨rest, hrest⟩ : ∃ rest, n = entryLines (h.byte table) + rest :=
          ⟨n - entryLines (h.byte table), by omega⟩
        have hmid : (midEntry h c table (entryLines (h.byte table))).table =
            some (nextEntry h c table) := rfl
        have hlater := ih rest (by omega) hmid (last_counter _ hrep)
        rw [hrest, lines_entry htable hdone hrep rest hpos (Nat.le_refl _), hlater, tableLines_mid,
          Nat.add_sub_cancel_left]

/-- **From `SimpleHdma_Init` on, the lines write what the channel's table lists.** -/
theorem hdmaLines_init (h : Host) (dc : DmaChannel) (c : SimpleHdma) (n : Nat) :
    hdmaLines h n (simpleHdmaInit h dc c) =
      if dc.hdmaActive then
        tableLines h (simpleHdmaInit h dc c) n (h.getPtr (dc.aAdr.toNat ||| dc.aBank.toNat <<< 16))
      else List.replicate n [] := by
  split
  next hactive =>
    have hinit : (simpleHdmaInit h dc c).table =
        some (h.getPtr (dc.aAdr.toNat ||| dc.aBank.toNat <<< 16)) ∧
        (simpleHdmaInit h dc c).repCount = 0 := by
      rw [simpleHdmaInit, if_pos hactive]
      exact ⟨rfl, rfl⟩
    refine hdmaLines_eq h n hinit.1 ?_
    rw [hinit.2]
    rfl
  next hactive =>
    refine hdmaLines_none h n ?_
    rw [simpleHdmaInit, if_neg hactive]

end SnesRecomp
