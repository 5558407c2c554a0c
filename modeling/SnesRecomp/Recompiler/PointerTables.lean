import SnesRecomp.Recompiler.JumpTables

/-!
# Tables of a pointer in the direct page

`_autorecover_indirect_dp` of `decoder.py`: a `JMP ($dp)` or `JML [$dp]` goes through a pointer that
the function stores from tables. The walk pairs each `STA` to the pointer with the last load from an
indexed address. `_autorecover_dp_table_count` counts the entries of the tables and
`_resolve_indirect_dispatch_targets` reads them.
-/

namespace SnesRecomp.Recompiler

/-- `idx_reg`. -/
inductive IndexReg
  | x | y
  deriving DecidableEq, Repr

/-- A load from a table: its base and its index register. -/
abbrev TableLoad := Nat × IndexReg

/-- The state of the walk; `scanned` is counted by its loop. -/
structure PointerScan where
  pc : Nat
  m : Bool
  x : Bool
  /-- `last_lda_table` -/
  last : Option TableLoad
  /-- `winners`, for the offsets that are looked at -/
  winner : Fin 3 → Option TableLoad
  deriving DecidableEq

/-- The load of a table, if the instruction is one. -/
def tableLoad (ins : Insn) : Option TableLoad :=
  if ins.mnem = .lda ∧ (ins.mode = .absX ∨ ins.mode = .longX) then some (ins.operand &&& 0xFFFF, .x)
  else if ins.mnem = .lda ∧ ins.mode = .absY then some (ins.operand &&& 0xFFFF, .y)
  else none

/-- `slot`, where it is one of the pointer's. -/
def pointerSlot (dp : Nat) (ins : Insn) : Option (Fin 3) :=
  if h : dp &&& 0xFFFF ≤ ins.operand &&& 0xFFFF ∧ (ins.operand &&& 0xFFFF) - (dp &&& 0xFFFF) < 3 then
    some ⟨_, h.2⟩
  else none

/-- The walk behind the pairing of loads and stores. -/
def PointerScan.pair (sc : PointerScan) (dp : Nat) (ins : Insn) : PointerScan :=
  match tableLoad ins with
  | some load => { sc with last := some load }
  | none =>
    if ins.mnem = .sta ∧ ins.mode = .dp then
      match pointerSlot dp ins, sc.last with
      | some slot, some load => { sc with winner := Function.update sc.winner slot (some load), last := none }
      | _, _ => sc
    else if ins.mnem = .sta ∨ ins.mnem = .stz then
      match pointerSlot dp ins with
      | some slot => { sc with winner := Function.update sc.winner slot none }
      | none => sc
    else if ins.mnem = .lda then { sc with last := none }
    else sc

/-- The widths behind an instruction. -/
def widthsBehind (ins : Insn) (m x : Bool) : Bool × Bool :=
  if ins.mnem = .rep then
    (if ins.operand &&& 0x20 ≠ 0 then false else m, if ins.operand &&& 0x10 ≠ 0 then false else x)
  else if ins.mnem = .sep then
    (if ins.operand &&& 0x20 ≠ 0 then true else m, if ins.operand &&& 0x10 ≠ 0 then true else x)
  else (m, x)

def PointerScan.next (sc : PointerScan) (dp : Nat) (ins : Insn) : PointerScan :=
  let widths := widthsBehind ins sc.m sc.x
  { sc.pair dp ins with m := widths.1, x := widths.2, pc := (sc.pc + ins.length) &&& 0xFFFF }

/-- The loop, for at most `room` more instructions. -/
def pointerLoop (rom : Rom) (bank site dp : Nat) : Nat → PointerScan → Option PointerScan
  | 0, sc => some sc
  | room + 1, sc =>
    if sc.pc < site then
      match decodeAt rom bank sc.pc sc.m sc.x with
      | none => none
      | some ins => pointerLoop rom bank site dp room (sc.next dp ins)
    else some sc

/-- The walk at the start of the function. -/
def PointerScan.entry (funcStart : Nat) : PointerScan :=
  ⟨funcStart &&& 0xFFFF, true, true, none, fun _ => none⟩

/-- `needed_slots`, for a site of three bytes. -/
def PointerScan.needed (sc : PointerScan) : Nat :=
  if sc.m ∧ (sc.winner 2).isSome then 3 else if (sc.winner 1).isSome then 2 else 1

/-- The bases of the needed slots and their common index register. -/
def PointerScan.tables (sc : PointerScan) : Option (List Nat × IndexReg) :=
  let loads := (List.finRange 3).filterMap sc.winner
  match loads with
  | [] => none
  | load :: _ =>
    if loads.all fun l => l.2 = load.2 then
      (((List.finRange 3).take sc.needed).mapM fun s => (sc.winner s).map (·.1)).map fun bases => (bases, load.2)
    else none

/-- `_autorecover_indirect_dp`. -/
def autorecoverIndirectDp (rom : Rom) (bank funcStart site dp : Nat) : Option (List Nat × IndexReg) :=
  (pointerLoop rom bank site dp 256 (.entry funcStart)).bind PointerScan.tables

/-! ### The entries -/

/-- Where the byte of a table is, 16 bits of address. -/
def tablePc (base i : Nat) : Nat := (base + i) &&& 0xFFFF

/-- The byte of a table. -/
def tableByte (rom : Rom) (bank base i : Nat) : Nat :=
  (rom.byte (loromOffset bank (tablePc base i))).toNat

/-- The byte is in the bank and in the image. -/
def tableByteOk (rom : Rom) (bank base i : Nat) : Bool :=
  0x8000 ≤ tablePc base i && loromOffset bank (tablePc base i) < rom.size

/-- `eb`. -/
def parallelBank (rom : Rom) (bank : Nat) (bk : Option Nat) (i : Nat) : Nat :=
  match bk with
  | some bk => tableByte rom bank bk i
  | none => bank

/-- `addr16` of parallel tables. -/
def parallelAddr (rom : Rom) (bank lo hi i : Nat) : Nat :=
  (tableByte rom bank hi i <<< 8) ||| tableByte rom bank lo i

/-- The bytes of an entry of parallel tables can be read. -/
def parallelOk (rom : Rom) (bank lo hi : Nat) (bk : Option Nat) (i : Nat) : Bool :=
  tableByteOk rom bank lo i && tableByteOk rom bank hi i && bk.all fun bk => tableByteOk rom bank bk i

/-- An address that can be an entry. -/
def targetOk (rom : Rom) (dataRegions : List (Nat × Nat × Nat)) (bank addr16 : Nat) : Bool :=
  0x8000 ≤ addr16 && !addrInDataRegions dataRegions bank addr16 && !dispatchTargetIsPadding rom bank addr16

/-- The offset of a table of entries in a row; it may not reach past the bank. -/
def rowOk (rom : Rom) (bank pc size : Nat) : Bool :=
  pc + size - 1 ≤ 0xFFFF && 0x8000 ≤ pc && loromOffset bank pc + size - 1 < rom.size

def rowAddr (rom : Rom) (bank pc : Nat) : Nat :=
  (rom.byte (loromOffset bank pc)).toNat ||| ((rom.byte (loromOffset bank pc + 1)).toNat <<< 8)

/-- Whether the walk counts an entry. -/
def pointerEntryOk (rom : Rom) (bank : Nat) (bases : List Nat) (dataRegions : List (Nat × Nat × Nat))
    (i : Nat) : Bool :=
  match bases with
  | [] => false
  | [base] =>
    rowOk rom bank (tablePc base (2 * i)) 2 &&
      targetOk rom dataRegions bank (rowAddr rom bank (tablePc base (2 * i)))
  | lo :: hi :: bk =>
    parallelOk rom bank lo hi bk.head? i &&
      targetOk rom dataRegions (parallelBank rom bank bk.head? i) (parallelAddr rom bank lo hi i)

/-- `_autorecover_dp_table_count`: the entries in front of the first one that is not valid. -/
def autorecoverDpTableCount (rom : Rom) (bank : Nat) (bases : List Nat)
    (dataRegions : List (Nat × Nat × Nat)) : Nat :=
  ((List.range 256).takeWhile (pointerEntryOk rom bank bases dataRegions)).length

/-- One entry of `_resolve_indirect_dispatch_targets`; `size` is that of the entries of one table. -/
def resolveEntry (rom : Rom) (bank size : Nat) (bases : List Nat) (i : Nat) : Option Nat :=
  match bases with
  | [] => none
  | [base] =>
    let pc := (base &&& 0xFFFF) + size * i
    if rowOk rom bank pc size then
      let eb := if size = 3 then (rom.byte (loromOffset bank pc + 2)).toNat else bank
      some ((eb <<< 16) ||| rowAddr rom bank pc)
    else none
  | lo :: hi :: bk =>
    if parallelOk rom bank lo hi bk.head? i then
      some ((parallelBank rom bank bk.head? i <<< 16) ||| parallelAddr rom bank lo hi i)
    else none

/-- The entries of a site of three bytes and their index register. -/
def pointerEntries (rom : Rom) (bank funcStart site dp : Nat) (long : Bool)
    (dataRegions : List (Nat × Nat × Nat)) : Option (List Nat × IndexReg) :=
  (autorecoverIndirectDp rom bank funcStart site dp).bind fun tables =>
    let count := autorecoverDpTableCount rom bank tables.1 dataRegions
    if count = 0 then none
    else
      ((List.range count).mapM (resolveEntry rom bank (if long then 3 else 2) tables.1)).map fun entries =>
        (entries, tables.2)

/-! ### What is paired -/

/-- The slot and the load that the walk pairs at a store. -/
def pairedAt (dp : Nat) (sc : PointerScan) (ins : Insn) : Option (Fin 3 × TableLoad) :=
  if ins.mnem = .sta ∧ ins.mode = .dp then
    (pointerSlot dp ins).bind fun slot => sc.last.map fun load => (slot, load)
  else none

section Pair

variable {sc : PointerScan} {dp : Nat} {ins : Insn} {l : TableLoad} {s : Fin 3}

theorem last_of_pair (hload : tableLoad ins = none) (h : (sc.pair dp ins).last = some l) :
    sc.last = some l := by
  simp only [PointerScan.pair, hload] at h
  split_ifs at h
  · split at h
    · cases h
    · exact h
  · split at h <;> exact h
  · exact h

/-- Behind a paired store. -/
theorem pair_of_pairedAt (h : pairedAt dp sc ins = some (s, l)) :
    (ins.mnem = .sta ∧ ins.mode = .dp) ∧ pointerSlot dp ins = some s ∧ sc.last = some l ∧
      tableLoad ins = none ∧
      sc.pair dp ins = { sc with winner := Function.update sc.winner s (some l), last := none } := by
  unfold pairedAt at h
  split_ifs at h with hsta
  obtain ⟨slot, hslot, h⟩ := Option.bind_eq_some_iff.mp h
  obtain ⟨load, hload, h⟩ := Option.map_eq_some_iff.mp h
  obtain ⟨rfl, rfl⟩ := Prod.mk.inj h
  have htable : tableLoad ins = none := by simp [tableLoad, hsta.1]
  refine ⟨hsta, hslot, hload, htable, ?_⟩
  simp only [PointerScan.pair, htable, if_pos hsta, hslot, hload]

/-- What is not paired loses its load or keeps it. -/
theorem winner_of_pair (h : pairedAt dp sc ins = none) (hw : (sc.pair dp ins).winner s = some l) :
    sc.winner s = some l := by
  cases hload : tableLoad ins with
  | some load =>
    simp only [PointerScan.pair, hload] at hw
    exact hw
  | none =>
    simp only [PointerScan.pair, hload] at hw
    split_ifs at hw with hsta
    · split at hw
      next slot load hslot hlast =>
        simp [pairedAt, hsta, hslot, hlast] at h
      next => exact hw
    · split at hw
      next slot hslot =>
        by_cases hs : s = slot
        · rw [hs] at hw
          simp at hw
        · dsimp only at hw
          rw [Function.update_of_ne hs] at hw
          exact hw
      next => exact hw
    · exact hw
    · exact hw

/-- The operand of a store to the pointer. -/
theorem operand_of_pointerSlot (h : pointerSlot dp ins = some s) (hdp : dp < 0x100)
    (hoperand : ins.operand < 256) : ins.operand = dp + s := by
  unfold pointerSlot at h
  split at h
  next hlt =>
    obtain rfl := Option.some.inj h
    have hle := hlt.1
    rw [Bits.and_0xFFFF, Bits.and_0xFFFF] at hle
    have h1 : dp % 2 ^ 16 = dp := by omega
    have h2 : ins.operand % 2 ^ 16 = ins.operand := by omega
    simp only [Bits.and_0xFFFF]
    omega
  next => cases h

end Pair

/-! ### The loop, one instruction further -/

theorem pointerLoop_next {rom : Rom} {bank site dp room : Nat} {sc fin : PointerScan} {ins : Insn}
    (h : pointerLoop rom bank site dp (room + 1) sc = some fin) (hpc : sc.pc < site)
    (hread : decodeAt rom bank sc.pc sc.m sc.x = some ins) :
    pointerLoop rom bank site dp room (sc.next dp ins) = some fin := by
  rw [pointerLoop, if_pos hpc, hread] at h
  exact h

theorem pointerLoop_site {rom : Rom} {bank site dp room : Nat} {sc fin : PointerScan}
    (h : pointerLoop rom bank site dp room sc = some fin) (hpc : sc.pc = site) : fin = sc := by
  cases room with
  | zero => exact (Option.some.inj h).symm
  | succ room =>
    rw [pointerLoop, if_neg (by omega)] at h
    exact (Option.some.inj h).symm

/-- An entry is resolved by itself. -/
theorem getElem?_of_mapM {α β : Type} {f : α → Option β} : ∀ {l : List α} {out : List β},
    l.mapM f = some out → ∀ {i : Nat} {a : α}, l[i]? = some a → out[i]? = f a := by
  intro l
  induction l with
  | nil =>
    intro out h i a ha
    cases ha
  | cons b l ih =>
    intro out h i a ha
    rw [List.mapM_cons] at h
    obtain ⟨c, hc, h⟩ := Option.bind_eq_some_iff.mp h
    obtain ⟨rest, hrest, h⟩ := Option.bind_eq_some_iff.mp h
    obtain rfl := Option.some.inj h
    cases i with
    | zero =>
      obtain rfl := Option.some.inj ha
      exact hc.symm
    | succ i => exact ih hrest ha

theorem length_of_mapM {α β : Type} {f : α → Option β} : ∀ {l : List α} {out : List β},
    l.mapM f = some out → out.length = l.length := by
  intro l
  induction l with
  | nil =>
    intro out h
    obtain rfl := Option.some.inj h
    rfl
  | cons b l ih =>
    intro out h
    rw [List.mapM_cons] at h
    obtain ⟨c, -, h⟩ := Option.bind_eq_some_iff.mp h
    obtain ⟨rest, hrest, h⟩ := Option.bind_eq_some_iff.mp h
    obtain rfl := Option.some.inj h
    rw [List.length_cons, List.length_cons, ih hrest]

theorem PointerScan.needed_le (sc : PointerScan) : sc.needed ≤ 3 := by
  unfold PointerScan.needed
  split
  · omega
  · split <;> omega

/-- The bases are those of the needed slots. -/
theorem winner_of_tables {sc : PointerScan} {bases : List Nat} {reg : IndexReg}
    (h : sc.tables = some (bases, reg)) {s : Fin 3} {b : Nat} (hb : bases[s.val]? = some b) :
    sc.winner s = some (b, reg) := by
  unfold PointerScan.tables at h
  dsimp only at h
  cases hloads : (List.finRange 3).filterMap sc.winner with
  | nil =>
    rw [hloads] at h
    cases h
  | cons load loads =>
    rw [hloads] at h
    dsimp only at h
    by_cases hall : ((load :: loads).all fun l => l.2 = load.2) = true
    · rw [if_pos hall] at h
      obtain ⟨out, hout, h⟩ := Option.map_eq_some_iff.mp h
      obtain ⟨rfl, rfl⟩ := Prod.mk.inj h
      have hlen := length_of_mapM hout
      have hlt : s.val < out.length := (List.getElem?_eq_some_iff.mp hb).1
      have hs : ((List.finRange 3).take sc.needed)[s.val]? = some s := by
        have hle := sc.needed_le
        rw [List.length_take, List.length_finRange] at hlen
        rw [List.getElem?_take_of_lt (by omega)]
        simp
      have hslot := getElem?_of_mapM hout hs
      rw [hb] at hslot
      obtain ⟨l, hl, rfl⟩ := Option.map_eq_some_iff.mp hslot.symm
      have hmem : l ∈ load :: loads := by
        rw [← hloads]
        exact List.mem_filterMap.mpr ⟨s, List.mem_finRange s, hl⟩
      have hreg : l.2 = load.2 := of_decide_eq_true (List.all_eq_true.mp hall l hmem)
      rw [hl, ← hreg]
    · rw [if_neg hall] at h
      cases h

/-- An entry that was recovered, by its place. -/
theorem getElem?_of_pointerEntries {rom : Rom} {bank funcStart site dp : Nat} {long : Bool}
    {dataRegions : List (Nat × Nat × Nat)} {entries : List Nat} {reg : IndexReg}
    (h : pointerEntries rom bank funcStart site dp long dataRegions = some (entries, reg)) :
    ∃ bases, autorecoverIndirectDp rom bank funcStart site dp = some (bases, reg) ∧
      ∀ i < entries.length, entries[i]? = resolveEntry rom bank (if long then 3 else 2) bases i := by
  obtain ⟨tables, htables, h⟩ := Option.bind_eq_some_iff.mp h
  dsimp only at h
  split at h
  · cases h
  · obtain ⟨out, hout, h⟩ := Option.map_eq_some_iff.mp h
    obtain ⟨rfl, rfl⟩ := Prod.mk.inj h
    refine ⟨tables.1, htables, fun i hi => getElem?_of_mapM hout ?_⟩
    rw [length_of_mapM hout, List.length_range] at hi
    rw [List.getElem?_range hi]

end SnesRecomp.Recompiler
