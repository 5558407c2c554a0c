import SnesRecomp.Recompiler.Graph

/-!
# Jump tables in the ROM

`_autorecover_indirect_xtable` of `decoder.py` walks the table of a `JMP (abs,X)`,
`JML (abs,X)` or `JSR (abs,X)` until a slot cannot be an entry, and
`_resolve_indirect_dispatch_targets` reads a table whose length is known.

`XTable.Accepted` says of a slot whether the walk takes it without running the walk, and
`XTable.autorecover_eq` that the recovered list holds just these slots.
-/

namespace SnesRecomp.Recompiler

/-- `_addr_in_data_regions`. -/
def addrInDataRegions (dataRegions : List (Nat × Nat × Nat)) (bank pc16 : Nat) : Bool :=
  dataRegions.any fun r => decide (r.1 &&& 0xFF = bank &&& 0xFF ∧
    r.2.1 &&& 0xFFFF ≤ pc16 &&& 0xFFFF ∧ pc16 &&& 0xFFFF < r.2.2 &&& 0xFFFF)

/-- `_dispatch_target_is_padding`. -/
def dispatchTargetIsPadding (rom : Rom) (bank pc16 : Nat) : Bool :=
  let off := loromOffset bank pc16
  let blob := (List.range 16).map fun n => rom.byte (off + n)
  decide (pc16 < 0x8000) || decide (rom.size < off + 16) || blob.all (· == 0xFF) || blob.all (· == 0x00)

/-- `_dispatch_kind`, for a dispatch without table bases. -/
def dispatchLong (insn : Insn) : Bool :=
  (insn.mnem = .jmp && insn.opcode = 0xDC) || insn.length = 4

/-- The arguments of the walk. -/
structure XTable where
  rom : Rom
  bank : Nat
  base : Nat
  long : Bool
  dataRegions : List (Nat × Nat × Nat)
  maxEntries : Nat
  funcStart : Option Nat

namespace XTable

variable (t : XTable)

/-- `entry_size`. -/
def size : Nat := if t.long then 3 else 2

/-- `tbl_pc` at a slot. -/
def pc (slot : Nat) : Nat := t.base + t.size * slot

def offset (slot : Nat) : Nat := loromOffset t.bank (t.pc slot)

def addr16 (slot : Nat) : Nat :=
  (t.rom.byte (t.offset slot)).toNat ||| ((t.rom.byte (t.offset slot + 1)).toNat <<< 8)

/-- `eb`. -/
def targetBank (slot : Nat) : Nat :=
  if t.long then (t.rom.byte (t.offset slot + 2)).toNat else t.bank

def full (slot : Nat) : Nat := (t.targetBank slot <<< 16) ||| t.addr16 slot

def isNull (slot : Nat) : Bool :=
  decide (t.addr16 slot = 0) && (!t.long || decide (t.targetBank slot = 0))

/-- `code_boundary`. -/
def codeBoundary : Option Nat :=
  match t.funcStart with
  | some start => if t.base < start &&& 0xFFFF then some (start &&& 0xFFFF) else none
  | none => none

/-- The slot lies in the bank, in the image and in front of the code boundary. -/
def inBounds (slot : Nat) : Bool :=
  decide (t.pc slot + t.size - 1 ≤ 0xFFFF) &&
    (match t.codeBoundary with
      | some boundary => decide (t.pc slot < boundary)
      | none => true) &&
    decide (0x8000 ≤ t.pc slot) && decide (t.offset slot + t.size - 1 < t.rom.size)

/-- The entry in the slot passes as the address of code. -/
def isCode (slot : Nat) : Bool :=
  decide (0x8000 ≤ t.addr16 slot) &&
    !addrInDataRegions t.dataRegions (t.targetBank slot) (t.addr16 slot) &&
    !dispatchTargetIsPadding t.rom (t.targetBank slot) (t.addr16 slot)

/-- What an entry adds to `inbank_handler_pcs`. -/
def handler (slot : Nat) : Option Nat :=
  if !t.isNull slot && decide (t.targetBank slot = t.bank ∧ t.base ≤ t.addr16 slot) then
    some (t.addr16 slot)
  else none

/-- The loop at a slot, with `entries`, `nulls_in_a_row` and `inbank_handler_pcs`. -/
def loop : Nat → Nat → List Nat → Nat → List Nat → List Nat
  | 0, _, entries, _, _ => entries
  | room + 1, slot, entries, nulls, handlers =>
    if !t.inBounds slot || handlers.any (fun h => decide (h ≤ t.pc slot)) then entries
    else if t.isNull slot then
      if 1 ≤ nulls then
        if entries.getLast? = some 0 then entries.dropLast else entries
      else loop room (slot + 1) (entries ++ [0]) (nulls + 1) handlers
    else if t.isCode slot then
      loop room (slot + 1) (entries ++ [t.full slot]) 0 (handlers ++ (t.handler slot).toList)
    else entries

/-- `_autorecover_indirect_xtable`. -/
def autorecover : Option (List Nat) :=
  let entries := t.loop t.maxEntries 0 [] 0 []
  if entries = [] then none else some entries

/-! ### The slots the walk takes -/

/-- No handler of an earlier slot lies at or in front of the slot. -/
def belowHandlers (slot : Nat) : Prop := ∀ i < slot, ∀ h, t.handler i = some h → t.pc slot < h

/-- The tests for a slot behind slots that were taken. -/
structure Takes (slot : Nat) : Prop where
  inBounds : t.inBounds slot = true
  handlers : t.belowHandlers slot
  null : t.isNull slot = true → ∀ prev, slot = prev + 1 → t.isNull prev = false
  code : t.isNull slot = false → t.isCode slot = true

/-- A null in front of another one is taken back. -/
structure Dropped (limit slot : Nat) : Prop where
  room : slot + 1 < limit
  null : t.isNull slot = true
  inBounds : t.inBounds (slot + 1) = true
  handlers : t.belowHandlers (slot + 1)
  next : t.isNull (slot + 1) = true

/-- The slot is part of the table. -/
structure AcceptedIn (limit slot : Nat) : Prop where
  room : slot < limit
  takes : ∀ k ≤ slot, t.Takes k
  kept : ¬ t.Dropped limit slot

/-- The slot is part of the table that the walk recovers. -/
def Accepted (slot : Nat) : Prop := t.AcceptedIn t.maxEntries slot

/-- The entry of a slot that is taken. -/
def entry (slot : Nat) : Nat := if t.isNull slot then 0 else t.full slot

variable {t}

/-- A null in front of a slot that is taken stays. -/
theorem Takes.not_dropped {limit slot : Nat} (h : t.Takes (slot + 1)) : ¬ t.Dropped limit slot := by
  intro hdropped
  have hprev := h.null hdropped.next slot rfl
  rw [hdropped.null] at hprev
  cases hprev

theorem AcceptedIn.mono {limit slot k : Nat} (h : t.AcceptedIn limit slot) (hk : k ≤ slot) :
    t.AcceptedIn limit k := by
  refine ⟨Nat.lt_of_le_of_lt hk h.room, fun j hj => h.takes j (Nat.le_trans hj hk), ?_⟩
  rcases Nat.eq_or_lt_of_le hk with rfl | hlt
  · exact h.kept
  · exact (h.takes (k + 1) hlt).not_dropped

/-- Slots that were taken before one that is not are part of the table, but for a null that
is taken back. -/
theorem acceptedIn_of_lt {limit slot k : Nat} (htaken : ∀ k < slot, t.Takes k) (hroom : slot ≤ limit)
    (hlast : ∀ prev, slot = prev + 1 → ¬ t.Dropped limit prev) (hk : k < slot) :
    t.AcceptedIn limit k := by
  refine ⟨by omega, fun j hj => htaken j (by omega), ?_⟩
  rcases Nat.eq_or_lt_of_le (show k + 1 ≤ slot from hk) with heq | hlt
  · exact hlast k heq.symm
  · exact (htaken (k + 1) hlt).not_dropped

/-- Where the walk stops at a slot, the table is what it has taken. -/
theorem acceptedIn_iff_lt {limit slot : Nat} (htaken : ∀ k < slot, t.Takes k) (hroom : slot ≤ limit)
    (hlast : ∀ prev, slot = prev + 1 → ¬ t.Dropped limit prev)
    (hstop : slot < limit → ¬ t.Takes slot) (k : Nat) : t.AcceptedIn limit k ↔ k < slot := by
  constructor
  · intro h
    by_contra hge
    exact hstop (by have := h.room; omega) (h.takes slot (by omega))
  · exact acceptedIn_of_lt htaken hroom hlast

theorem entry_of_null {slot : Nat} (h : t.isNull slot = true) : t.entry slot = 0 := if_pos h

theorem entry_of_not_null {slot : Nat} (h : t.isNull slot = false) : t.entry slot = t.full slot :=
  if_neg fun h' => Bool.false_ne_true (h.symm.trans h')

theorem map_range_succ {α : Type} (f : Nat → α) (n : Nat) :
    (List.range (n + 1)).map f = (List.range n).map f ++ [f n] := by
  rw [List.range_succ, List.map_append, List.map_singleton]

/-- The handlers of the slots in front of a slot. -/
def handlersBefore (t : XTable) (slot : Nat) : List Nat := (List.range slot).filterMap t.handler

theorem handlersBefore_succ (slot : Nat) :
    t.handlersBefore (slot + 1) = t.handlersBefore slot ++ (t.handler slot).toList := by
  rw [handlersBefore, List.range_succ, List.filterMap_append, handlersBefore]
  cases h : t.handler slot with
  | none => simp [h]
  | some a => simp [h]

theorem belowHandlers_iff {slot : Nat} :
    (t.handlersBefore slot).any (fun h => decide (h ≤ t.pc slot)) = false ↔ t.belowHandlers slot := by
  rw [List.any_eq_false]
  constructor
  · intro h i hi a ha
    have hmem : a ∈ t.handlersBefore slot :=
      List.mem_filterMap.mpr ⟨i, List.mem_range.mpr hi, ha⟩
    have hlt := h a hmem
    rw [decide_eq_true_eq] at hlt
    omega
  · intro h a ha
    obtain ⟨i, hi, ha⟩ := List.mem_filterMap.mp ha
    have hlt := h i (List.mem_range.mp hi) a ha
    rw [decide_eq_true_eq]
    omega

/-- `nulls_in_a_row` behind the slots that were taken. -/
def nullsBefore (t : XTable) : Nat → Nat
  | 0 => 0
  | prev + 1 => if t.isNull prev then 1 else 0

/-- The loop at a slot, with all slots before it taken, ends with the slots of the table. -/
theorem loop_spec : ∀ (room slot : Nat), (∀ k < slot, t.Takes k) →
    ∃ n, t.loop room slot ((List.range slot).map t.entry) (t.nullsBefore slot) (t.handlersBefore slot) =
        (List.range n).map t.entry ∧ ∀ k, t.AcceptedIn (slot + room) k ↔ k < n := by
  intro room
  induction room with
  | zero =>
    intro slot htaken
    refine ⟨slot, rfl, acceptedIn_iff_lt htaken (Nat.le_refl _) (fun prev hprev h => ?_) fun h => ?_⟩
    · have := h.room
      omega
    · exact absurd h (Nat.lt_irrefl slot)
  | succ room ih =>
    intro slot htaken
    have hlimit : slot + (room + 1) = slot + 1 + room := by omega
    -- The slot is taken: the walk goes on behind it.
    have htake : t.Takes slot → ∀ k < slot + 1, t.Takes k := by
      intro h k hk
      rcases Nat.eq_or_lt_of_le (Nat.le_of_lt_succ hk) with rfl | hlt
      · exact h
      · exact htaken k hlt
    rw [loop]
    cases hbounds : t.inBounds slot with
    | false =>
      rw [if_pos (by rw [Bool.not_false, Bool.true_or])]
      refine ⟨slot, rfl, acceptedIn_iff_lt htaken (by omega) (fun prev hprev h => ?_) fun _ h => ?_⟩
      · have := h.inBounds
        rw [← hprev, hbounds] at this
        cases this
      · rw [h.inBounds] at hbounds
        cases hbounds
    | true =>
      cases hhandlers : (t.handlersBefore slot).any fun h => decide (h ≤ t.pc slot) with
      | true =>
        rw [if_pos (by rw [Bool.or_true])]
        have hnot : ¬ t.belowHandlers slot := by
          rw [← belowHandlers_iff, hhandlers]
          exact fun h => by cases h
        refine ⟨slot, rfl, acceptedIn_iff_lt htaken (by omega) (fun prev hprev h => ?_) fun _ h => ?_⟩
        · exact hnot (hprev ▸ h.handlers)
        · exact hnot h.handlers
      | false =>
        have hbelow := belowHandlers_iff.mp hhandlers
        rw [if_neg (by simp)]
        cases hnull : t.isNull slot with
        | true =>
          rw [if_pos rfl]
          cases slot with
          | zero =>
            have htakes : t.Takes 0 := ⟨hbounds, hbelow, fun _ prev h => (by omega), fun h => (by
              rw [hnull] at h; cases h)⟩
            obtain ⟨n, hn, hiff⟩ := ih 1 (htake htakes)
            refine ⟨n, ?_, fun k => by rw [hlimit]; exact hiff k⟩
            rw [nullsBefore, if_neg (by decide), ← hn]
            have hnulls : t.nullsBefore 1 = 1 := by rw [nullsBefore, hnull]; rfl
            rw [hnulls, handlersBefore_succ, map_range_succ, entry_of_null hnull,
              handler, hnull]
            simp
          | succ prev =>
            cases hprev : t.isNull prev with
            | true =>
              rw [nullsBefore, hprev, if_pos (by decide), map_range_succ, entry_of_null hprev,
                List.getLast?_concat, if_pos rfl, List.dropLast_concat]
              have hdropped : t.Dropped (prev + 1 + (room + 1)) prev :=
                ⟨by omega, hprev, hbounds, hbelow, hnull⟩
              refine ⟨prev, rfl, fun k => ⟨fun h => ?_, fun h => ?_⟩⟩
              · by_contra hge
                have hkeep := (h.mono (show prev ≤ k by omega)).kept
                exact hkeep hdropped
              · refine ⟨by omega, fun j hj => htaken j (by omega), ?_⟩
                exact (htaken (k + 1) (by omega)).not_dropped
            | false =>
              have htakes : t.Takes (prev + 1) := by
                refine ⟨hbounds, hbelow, fun _ p hp => ?_, fun h => ?_⟩
                · obtain rfl : prev = p := by omega
                  exact hprev
                · rw [hnull] at h
                  cases h
              obtain ⟨n, hn, hiff⟩ := ih (prev + 1 + 1) (htake htakes)
              refine ⟨n, ?_, fun k => by rw [hlimit]; exact hiff k⟩
              rw [nullsBefore, hprev, if_neg (by decide), ← hn]
              have hnulls : t.nullsBefore (prev + 1 + 1) = 1 := by rw [nullsBefore, hnull]; rfl
              rw [hnulls, handlersBefore_succ (prev + 1), map_range_succ t.entry (prev + 1),
                entry_of_null hnull, handler, hnull]
              simp
        | false =>
          rw [if_neg Bool.false_ne_true]
          cases hcode : t.isCode slot with
          | true =>
            rw [if_pos rfl]
            have htakes : t.Takes slot := ⟨hbounds, hbelow, fun h => (by
              rw [hnull] at h; cases h), fun _ => hcode⟩
            obtain ⟨n, hn, hiff⟩ := ih (slot + 1) (htake htakes)
            refine ⟨n, ?_, fun k => by rw [hlimit]; exact hiff k⟩
            rw [← hn, handlersBefore_succ, map_range_succ, entry_of_not_null hnull]
            have hnulls : t.nullsBefore (slot + 1) = 0 := by rw [nullsBefore, hnull]; rfl
            rw [hnulls]
          | false =>
            rw [if_neg Bool.false_ne_true]
            refine ⟨slot, rfl, acceptedIn_iff_lt htaken (by omega) (fun prev hprev h => ?_) fun _ h => ?_⟩
            · have := h.next
              rw [← hprev, hnull] at this
              cases this
            · rw [h.code hnull] at hcode
              cases hcode

/-- **The walk recovers the entries of the slots that are part of the table.** -/
theorem autorecover_eq (t : XTable) : ∃ n, (∀ k, t.Accepted k ↔ k < n) ∧
    t.autorecover = if n = 0 then none else some ((List.range n).map t.entry) := by
  obtain ⟨n, hn, hiff⟩ := loop_spec (t := t) t.maxEntries 0 fun k hk => absurd hk (Nat.not_lt_zero k)
  refine ⟨n, fun k => by rw [Accepted, ← Nat.zero_add t.maxEntries]; exact hiff k, ?_⟩
  have hloop : t.loop t.maxEntries 0 [] 0 [] = (List.range n).map t.entry := hn
  rw [autorecover, hloop]
  cases n with
  | zero => rfl
  | succ n => rw [if_neg (by simp), if_neg (Nat.succ_ne_zero n)]

/-- The slots of the table are the places in the recovered list. -/
theorem accepted_iff_lt (t : XTable) (slot : Nat) :
    t.Accepted slot ↔ slot < (t.autorecover.getD []).length := by
  obtain ⟨n, hiff, hn⟩ := t.autorecover_eq
  rw [hiff, hn]
  cases n with
  | zero => rfl
  | succ n => rw [if_neg (Nat.succ_ne_zero n), Option.getD_some, List.length_map, List.length_range]

/-! ### Tables and the code they point to -/

/-- No byte of an accepted slot lies at or above an in-bank handler of the table that is
behind its base, nor at or above the start of the function where that is behind the base. -/
structure ClearOfCode (t : XTable) : Prop where
  handlers : ∀ slot < (t.autorecover.getD []).length, ∀ h, t.handler slot = some h → t.base < h →
    ∀ other < (t.autorecover.getD []).length, t.pc other + 1 < h
  function : ∀ start, t.funcStart = some start → t.base < start &&& 0xFFFF →
    ∀ other < (t.autorecover.getD []).length, t.pc other + 1 < start &&& 0xFFFF

/-- Neither a handler nor the function starts at the second byte of a slot, and no handler
at the first byte of its own slot or one before it other than the base. -/
structure StartsBetweenSlots (t : XTable) : Prop where
  second : ∀ slot other, t.Accepted slot → t.Accepted other →
    t.handler slot ≠ some (t.pc other + 1)
  behind : ∀ slot other, t.Accepted slot → other ≤ slot → other ≠ 0 →
    t.handler slot ≠ some (t.pc other)
  function : ∀ start other, t.funcStart = some start → t.Accepted other →
    start &&& 0xFFFF ≠ t.pc other + 1

/-- **A table of words stays clear of the code it points to exactly when nothing starts at
the second byte of a slot and no handler in the part of the table that was already taken.** -/
theorem clearOfCode_iff (t : XTable) (hshort : t.long = false) :
    t.ClearOfCode ↔ t.StartsBetweenSlots := by
  have hpc : ∀ slot, t.pc slot = t.base + 2 * slot := by
    intro slot
    rw [pc, size, hshort]
    rfl
  constructor
  · intro hclear
    refine ⟨fun slot other hslot hother h => ?_, fun slot other hslot hle hne h => ?_,
      fun start other hstart hother heq => ?_⟩
    · have hlt := hclear.handlers slot ((t.accepted_iff_lt slot).mp hslot) _ h
        (by have := hpc other; omega) other ((t.accepted_iff_lt other).mp hother)
      omega
    · have hother : t.Accepted other := hslot.mono hle
      have hlt := hclear.handlers slot ((t.accepted_iff_lt slot).mp hslot) _ h
        (by have := hpc other; omega) other ((t.accepted_iff_lt other).mp hother)
      omega
    · have hlt := hclear.function start hstart (by have := hpc other; omega) other
        ((t.accepted_iff_lt other).mp hother)
      omega
  · intro hstarts
    constructor
    · intro slot hslot h hh hbase other hother
      have hslot := (t.accepted_iff_lt slot).mpr hslot
      have hother := (t.accepted_iff_lt other).mpr hother
      by_contra hge
      -- The handler starts in a slot that is part of the table, since it is not above `other`.
      have hle : h ≤ t.base + 2 * other + 1 := by have := hpc other; omega
      have hmid : t.Accepted ((h - t.base) / 2) := hother.mono (by omega)
      have hat := hpc ((h - t.base) / 2)
      rcases Nat.mod_two_eq_zero_or_one (h - t.base) with heven | hodd
      · have hfirst : h = t.pc ((h - t.base) / 2) := by omega
        by_cases hback : (h - t.base) / 2 ≤ slot
        · exact hstarts.behind slot _ hslot hback (by omega) (hh.trans (congrArg some hfirst))
        · have hbelow := (hmid.takes _ (Nat.le_refl _)).handlers slot (by omega) h hh
          omega
      · exact hstarts.second slot _ hslot hmid (hh.trans (congrArg some (by omega)))
    · intro start hstart hbase other hother
      have hother := (t.accepted_iff_lt other).mpr hother
      have hbounds := (hother.takes other (Nat.le_refl other)).inBounds
      have hboundary : t.codeBoundary = some (start &&& 0xFFFF) := by
        rw [codeBoundary, hstart]
        exact if_pos hbase
      rw [inBounds, hboundary] at hbounds
      simp only [Bool.and_eq_true, decide_eq_true_eq] at hbounds
      have hne := hstarts.function start other hstart hother
      omega

/-- The words `$8005`, `$9000` and `$9100` at `$8000`. -/
def oddTable : XTable where
  rom := ⟨0x8000, fun i => [0x05, 0x80, 0x00, 0x90, 0x00, 0x91].getD i (BitVec.ofNat 8 (i % 7))⟩
  bank := 0
  base := 0x8000
  long := false
  dataRegions := []
  maxEntries := 256
  funcStart := none

/-- All three slots are accepted, and the third covers `$8005`, where the first handler
starts. -/
theorem not_clearOfCode_odd :
    oddTable.autorecover = some [0x8005, 0x9000, 0x9100] ∧ ¬ oddTable.ClearOfCode := by
  have hlist : oddTable.autorecover = some [0x8005, 0x9000, 0x9100] := by decide
  refine ⟨hlist, fun h => ?_⟩
  have hlt := h.handlers 0 (by rw [hlist]; decide) 0x8005 (by decide) (by decide) 2
    (by rw [hlist]; decide)
  exact absurd hlt (by decide)

theorem clearOfCode_iff_odd : oddTable.ClearOfCode ↔ oddTable.StartsBetweenSlots :=
  clearOfCode_iff oddTable rfl

/-! ### Reading a table again -/

/-- The loop of `_resolve_indirect_dispatch_targets` over a single table. -/
def resolveLoop (t : XTable) : Nat → Nat → Option (List Nat)
  | 0, _ => some []
  | count + 1, slot =>
    if 0xFFFF < t.pc slot + t.size - 1 ∨ t.pc slot < 0x8000 ∨
        t.rom.size ≤ t.offset slot + t.size - 1 then none
    else (t.resolveLoop count (slot + 1)).map (t.full slot :: ·)

/-- `_resolve_indirect_dispatch_targets`, for the base and the kind of the table. -/
def resolveTargets (t : XTable) (count : Nat) : Option (List Nat) := t.resolveLoop count 0

/-- The entries that the emitted switch has a null arm for. -/
def nullArms (entries : List Nat) : List Bool := entries.map fun e => decide (e = 0)

/-- The recovered table reads again to the same entries; both have a null where the table has
a zero word, and the switch a null arm there. -/
structure RereadsSame (t : XTable) : Prop where
  same : ∀ entries, t.autorecover = some entries → t.resolveTargets entries.length = some entries
  nulls : ∀ entries, t.autorecover = some entries → ∀ targets,
    t.resolveTargets entries.length = some targets →
      nullArms entries = (List.range entries.length).map t.isNull ∧
      nullArms targets = (List.range entries.length).map t.isNull

theorem resolveLoop_eq : ∀ (count slot : Nat), (∀ k, slot ≤ k → k < slot + count → t.inBounds k = true) →
    t.resolveLoop count slot = some ((List.range' slot count).map t.full) := by
  intro count
  induction count with
  | zero => intro slot _; rfl
  | succ count ih =>
    intro slot hbounds
    have hslot := hbounds slot (Nat.le_refl slot) (by omega)
    rw [inBounds] at hslot
    simp only [Bool.and_eq_true, decide_eq_true_eq] at hslot
    rw [resolveLoop, if_neg (by omega), ih (slot + 1) fun k hk hk' => hbounds k (by omega) (by omega)]
    rfl

/-- The table is read again as it stands in the ROM. -/
theorem resolveTargets_eq {n : Nat} (h : ∀ k < n, t.Accepted k) :
    t.resolveTargets n = some ((List.range n).map t.full) := by
  rw [resolveTargets, resolveLoop_eq n 0 fun k _ hk =>
    ((h k (by omega)).takes k (Nat.le_refl k)).inBounds, List.range_eq_range']

/-- A word is a null where it is read again, unless it is read with a bank. -/
theorem full_eq_zero_iff (slot : Nat) :
    t.full slot = 0 ↔ t.addr16 slot = 0 ∧ t.targetBank slot = 0 := by
  rw [full, Nat.or_eq_zero_iff, Nat.shiftLeft_eq_zero_iff]
  omega

theorem isNull_iff (slot : Nat) :
    t.isNull slot = true ↔ t.addr16 slot = 0 ∧ (t.long = true → t.targetBank slot = 0) := by
  cases h : t.long <;> simp [isNull, h]

theorem isNull_of_full {slot : Nat} (h : t.full slot = 0) : t.isNull slot = true := by
  obtain ⟨haddr, hbank⟩ := (full_eq_zero_iff slot).mp h
  exact (isNull_iff slot).mpr ⟨haddr, fun _ => hbank⟩

theorem entry_eq_zero_iff (slot : Nat) : t.entry slot = 0 ↔ t.isNull slot = true := by
  refine ⟨fun h => ?_, entry_of_null⟩
  cases hnull : t.isNull slot with
  | true => rfl
  | false =>
    rw [entry_of_not_null hnull] at h
    exact hnull.symm.trans (isNull_of_full h)

theorem nullArms_entries (n : Nat) : nullArms ((List.range n).map t.entry) = (List.range n).map t.isNull := by
  rw [nullArms, List.map_map]
  refine List.map_congr_left fun slot _ => ?_
  rw [Function.comp_apply, Bool.eq_iff_iff, decide_eq_true_eq]
  exact entry_eq_zero_iff slot

/-- Only a null of a table of words outside bank zero is read again as another entry. -/
theorem full_eq_entry_iff (slot : Nat) :
    t.full slot = t.entry slot ↔ t.long = true ∨ t.bank = 0 ∨ t.isNull slot = false := by
  cases hnull : t.isNull slot with
  | false => simp [entry_of_not_null hnull]
  | true =>
    obtain ⟨haddr, hbank⟩ := (isNull_iff slot).mp hnull
    rw [entry_of_null hnull, full_eq_zero_iff]
    cases hlong : t.long with
    | true => simp [haddr, hbank hlong]
    | false => simp [haddr, targetBank, hlong]

/-- **The table reads again to the same entries exactly when it has long entries, is in bank
zero or has no null.** -/
theorem rereadsSame_iff (t : XTable) :
    t.RereadsSame ↔ t.long = true ∨ t.bank = 0 ∨ ∀ slot, t.Accepted slot → t.isNull slot = false := by
  obtain ⟨n, hiff, hn⟩ := t.autorecover_eq
  have hread : t.resolveTargets n = some ((List.range n).map t.full) :=
    resolveTargets_eq fun k hk => (hiff k).mpr hk
  constructor
  · intro h
    by_contra hnot
    simp only [not_or, not_forall, Bool.not_eq_false] at hnot
    obtain ⟨hlong, hbank, slot, haccepted, hslot⟩ := hnot
    have hlt := (hiff slot).mp haccepted
    rw [if_neg (by omega)] at hn
    have hsame := h.same _ hn
    rw [List.length_map, List.length_range, hread] at hsame
    have heq := List.map_inj_left.mp (Option.some.inj hsame) slot (List.mem_range.mpr hlt)
    rcases (full_eq_entry_iff slot).mp heq with h' | h' | h'
    · exact hlong h'
    · exact hbank h'
    · exact Bool.false_ne_true (h'.symm.trans hslot)
  · intro h
    have hlists : (List.range n).map t.full = (List.range n).map t.entry := by
      refine List.map_congr_left fun slot hslot => (full_eq_entry_iff slot).mpr ?_
      exact h.imp_right (Or.imp_right fun hall => hall slot ((hiff slot).mpr (List.mem_range.mp hslot)))
    have hsame : ∀ entries, t.autorecover = some entries →
        entries = (List.range n).map t.entry ∧ t.resolveTargets entries.length = some entries := by
      intro entries hentries
      rw [hn] at hentries
      split at hentries
      · cases hentries
      · obtain rfl := Option.some.inj hentries
        refine ⟨rfl, ?_⟩
        rw [List.length_map, List.length_range, hread, hlists]
    refine ⟨fun entries hentries => (hsame entries hentries).2, fun entries hentries targets ht => ?_⟩
    obtain ⟨rfl, hresolve⟩ := hsame entries hentries
    rw [hresolve] at ht
    obtain rfl := Option.some.inj ht
    rw [List.length_map, List.length_range]
    exact ⟨nullArms_entries n, nullArms_entries n⟩

/-- The words `$9000`, `$0000` and `$9100` at `$01:8000`. -/
def bankedTable : XTable where
  rom := ⟨0x10000, fun i => [0x00, 0x90, 0x00, 0x00, 0x00, 0x91].getD (i - 0x8000) (BitVec.ofNat 8 (i % 7))⟩
  bank := 1
  base := 0x8000
  long := false
  dataRegions := []
  maxEntries := 256
  funcStart := none

/-- In bank one the null is read again as the address `$01:0000`. -/
theorem not_rereadsSame_banked :
    bankedTable.autorecover = some [0x019000, 0, 0x019100] ∧
      bankedTable.resolveTargets 3 = some [0x019000, 0x010000, 0x019100] ∧
      ¬ bankedTable.RereadsSame := by
  have hlist : bankedTable.autorecover = some [0x019000, 0, 0x019100] := by decide
  have hread : bankedTable.resolveTargets 3 = some [0x019000, 0x010000, 0x019100] := by decide
  refine ⟨hlist, hread, fun h => ?_⟩
  have hsame := h.same _ hlist
  rw [show [0x019000, 0, 0x019100].length = 3 from rfl, hread] at hsame
  exact absurd hsame (by decide)

end XTable

end SnesRecomp.Recompiler
