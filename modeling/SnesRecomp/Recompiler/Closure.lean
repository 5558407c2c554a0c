import SnesRecomp.Recompiler.MergedReach
import Mathlib.Data.List.TakeWhile

/-!
# Closed graphs

The worklist stops when every edge of an instruction leads to a decoded key or is stopped by a gate
(`decodeLoop_closed`).  The passes behind it keep the edges: the merge sends each to the first
variants of both ends (`dedupe_edge`), and the fold drops one edge of a branch whose only
predecessor is an immediate load (`foldBranch_cases`).
-/

namespace SnesRecomp.Recompiler

/-! ### The worklist -/

/-- The item an edge of an instruction puts on the worklist. -/
def edgeItem (pc : Nat) (e : DecodeKey × EdgeKind) : WorkItem := ⟨e.1, e.2, some (pc &&& 0xFFFF)⟩

theorem skipped_eq (inp : DecodeInput) (insns : List DecodedInsn) (item : WorkItem) :
    skipped inp insns item = (decide (item.key ∈ insns.map (·.key)) || skipped inp [] item) := by
  simp [skipped, Bool.or_assoc]

/-- The key has been decoded, or a gate stops the item. -/
def Covered (inp : DecodeInput) (insns : List DecodedInsn) (item : WorkItem) : Prop :=
  item.key ∈ insns.map (·.key) ∨ skipped inp [] item = true

theorem covered_iff {inp : DecodeInput} {insns : List DecodedInsn} {item : WorkItem} :
    Covered inp insns item ↔ skipped inp insns item = true := by
  rw [skipped_eq, Bool.or_eq_true, decide_eq_true_eq, Covered]

theorem Covered.append {inp : DecodeInput} {insns : List DecodedInsn} {item : WorkItem}
    (h : Covered inp insns item) (di : DecodedInsn) : Covered inp (insns ++ [di]) item := by
  refine h.imp_left fun h => ?_
  rw [List.map_append]
  exact List.mem_append_left _ h

/-- What the loop keeps: the entry and the edges of the decoded instructions are covered or wait. -/
structure Closed (inp : DecodeInput) (insns : List DecodedInsn) (worklist : List WorkItem) : Prop where
  entry : Covered inp insns ⟨entryKey inp, .entry, none⟩ ∨ ⟨entryKey inp, .entry, none⟩ ∈ worklist
  edges : ∀ di ∈ insns, ∀ e ∈ (decodeOne inp di.key di.insn).edges,
    Covered inp insns (edgeItem di.key.pc e) ∨ edgeItem di.key.pc e ∈ worklist

variable {inp : DecodeInput}

theorem covered_or_mem_dropWhile {insns : List DecodedInsn} {worklist : List WorkItem}
    {item : WorkItem} (h : Covered inp insns item ∨ item ∈ worklist) :
    Covered inp insns item ∨ item ∈ worklist.dropWhile (skipped inp insns) := by
  rcases h with h | h
  · exact .inl h
  · rw [← List.takeWhile_append_dropWhile (p := skipped inp insns) (l := worklist)] at h
    rcases List.mem_append.mp h with h | h
    · exact .inl (covered_iff.mpr (List.mem_takeWhile_imp h))
    · exact .inr h

theorem Closed.dropWhile {insns : List DecodedInsn} {worklist : List WorkItem}
    (h : Closed inp insns worklist) : Closed inp insns (worklist.dropWhile (skipped inp insns)) :=
  ⟨covered_or_mem_dropWhile h.entry, fun di hdi e he => covered_or_mem_dropWhile (h.edges di hdi e he)⟩

/-- The item at the front is decoded, and its edges wait unless they are covered. -/
theorem Closed.decode {insns : List DecodedInsn} {item : WorkItem} {rest : List WorkItem}
    (h : Closed inp insns (item :: rest)) (insn : Insn) :
    let d := decodeOne inp item.key insn
    Closed inp (insns ++ [d.insn])
      (((d.edges.filter fun e => e.1 ∉ (insns ++ [d.insn]).map (·.key)).map fun e =>
        (⟨e.1, e.2, some (item.key.pc &&& 0xFFFF)⟩ : WorkItem)).reverse ++ rest) := by
  intro d
  obtain ⟨hkey, hinsn⟩ := decodeOne_self inp item.key insn
  have hitem : ∀ {i : WorkItem}, Covered inp insns i ∨ i ∈ item :: rest →
      Covered inp (insns ++ [d.insn]) i ∨ i ∈ rest := by
    intro i hi
    rcases hi with hi | hi
    · exact .inl (hi.append d.insn)
    · rcases List.mem_cons.mp hi with rfl | hi
      · refine .inl (.inl ?_)
        rw [List.map_append]
        exact List.mem_append_right _ (by simp [d, hkey])
      · exact .inr hi
  refine ⟨(hitem h.entry).imp_right (List.mem_append_right _), fun di hdi e he => ?_⟩
  rcases List.mem_append.mp hdi with hdi | hdi
  · exact (hitem (h.edges di hdi e he)).imp_right (List.mem_append_right _)
  · rw [List.mem_singleton.mp hdi, hkey, hinsn] at he
    rw [List.mem_singleton.mp hdi, hkey]
    by_cases hmem : e.1 ∈ (insns ++ [d.insn]).map (·.key)
    · exact .inl (.inl hmem)
    · refine .inr (List.mem_append_left _ (List.mem_reverse.mpr (List.mem_map.mpr ⟨e, ?_, rfl⟩)))
      exact List.mem_filter.mpr ⟨he, decide_eq_true hmem⟩

/-- **When the loop is over, every edge of an instruction leads to a decoded key, or a gate stops
it.** -/
theorem decodeLoop_closed : ∀ (room : Nat) (worklist : List WorkItem) (insns out : List DecodedInsn),
    Closed inp insns worklist → decodeLoop inp room worklist insns = some out → Closed inp out [] := by
  intro room
  induction room with
  | zero =>
    intro worklist insns out hclosed h
    cases worklist with
    | nil => exact Option.some.inj h ▸ hclosed
    | cons item rest => cases h
  | succ room ih =>
    intro worklist insns out hclosed h
    have hdropped := hclosed.dropWhile
    rw [decodeLoop] at h
    cases hdrop : worklist.dropWhile (skipped inp insns) with
    | nil =>
      rw [hdrop] at h hdropped
      exact Option.some.inj h ▸ hdropped
    | cons item rest =>
      rw [hdrop] at h hdropped
      cases hinsn : decodeAt inp.rom inp.bank (item.key.pc &&& 0xFFFF) item.key.m item.key.x with
      | none =>
        simp only [hinsn] at h
        cases h
      | some insn =>
        simp only [hinsn] at h
        exact ih _ _ _ (hdropped.decode insn) h

theorem closed_start (inp : DecodeInput) : Closed inp [] [⟨entryKey inp, .entry, none⟩] :=
  ⟨.inr List.mem_cons_self, fun _ h => by cases h⟩

/-! ### The merge -/

section Merge

variable {insns : List DecodedInsn}

/-- A variant that is merged away stands in the merged list as the first of its kind. -/
theorem mem_dedupe {key : DecodeKey} (h : key ∈ insns.map (·.key)) :
    ∃ dc ∈ dedupe insns, dc.key = canonical insns key ∧
      ∃ di ∈ insns, di.key = dc.key ∧ di.insn = dc.insn ∧
        dc.successors = mergeSuccessors insns (pcmx key) := by
  obtain ⟨di, hdi, hkey, hcanon⟩ := canonical_mem h
  refine ⟨{ di with successors := mergeSuccessors insns (pcmx di.key) },
    List.mem_map.mpr ⟨di, List.mem_filter.mpr ⟨hdi, decide_eq_true hcanon⟩, rfl⟩, hkey, di, hdi, rfl,
    rfl, ?_⟩
  dsimp only
  rw [hkey, pcmx_canonical]

/-- An edge between decoded keys is one between their first variants. -/
theorem dedupe_edge {di : DecodedInsn} (hdi : di ∈ insns) {s : DecodeKey} (hs : s ∈ di.successors)
    (hmem : s ∈ insns.map (·.key)) :
    ∃ dc ∈ dedupe insns, dc.key = canonical insns di.key ∧ canonical insns s ∈ dc.successors := by
  obtain ⟨dc, hdc, hkey, _, _, _, _, hsuccs⟩ := mem_dedupe (List.mem_map_of_mem hdi)
  refine ⟨dc, hdc, hkey, ?_⟩
  rw [hsuccs]
  exact merged_edge hdi hs hmem

end Merge

/-! ### The fold -/

/-- The branch is left as it is, or it has two successors, and its only predecessor is an immediate
load that leads nowhere else; then it keeps the one that the value of the load selects. -/
theorem foldBranch_cases (insns : List DecodedInsn) (di : DecodedInsn) :
    foldBranch insns di = di ∨ ∃ pred z fall jump,
      (di.insn.mnem = .beq ∨ di.insn.mnem = .bne) ∧
      insns.filter (fun pred => di.key ∈ pred.successors) = [pred] ∧
      immediateLoadZ pred.insn = some z ∧ di.successors = [fall, jump] ∧
      (foldBranch insns di).successors =
        [if (if di.insn.mnem = .beq then z else !z) then jump else fall] ∧
      (foldBranch insns di).insn.constZFoldUnconditional = true := by
  rw [foldBranch]
  split
  next hmnem =>
    split
    next pred hpred =>
      split
      next z fall jump hz hsuccs =>
        split
        · exact .inr ⟨pred, z, fall, jump, hmnem, hpred, hz, hsuccs, rfl, rfl⟩
        · exact .inl rfl
      next => exact .inl rfl
    next => exact .inl rfl
  next => exact .inl rfl

end SnesRecomp.Recompiler
