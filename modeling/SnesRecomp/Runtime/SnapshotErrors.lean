import SnesRecomp.Runtime.Snapshot

/-!
# Snapshots that do not load

`RtlLoadSnapshot` reads straight into the machine and learns of a short file afterwards, so a
truncated file leaves what it has in the machine; and the version of the PPU block is read but
not compared.  `badSnapshot_unchanged_iff` says which bad files leave the machine alone.
-/

namespace SnesRecomp.Snapshot

open Regions

section BadFiles

variable (ramSize : Nat)

/-- The size of what is behind the header. -/
def bodySize : Nat := ((snesSaveload ramSize).map Region.size).sum

/-- The byte of the file that is read to a place in the machine. -/
def fileByte (file : List Byte) (k : Block) (i : Nat) : Option Byte :=
  incoming (snesSaveload ramSize) (file.drop 8) k i

/-- The file does not open, has another magic or version, is too short, or has a PPU block of
another build. -/
def BadSnapshot : Option (List Byte) → Prop
  | none => True
  | some file => file.take 8 ≠ header ∨ file.length < 8 + bodySize ramSize ∨
    (List.range 8).map (fileByte ramSize file .version) ≠ ppuVersion.map some

instance : ∀ file : Option (List Byte), Decidable (BadSnapshot ramSize file)
  | none => inferInstanceAs (Decidable True)
  | some _ => inferInstanceAs (Decidable (_ ∨ _ ∨ _))

/-- Nothing is read, or the file is short and has no byte that is not in the machine already;
the emulation flag, which is cleared in any case, is clear. -/
def Harmless (m : Machine) : Option (List Byte) → Prop
  | none => True
  | some file => file.take 8 ≠ header ∨ file.length < 8 + bodySize ramSize ∧
    m.objs .cpu (cpuLayout.offsetOf .e) = 0 ∧
    ∀ k i b, k ≠ .version → ¬(k = .cpu ∧ i = cpuLayout.offsetOf .e) →
      fileByte ramSize file k i = some b → b = m.objs k i

variable {ramSize}

theorem snesSaveload_apart : (snesSaveload ramSize).Pairwise Region.Apart := by
  have hperm : (⟨.cartRam, 0, ramSize⟩ :: fixedRanges).Perm (snesSaveload ramSize) := by
    rw [fixedRanges, snesSaveload, cartSaveload, List.append_assoc _ [_] _]
    exact List.perm_middle.symm
  have hfixed : fixedRanges.Pairwise Region.Apart ∧ ∀ r ∈ fixedRanges, r.obj ≠ .cartRam := by
    decide +kernel
  refine hperm.pairwise (List.pairwise_cons.mpr ⟨fun r hr => ?_, hfixed.1⟩) Region.Apart.symm
  exact Or.inl (hfixed.2 r hr)

theorem clearE_e (m : Machine) : m.clearE.objs .cpu (cpuLayout.offsetOf .e) = 0 := by
  simp [Machine.clearE]

theorem clearE_of_ne {k : Block} (hk : k ≠ .cpu) (m : Machine) (i : Nat) :
    m.clearE.objs k i = m.objs k i := if_neg fun h => hk h.1

/-- What a load does not read from the file. -/
theorem snapshot_machine {file : List Byte} (hheader : file.take 8 = header) (m : Machine) :
    (rtlLoadSnapshot ramSize (some file) m).2 =
        { m with objs := (rtlLoadSnapshot ramSize (some file) m).2.objs } ∧
      (∀ i, (rtlLoadSnapshot ramSize (some file) m).2.objs .version i = m.objs .version i) ∧
      (rtlLoadSnapshot ramSize (some file) m).2.objs .cpu (cpuLayout.offsetOf .e) = 0 := by
  rw [rtlLoadSnapshot]
  dsimp only
  rw [if_neg (not_not.mpr hheader)]
  refine ⟨rfl, fun i => ?_, clearE_e _⟩
  rw [clearE_of_ne (by decide)]
  simp only [if_true]

theorem snapshot_objs {file : List Byte} (hheader : file.take 8 = header) (m : Machine)
    {k : Block} (hk : k ≠ .version) {i : Nat} (hi : ¬(k = .cpu ∧ i = cpuLayout.offsetOf .e)) :
    (rtlLoadSnapshot ramSize (some file) m).2.objs k i =
      (fileByte ramSize file k i).getD (m.objs k i) := by
  simp only [rtlLoadSnapshot, if_neg (not_not.mpr hheader), Machine.clearE, if_neg hi, if_neg hk]
  rw [load_objs snesSaveload_apart, withVersion, if_neg hk, fileByte]

/-- Only a short file is an error; what is in it does not matter. -/
theorem snapshot_result {file : List Byte} (hheader : file.take 8 = header) (m : Machine) :
    (rtlLoadSnapshot ramSize (some file) m).1 = false ↔ file.length < 8 + bodySize ramSize := by
  have hlen : 8 ≤ file.length := by
    have h := congrArg List.length hheader
    rw [List.length_take] at h
    change min 8 file.length = 8 at h
    omega
  have herror := load_error (snesSaveload ramSize) (withVersion m.objs) (file.drop 8)
  rw [List.length_drop, ← bodySize] at herror
  simp only [rtlLoadSnapshot, if_neg (not_not.mpr hheader), Bool.not_eq_false']
  rw [herror]
  omega

/-- **A bad file leaves the machine as it was exactly when it is harmless.** -/
theorem badSnapshot_unchanged_iff (ramSize : Nat) (file : Option (List Byte)) (m : Machine)
    (hbad : BadSnapshot ramSize file) :
    rtlLoadSnapshot ramSize file m = (false, m) ↔ Harmless ramSize m file := by
  cases file with
  | none => exact iff_of_true rfl hbad
  | some file =>
      by_cases hheader : file.take 8 = header
      · constructor
        · intro h
          have hresult := (snapshot_result hheader m).mp (congrArg (·.1) h)
          have hobjs : ∀ k i, (rtlLoadSnapshot ramSize (some file) m).2.objs k i = m.objs k i := by
            intro k i
            rw [h]
          refine .inr ⟨hresult, ?_, fun k i b hk hi hb => ?_⟩
          · rw [← hobjs .cpu (cpuLayout.offsetOf .e)]
            exact (snapshot_machine hheader m).2.2
          · rw [← hobjs k i, snapshot_objs hheader m hk hi, hb]
            rfl
        · rintro (hne | ⟨hshort, he, hbytes⟩)
          · exact absurd hheader hne
          · have hresult := (snapshot_result hheader m).mpr hshort
            obtain ⟨hrest, hversion, hclear⟩ :=
              @snapshot_machine ramSize file hheader m
            have hobjs : (rtlLoadSnapshot ramSize (some file) m).2.objs = m.objs := by
              funext k i
              by_cases hk : k = .version
              · rw [hk, hversion]
              · by_cases hi : k = .cpu ∧ i = cpuLayout.offsetOf .e
                · rw [hi.1, hi.2, hclear, he]
                · rw [snapshot_objs hheader m hk hi]
                  cases hb : fileByte ramSize file k i with
                  | none => rfl
                  | some b => exact hbytes k i b hk hi hb
            rw [hobjs] at hrest
            exact Prod.ext hresult hrest
      · have hrun : rtlLoadSnapshot ramSize (some file) m = (false, m) := by
          rw [rtlLoadSnapshot]
          exact if_pos hheader
        exact iff_of_true hrun (.inl hheader)

/-- The header alone, loaded in a machine full of zeros. -/
theorem badSnapshot_unchanged_header :
    rtlLoadSnapshot 0x2000 (some header) (filled 0 0x1FF) = (false, filled 0 0x1FF) ↔
      Harmless 0x2000 (filled 0 0x1FF) (some header) :=
  badSnapshot_unchanged_iff 0x2000 (some header) (filled 0 0x1FF) (by decide +kernel)

/-- One byte behind the header gets into the machine. -/
theorem badSnapshot_changes :
    BadSnapshot 0x2000 (some (header ++ [1])) ∧
      rtlLoadSnapshot 0x2000 (some (header ++ [1])) (filled 0 0x1FF) ≠
        (false, filled 0 0x1FF) := by
  refine ⟨by decide +kernel, fun h => ?_⟩
  have hbyte : (rtlLoadSnapshot 0x2000 (some (header ++ [1])) (filled 0 0x1FF)).2.objs .cpu 0 =
      0 := by
    rw [h]
    rfl
  rw [snapshot_objs rfl _ (by decide) (by decide)] at hbyte
  revert hbyte
  decide

end BadFiles

end SnesRecomp.Snapshot
