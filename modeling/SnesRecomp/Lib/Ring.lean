import Mathlib.Data.BitVec
import Mathlib.Data.List.Basic
import Mathlib.Logic.Function.Basic
import Mathlib.Tactic.Cases

/-!
# A ring with counters that run freely

The counters of what was written and of what was read are words of `w` bits and wrap round;
an entry is in the place of its number modulo the capacity.  When the capacity divides
`2 ^ w`, the entries between the counters are a queue (`contents_push`, `contents_pop`).
-/

namespace SnesRecomp

structure Ring (w : Nat) (α : Type) where
  buffer : Nat → α
  write : BitVec w
  read : BitVec w

namespace Ring

variable {w cap : Nat} {α : Type}

/-- How many entries there are. -/
def fill (r : Ring w α) : Nat := (r.write - r.read).toNat

/-- Entry `i` after the ones that were read. -/
def entry (cap : Nat) (r : Ring w α) (i : Nat) : α :=
  r.buffer ((r.read + BitVec.ofNat w i).toNat % cap)

def contents (cap : Nat) (r : Ring w α) : List α := (List.range r.fill).map (entry cap r)

def push (cap : Nat) (r : Ring w α) (x : α) : Ring w α :=
  { r with buffer := Function.update r.buffer (r.write.toNat % cap) x, write := r.write + 1 }

def pop (r : Ring w α) (n : Nat) : Ring w α := { r with read := r.read + BitVec.ofNat w n }

@[simp] theorem contents_length (r : Ring w α) : (contents cap r).length = r.fill := by
  rw [contents, List.length_map, List.length_range]

theorem toNat_add_mod (hcap : cap ∣ 2 ^ w) (c : BitVec w) (i : Nat) :
    (c + BitVec.ofNat w i).toNat % cap = (c.toNat + i) % cap := by
  rw [BitVec.toNat_add, BitVec.toNat_ofNat, Nat.mod_mod_of_dvd _ hcap, Nat.add_mod,
    Nat.mod_mod_of_dvd _ hcap, ← Nat.add_mod]

theorem write_eq (r : Ring w α) : r.write = r.read + BitVec.ofNat w r.fill := by
  rw [fill, BitVec.ofNat_toNat, BitVec.setWidth_eq, BitVec.add_comm, BitVec.sub_add_cancel]

theorem entry_pop (hcap : cap ∣ 2 ^ w) (r : Ring w α) (n i : Nat) :
    entry cap (r.pop n) i = entry cap r (n + i) := by
  rw [entry, entry, toNat_add_mod hcap, toNat_add_mod hcap, Nat.add_mod, pop,
    toNat_add_mod hcap, ← Nat.add_mod, Nat.add_assoc]

theorem fill_pop {r : Ring w α} {n : Nat} (hn : n ≤ r.fill) : (r.pop n).fill = r.fill - n := by
  have hlt : r.fill < 2 ^ w := BitVec.isLt _
  have hsub : r.write - (r.read + BitVec.ofNat w n) = r.write - r.read - BitVec.ofNat w n :=
    sub_add_eq_sub_sub _ _ _
  rw [fill, pop, hsub, BitVec.toNat_sub_of_le]
  · rw [BitVec.toNat_ofNat, Nat.mod_eq_of_lt (by omega)]
    rfl
  · rw [BitVec.le_def, BitVec.toNat_ofNat, Nat.mod_eq_of_lt (by omega)]
    exact hn

/-- What is read leaves the queue at its front. -/
theorem contents_pop (hcap : cap ∣ 2 ^ w) {r : Ring w α} {n : Nat} (hn : n ≤ r.fill) :
    contents cap r = (List.range n).map (entry cap r) ++ contents cap (r.pop n) := by
  have hsplit : r.fill = n + (r.pop n).fill := by
    rw [fill_pop hn]
    omega
  rw [contents, hsplit, List.range_add, List.map_append, List.map_map, contents]
  congr 1
  apply List.map_congr_left
  intro i _
  exact (entry_pop hcap r n i).symm

theorem fill_push {r : Ring w α} (hlt : r.fill + 1 < 2 ^ w) (x : α) :
    (r.push cap x).fill = r.fill + 1 := by
  have hsub : r.write + 1#w - r.read = r.write - r.read + 1#w := add_sub_right_comm _ _ _
  have hone : 1 % 2 ^ w = 1 := Nat.mod_eq_of_lt (by omega)
  change (r.write + 1#w - r.read).toNat = (r.write - r.read).toNat + 1
  rw [hsub, BitVec.toNat_add, BitVec.toNat_ofNat, hone]
  exact Nat.mod_eq_of_lt hlt

/-- What is written enters it at its end, as long as there is room. -/
theorem contents_push (hcap : cap ∣ 2 ^ w) {r : Ring w α} (hroom : r.fill < cap)
    (hlt : r.fill + 1 < 2 ^ w) (x : α) :
    contents cap (r.push cap x) = contents cap r ++ [x] := by
  have hwrite : r.write.toNat % cap = (r.read.toNat + r.fill) % cap := by
    rw [← toNat_add_mod hcap, ← write_eq]
  rw [contents, fill_push hlt, List.range_succ, List.map_append, List.map_singleton, contents]
  congr 1
  · apply List.map_congr_left
    intro i hi
    have hi' := List.mem_range.mp hi
    have hne : (r.read + BitVec.ofNat w i).toNat % cap ≠ r.write.toNat % cap := by
      rw [toNat_add_mod hcap, hwrite]
      intro heq
      have hmod : (r.fill - i) % cap = 0 := by
        have h := Nat.sub_mod_eq_zero_of_mod_eq heq.symm
        rwa [show r.read.toNat + r.fill - (r.read.toNat + i) = r.fill - i by omega] at h
      rw [Nat.mod_eq_of_lt (by omega)] at hmod
      omega
    exact Function.update_of_ne hne x r.buffer
  · have hnew : entry cap (r.push cap x) r.fill = x := by
      change Function.update r.buffer (r.write.toNat % cap) x
        ((r.read + BitVec.ofNat w r.fill).toNat % cap) = x
      rw [← write_eq, Function.update_self]
    rw [hnew]

end Ring

end SnesRecomp
