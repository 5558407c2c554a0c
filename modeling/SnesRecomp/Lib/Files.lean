import Mathlib.Data.List.Basic
import Mathlib.Logic.Function.Basic
import Mathlib.Tactic.Cases

/-!
# File programs that may fail anywhere

A program renames, opens, reads and writes files one operation after the other.  A list of
`Outcome`s says what becomes of its operations, in their order: an operation is done, fails
part of the way and the program goes on, or is the last one before the process dies.  What is
left on the disk is the same for a program that ended and for one that died, so a property
of every run is a property of every crash.
-/

namespace SnesRecomp.Files

variable {π β α : Type}

/-- The contents of the files there are. -/
abbrev Disk (π β : Type) := π → Option (List β)

inductive Prog (π β α : Type)
  | ret (a : α)
  | rename (src dst : π) (next : Bool → Prog π β α)
  /-- Open for reading: the next operations get the contents as a stream. -/
  | openRead (file : π) (next : Option (List β) → Prog π β α)
  /-- Open for writing: the file is made, or made empty. -/
  | openWrite (file : π) (next : Bool → Prog π β α)
  /-- The bytes that were read, and the rest of the stream. -/
  | fread (stream : List β) (count : Nat) (next : List β → List β → Prog π β α)
  | fwrite (file : π) (bytes : List β) (next : Prog π β α)

/-- What becomes of an operation: `n` is how much of it is done all the same. -/
inductive Outcome
  | done
  | fails (n : Nat)
  | crash (n : Nat)
  deriving DecidableEq, Repr

/-- How many of `total` bytes an operation gets through. -/
def Outcome.count (total : Nat) : Outcome → Nat
  | .done => total
  | .fails n => min n total
  | .crash n => min n total

def Outcome.isCrash : Outcome → Bool
  | .crash _ => true
  | _ => false

/-- The outcome of the first operation; what is not in the list is done. -/
def first (os : List Outcome) : Outcome := os.headD .done

@[simp] theorem first_cons (o : Outcome) (os : List Outcome) : first (o :: os) = o := rfl

@[simp] theorem first_nil : first [] = .done := rfl

namespace Prog

/-- One program after another. -/
def andThen : Prog π β Unit → Prog π β α → Prog π β α
  | .ret _, q => q
  | .rename src dst next, q => .rename src dst fun b => (next b).andThen q
  | .openRead file next, q => .openRead file fun c => (next c).andThen q
  | .openWrite file next, q => .openWrite file fun b => (next b).andThen q
  | .fread stream count next, q => .fread stream count fun c r => (next c r).andThen q
  | .fwrite file bytes next, q => .fwrite file bytes (next.andThen q)

theorem andThen_ret (p : Prog π β Unit) : p.andThen (.ret ()) = p := by
  induction p with
  | ret a => rfl
  | rename src dst next ih => rw [andThen]; exact congrArg _ (funext ih)
  | openRead file next ih => rw [andThen]; exact congrArg _ (funext ih)
  | openWrite file next ih => rw [andThen]; exact congrArg _ (funext ih)
  | fread stream count next ih =>
    rw [andThen]
    exact congrArg _ (funext fun c => funext fun r => ih c r)
  | fwrite file bytes next ih => rw [andThen, ih]

variable [DecidableEq π]

/-- What is on the disk afterwards, and the result if the process lives. -/
def run : Prog π β α → List Outcome → Disk π β → Disk π β × Option α
  | .ret a, _, d => (d, some a)
  | .rename src dst next, os, d =>
    match first os, d src with
    | .done, some c =>
      (next true).run os.tail (Function.update (Function.update d dst (some c)) src none)
    | .crash _, _ => (d, none)
    | _, _ => (next false).run os.tail d
  | .openRead file next, os, d =>
    match first os with
    | .done => (next (d file)).run os.tail d
    | .fails _ => (next none).run os.tail d
    | .crash _ => (d, none)
  | .openWrite file next, os, d =>
    match first os with
    | .done => (next true).run os.tail (Function.update d file (some []))
    | .fails _ => (next false).run os.tail d
    | .crash _ => (d, none)
  | .fread stream count next, os, d =>
    let n := (first os).count count
    if (first os).isCrash then (d, none)
    else (next (stream.take n) (stream.drop n)).run os.tail d
  | .fwrite file bytes next, os, d =>
    let n := (first os).count bytes.length
    let d := Function.update d file (some ((d file).getD [] ++ bytes.take n))
    if (first os).isCrash then (d, none) else next.run os.tail d

/-! ### One operation -/

section Operation

attribute [local simp] run

variable {os : List Outcome} {d : Disk π β} {n : Nat}

theorem run_rename_done {src dst : π} {next : Bool → Prog π β α} {c : List β}
    (h : first os = .done) (hd : d src = some c) : (rename src dst next).run os d =
      (next true).run os.tail (Function.update (Function.update d dst (some c)) src none) := by
  simp [h, hd]

theorem run_rename_missing {src dst : π} {next : Bool → Prog π β α} (h : first os = .done)
    (hd : d src = none) : (rename src dst next).run os d = (next false).run os.tail d := by
  simp [h, hd]

theorem run_rename_fails {src dst : π} {next : Bool → Prog π β α} (h : first os = .fails n) :
    (rename src dst next).run os d = (next false).run os.tail d := by
  simp [h]

theorem run_rename_crash {src dst : π} {next : Bool → Prog π β α} (h : first os = .crash n) :
    (rename src dst next).run os d = (d, none) := by
  simp [h]

theorem run_openRead_done {file : π} {next : Option (List β) → Prog π β α} (h : first os = .done) :
    (openRead file next).run os d = (next (d file)).run os.tail d := by
  simp [h]

theorem run_openRead_fails {file : π} {next : Option (List β) → Prog π β α}
    (h : first os = .fails n) : (openRead file next).run os d = (next none).run os.tail d := by
  simp [h]

theorem run_openRead_crash {file : π} {next : Option (List β) → Prog π β α}
    (h : first os = .crash n) : (openRead file next).run os d = (d, none) := by
  simp [h]

theorem run_openWrite_done {file : π} {next : Bool → Prog π β α} (h : first os = .done) :
    (openWrite file next).run os d =
      (next true).run os.tail (Function.update d file (some [])) := by
  simp [h]

theorem run_openWrite_fails {file : π} {next : Bool → Prog π β α} (h : first os = .fails n) :
    (openWrite file next).run os d = (next false).run os.tail d := by
  simp [h]

theorem run_openWrite_crash {file : π} {next : Bool → Prog π β α} (h : first os = .crash n) :
    (openWrite file next).run os d = (d, none) := by
  simp [h]

/-- Whether the process lives or not, a write at the end of a program stores what it gets
through. -/
theorem disk_fwrite_ret {file : π} {bytes : List β} {a : α} :
    ((fwrite file bytes (ret a)).run os d).1 =
      Function.update d file
        (some ((d file).getD [] ++ bytes.take ((first os).count bytes.length))) := by
  simp only [run]
  split <;> rfl

end Operation

end Prog

theorem Outcome.count_le (total : Nat) (o : Outcome) : o.count total ≤ total := by
  cases o with
  | done => exact Nat.le_refl total
  | fails n => exact Nat.min_le_right n total
  | crash n => exact Nat.min_le_right n total

end SnesRecomp.Files
