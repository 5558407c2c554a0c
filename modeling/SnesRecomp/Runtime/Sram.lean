import SnesRecomp.Lib.Files
import SnesRecomp.Lib.Runs
import SnesRecomp.Runtime.CpuState

/-!
# Battery saves

`RtlWriteSram`, `RtlReadSram` and `RtlMigrateLegacySram` of `common_rtl.c` as file programs.
A write renames the save to a backup and then makes the save anew, so between the two there is
no save; the backup is never read.  And the migration takes a save it cannot open for one that
is not there.  As long as neither happens at the wrong moment, a read loads the newest image
whose bytes were all written.
-/

namespace SnesRecomp

open Files

/-! ### The programs -/

/-- The contents of `g_sram`. -/
abbrev SramImage (size : Nat) := { bytes : List Byte // bytes.length = size }

def sramFile : String := "saves/save.srm"

def sramBakFile : String := "saves/save.srm.bak"

/-- The path `snprintf` makes in 64 bytes. -/
def legacySramFile (title : String) : String :=
  String.ofList (("saves/" ++ title ++ ".srm").toList.take 63)

/-- `while ((n = fread(buf, 1, sizeof(buf), in)) > 0) fwrite(buf, 1, n, out);`.  Each turn
takes a byte of the stream at least. -/
def copyLoop (out : String) : Nat → List Byte → Prog String Byte Unit
  | 0, _ => .ret ()
  | turns + 1, stream => .fread stream 4096 fun chunk rest =>
    if chunk = [] then .ret () else .fwrite out chunk (copyLoop out turns rest)

def rtlMigrateLegacySram (legacyTitle : String) : Prog String Byte Unit :=
  if legacyTitle = "" then .ret ()
  else .openRead sramFile fun cur =>
    if cur.isSome then .ret ()
    else if legacySramFile legacyTitle = sramFile then .ret ()
    else .openRead (legacySramFile legacyTitle) fun file =>
      match file with
      | none => .ret ()
      | some stream => .openWrite sramFile fun opened =>
        if opened then copyLoop sramFile (stream.length + 1) stream else .ret ()

/-- `fread` into `g_sram`. -/
def SramImage.overwrite {size : Nat} (sram : SramImage size) (bytes : List Byte) :
    SramImage size :=
  ⟨bytes.take size ++ sram.1.drop bytes.length, by
    have h := sram.2
    simp only [List.length_append, List.length_take, List.length_drop]
    omega⟩

/-- `fread` of the save into `g_sram`, when it can be opened. -/
def loadSram {size : Nat} (sram : SramImage size) : Prog String Byte (SramImage size) :=
  .openRead sramFile fun file =>
    match file with
    | none => .ret sram
    | some stream => .fread stream size fun bytes _ => .ret (sram.overwrite bytes)

def rtlReadSram {size : Nat} (title : String) (sram : SramImage size) :
    Prog String Byte (SramImage size) := (rtlMigrateLegacySram title).andThen (loadSram sram)

/-- `fwrite` of `g_sram` to the save, when it can be opened. -/
def storeSram {size : Nat} (sram : SramImage size) : Prog String Byte Unit :=
  .openWrite sramFile fun opened =>
    if opened then .fwrite sramFile sram.1 (.ret ()) else .ret ()

def rtlWriteSram {size : Nat} (sram : SramImage size) : Prog String Byte Unit :=
  .rename sramFile sramBakFile fun _ => storeSram sram

/-! ### Runs -/

/-- The disk and `g_sram`; the newest image whose bytes were all written, and the image of a
later write that did not get that far. -/
structure SaveState (size : Nat) where
  disk : Disk String Byte
  sram : SramImage size
  completed : Option (SramImage size)
  writing : Option (SramImage size)

inductive SaveStep (size : Nat)
  /-- The game changes its SRAM, or a new process starts. -/
  | play (sram : SramImage size)
  | write (outcomes : List Outcome)
  | read (outcomes : List Outcome)
  /-- The launcher carries a save forward. -/
  | migrate (title : String) (outcomes : List Outcome)

/-- The file is opened for writing. -/
def writeOpens (os : List Outcome) : Bool :=
  !(first os).isCrash && decide (first os.tail = .done)

/-- The bytes a write stores in the opened file. -/
def writeStores (size : Nat) (os : List Outcome) : Nat := (first os.tail.tail).count size

def saveStep {size : Nat} (title : String) : SaveStep size → SaveState size → SaveState size
  | .play sram, s => { s with sram := sram }
  | .write os, s =>
    let disk := ((rtlWriteSram s.sram).run os s.disk).1
    if writeOpens os ∧ writeStores size os = size then
      { s with disk := disk, completed := some s.sram, writing := none }
    else { s with disk := disk, writing := some s.sram }
  | .read os, s =>
    let r := (rtlReadSram title s.sram).run os s.disk
    { s with disk := r.1, sram := r.2.getD s.sram }
  | .migrate legacyTitle os, s =>
    { s with disk := ((rtlMigrateLegacySram legacyTitle).run os s.disk).1 }

section Runs

variable {size : Nat} (title : String)

/-- A later read, in a process that starts with anything in its SRAM, loads the newest image
that was written or the one that was being written. -/
def SaveState.Recovers (s : SaveState size) : Prop :=
  ∀ newest, s.completed = some newest → ∃ image, (image = newest ∨ s.writing = some image) ∧
    ∀ sram : SramImage size, ((rtlReadSram title sram).run [] s.disk).2 = some image

/-- A write that stops after the rename or before the last byte. -/
def Interrupted (size : Nat) (os : List Outcome) : Prop :=
  (writeOpens os = true ∧ writeStores size os < size) ∨
    (writeOpens os = false ∧ first os = .done)

/-- A migration that cannot open the save, but the legacy save and the file to copy it to. -/
def Misled (disk : Disk String Byte) (legacyTitle : String) (os : List Outcome) : Prop :=
  legacyTitle ≠ "" ∧ legacySramFile legacyTitle ≠ sramFile ∧ (∃ n, first os = .fails n) ∧
    first os.tail = .done ∧ (disk (legacySramFile legacyTitle)).isSome ∧ first os.tail.tail = .done

/-- The steps that keep the newest image, once there is one. -/
def KeepsSave : SaveStep size → SaveState size → Prop
  | .play _, _ => True
  | .write os, s => s.completed.isSome → ¬ Interrupted size os
  | .read os, s => s.completed.isSome → ¬ Misled s.disk title os
  | .migrate legacyTitle os, s => s.completed.isSome → ¬ Misled s.disk legacyTitle os

/-! ### What the programs leave on the disk -/

theorem disk_storeSram_opened (sram : SramImage size) {os : List Outcome} (h : first os = .done)
    (d : Disk String Byte) : ((storeSram sram).run os d).1 sramFile =
      some (sram.1.take ((first os.tail).count size)) := by
  unfold storeSram
  rw [Prog.run_openWrite_done h, if_pos rfl, Prog.disk_fwrite_ret, Function.update_self,
    Function.update_self, sram.2, Option.getD_some, List.nil_append]

theorem disk_storeSram_unopened (sram : SramImage size) {os : List Outcome} (h : first os ≠ .done)
    (d : Disk String Byte) : ((storeSram sram).run os d).1 = d := by
  unfold storeSram
  cases hfirst : first os with
  | done => exact absurd hfirst h
  | fails n =>
    rw [Prog.run_openWrite_fails hfirst]
    rfl
  | crash n => rw [Prog.run_openWrite_crash hfirst]

/-- A write that opens the file leaves the bytes it got through in it. -/
theorem save_of_writeOpens (sram : SramImage size) {os : List Outcome} (h : writeOpens os = true)
    (d : Disk String Byte) :
    ((rtlWriteSram sram).run os d).1 sramFile = some (sram.1.take (writeStores size os)) := by
  obtain ⟨hcrash, hopen⟩ := Bool.and_eq_true_iff.mp h
  have hstore := disk_storeSram_opened sram (of_decide_eq_true hopen)
  unfold rtlWriteSram
  cases hfirst : first os with
  | crash n =>
    rw [hfirst] at hcrash
    cases hcrash
  | fails n =>
    rw [Prog.run_rename_fails hfirst]
    exact hstore d
  | done =>
    cases hd : d sramFile with
    | none =>
      rw [Prog.run_rename_missing hfirst hd]
      exact hstore d
    | some c =>
      rw [Prog.run_rename_done hfirst hd]
      exact hstore _

/-- One that does not leaves the save where the rename put it. -/
theorem save_of_not_writeOpens (sram : SramImage size) {os : List Outcome}
    (h : writeOpens os = false) {d : Disk String Byte} {c : List Byte} (hd : d sramFile = some c) :
    ((rtlWriteSram sram).run os d).1 sramFile = if first os = .done then none else some c := by
  have hstore : (first os).isCrash = false → ∀ d, ((storeSram sram).run os.tail d).1 = d := by
    intro hcrash
    refine disk_storeSram_unopened sram fun hopen => ?_
    rw [writeOpens, hcrash, hopen] at h
    cases h
  unfold rtlWriteSram
  cases hfirst : first os with
  | crash n =>
    rw [Prog.run_rename_crash hfirst, if_neg (by simp)]
    exact hd
  | fails n =>
    rw [Prog.run_rename_fails hfirst, hstore (by rw [hfirst]; rfl), hd]
    rfl
  | done =>
    rw [Prog.run_rename_done hfirst hd, hstore (by rw [hfirst]; rfl), Function.update_self]
    rfl

/-- A migration that is not misled leaves a save alone. -/
theorem save_of_not_misled {d : Disk String Byte} {legacyTitle : String} {os : List Outcome}
    (h : ¬ Misled d legacyTitle os) {c : List Byte} (hd : d sramFile = some c) {α : Type}
    (next : Prog String Byte α) (hnext : ∀ os, (next.run os d).1 sramFile = some c) :
    (((rtlMigrateLegacySram legacyTitle).andThen next).run os d).1 sramFile = some c := by
  unfold rtlMigrateLegacySram
  by_cases htitle : legacyTitle = ""
  · rw [if_pos htitle]
    exact hnext os
  rw [if_neg htitle]
  cases hfirst : first os with
  | done =>
    rw [Prog.andThen, Prog.run_openRead_done hfirst, hd]
    exact hnext _
  | crash n =>
    rw [Prog.andThen, Prog.run_openRead_crash hfirst]
    exact hd
  | fails n =>
    rw [Prog.andThen, Prog.run_openRead_fails hfirst, if_neg (by decide)]
    by_cases hsame : legacySramFile legacyTitle = sramFile
    · rw [if_pos hsame]
      exact hnext _
    rw [if_neg hsame, Prog.andThen]
    -- the legacy save is tried, and there is none or nowhere to copy it to
    cases hlegacy : first os.tail with
    | crash n =>
      rw [Prog.run_openRead_crash hlegacy]
      exact hd
    | fails n =>
      rw [Prog.run_openRead_fails hlegacy]
      exact hnext _
    | done =>
      rw [Prog.run_openRead_done hlegacy]
      cases hfile : d (legacySramFile legacyTitle) with
      | none => exact hnext _
      | some stream =>
        dsimp only
        rw [Prog.andThen]
        cases hopen : first os.tail.tail with
        | done => exact absurd ⟨htitle, hsame, ⟨_, hfirst⟩, hlegacy, by rw [hfile]; rfl, hopen⟩ h
        | crash n =>
          rw [Prog.run_openWrite_crash hopen]
          exact hd
        | fails n =>
          rw [Prog.run_openWrite_fails hopen]
          exact hnext _

theorem disk_loadSram (sram : SramImage size) (os : List Outcome) (d : Disk String Byte) :
    ((loadSram sram).run os d).1 = d := by
  unfold loadSram
  cases hfirst : first os with
  | crash n => rw [Prog.run_openRead_crash hfirst]
  | fails n =>
    rw [Prog.run_openRead_fails hfirst]
    rfl
  | done =>
    rw [Prog.run_openRead_done hfirst]
    cases d sramFile with
    | none => rfl
    | some stream =>
      simp only [Prog.run]
      split <;> rfl

/-- A read without faults loads the first bytes of the save. -/
theorem loaded_of_save {d : Disk String Byte} {c : List Byte} (hd : d sramFile = some c)
    (sram : SramImage size) :
    ((rtlReadSram title sram).run [] d).2 = some (sram.overwrite (c.take size)) := by
  unfold rtlReadSram rtlMigrateLegacySram loadSram
  split <;> simp [Prog.andThen, Prog.run, hd, Outcome.count, Outcome.isCrash]

theorem overwrite_all (sram image : SramImage size) :
    sram.overwrite (image.1.take size) = image := by
  obtain ⟨bytes, rfl⟩ := image
  apply Subtype.ext
  show (bytes.take bytes.length).take bytes.length ++ sram.1.drop (bytes.take bytes.length).length = bytes
  rw [List.take_length, List.take_length, List.drop_of_length_le (le_of_eq sram.2),
    List.append_nil]

/-! ### Runs of steps -/

/-- Once an image was written, the save is the newest. -/
def SaveState.Holds (s : SaveState size) : Prop :=
  ∀ newest, s.completed = some newest → s.disk sramFile = some newest.1

theorem SaveState.Holds.recovers {s : SaveState size} (h : s.Holds) : s.Recovers title := by
  intro newest hnewest
  refine ⟨newest, Or.inl rfl, fun sram => ?_⟩
  rw [loaded_of_save title (h newest hnewest), overwrite_all]

theorem holds_write {s : SaveState size} (h : s.Holds) {os : List Outcome}
    (hok : s.completed.isSome → ¬ Interrupted size os) :
    (saveStep title (.write os) s).Holds := by
  by_cases hall : writeOpens os ∧ writeStores size os = size
  · intro newest hnewest
    simp only [saveStep, if_pos hall] at hnewest ⊢
    obtain rfl := Option.some.inj hnewest
    rw [save_of_writeOpens s.sram hall.1, hall.2, List.take_of_length_le (le_of_eq s.sram.2)]
  · intro newest hnewest
    simp only [saveStep, if_neg hall] at hnewest ⊢
    have hnot := hok (by rw [hnewest]; rfl)
    have hstores : writeStores size os ≤ size := Outcome.count_le size _
    have hopens : writeOpens os = false := by
      by_contra hopens
      rw [Bool.not_eq_false] at hopens
      have hne : writeStores size os ≠ size := fun heq => hall ⟨hopens, heq⟩
      exact hnot (Or.inl ⟨hopens, by omega⟩)
    have hfirst : ¬ first os = .done := fun hfirst => hnot (Or.inr ⟨hopens, hfirst⟩)
    rw [save_of_not_writeOpens s.sram hopens (h newest hnewest), if_neg hfirst]

theorem holds_saveStep (step : SaveStep size) (s : SaveState size) (h : s.Holds)
    (hok : KeepsSave title step s) : (saveStep title step s).Holds := by
  cases step with
  | play sram => exact h
  | write os => exact holds_write title h hok
  | read os =>
    intro newest hnewest
    have hsome : s.completed.isSome := by rw [show s.completed = some newest from hnewest]; rfl
    have hsave := h newest hnewest
    exact save_of_not_misled (hok hsome) hsave _ fun os => by rw [disk_loadSram, hsave]
  | migrate legacyTitle os =>
    intro newest hnewest
    have hsome : s.completed.isSome := by rw [show s.completed = some newest from hnewest]; rfl
    have hsave := h newest hnewest
    have hrun := save_of_not_misled (hok hsome) hsave (.ret ()) fun _ => hsave
    rwa [Prog.andThen_ret] at hrun

/-- **While no write is interrupted and no migration is misled once an image was written, a
later read loads it after every step of the run.** -/
theorem save_survives (steps : List (SaveStep size)) (disk : Disk String Byte)
    (sram : SramImage size)
    (h : Runs.StepsMeet (saveStep title) (KeepsSave title) steps ⟨disk, sram, none, none⟩) :
    ∀ s ∈ Runs.states (saveStep title) steps ⟨disk, sram, none, none⟩, s.Recovers title := by
  have hinit : SaveState.Holds (⟨disk, sram, none, none⟩ : SaveState size) := by
    intro newest hnewest
    cases hnewest
  intro s hs
  exact (Runs.states_of_stepsMeet _ (holds_saveStep title) steps _ hinit h s hs).recovers title

/-- Two saves, the second by a process that dies before the rename. -/
theorem save_survives_crash :
    Runs.StepsMeet (saveStep "smw") (KeepsSave "smw")
        [.write [], .play ⟨[8, 8], rfl⟩, .write [.crash 0]] ⟨fun _ => none, ⟨[7, 7], rfl⟩, none, none⟩ ∧
      ∀ s ∈ Runs.states (saveStep "smw") [.write [], .play ⟨[8, 8], rfl⟩, .write [.crash 0]]
        ⟨fun _ => none, ⟨[7, 7], rfl⟩, none, none⟩, s.Recovers "smw" :=
  have hkeeps : Runs.StepsMeet (saveStep "smw") (KeepsSave "smw")
      [.write [], .play ⟨[8, 8], rfl⟩, .write [.crash 0]]
      (⟨fun _ => none, ⟨[7, 7], rfl⟩, none, none⟩ : SaveState 2) :=
    ⟨fun h => absurd h (by decide), trivial, fun _ => by simp [Interrupted, writeOpens, Outcome.isCrash],
      trivial⟩
  ⟨hkeeps, save_survives "smw" _ _ _ hkeeps⟩

/-! ### Interrupted writes -/

/-- Without a save and a legacy save, a read loads nothing. -/
theorem loaded_of_no_save {d : Disk String Byte} (hd : d sramFile = none)
    (hlegacy : d (legacySramFile title) = none) (sram : SramImage size) :
    ((rtlReadSram title sram).run [] d).2 = some sram := by
  have hload : ((loadSram sram).run [] d).2 = some sram := by
    unfold loadSram
    rw [Prog.run_openRead_done rfl, hd]
    rfl
  unfold rtlReadSram rtlMigrateLegacySram
  split
  · exact hload
  rw [Prog.andThen, Prog.run_openRead_done rfl, hd, if_neg (by decide)]
  split
  · exact hload
  · rw [Prog.andThen, Prog.run_openRead_done rfl, List.tail_nil, hlegacy]
    exact hload

/-- An SRAM of one byte over and over. -/
def SramImage.fill (size : Nat) (b : Byte) : SramImage size :=
  ⟨List.replicate size b, List.length_replicate⟩

/-- Fewer bytes than the SRAM has leave some of what was there. -/
theorem overwrite_fill_ne {bytes : List Byte} (h : bytes.length < size) :
    (SramImage.fill size 0).overwrite bytes ≠ (SramImage.fill size 1).overwrite bytes := by
  intro heq
  have hbytes := congrArg Subtype.val heq
  simp only [SramImage.overwrite, SramImage.fill, List.drop_replicate,
    List.append_cancel_left_eq] at hbytes
  have hzero := List.eq_of_mem_replicate (hbytes ▸ List.mem_replicate.mpr ⟨by omega, rfl⟩ :
    (0 : Byte) ∈ List.replicate (size - bytes.length) 1)
  cases hzero

/-- **An interrupted write leaves nothing to recover**, unless there is a legacy save. -/
theorem not_recovers_of_interrupted (hsize : 0 < size) {s : SaveState size} (h : s.Holds)
    (hcompleted : s.completed.isSome) (hlegacy : s.disk (legacySramFile title) = none)
    (hbak : legacySramFile title ≠ sramBakFile) {os : List Outcome} (hos : Interrupted size os) :
    ¬ (saveStep title (.write os) s).Recovers title := by
  obtain ⟨newest, hnewest⟩ := Option.isSome_iff_exists.mp hcompleted
  have hstep : saveStep title (.write os) s =
      { s with disk := ((rtlWriteSram s.sram).run os s.disk).1, writing := some s.sram } := by
    refine if_neg fun hall => ?_
    rcases hos with ⟨_, hshort⟩ | ⟨hopens, _⟩
    · rw [hall.2] at hshort
      exact Nat.lt_irrefl _ hshort
    · rw [hopens] at hall
      cases hall.1
  rw [hstep]
  intro hrec
  obtain ⟨image, _, hload⟩ := hrec newest hnewest
  have hzero := hload (.fill size 0)
  have hone := hload (.fill size 1)
  dsimp only at hzero hone
  rcases hos with ⟨hopens, hshort⟩ | ⟨hopens, hdone⟩
  · have hsave := save_of_writeOpens s.sram hopens s.disk
    rw [loaded_of_save title hsave] at hzero hone
    have heq := Option.some.inj (hzero.trans hone.symm)
    refine overwrite_fill_ne ?_ heq
    rw [List.length_take, List.length_take, s.sram.2]
    omega
  · have hsave := save_of_not_writeOpens s.sram hopens (h newest hnewest)
    rw [if_pos hdone] at hsave
    have hgone : ((rtlWriteSram s.sram).run os s.disk).1 (legacySramFile title) = none := by
      have hne : legacySramFile title ≠ sramFile := fun heq => by
        rw [heq, h newest hnewest] at hlegacy
        cases hlegacy
      have hstore : ∀ d, ((storeSram s.sram).run os.tail d).1 = d := by
        refine disk_storeSram_unopened s.sram fun hopen => ?_
        rw [writeOpens, hdone, hopen] at hopens
        cases hopens
      unfold rtlWriteSram
      rw [Prog.run_rename_done hdone (h newest hnewest), hstore, Function.update_of_ne hne,
        Function.update_of_ne hbak, hlegacy]
    rw [loaded_of_no_save title hsave hgone] at hzero hone
    have hfill := congrArg (fun image : Option (SramImage size) => image.map (·.1.head?))
      (hzero.trans hone.symm)
    obtain ⟨n, rfl⟩ := Nat.exists_eq_succ_of_ne_zero (Nat.pos_iff_ne_zero.mp hsize)
    simp [SramImage.fill, List.replicate_succ] at hfill

/-- A save, then other contents. -/
def savedOnce : SaveState 2 :=
  Runs.final (saveStep "smw") [.play (.fill 2 7), .write [], .play (.fill 2 8)]
    ⟨fun _ => none, .fill 2 0, none, none⟩

/-- A second save, by a process that dies after the rename. -/
def saveAndCrash : List (SaveStep 2) :=
  [.play (.fill 2 7), .write [], .play (.fill 2 8), .write [.done, .crash 0]]

theorem not_recovers_saveAndCrash :
    ¬ ∀ s ∈ Runs.states (saveStep "smw") saveAndCrash ⟨fun _ => none, .fill 2 0, none, none⟩,
      s.Recovers "smw" := by
  intro h
  have hholds : savedOnce.Holds := by
    intro newest hnewest
    obtain rfl := Option.some.inj hnewest
    rfl
  have hmem : saveStep "smw" (.write [.done, .crash 0]) savedOnce ∈
      Runs.states (saveStep "smw") saveAndCrash ⟨fun _ => none, .fill 2 0, none, none⟩ := by
    simp [saveAndCrash, savedOnce, Runs.states, Runs.final]
  exact not_recovers_of_interrupted "smw" (by decide) hholds rfl rfl (by decide)
    (Or.inr ⟨rfl, rfl⟩) (h _ hmem)

end Runs

end SnesRecomp
