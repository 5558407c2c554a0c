import SnesRecomp.Devices.BootRom
import SnesRecomp.Devices.DspRuns

/-!
# Uploads through the boot ROM

The main processor sends blocks of bytes through the four ports, one message at a time: a message
ends with its index in port 0, and the next one waits until the program in the boot ROM shows that
index on its side.  The writes go through the queue of the sound unit, at any time and with any
target; between them the sound unit runs any number of cycles.  Whatever the order of the two, no
byte is lost and none is stored twice (`uploadRun_handsOver`).
-/

namespace SnesRecomp

/-! ### Messages -/

/-- A write of the main processor; with a guard it waits until port 0 shows it. -/
structure PortSend where
  guard : Option Byte
  port : BitVec 2
  val : Byte

def PortSend.command (w : PortSend) : BitVec 2 × Byte := (w.port, w.val)

/-- What the ports hold as soon as the index is in port 0. -/
structure Message where
  flag : Byte
  dest : Option Word
  index : Byte

def Message.destSends (m : Message) : List PortSend :=
  match m.dest with
  | none => []
  | some d => [⟨none, 2, loByte d⟩, ⟨none, 3, hiByte d⟩]

/-- The writes of a message; the first one waits for the answer to the message before. -/
def Message.sends (m : Message) (guard : Byte) : List PortSend :=
  ⟨some guard, 1, m.flag⟩ :: m.destSends ++ [⟨none, 0, m.index⟩]

def session (guard : Byte) : List Message → List PortSend
  | [] => []
  | m :: ms => m.sends guard ++ session m.index ms

/-- A block with what stands in port 1 in front of it, and the index of the message behind it. -/
structure UploadBlock where
  target : Word
  bytes : List Byte
  flag : Byte
  kick : Byte
  bytes_ne : bytes ≠ []
  flag_ne : flag ≠ 0
  kick_ne : kick ≠ 0
  /-- The index is behind that of the next byte, which is how the program knows it. -/
  kick_behind : (BitVec.ofNat 8 bytes.length - kick).getLsbD 7 = true

def byteMessages (i : Nat) : List Byte → List Message
  | [] => []
  | b :: bs => ⟨b, none, BitVec.ofNat 8 i⟩ :: byteMessages (i + 1) bs

/-- The message in front of the blocks that are left. -/
def kickMessage (kick : Byte) (bs : List UploadBlock) (entry : Word) : Message :=
  match bs with
  | [] => ⟨0, some entry, kick⟩
  | b :: _ => ⟨b.flag, some b.target, kick⟩

def uploadMessages (kick : Byte) : List UploadBlock → Word → List Message
  | [], entry => [kickMessage kick [] entry]
  | b :: bs, entry =>
    kickMessage kick (b :: bs) entry :: (byteMessages 0 b.bytes ++ uploadMessages b.kick bs entry)

/-! ### The two processors -/

/-- The sound unit, and what the main processor has still to send. -/
structure Upload where
  apu : Apu
  toSend : List PortSend

inductive UploadEvent
  /-- `apu_cycle`. -/
  | cycle (produced : BitVec 64) (shadow : Int → Int → Int × Int)
  /-- The main processor comes to its next write, and makes it if it need not wait. -/
  | send (target : BitVec 64)

def uploadStep : UploadEvent → Upload → Upload
  | .cycle produced shadow, t => { t with apu := t.apu.cycle produced shadow }
  | .send target, t =>
    match t.toSend with
    | [] => t
    | w :: ws =>
      if w.guard.all (· == t.apu.ports.outPorts 0) then
        { apu := { t.apu with ports := t.apu.ports.schedulePortWrite ⟨target, w.port, w.val⟩ }
          toSend := ws }
      else t

/-- From `apu_reset` on; the main processor waits for the first sign of the program. -/
def uploadRun (blocks : List UploadBlock) (entry : Word) (es : List UploadEvent) : Upload :=
  Runs.final uploadStep es ⟨Apu.reset, session 0xAA (uploadMessages 0xCC blocks entry)⟩

/-! ### What is to be in sound RAM -/

def placeBytes : Word → List Byte → (Nat → Byte) → Nat → Byte
  | _, [], ram => ram
  | t, b :: bs, ram => placeBytes (t + 1) bs (Function.update ram t.toNat b)

/-- The blocks in sound RAM. -/
def image (blocks : List UploadBlock) (ram : Nat → Byte) : Nat → Byte :=
  blocks.foldl (fun ram b => placeBytes b.target b.bytes ram) ram

/-- The pointer of the program, and the registers. -/
def Scratch (a : Nat) : Prop := a < 2 ∨ 0xF0 ≤ a ∧ a ≤ 0xFF

instance (a : Nat) : Decidable (Scratch a) := inferInstanceAs (Decidable (_ ∨ _))

def Agrees (ram ram' : Nat → Byte) : Prop := ∀ a, ¬ Scratch a → ram a = ram' a

/-- The block leaves the pointer and the registers alone. -/
def UploadBlock.Clear (b : UploadBlock) : Prop :=
  ∀ i < b.bytes.length, ¬ Scratch (b.target + BitVec.ofNat 16 i).toNat

instance (b : UploadBlock) : Decidable b.Clear := inferInstanceAs (Decidable (∀ i < _, _))

theorem placeBytes_concat (t : Word) (bs : List Byte) (b : Byte) (ram : Nat → Byte) :
    placeBytes t (bs ++ [b]) ram =
      Function.update (placeBytes t bs ram) (t + BitVec.ofNat 16 bs.length).toNat b := by
  induction bs generalizing t ram with
  | nil => simp [placeBytes]
  | cons c bs ih =>
      have hnext : t + 1 + BitVec.ofNat 16 bs.length = t + BitVec.ofNat 16 (c :: bs).length := by
        apply BitVec.eq_of_toNat_eq
        have hone : (1 : Word).toNat = 1 := rfl
        simp only [BitVec.toNat_add, BitVec.toNat_ofNat, List.length_cons, hone]
        omega
      rw [List.cons_append, placeBytes, ih, hnext]
      rfl

theorem image_concat (blocks : List UploadBlock) (b : UploadBlock) (ram : Nat → Byte) :
    image (blocks ++ [b]) ram = placeBytes b.target b.bytes (image blocks ram) := by
  rw [image, List.foldl_append]
  rfl

theorem Agrees.update {ram ram' : Nat → Byte} (h : Agrees ram ram') (a : Nat) (val : Byte) :
    Agrees (Function.update ram a val) (Function.update ram' a val) := by
  intro c hc
  by_cases hca : c = a
  · rw [hca, Function.update_self, Function.update_self]
  · rw [Function.update_of_ne hca, Function.update_of_ne hca, h c hc]

theorem Agrees.update_scratch {ram ram' : Nat → Byte} (h : Agrees ram ram') {a : Nat} (ha : Scratch a)
    (val : Byte) : Agrees (Function.update ram a val) ram' := by
  intro c hc
  have hca : c ≠ a := by
    rintro rfl
    exact hc ha
  rw [Function.update_of_ne hca, h c hc]

/-! ### A message on its way -/

def applyWrites (ws : List (BitVec 2 × Byte)) (f : BitVec 2 → Byte) : BitVec 2 → Byte :=
  ws.foldl (fun f w => Function.update f w.1 w.2) f

/-- The ports hold the message. -/
def Message.Holds (m : Message) (f : BitVec 2 → Byte) : Prop :=
  f 0 = m.index ∧ f 1 = m.flag ∧ ∀ d, m.dest = some d → f 2 = loByte d ∧ f 3 = hiByte d

/-- The writes that are out take the ports to the message, the index last. -/
def InFlight (old : Byte) (m : Message) (out : List (BitVec 2 × Byte)) (f : BitVec 2 → Byte) : Prop :=
  m.Holds (applyWrites out f) ∧
    (out = [] ∨ f 0 = old ∧ ∃ front, out = front ++ [(0, m.index)] ∧ front.length ≤ 3 ∧ ∀ w ∈ front, w.1 ≠ 0)

variable {old : Byte} {m : Message}

theorem InFlight.apply {w : BitVec 2 × Byte} {out : List (BitVec 2 × Byte)} {f : BitVec 2 → Byte}
    (h : InFlight old m (w :: out) f) : InFlight old m out (Function.update f w.1 w.2) := by
  obtain ⟨hholds, hnil | ⟨hold, front, hout, hlength, hfront⟩⟩ := h
  · exact absurd hnil (List.cons_ne_nil w out)
  refine ⟨hholds, ?_⟩
  cases front with
  | nil =>
      rw [List.nil_append, List.cons.injEq] at hout
      exact .inl hout.2
  | cons v front =>
      rw [List.cons_append, List.cons.injEq] at hout
      obtain ⟨rfl, hout⟩ := hout
      rw [List.length_cons] at hlength
      refine .inr ⟨?_, front, hout, by omega, fun w hw => hfront w (List.mem_cons_of_mem _ hw)⟩
      rw [Function.update_of_ne (hfront _ List.mem_cons_self).symm, hold]

theorem InFlight.applyAll {ws out : List (BitVec 2 × Byte)} {f : BitVec 2 → Byte}
    (h : InFlight old m (ws ++ out) f) : InFlight old m out (applyWrites ws f) := by
  induction ws generalizing f with
  | nil => exact h
  | cons w ws ih => exact ih h.apply

theorem InFlight.index {out : List (BitVec 2 × Byte)} {f : BitVec 2 → Byte} (h : InFlight old m out f) :
    f 0 = old ∨ f 0 = m.index := by
  obtain ⟨hholds, rfl | ⟨hold, -⟩⟩ := h
  · exact .inr hholds.1
  · exact .inl hold

theorem InFlight.arrived {out : List (BitVec 2 × Byte)} {f : BitVec 2 → Byte} (h : InFlight old m out f)
    (hindex : f 0 = m.index) (hne : m.index ≠ old) : out = [] := by
  obtain ⟨-, hnil | ⟨hold, -⟩⟩ := h
  · exact hnil
  · exact absurd (hindex.symm.trans hold) hne

theorem InFlight.length {out : List (BitVec 2 × Byte)} {f : BitVec 2 → Byte} (h : InFlight old m out f) :
    out.length ≤ 4 := by
  obtain ⟨-, rfl | ⟨-, front, rfl, hlength, -⟩⟩ := h
  · exact Nat.zero_le 4
  · rw [List.length_append]
    exact Nat.succ_le_succ hlength

/-- All of a message is still to come. -/
theorem inFlight_sends (m : Message) (guard old : Byte) {f : BitVec 2 → Byte} (hf : f 0 = old) :
    InFlight old m ((m.sends guard).map PortSend.command) f := by
  obtain ⟨flag, dest, index⟩ := m
  have h01 : (1 : BitVec 2) ≠ 0 := by decide
  have h02 : (2 : BitVec 2) ≠ 0 := by decide
  have h03 : (3 : BitVec 2) ≠ 0 := by decide
  cases dest with
  | none =>
      refine ⟨⟨rfl, rfl, fun d hd => nomatch hd⟩, .inr ⟨hf, [(1, flag)], rfl, Nat.le_of_ble_eq_true rfl, ?_⟩⟩
      simp
  | some d =>
      refine ⟨⟨rfl, rfl, ?_⟩, .inr ⟨hf, [(1, flag), (2, loByte d), (3, hiByte d)], rfl, Nat.le_refl 3, ?_⟩⟩
      · rintro d' ⟨⟩
        exact ⟨rfl, rfl⟩
      · simp

/-! ### Where the two are -/

/-- The messages that the program has not answered, what port 0 shows before the first of them is there,
and whether it has been seen. -/
structure UploadPos where
  old : Byte
  todo : List Message
  arrived : Bool

def Coming (old : Byte) (m : Message) (later toSend : List PortSend) (ports : ApuPorts) : Prop :=
  ∃ ws, toSend = ws ++ later ∧
    InFlight old m (ports.portQueue.map ApuPortWrite.command ++ ws.map PortSend.command) ports.inPorts

/-- The writes between the main processor and the program. -/
def Comm (pos : UploadPos) (toSend : List PortSend) (ports : ApuPorts) : Prop :=
  match pos.todo with
  | [] => toSend = [] ∧ ports.portQueue = []
  | m :: ms =>
    m.index ≠ pos.old ∧ ports.outPorts 0 ≠ m.index ∧ Coming pos.old m (session m.index ms) toSend ports ∧
      (pos.arrived = true → ports.inPorts 0 = m.index)

theorem foldl_applyPortWrite (ws : List ApuPortWrite) (ports : ApuPorts) :
    ws.foldl (fun ports w => ports.applyPortWrite w) ports =
      { ports with inPorts := applyWrites (ws.map ApuPortWrite.command) ports.inPorts } := by
  induction ws generalizing ports with
  | nil => rfl
  | cons w ws ih =>
      rw [List.foldl_cons, ih]
      rfl

/-- The drain of the queue. -/
theorem Comm.drain {pos : UploadPos} {toSend : List PortSend} {ports : ApuPorts} (h : Comm pos toSend ports)
    (produced : BitVec 64) : Comm pos toSend (ports.drainPortQueue produced) := by
  have hsplit := drainQueue_append produced ports.portQueue
  unfold Comm at h ⊢
  rw [ApuPorts.drainPortQueue, foldl_applyPortWrite]
  split at h
  next htodo =>
    rw [h.2] at hsplit ⊢
    exact ⟨h.1, rfl⟩
  next m ms htodo =>
    obtain ⟨hne, hout, ⟨ws, hws, hflight⟩, harrived⟩ := h
    have hafter : InFlight pos.old m
        ((drainQueue produced ports.portQueue).2.map ApuPortWrite.command ++ ws.map PortSend.command)
        (applyWrites ((drainQueue produced ports.portQueue).1.map ApuPortWrite.command) ports.inPorts) := by
      apply InFlight.applyAll
      rw [← List.append_assoc, ← List.map_append, hsplit]
      exact hflight
    refine ⟨hne, hout, ⟨ws, hws, hafter⟩, fun h => ?_⟩
    have hnil := (List.append_eq_nil_iff.mp (hflight.arrived (harrived h) hne)).1
    rw [List.map_eq_nil_iff] at hnil
    rw [hnil]
    exact harrived h

theorem session_cons_sends (guard : Byte) (m : Message) (ms : List Message) :
    session guard (m :: ms) = m.sends guard ++ session m.index ms := rfl

/-- A write of the main processor: of the message on its way, since the next one has to wait. -/
theorem Comm.send {pos : UploadPos} {t : Upload} (h : Comm pos t.toSend t.apu.ports) (target : BitVec 64) :
    Comm pos (uploadStep (.send target) t).toSend (uploadStep (.send target) t).apu.ports := by
  obtain ⟨apu, toSend⟩ := t
  dsimp only at h
  cases htoSend : toSend with
  | nil => rwa [htoSend] at h
  | cons w rest =>
      rw [htoSend] at h
      rw [uploadStep]
      dsimp only
      split
      next hguard =>
        unfold Comm at h ⊢
        split at h
        next => exact absurd h.1 (List.cons_ne_nil w rest)
        next m ms htodo =>
          obtain ⟨hne, hout, ⟨ws, hws, hflight⟩, harrived⟩ := h
          cases ws with
          | nil =>
              cases ms with
              | nil => exact absurd hws (List.cons_ne_nil w rest)
              | cons m' ms =>
                  rw [List.nil_append, session, Message.sends, List.cons_append, List.cons_append,
                    List.cons.injEq] at hws
                  rw [hws.1] at hguard
                  exact absurd (by simpa using hguard) hout.symm
          | cons v ws =>
              rw [List.cons_append, List.cons.injEq] at hws
              obtain ⟨rfl, rfl⟩ := hws
              have hroom : apu.ports.portQueue.length < apuPortQueueLen := by
                have hlength := hflight.length
                rw [List.length_append, List.length_map] at hlength
                exact lt_of_le_of_lt (by omega : _ ≤ 4) (by decide)
              rw [(schedulePortWrite_of_room hroom _).1]
              refine ⟨hne, hout, ⟨ws, rfl, ?_⟩, harrived⟩
              rw [List.map_append, List.append_assoc]
              exact hflight
      next => exact h

end SnesRecomp
