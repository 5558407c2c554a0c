import SnesRecomp.Devices.BootUpload

/-!
# The program and the uploads

The stages the program in the boot ROM goes through, each with what it has in its registers and in
sound RAM, and the messages it has still to answer.  A stage survives every instruction
(`BootInv.step`), and what the two processors do in between leaves it alone.
-/

namespace SnesRecomp

variable {blocks done bs : List UploadBlock} {entry : Word} {b : Boot} {pos : UploadPos} {bl : UploadBlock}
  {i : Nat}

/-- The pointer that the message in front of `bs` sends. -/
def kickDest (bs : List UploadBlock) (entry : Word) : Word :=
  match bs with
  | [] => entry
  | bl :: _ => bl.target

/-- What it has in port 1. -/
def kickFlag (bs : List UploadBlock) : Byte :=
  match bs with
  | [] => 0
  | bl :: _ => bl.flag

/-- The messages behind the first `i` bytes of a block. -/
def restMessages (bl : UploadBlock) (bs : List UploadBlock) (entry : Word) (i : Nat) : List Message :=
  byteMessages i (bl.bytes.drop i) ++ uploadMessages bl.kick bs entry

/-- The blocks before, and the first `i` bytes of this one. -/
def partImage (done : List UploadBlock) (bl : UploadBlock) (i : Nat) : Nat → Byte :=
  placeBytes bl.target (bl.bytes.take i) (image done fun _ => 0)

/-! ### Stages -/

/-- Page zero is cleared, and the program waits for the first message. -/
structure Clearing (blocks : List UploadBlock) (entry : Word) (b : Boot) (pos : UploadPos) : Prop where
  todo : pos.todo = uploadMessages 0xCC blocks entry
  ram : Agrees b.ram fun _ => 0
  point : match b.point with
    | .start => b.sp = 0
    | .setSp => b.sp = 0 ∧ b.x = 0xEF
    | .zeroA => b.sp = 0xEF ∧ b.x = 0xEF
    | .clear | .clearDec => b.sp = 0xEF ∧ b.a = 0 ∧ b.x ≠ 0 ∧ b.x.toNat < 0xF0
    | .clearBne => b.sp = 0xEF ∧ b.a = 0 ∧ b.z = (b.x == 0) ∧ b.x.toNat < 0xF0
    | .readyA | .readyB | .waitCmp => b.sp = 0xEF
    | .waitBne => b.sp = 0xEF ∧ (b.z = true → pos.arrived = true)
    | .waitBra => b.sp = 0xEF ∧ pos.arrived = true
    | _ => False

/-- The message in front of `bs` is there, and the program takes its pointer. -/
structure Kicked (done bs : List UploadBlock) (kick : Byte) (entry : Word) (b : Boot) (pos : UploadPos) :
    Prop where
  todo : pos.todo = uploadMessages kick bs entry
  kick_ne : kick ≠ 0
  arrived : pos.arrived = true
  ram : Agrees b.ram (image done fun _ => 0)
  sp : b.sp = 0xEF
  point : match b.point with
    | .loadDest => True
    | .storeDest => mkWord b.a b.y = kickDest bs entry
    | .loadKick => b.dest = kickDest bs entry
    | .ackKick => b.dest = kickDest bs entry ∧ b.a = kick ∧ b.y = kickFlag bs
    | _ => False

/-- The program waits for the first byte of a block. -/
structure Begun (done : List UploadBlock) (bl : UploadBlock) (bs : List UploadBlock) (entry : Word) (b : Boot)
    (pos : UploadPos) : Prop where
  todo : pos.todo = restMessages bl bs entry 0
  ram : Agrees b.ram (image done fun _ => 0)
  sp : b.sp = 0xEF
  dest : b.dest = bl.target
  point : match b.point with
    | .movAY => b.y = bl.flag
    | .movXA => b.a = bl.flag
    | .kickBne => b.z = false
    | .syncMov => True
    | .syncBne => b.z = (b.y == 0) ∧ (b.z = true → pos.arrived = true)
    | _ => False

/-- The last message is answered. -/
structure Ended (blocks : List UploadBlock) (entry : Word) (b : Boot) (pos : UploadPos) : Prop where
  todo : pos.todo = []
  ram : Agrees b.ram (image blocks fun _ => 0)
  sp : b.sp = 0xEF
  dest : b.dest = entry
  y : b.y = 0
  point : match b.point with
    | .movAY => True
    | .movXA => b.a = 0
    | .kickBne => b.a = 0 ∧ b.x = 0 ∧ b.z = true
    | .jump => b.a = 0 ∧ b.x = 0
    | _ => False

/-- The pointer is at the page of byte `i`. -/
structure Boot.Points (b : Boot) (bl : UploadBlock) (i : Nat) : Prop where
  low : b.ram 0 = loByte bl.target
  high : b.ram 1 = hiByte bl.target + BitVec.ofNat 8 (i / 256)

/-- The program waits for byte `i`, or for the message behind the block. -/
structure Taking (done : List UploadBlock) (bl : UploadBlock) (bs : List UploadBlock) (entry : Word) (i : Nat)
    (b : Boot) (pos : UploadPos) : Prop where
  todo : pos.todo = restMessages bl bs entry i
  le : i ≤ bl.bytes.length
  old : 0 < i → pos.old = BitVec.ofNat 8 (i - 1)
  first : i = 0 → pos.arrived = true
  ram : Agrees b.ram (partImage done bl i)
  sp : b.sp = 0xEF
  points : b.Points bl i
  y : b.y = BitVec.ofNat 8 i
  point : match b.point with
    | .loopCmp | .pageBpl | .endCmp => True
    | .loopBne => b.z = true → pos.arrived = true ∧ i < bl.bytes.length
    | .loadData => pos.arrived = true ∧ i < bl.bytes.length
    | .ack => pos.arrived = true ∧ bl.bytes[i]? = some b.a
    | .endBpl => b.n = true → pos.arrived = true ∧ i = bl.bytes.length
    | _ => False

/-- Byte `i` is answered, and the program stores it. -/
structure Storing (done : List UploadBlock) (bl : UploadBlock) (bs : List UploadBlock) (entry : Word) (i : Nat)
    (b : Boot) (pos : UploadPos) : Prop where
  todo : pos.todo = restMessages bl bs entry (i + 1)
  lt : i < bl.bytes.length
  old : pos.old = BitVec.ofNat 8 i
  sp : b.sp = 0xEF
  points : b.Points bl i
  point : match b.point with
    | .storeData => Agrees b.ram (partImage done bl i) ∧ bl.bytes[i]? = some b.a ∧ b.y = BitVec.ofNat 8 i
    | .incY => Agrees b.ram (partImage done bl (i + 1)) ∧ b.y = BitVec.ofNat 8 i
    | .incBne =>
      Agrees b.ram (partImage done bl (i + 1)) ∧ b.y = BitVec.ofNat 8 (i + 1) ∧ b.z = (b.y == 0)
    | .incHigh => Agrees b.ram (partImage done bl (i + 1)) ∧ b.y = BitVec.ofNat 8 (i + 1) ∧ b.y = 0
    | _ => False

/-- Where the program is. -/
inductive BootInv (blocks : List UploadBlock) (entry : Word) (b : Boot) (pos : UploadPos) : Prop
  | clearing (h : Clearing blocks entry b pos)
  | kicked {done bs : List UploadBlock} {kick : Byte} (hblocks : blocks = done ++ bs)
      (h : Kicked done bs kick entry b pos)
  | begun {done bs : List UploadBlock} {bl : UploadBlock} (hblocks : blocks = done ++ bl :: bs)
      (h : Begun done bl bs entry b pos)
  | ended (h : Ended blocks entry b pos)
  | taking {done bs : List UploadBlock} {bl : UploadBlock} {i : Nat} (hblocks : blocks = done ++ bl :: bs)
      (h : Taking done bl bs entry i b pos)
  | storing {done bs : List UploadBlock} {bl : UploadBlock} {i : Nat} (hblocks : blocks = done ++ bl :: bs)
      (h : Storing done bl bs entry i b pos)

/-! ### The messages that are left -/

/-- What comes behind the message in front of `bs`. -/
def afterKick (bs : List UploadBlock) (entry : Word) : List Message :=
  match bs with
  | [] => []
  | bl :: bs => restMessages bl bs entry 0

theorem uploadMessages_eq (kick : Byte) (bs : List UploadBlock) (entry : Word) :
    uploadMessages kick bs entry = kickMessage kick bs entry :: afterKick bs entry := by
  cases bs with
  | nil => rfl
  | cons bl bs => rfl

theorem kickMessage_eq (kick : Byte) (bs : List UploadBlock) (entry : Word) :
    kickMessage kick bs entry = ⟨kickFlag bs, some (kickDest bs entry), kick⟩ := by
  cases bs with
  | nil => rfl
  | cons bl bs => rfl

theorem restMessages_of_lt (bs : List UploadBlock) (entry : Word) {c : Byte} (h : bl.bytes[i]? = some c) :
    restMessages bl bs entry i = ⟨c, none, BitVec.ofNat 8 i⟩ :: restMessages bl bs entry (i + 1) := by
  obtain ⟨hi, hc⟩ := List.getElem?_eq_some_iff.mp h
  rw [restMessages, List.drop_eq_getElem_cons hi, hc]
  rfl

theorem restMessages_length (bl : UploadBlock) (bs : List UploadBlock) (entry : Word) :
    restMessages bl bs entry bl.bytes.length = uploadMessages bl.kick bs entry := by
  rw [restMessages, List.drop_length]
  rfl

/-- The index of the next message. -/
theorem restMessages_head (bl : UploadBlock) (bs : List UploadBlock) (entry : Word) (hi : i ≤ bl.bytes.length) :
    ∃ m ms, restMessages bl bs entry i = m :: ms ∧
      (i < bl.bytes.length ∧ m.index = BitVec.ofNat 8 i ∨ i = bl.bytes.length ∧ m.index = bl.kick) := by
  rcases Nat.lt_or_eq_of_le hi with hlt | rfl
  · exact ⟨_, _, restMessages_of_lt bs entry (List.getElem?_eq_getElem hlt), .inl ⟨hlt, rfl⟩⟩
  · rw [restMessages_length, uploadMessages_eq, kickMessage_eq]
    exact ⟨_, _, rfl, .inr ⟨rfl, rfl⟩⟩

/-! ### Ports and the pointer -/

/-- The program sees the index of the message. -/
theorem Comm.observe {toSend : List PortSend} {ports : ApuPorts} (h : Comm pos toSend ports) {m : Message}
    {ms : List Message} (htodo : pos.todo = m :: ms) (hindex : ports.inPorts 0 = m.index) :
    Comm { pos with arrived := true } toSend ports := by
  obtain ⟨old, todo, arrived⟩ := pos
  dsimp only at htodo
  subst htodo
  exact ⟨h.1, h.2.1, h.2.2.1, fun _ => hindex⟩

/-- The message is there. -/
theorem Comm.arrived {toSend : List PortSend} {ports : ApuPorts} (h : Comm pos toSend ports) {m : Message}
    {ms : List Message} (htodo : pos.todo = m :: ms) (harrived : pos.arrived = true) :
    m.Holds ports.inPorts ∧ ports.portQueue = [] ∧ toSend = session m.index ms := by
  obtain ⟨old, todo, arrived⟩ := pos
  dsimp only at htodo harrived
  subst htodo
  obtain ⟨hne, -, ⟨ws, hws, hflight⟩, hindex⟩ := h
  have hnil := hflight.arrived (hindex harrived) hne
  obtain ⟨hqueue, hsends⟩ := List.append_eq_nil_iff.mp hnil
  rw [hnil] at hflight
  rw [List.map_eq_nil_iff.mp hsends] at hws
  exact ⟨hflight.1, List.map_eq_nil_iff.mp hqueue, hws⟩

theorem Comm.index {toSend : List PortSend} {ports : ApuPorts} (h : Comm pos toSend ports) {m : Message}
    {ms : List Message} (htodo : pos.todo = m :: ms) :
    m.index ≠ pos.old ∧ (ports.inPorts 0 = pos.old ∨ ports.inPorts 0 = m.index) := by
  obtain ⟨old, todo, arrived⟩ := pos
  dsimp only at htodo
  subst htodo
  obtain ⟨hne, -, ⟨ws, -, hflight⟩, -⟩ := h
  exact ⟨hne, hflight.index⟩

/-- A store to an output port that is not an answer. -/
theorem Comm.out {toSend : List PortSend} {ports : ApuPorts} (h : Comm pos toSend ports)
    {f : BitVec 2 → Byte} (hf : ∀ m ms, pos.todo = m :: ms → f 0 ≠ m.index) :
    Comm pos toSend { ports with outPorts := f } := by
  obtain ⟨old, todo, arrived⟩ := pos
  cases todo with
  | nil => exact h
  | cons m ms => exact ⟨h.1, hf m ms rfl, h.2.2.1, h.2.2.2⟩

/-- The answer to a message; the next one may come. -/
theorem Comm.answer {toSend : List PortSend} {ports : ApuPorts} (h : Comm pos toSend ports) {m : Message}
    {ms : List Message} (htodo : pos.todo = m :: ms) (harrived : pos.arrived = true)
    (hms : ∀ m' ms', ms = m' :: ms' → m'.index ≠ m.index) :
    Comm ⟨m.index, ms, false⟩ toSend
      { ports with outPorts := Function.update ports.outPorts 0 m.index } := by
  obtain ⟨hholds, hqueue, hsend⟩ := h.arrived htodo harrived
  cases ms with
  | nil => exact ⟨hsend, hqueue⟩
  | cons m' ms =>
      have hne := hms m' ms rfl
      refine ⟨hne, ?_, ⟨m'.sends m.index, hsend, ?_⟩, fun h => nomatch h⟩
      · change Function.update ports.outPorts 0 m.index 0 ≠ m'.index
        rw [Function.update_self]
        exact hne.symm
      · dsimp only
        rw [hqueue]
        exact inFlight_sends m' m.index m.index hholds.1

theorem Boot.Points.dest (h : b.Points bl i) :
    b.dest + (BitVec.ofNat 8 i).setWidth 16 = bl.target + BitVec.ofNat 16 i := by
  rw [Boot.dest, h.low, h.high]
  apply BitVec.eq_of_toNat_eq
  simp only [BitVec.toNat_add, BitVec.toNat_setWidth, BitVec.toNat_ofNat, mkWord_toNat, loByte_toNat,
    hiByte_toNat]
  omega

theorem ofNat_succ (i : Nat) : BitVec.ofNat 8 i + 1 = BitVec.ofNat 8 (i + 1) := by
  apply BitVec.eq_of_toNat_eq
  have hone : (1 : Byte).toNat = 1 := rfl
  simp only [BitVec.toNat_add, BitVec.toNat_ofNat, hone]
  omega

theorem partImage_succ (done : List UploadBlock) {c : Byte} (h : bl.bytes[i]? = some c) :
    partImage done bl (i + 1) =
      Function.update (partImage done bl i) (bl.target + BitVec.ofNat 16 i).toNat c := by
  obtain ⟨hi, hc⟩ := List.getElem?_eq_some_iff.mp h
  rw [partImage, List.take_succ_eq_append_getElem hi, hc, placeBytes_concat, List.length_take,
    Nat.min_eq_left hi.le]
  rfl

theorem partImage_length (done : List UploadBlock) (bl : UploadBlock) :
    partImage done bl bl.bytes.length = image (done ++ [bl]) fun _ => 0 := by
  rw [partImage, List.take_length, image_concat]

/-! ### Steps -/

/-- The program keeps its place, in a stage that goes on. -/
def BootInv.Next (blocks : List UploadBlock) (entry : Word) (toSend : List PortSend) (b : Boot) : Prop :=
  ∃ pos, BootInv blocks entry b pos ∧ Comm pos toSend b.ports

variable {toSend : List PortSend}

/-- The stage goes on, with the index in port 0 seen, or the first message is taken. -/
theorem Clearing.step (h : Clearing blocks entry b pos) (hcomm : Comm pos toSend b.ports) :
    (∃ arrived, Clearing blocks entry b.step { pos with arrived := arrived } ∧
      Comm { pos with arrived := arrived } toSend b.step.ports ∧
        (arrived = true → pos.arrived = true ∨ b.ports.inPorts 0 = 0xCC)) ∨
      pos.arrived = true ∧ Kicked [] blocks 0xCC entry b.step pos ∧ Comm pos toSend b.step.ports := by
  obtain ⟨htodo, hram, hpoint⟩ := h
  obtain ⟨point, a, x, y, sp, z, n, ram, ports⟩ := b
  have hhead := htodo.trans (uploadMessages_eq 0xCC blocks entry)
  rw [kickMessage_eq] at hhead
  dsimp only at hram hcomm
  cases point <;> dsimp only at hpoint <;> dsimp only [Boot.step, Boot.flags, Boot.out]
  case start => exact .inl ⟨pos.arrived, ⟨htodo, hram, hpoint, rfl⟩, hcomm, .inl⟩
  case setSp => exact .inl ⟨pos.arrived, ⟨htodo, hram, hpoint.2, hpoint.2⟩, hcomm, .inl⟩
  case zeroA =>
    obtain ⟨rfl, rfl⟩ := hpoint
    exact .inl ⟨pos.arrived, ⟨htodo, hram, rfl, rfl, (by decide : (0xEF : Byte) ≠ 0),
      (by decide : (0xEF : Byte).toNat < 0xF0)⟩, hcomm, .inl⟩
  case clear =>
    have hzero : Agrees (Function.update ram x.toNat a) fun _ => 0 := by
      intro c hc
      rw [hpoint.2.1]
      by_cases hcx : c = x.toNat
      · rw [hcx, Function.update_self]
      · rw [Function.update_of_ne hcx, hram c hc]
    exact .inl ⟨pos.arrived, ⟨htodo, hzero, hpoint⟩, hcomm, .inl⟩
  case clearDec =>
    obtain ⟨hsp, ha, hx, hlt⟩ := hpoint
    have hdec : (x - 1).toNat < 0xF0 := by
      have hne : x.toNat ≠ 0 := fun h => hx (BitVec.eq_of_toNat_eq h)
      have hone : (1 : Byte).toNat = 1 := rfl
      rw [BitVec.toNat_sub, hone]
      omega
    exact .inl ⟨pos.arrived, ⟨htodo, hram, hsp, ha, rfl, hdec⟩, hcomm, .inl⟩
  case clearBne =>
    obtain ⟨hsp, ha, hz, hlt⟩ := hpoint
    cases z with
    | true => exact .inl ⟨pos.arrived, ⟨htodo, hram, hsp⟩, hcomm, .inl⟩
    | false => exact .inl ⟨pos.arrived, ⟨htodo, hram, hsp, ha, by simpa using hz.symm, hlt⟩, hcomm, .inl⟩
  case readyA =>
    refine .inl ⟨pos.arrived, ⟨htodo, hram.update_scratch (by decide) _, hpoint⟩, hcomm.out ?_, .inl⟩
    intro m ms hm
    rw [hm, List.cons.injEq] at hhead
    rw [hhead.1, Function.update_self]
    exact (by decide : (0xAA : Byte) ≠ 0xCC)
  case readyB =>
    refine .inl ⟨pos.arrived, ⟨htodo, hram.update_scratch (by decide) _, hpoint⟩, hcomm.out ?_, .inl⟩
    intro m ms hm
    rw [Function.update_of_ne (by decide)]
    rw [Comm, hm] at hcomm
    exact hcomm.2.1
  case waitCmp =>
    by_cases hindex : ports.inPorts 0 = 0xCC
    · exact .inl ⟨true, ⟨htodo, hram, hpoint, fun _ => rfl⟩, hcomm.observe hhead hindex, fun _ => .inr hindex⟩
    · refine .inl ⟨pos.arrived, ⟨htodo, hram, hpoint, fun hz => absurd ?_ hindex⟩, hcomm, .inl⟩
      exact BitVec.sub_eq_iff_eq_add.mp (beq_iff_eq.mp hz) |>.trans (BitVec.zero_add _)
  case waitBne =>
    obtain ⟨hsp, hz⟩ := hpoint
    cases z with
    | true => exact .inl ⟨pos.arrived, ⟨htodo, hram, hsp, hz rfl⟩, hcomm, .inl⟩
    | false => exact .inl ⟨pos.arrived, ⟨htodo, hram, hsp⟩, hcomm, .inl⟩
  case waitBra =>
    exact .inr ⟨hpoint.2, ⟨htodo, (by decide : (0xCC : Byte) ≠ 0), hpoint.2, hram, hpoint.1, trivial⟩, hcomm⟩

theorem Kicked.step {kick : Byte} (hblocks : blocks = done ++ bs) (h : Kicked done bs kick entry b pos)
    (hcomm : Comm pos toSend b.ports) : BootInv.Next blocks entry toSend b.step := by
  obtain ⟨htodo, hkick, harrived, hram, hsp, hpoint⟩ := h
  obtain ⟨point, a, x, y, sp, z, n, ram, ports⟩ := b
  have hhead := htodo.trans (uploadMessages_eq kick bs entry)
  rw [kickMessage_eq] at hhead
  dsimp only at hram hsp hcomm
  obtain ⟨⟨hindex, hflag, hdest⟩, -, -⟩ := hcomm.arrived hhead harrived
  obtain ⟨hlow, hhigh⟩ := hdest _ rfl
  cases point <;> dsimp only at hpoint <;> dsimp only [Boot.step, Boot.flags, Boot.out]
  case loadDest =>
    refine ⟨pos, .kicked hblocks ⟨htodo, hkick, harrived, hram, hsp, ?_⟩, hcomm⟩
    change mkWord (ports.inPorts 2) (ports.inPorts 3) = kickDest bs entry
    rw [hlow, hhigh, mkWord_loByte_hiByte]
  case storeDest =>
    have hpointer : Agrees (Function.update (Function.update ram 0 a) 1 y) (image done fun _ => 0) :=
      (hram.update_scratch (by decide) a).update_scratch (by decide) y
    exact ⟨pos, .kicked hblocks ⟨htodo, hkick, harrived, hpointer, hsp, hpoint⟩, hcomm⟩
  case loadKick =>
    exact ⟨pos, .kicked hblocks ⟨htodo, hkick, harrived, hram, hsp, hpoint, hindex, hflag⟩, hcomm⟩
  case ackKick =>
    obtain ⟨hpointer, rfl, rfl⟩ := hpoint
    have hnext : Comm ⟨a, afterKick bs entry, false⟩ toSend
        { ports with outPorts := Function.update ports.outPorts 0 a } := by
      refine hcomm.answer hhead harrived fun m' ms' hms => ?_
      cases bs with
      | nil => exact nomatch hms
      | cons bl bs =>
          obtain ⟨m, ms, hm, ⟨-, hzero⟩ | ⟨hlength, -⟩⟩ := restMessages_head bl bs entry (Nat.zero_le _)
          · rw [afterKick, hm, List.cons.injEq] at hms
            rw [← hms.1, hzero]
            exact hkick.symm
          · exact absurd (List.eq_nil_of_length_eq_zero hlength.symm) bl.bytes_ne
    have hram' : Agrees (Function.update ram (0xF4 + (0 : BitVec 2).toNat) a) (image done fun _ => 0) :=
      hram.update_scratch (by decide) a
    cases bs with
    | nil =>
        rw [List.append_nil] at hblocks
        rw [← hblocks] at hram'
        exact ⟨_, .ended ⟨rfl, hram', hsp, hpointer, rfl, trivial⟩, hnext⟩
    | cons bl bs => exact ⟨_, .begun hblocks ⟨rfl, hram', hsp, hpointer, rfl⟩, hnext⟩

theorem Begun.step (hblocks : blocks = done ++ bl :: bs) (h : Begun done bl bs entry b pos)
    (hcomm : Comm pos toSend b.ports) : BootInv.Next blocks entry toSend b.step := by
  obtain ⟨htodo, hram, hsp, hdest, hpoint⟩ := h
  obtain ⟨point, a, x, y, sp, z, n, ram, ports⟩ := b
  dsimp only at hram hsp hdest hcomm
  cases point <;> dsimp only at hpoint <;> dsimp only [Boot.step, Boot.flags]
  case movAY => exact ⟨pos, .begun hblocks ⟨htodo, hram, hsp, hdest, hpoint⟩, hcomm⟩
  case movXA =>
    have hz : (a == 0) = false := beq_false_of_ne (hpoint ▸ bl.flag_ne)
    exact ⟨pos, .begun hblocks ⟨htodo, hram, hsp, hdest, hz⟩, hcomm⟩
  case kickBne =>
    subst hpoint
    exact ⟨pos, .begun hblocks ⟨htodo, hram, hsp, hdest, trivial⟩, hcomm⟩
  case syncMov =>
    obtain ⟨c, cs, hbytes⟩ := List.exists_cons_of_ne_nil bl.bytes_ne
    have hhead := htodo.trans (restMessages_of_lt bs entry (c := c) (by rw [hbytes]; rfl))
    by_cases hindex : ports.inPorts 0 = 0
    · exact ⟨{ pos with arrived := true }, .begun hblocks ⟨htodo, hram, hsp, hdest, rfl, fun _ => rfl⟩,
        hcomm.observe hhead hindex⟩
    · exact ⟨pos, .begun hblocks ⟨htodo, hram, hsp, hdest, rfl, fun hz => absurd (beq_iff_eq.mp hz) hindex⟩,
        hcomm⟩
  case syncBne =>
    obtain ⟨hy, harrived⟩ := hpoint
    cases z with
    | false => exact ⟨pos, .begun hblocks ⟨htodo, hram, hsp, hdest, trivial⟩, hcomm⟩
    | true =>
        have hlow : ram 0 = loByte bl.target := by rw [← hdest, Boot.dest, loByte_mkWord]
        have hhigh : ram 1 = hiByte bl.target + BitVec.ofNat 8 (0 / 256) := by
          rw [← hdest, Boot.dest, hiByte_mkWord]
          exact (BitVec.add_zero _).symm
        exact ⟨pos, .taking hblocks ⟨htodo, Nat.zero_le _, fun h => absurd h (lt_irrefl 0),
          fun _ => harrived rfl, hram, hsp, ⟨hlow, hhigh⟩, beq_iff_eq.mp hy.symm, trivial⟩, hcomm⟩

theorem Ended.step (h : Ended blocks entry b pos) (hjump : b.point ≠ .jump)
    (hcomm : Comm pos toSend b.ports) : BootInv.Next blocks entry toSend b.step := by
  obtain ⟨htodo, hram, hsp, hdest, hy, hpoint⟩ := h
  obtain ⟨point, a, x, y, sp, z, n, ram, ports⟩ := b
  dsimp only at hram hsp hdest hy hjump hcomm
  cases point <;> dsimp only at hpoint <;> dsimp only [Boot.step, Boot.flags]
  case movAY => exact ⟨pos, .ended ⟨htodo, hram, hsp, hdest, hy, hy⟩, hcomm⟩
  case movXA =>
    subst hpoint
    exact ⟨pos, .ended ⟨htodo, hram, hsp, hdest, hy, rfl, rfl, rfl⟩, hcomm⟩
  case kickBne =>
    obtain ⟨ha, hx, rfl⟩ := hpoint
    exact ⟨pos, .ended ⟨htodo, hram, hsp, hdest, hy, ha, hx⟩, hcomm⟩
  case jump => exact absurd rfl hjump

/-! ### The bytes of a block -/

theorem bit_of_step (i : Nat) : (BitVec.ofNat 8 i - BitVec.ofNat 8 (i - 1)).getLsbD 7 = true → i = 0 := by
  intro h
  by_contra hi
  have hone : BitVec.ofNat 8 i - BitVec.ofNat 8 (i - 1) = 1 := by
    apply BitVec.eq_of_toNat_eq
    have hone : (1 : Byte).toNat = 1 := rfl
    simp only [BitVec.toNat_sub, BitVec.toNat_ofNat, hone]
    omega
  rw [hone] at h
  exact absurd h (by decide)

theorem ofNat_ne_pred (hi : 0 < i) : BitVec.ofNat 8 i ≠ BitVec.ofNat 8 (i - 1) := by
  intro h
  have hnat := congrArg BitVec.toNat h
  simp only [BitVec.toNat_ofNat] at hnat
  omega

/-- What a comparison of port 0 with the next index says. -/
theorem Taking.compare (h : Taking done bl bs entry i b pos) (hcomm : Comm pos toSend b.ports) :
    ∃ arrived, (pos.arrived = true → arrived = true) ∧ Comm { pos with arrived := arrived } toSend b.ports ∧
      ((b.y - b.ports.inPorts 0 == 0) = true → arrived = true ∧ i < bl.bytes.length) ∧
        ((b.y - b.ports.inPorts 0).getLsbD 7 = true → arrived = true ∧ i = bl.bytes.length) := by
  obtain ⟨m, ms, hm, hkind⟩ := restMessages_head bl bs entry h.le
  have hhead := h.todo.trans hm
  rw [h.y]
  by_cases hindex : b.ports.inPorts 0 = m.index
  · refine ⟨true, fun _ => rfl, hcomm.observe hhead hindex, ?_⟩
    rw [hindex]
    rcases hkind with ⟨hi, hbyte⟩ | ⟨hi, hkick⟩
    · rw [hbyte, BitVec.sub_self]
      exact ⟨fun _ => ⟨rfl, hi⟩, fun hn => absurd hn (by decide)⟩
    · have hbehind := bl.kick_behind
      rw [← hi] at hbehind
      rw [hkick]
      refine ⟨fun hz => ?_, fun _ => ⟨rfl, hi⟩⟩
      rw [beq_iff_eq.mp hz] at hbehind
      exact absurd hbehind (by decide)
  · -- The index of the byte before is still in port 0.
    have hpos : 0 < i := by
      by_contra hi
      have harrived := hcomm.arrived hhead (h.first (by omega))
      exact hindex harrived.1.1
    have hold := ((hcomm.index hhead).2.resolve_right hindex).trans (h.old hpos)
    rw [hold]
    refine ⟨pos.arrived, id, hcomm, fun hz => ?_, fun hn => absurd (bit_of_step i hn) hpos.ne'⟩
    have heq := (BitVec.sub_eq_iff_eq_add.mp (beq_iff_eq.mp hz)).trans (BitVec.zero_add _)
    exact absurd heq (ofNat_ne_pred hpos)

/-- The index behind a byte is another one. -/
theorem index_succ_ne (hi : i < bl.bytes.length) {m : Message} {ms : List Message}
    (hm : restMessages bl bs entry (i + 1) = m :: ms) : m.index ≠ BitVec.ofNat 8 i := by
  obtain ⟨m', ms', hm', hkind⟩ := restMessages_head bl bs entry hi
  rw [hm, List.cons.injEq] at hm'
  rw [hm'.1]
  rcases hkind with ⟨-, hbyte⟩ | ⟨hlength, hkick⟩
  · rw [hbyte]
    exact ofNat_ne_pred (Nat.succ_pos i)
  · have hbehind := bl.kick_behind
    rw [← hlength] at hbehind
    rw [hkick]
    rintro hk
    rw [hk] at hbehind
    exact absurd (bit_of_step (i + 1) hbehind) (Nat.succ_ne_zero i)

theorem Taking.step (hblocks : blocks = done ++ bl :: bs) (h : Taking done bl bs entry i b pos)
    (hcomm : Comm pos toSend b.ports) : BootInv.Next blocks entry toSend b.step := by
  have hcompare := h.compare hcomm
  obtain ⟨htodo, hle, hold, hfirst, hram, hsp, ⟨hlow, hhigh⟩, hy, hpoint⟩ := h
  obtain ⟨point, a, x, y, sp, z, n, ram, ports⟩ := b
  dsimp only at hram hsp hlow hhigh hy hcomm hcompare
  obtain ⟨arrived, hkeeps, hcomm', hbyte, hkick⟩ := hcompare
  cases point <;> dsimp only at hpoint <;> dsimp only [Boot.step, Boot.flags, Boot.out]
  case loopCmp =>
    exact ⟨{ pos with arrived := arrived }, .taking hblocks ⟨htodo, hle, hold, fun h => hkeeps (hfirst h), hram,
      hsp, ⟨hlow, hhigh⟩, hy, hbyte⟩, hcomm'⟩
  case loopBne =>
    cases z with
    | true =>
        exact ⟨pos, .taking hblocks ⟨htodo, hle, hold, hfirst, hram, hsp, ⟨hlow, hhigh⟩, hy, hpoint rfl⟩, hcomm⟩
    | false =>
        exact ⟨pos, .taking hblocks ⟨htodo, hle, hold, hfirst, hram, hsp, ⟨hlow, hhigh⟩, hy, trivial⟩, hcomm⟩
  case loadData =>
    obtain ⟨harrived, hi⟩ := hpoint
    have hbyte := List.getElem?_eq_getElem hi
    have hhead := htodo.trans (restMessages_of_lt bs entry hbyte)
    have hdata : bl.bytes[i]? = some (ports.inPorts 1) := by
      rw [hbyte]
      exact congrArg some (hcomm.arrived hhead harrived).1.2.1.symm
    exact ⟨pos, .taking hblocks ⟨htodo, hle, hold, hfirst, hram, hsp, ⟨hlow, hhigh⟩, hy, harrived, hdata⟩, hcomm⟩
  case ack =>
    obtain ⟨harrived, hbyte⟩ := hpoint
    obtain ⟨hi, -⟩ := List.getElem?_eq_some_iff.mp hbyte
    have hhead := htodo.trans (restMessages_of_lt bs entry hbyte)
    have hnext := hcomm.answer hhead harrived fun m' ms' hms => index_succ_ne hi hms
    have hram' : Agrees (Function.update ram (0xF4 + (0 : BitVec 2).toNat) y) (partImage done bl i) :=
      hram.update_scratch (by decide) y
    rw [← hy] at hnext
    exact ⟨_, .storing hblocks ⟨rfl, hi, hy, hsp, ⟨hlow, hhigh⟩, hram', hbyte, hy⟩, hnext⟩
  case pageBpl =>
    cases n with
    | true =>
        exact ⟨pos, .taking hblocks ⟨htodo, hle, hold, hfirst, hram, hsp, ⟨hlow, hhigh⟩, hy, trivial⟩, hcomm⟩
    | false =>
        exact ⟨pos, .taking hblocks ⟨htodo, hle, hold, hfirst, hram, hsp, ⟨hlow, hhigh⟩, hy, trivial⟩, hcomm⟩
  case endCmp =>
    exact ⟨{ pos with arrived := arrived }, .taking hblocks ⟨htodo, hle, hold, fun h => hkeeps (hfirst h), hram,
      hsp, ⟨hlow, hhigh⟩, hy, hkick⟩, hcomm'⟩
  case endBpl =>
    cases n with
    | true =>
        obtain ⟨harrived, rfl⟩ := hpoint rfl
        rw [restMessages_length] at htodo
        rw [partImage_length] at hram
        rw [List.append_cons] at hblocks
        exact ⟨pos, .kicked hblocks ⟨htodo, bl.kick_ne, harrived, hram, hsp, trivial⟩, hcomm⟩
    | false =>
        exact ⟨pos, .taking hblocks ⟨htodo, hle, hold, hfirst, hram, hsp, ⟨hlow, hhigh⟩, hy, trivial⟩, hcomm⟩

theorem Storing.step (hblocks : blocks = done ++ bl :: bs) (hclear : bl.Clear)
    (h : Storing done bl bs entry i b pos) (hcomm : Comm pos toSend b.ports) :
    BootInv.Next blocks entry toSend b.step := by
  have hdest := h.points.dest
  obtain ⟨htodo, hi, hold, hsp, ⟨hlow, hhigh⟩, hpoint⟩ := h
  obtain ⟨point, a, x, y, sp, z, n, ram, ports⟩ := b
  dsimp only at hsp hlow hhigh hcomm
  cases point <;> dsimp only at hpoint <;> dsimp only [Boot.step, Boot.flags]
  case storeData =>
    obtain ⟨hram, hbyte, rfl⟩ := hpoint
    rw [hdest]
    have hnot := hclear i hi
    have hzero : 0 ≠ (bl.target + BitVec.ofNat 16 i).toNat := fun h => hnot (h ▸ (by decide : Scratch 0))
    have hone : 1 ≠ (bl.target + BitVec.ofNat 16 i).toNat := fun h => hnot (h ▸ (by decide : Scratch 1))
    have hram' := hram.update (bl.target + BitVec.ofNat 16 i).toNat a
    rw [← partImage_succ done hbyte] at hram'
    refine ⟨pos, .storing hblocks ⟨htodo, hi, hold, hsp, ⟨?_, ?_⟩, hram', rfl⟩, hcomm⟩
    · exact (Function.update_of_ne hzero ..).trans hlow
    · exact (Function.update_of_ne hone ..).trans hhigh
  case incY =>
    obtain ⟨hram, rfl⟩ := hpoint
    exact ⟨pos, .storing hblocks ⟨htodo, hi, hold, hsp, ⟨hlow, hhigh⟩, hram, ofNat_succ i, rfl⟩, hcomm⟩
  case incBne =>
    obtain ⟨hram, hy, hz⟩ := hpoint
    cases z with
    | true =>
        exact ⟨pos, .storing hblocks ⟨htodo, hi, hold, hsp, ⟨hlow, hhigh⟩, hram, hy, beq_iff_eq.mp hz.symm⟩,
          hcomm⟩
    | false =>
        have hpage : (i + 1) / 256 = i / 256 := by
          have hne : y ≠ 0 := by simpa using hz.symm
          have hmod : (i + 1) % 256 ≠ 0 := by
            intro hmod
            refine hne (BitVec.eq_of_toNat_eq ?_)
            rw [hy, BitVec.toNat_ofNat]
            exact hmod
          omega
        exact ⟨pos, .taking hblocks ⟨htodo, hi, fun _ => hold, fun h => absurd h (Nat.succ_ne_zero i),
          hram, hsp, ⟨hlow, by rw [hpage]; exact hhigh⟩, hy, trivial⟩, hcomm⟩
  case incHigh =>
    obtain ⟨hram, hy, rfl⟩ := hpoint
    have hmod : (i + 1) % 256 = 0 := by
      have hnat := congrArg BitVec.toNat hy
      rw [BitVec.toNat_ofNat] at hnat
      exact hnat.symm
    have hpage : hiByte bl.target + BitVec.ofNat 8 (i / 256) + 1 =
        hiByte bl.target + BitVec.ofNat 8 ((i + 1) / 256) := by
      rw [BitVec.add_assoc, ofNat_succ]
      congr 2
      omega
    refine ⟨pos, .taking hblocks ⟨htodo, hi, fun _ => hold, fun h => absurd h (Nat.succ_ne_zero i),
      hram.update_scratch (by decide : Scratch 1) _, hsp, ⟨?_, ?_⟩, hy, trivial⟩, hcomm⟩
    · change Function.update ram 1 (ram 1 + 1) 0 = _
      rw [Function.update_of_ne (by decide), hlow]
    · change Function.update ram 1 (ram 1 + 1) 1 = _
      rw [Function.update_self, hhigh, hpage]

/-! ### All stages -/

theorem BootInv.step (hclear : ∀ bl ∈ blocks, bl.Clear) (h : BootInv blocks entry b pos)
    (hjump : b.point ≠ .jump) (hcomm : Comm pos toSend b.ports) : BootInv.Next blocks entry toSend b.step := by
  cases h with
  | clearing h =>
      rcases h.step hcomm with ⟨arrived, hnext, hcomm', -⟩ | ⟨-, hnext, hcomm'⟩
      · exact ⟨_, .clearing hnext, hcomm'⟩
      · exact ⟨_, .kicked (List.nil_append blocks).symm hnext, hcomm'⟩
  | kicked hblocks h => exact h.step hblocks hcomm
  | begun hblocks h => exact h.step hblocks hcomm
  | ended h => exact h.step hjump hcomm
  | taking hblocks h => exact h.step hblocks hcomm
  | storing hblocks h =>
      exact h.step hblocks (hclear _ (hblocks ▸ List.mem_append_right _ List.mem_cons_self)) hcomm

/-- The ports are no part of the stage. -/
theorem BootInv.withPorts (h : BootInv blocks entry b pos) (ports : ApuPorts) :
    BootInv blocks entry { b with ports := ports } pos := by
  cases h with
  | clearing h => exact .clearing ⟨h.todo, h.ram, h.point⟩
  | kicked hblocks h => exact .kicked hblocks ⟨h.todo, h.kick_ne, h.arrived, h.ram, h.sp, h.point⟩
  | begun hblocks h => exact .begun hblocks ⟨h.todo, h.ram, h.sp, h.dest, h.point⟩
  | ended h => exact .ended ⟨h.todo, h.ram, h.sp, h.dest, h.y, h.point⟩
  | taking hblocks h =>
      exact .taking hblocks
        ⟨h.todo, h.le, h.old, h.first, h.ram, h.sp, ⟨h.points.low, h.points.high⟩, h.y, h.point⟩
  | storing hblocks h =>
      exact .storing hblocks ⟨h.todo, h.lt, h.old, h.sp, ⟨h.points.low, h.points.high⟩, h.point⟩

theorem BootInv.clear_lt (h : BootInv blocks entry b pos) (hp : b.point = .clear) : b.x.toNat < 0xF0 := by
  cases h with
  | clearing h =>
      have hpoint := h.point
      rw [hp] at hpoint
      exact hpoint.2.2.2
  | kicked _ h | begun _ h | ended h | taking _ h | storing _ h =>
      have hpoint := h.point
      rw [hp] at hpoint
      exact hpoint.elim

theorem BootInv.store_notRegister (hclear : ∀ bl ∈ blocks, bl.Clear) (h : BootInv blocks entry b pos)
    (hp : b.point = .storeData) : NotRegister (b.dest + b.y.setWidth 16) := by
  cases h with
  | storing hblocks h =>
      have hpoint := h.point
      rw [hp] at hpoint
      have hnot := hclear _ (hblocks ▸ List.mem_append_right _ List.mem_cons_self) _ h.lt
      rw [hpoint.2.2, h.points.dest, NotRegister]
      rw [Scratch] at hnot
      omega
  | clearing h | kicked _ h | begun _ h | ended h | taking _ h =>
      have hpoint := h.point
      rw [hp] at hpoint
      exact hpoint.elim

theorem BootInv.ended_of_jump (h : BootInv blocks entry b pos) (hp : b.point = .jump) :
    Ended blocks entry b pos := by
  cases h with
  | ended h => exact h
  | clearing h | kicked _ h | begun _ h | taking _ h | storing _ h =>
      have hpoint := h.point
      rw [hp] at hpoint
      exact hpoint.elim

/-! ### The two processors -/

/-- The program in the boot ROM is at work. -/
def Booting (blocks : List UploadBlock) (entry : Word) (t : Upload) : Prop :=
  ∃ b pos, Shows b t.apu ∧ BootInv blocks entry b pos ∧ Comm pos t.toSend b.ports

/-- The processor is at the entry, with all blocks in sound RAM and nothing left to send. -/
structure HandedOver (blocks : List UploadBlock) (entry : Word) (t : Upload) : Prop where
  rom : InRom t.apu
  pc : t.apu.spc.pc = entry
  a : t.apu.spc.a = 0
  x : t.apu.spc.x = 0
  y : t.apu.spc.y = 0
  sp : t.apu.spc.sp = 0xEF
  ram : Agrees t.apu.ram (image blocks fun _ => 0)
  sent : t.toSend = []
  queue : t.apu.ports.portQueue = []

/-- What the processor does not do leaves all but the ports alone. -/
structure SameProgram (apu apu' : Apu) : Prop where
  spc : apu'.spc = apu.spc
  readable : apu'.romReadable = apu.romReadable
  ram : apu'.ram = apu.ram
  echo : apu'.dsp.echoWrites = apu.dsp.echoWrites

theorem InRom.of_same {apu apu' : Apu} (h : InRom apu) (hsame : SameProgram apu apu') : InRom apu' :=
  ⟨hsame.readable.trans h.readable, (congrArg Spc.stopped hsame.spc).trans h.runs,
    (congrArg Spc.p hsame.spc).trans h.page, hsame.echo.trans h.echo⟩

theorem Shows.of_same {apu apu' : Apu} (h : Shows b apu) (hsame : SameProgram apu apu') :
    Shows { b with ports := apu'.ports } apu' := by
  refine ⟨h.rom.of_same hsame, (congrArg Spc.pc hsame.spc).trans h.pc, ?_⟩
  calc apu'.boot b.point = { apu.boot b.point with ports := apu'.ports } := by
        rw [Apu.boot, hsame.spc, hsame.ram]
        rfl
    _ = { b with ports := apu'.ports } := congrArg (fun b : Boot => { b with ports := apu'.ports }) h.view

theorem Booting.of_same {t : Upload} {apu' : Apu} (h : Booting blocks entry t)
    (hsame : SameProgram t.apu apu')
    (hports : ∀ pos, Comm pos t.toSend t.apu.ports → Comm pos toSend apu'.ports) :
    Booting blocks entry ⟨apu', toSend⟩ := by
  obtain ⟨b, pos, hshows, hinv, hcomm⟩ := h
  have hb : b.ports = t.apu.ports := congrArg Boot.ports hshows.view.symm
  rw [hb] at hcomm
  exact ⟨_, pos, hshows.of_same hsame, hinv.withPorts _, hports pos hcomm⟩

theorem HandedOver.of_same {t : Upload} {apu' : Apu} (h : HandedOver blocks entry t)
    (hsame : SameProgram t.apu apu') (hqueue : apu'.ports.portQueue = t.apu.ports.portQueue) :
    HandedOver blocks entry ⟨apu', t.toSend⟩ :=
  ⟨h.rom.of_same hsame, (congrArg Spc.pc hsame.spc).trans h.pc, (congrArg Spc.a hsame.spc).trans h.a,
    (congrArg Spc.x hsame.spc).trans h.x, (congrArg Spc.y hsame.spc).trans h.y,
    (congrArg Spc.sp hsame.spc).trans h.sp, fun c hc => (congrFun hsame.ram c).trans (h.ram c hc), h.sent,
    hqueue.trans h.queue⟩

/-- The DSP leaves sound RAM alone as long as it writes no echo. -/
theorem dspCycle_ram (shadow : Int → Int → Int × Int) {dsp : Dsp} (h : dsp.echoWrites = false) :
    (dspCycle shadow dsp).apuRam = dsp.apuRam ∧ (dspCycle shadow dsp).echoWrites = dsp.echoWrites := by
  obtain ⟨outL, outR, total, hparts⟩ := dspCycle_parts shadow dsp
  obtain ⟨sample, counter, hnoise⟩ := handleNoise_only (handleEcho (mixVoices dsp).1 outL outR).1
  obtain ⟨channel, ram, hmix⟩ := mixVoices_only dsp
  rw [hparts, hnoise, hmix]
  refine ⟨?_, rfl⟩
  simp only [endCycle, handleEcho, stepEcho, h]
  rfl

theorem sameProgram_sample (produced : BitVec 64) (shadow : Int → Int → Int × Int) {apu : Apu} (h : InRom apu) :
    SameProgram apu (apu.cycleSample produced shadow) := by
  unfold Apu.cycleSample
  split
  · obtain ⟨hram, hecho⟩ := dspCycle_ram shadow h.echo
    exact ⟨rfl, rfl, hram, hecho⟩
  · exact ⟨rfl, rfl, rfl, rfl⟩

theorem drainPortQueue_nil {ports : ApuPorts} (h : ports.portQueue = []) (produced : BitVec 64) :
    (ports.drainPortQueue produced).portQueue = [] := by
  rw [ApuPorts.drainPortQueue, h]
  rfl

/-- The processor's part of a cycle. -/
theorem Booting.cycleSpc (hclear : ∀ bl ∈ blocks, bl.Clear) {t : Upload} (h : Booting blocks entry t) :
    Booting blocks entry ⟨t.apu.cycleSpc, t.toSend⟩ ∨ HandedOver blocks entry ⟨t.apu.cycleSpc, t.toSend⟩ := by
  unfold Apu.cycleSpc
  split
  next hleft =>
    obtain ⟨b, pos, hshows, hinv, hcomm⟩ := h
    by_cases hjump : b.point = .jump
    · have hended := hinv.ended_of_jump hjump
      have hpoint := hended.point
      rw [hjump] at hpoint
      obtain ⟨hrom, hpc, hview⟩ := shows_jump hshows hjump hpoint.2
      have hpos := hcomm
      rw [Comm, hended.todo] at hpos
      obtain ⟨htodo, hram, hsp, hdest, hy, -⟩ := hended
      subst hview
      exact .inr ⟨⟨hrom.1, hrom.2, hrom.3, hrom.4⟩, hpc.trans hdest, hpoint.1, hpoint.2, hy, hsp, hram, hpos.1,
        hpos.2⟩
    · have hnext := shows_step hshows hjump hinv.clear_lt (hinv.store_notRegister hclear)
      obtain ⟨pos', hinv', hcomm'⟩ := hinv.step hclear hjump hcomm
      exact .inl ⟨_, pos', ⟨⟨hnext.rom.1, hnext.rom.2, hnext.rom.3, hnext.rom.4⟩, hnext.pc, hnext.view⟩, hinv',
        hcomm'⟩
  next =>
    exact .inl (h.of_same ⟨rfl, rfl, rfl, rfl⟩ fun _ hcomm => hcomm)

theorem Booting.cycle (hclear : ∀ bl ∈ blocks, bl.Clear) {t : Upload} (h : Booting blocks entry t)
    (produced : BitVec 64) (shadow : Int → Int → Int × Int) :
    Booting blocks entry (uploadStep (.cycle produced shadow) t) ∨
      HandedOver blocks entry (uploadStep (.cycle produced shadow) t) := by
  have hports : ∀ apu : Apu, (apu.cycleSample produced shadow).ports = apu.ports ∨
      (apu.cycleSample produced shadow).ports = apu.ports.drainPortQueue produced := by
    intro apu
    unfold Apu.cycleSample
    split
    · exact .inr rfl
    · exact .inl rfl
  rcases h.cycleSpc hclear with hbooting | hover
  · have hrom : InRom t.apu.cycleSpc := by
      obtain ⟨b, pos, hshows, -⟩ := hbooting
      exact hshows.rom
    have hsample := sameProgram_sample produced shadow hrom
    refine .inl (hbooting.of_same ⟨hsample.spc, hsample.readable, hsample.ram, hsample.echo⟩ fun pos hcomm => ?_)
    change Comm pos t.toSend (t.apu.cycleSpc.cycleSample produced shadow).ports
    rcases hports t.apu.cycleSpc with hp | hp <;> rw [hp]
    · exact hcomm
    · exact hcomm.drain produced
  · have hsample := sameProgram_sample produced shadow hover.rom
    refine .inr (hover.of_same ⟨hsample.spc, hsample.readable, hsample.ram, hsample.echo⟩ ?_)
    change (t.apu.cycleSpc.cycleSample produced shadow).ports.portQueue = _
    rcases hports t.apu.cycleSpc with hp | hp <;> rw [hp]
    exact (drainPortQueue_nil hover.queue produced).trans hover.queue.symm

theorem Booting.send {t : Upload} (h : Booting blocks entry t) (target : BitVec 64) :
    Booting blocks entry (uploadStep (.send target) t) := by
  obtain ⟨b, pos, hshows, hinv, hcomm⟩ := h
  have hb : b.ports = t.apu.ports := congrArg Boot.ports hshows.view.symm
  rw [hb] at hcomm
  have hnext := hcomm.send target
  have hsame : SameProgram t.apu (uploadStep (.send target) t).apu := by
    unfold uploadStep
    dsimp only
    split
    · exact ⟨rfl, rfl, rfl, rfl⟩
    · split
      · exact ⟨rfl, rfl, rfl, rfl⟩
      · exact ⟨rfl, rfl, rfl, rfl⟩
  exact ⟨_, pos, hshows.of_same hsame, hinv.withPorts _, hnext⟩

/-- All is still to be sent. -/
theorem comm_start (blocks : List UploadBlock) (entry : Word) :
    Comm ⟨0, uploadMessages 0xCC blocks entry, false⟩ (session 0xAA (uploadMessages 0xCC blocks entry))
      Apu.reset.ports := by
  rw [uploadMessages_eq, kickMessage_eq]
  exact ⟨(by decide : (0xCC : Byte) ≠ 0), (by decide : (0 : Byte) ≠ 0xCC), ⟨_, rfl, inFlight_sends _ _ _ rfl⟩,
    fun h => nomatch h⟩

theorem clearing_start (blocks : List UploadBlock) (entry : Word) :
    Shows (Apu.reset.boot .start) Apu.reset ∧
      Clearing blocks entry (Apu.reset.boot .start) ⟨0, uploadMessages 0xCC blocks entry, false⟩ :=
  ⟨⟨⟨rfl, rfl, rfl, rfl⟩, rfl, rfl⟩, rfl, fun _ _ => rfl, rfl⟩

theorem booting_or_handedOver (entry : Word) (hclear : ∀ bl ∈ blocks, bl.Clear) (es : List UploadEvent) :
    Booting blocks entry (uploadRun blocks entry es) ∨
      ∃ es₁ es₂, es = es₁ ++ es₂ ∧ HandedOver blocks entry (uploadRun blocks entry es₁) := by
  induction es using List.reverseRecOn with
  | nil =>
      obtain ⟨hshows, hclearing⟩ := clearing_start blocks entry
      exact .inl ⟨_, _, hshows, .clearing hclearing, comm_start blocks entry⟩
  | append_singleton es e ih =>
      rcases ih with hbooting | ⟨es₁, es₂, rfl, hover⟩
      · rw [uploadRun, Runs.final_append]
        cases e with
        | cycle produced shadow =>
            rcases hbooting.cycle hclear produced shadow with hnext | hover
            · exact .inl hnext
            · refine .inr ⟨es ++ [.cycle produced shadow], [], (List.append_nil _).symm, ?_⟩
              rw [uploadRun, Runs.final_append]
              exact hover
        | send target => exact .inl (hbooting.send target)
      · exact .inr ⟨es₁, es₂ ++ [e], List.append_assoc .., hover⟩

/-- **No byte is lost and none comes twice**: in every order of cycles and writes, the processor either is in
the boot ROM, or it left it for the entry with exactly the blocks in sound RAM. -/
theorem uploadRun_handsOver (entry : Word) (hclear : ∀ bl ∈ blocks, bl.Clear) (es : List UploadEvent) :
    (∃ p : BootPoint, (uploadRun blocks entry es).apu.spc.pc = p.pc) ∨
      ∃ es₁ es₂, es = es₁ ++ es₂ ∧ HandedOver blocks entry (uploadRun blocks entry es₁) := by
  rcases booting_or_handedOver entry hclear es with ⟨b, pos, hshows, -⟩ | hover
  · exact .inl ⟨b.point, hshows.pc⟩
  · exact .inr hover

def shortBlock : UploadBlock where
  target := 0x200
  bytes := [1, 2, 3]
  flag := 1
  kick := 5
  bytes_ne := by decide
  flag_ne := by decide
  kick_ne := by decide
  kick_behind := by decide

theorem shortBlock_clear : ∀ bl ∈ [shortBlock], bl.Clear := by
  intro bl hbl
  obtain rfl := List.mem_singleton.mp hbl
  unfold UploadBlock.Clear
  decide

/-- Ten cycles for each write of the machine, till the boot ROM has handed over. -/
def bootEvents : List UploadEvent :=
  (List.replicate 271 (List.replicate 10 (UploadEvent.cycle 0 fun l r => (l, r)) ++ [.send 0])).flatten

/-- A run that looks at each state on its way. -/
def watched : List UploadEvent → Upload → Upload
  | [], t => t
  | e :: es, t =>
    if t.apu.spc.pc.toNat + (t.apu.ram 0).toNat + (t.apu.ram 1).toNat = 0 then
      Runs.final uploadStep es (uploadStep e t)
    else watched es (uploadStep e t)

theorem watched_eq (es : List UploadEvent) (t : Upload) : watched es t = Runs.final uploadStep es t := by
  induction es generalizing t with
  | nil => rfl
  | cons e es ih =>
    rw [watched, ih, ite_self]
    rfl

theorem watched_upload (blocks : List UploadBlock) (entry : Word) (es : List UploadEvent) :
    watched es (uploadRun blocks entry []) = uploadRun blocks entry es := watched_eq es _

/-- The look at a state makes the kernel compute it before the next one; a plain run would pile the events
up. -/
theorem uploadRun_pc_bootEvents : (uploadRun [shortBlock] 0x200 bootEvents).apu.spc.pc = 0x200 := by
  have hwatched : (watched bootEvents (uploadRun [shortBlock] 0x200 [])).apu.spc.pc = 0x200 := by
    decide +kernel
  rw [watched_upload] at hwatched
  exact hwatched

theorem not_bootPoint_bootEvents (p : BootPoint) :
    (uploadRun [shortBlock] 0x200 bootEvents).apu.spc.pc ≠ p.pc := fun h => by
  have hpc : p.pc = 0x200 := h.symm.trans uploadRun_pc_bootEvents
  revert hpc
  cases p <;> decide

/-- The processor stands at the entry. -/
theorem uploadRun_handsOver_short : ∃ es₁ es₂, bootEvents = es₁ ++ es₂ ∧
    HandedOver [shortBlock] 0x200 (uploadRun [shortBlock] 0x200 es₁) :=
  (uploadRun_handsOver 0x200 shortBlock_clear bootEvents).resolve_left fun ⟨p, hp⟩ =>
    not_bootPoint_bootEvents p hp

end SnesRecomp
