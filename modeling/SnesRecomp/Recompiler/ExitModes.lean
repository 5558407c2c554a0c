import SnesRecomp.Lib.Sweeps
import SnesRecomp.Recompiler.Graph

/-!
# The exit modes of the cfg's functions

`analyze_function_exit_mx` of `decoder.py` and `detect_and_route` of
`exit_mx_autoroute.py`: every function of the cfgs is decoded in every pair of widths under
the exit modes recorded so far, its exit is recorded, and this is repeated until a pass
changes no record, twelve times at most.

The map of exit modes is a function; a deleted record is `none`.  A variant that a
hand-written `exit_mx_at` covers is skipped in every loop of the source and is no visit here.
What is recovered about dispatches is a function of the bank, the start of the function and its
declared end; the map of inline arguments is the one installed before the passes.
-/

namespace SnesRecomp.Recompiler

/-! ### `analyze_function_exit_mx` -/

/-- A key of `callee_exit_mx`: an address and the widths it is entered in. -/
abbrev ExitKey := Nat × Bool × Bool

abbrev ExitMap := ExitKey → Option (Bool × Bool)

/-- What `_accumulate` has seen; `exit` is `none` as long as `have_any` is false. -/
structure ExitMeet where
  exit : Option (Bool × Bool)
  mAmbig : Bool
  xAmbig : Bool
  deriving DecidableEq, Repr

def ExitMeet.empty : ExitMeet := ⟨none, false, false⟩

/-- `_accumulate`. -/
def ExitMeet.accumulate (acc : ExitMeet) (mode : Bool × Bool) : ExitMeet :=
  match acc.exit with
  | none => { acc with exit := some mode }
  | some (exitM, exitX) =>
    { acc with
      mAmbig := acc.mAmbig || decide (exitM ≠ mode.1)
      xAmbig := acc.xAmbig || decide (exitX ≠ mode.2) }

/-- The components that all exits agree on. -/
def ExitMeet.result (acc : ExitMeet) : Option Bool × Option Bool :=
  match acc.exit with
  | none => (none, none)
  | some (exitM, exitX) =>
    (if acc.mAmbig then none else some exitM, if acc.xAmbig then none else some exitX)

/-- A `JSL` or `JML` with a table and no successors. -/
def isDispatchTerm (di : DecodedInsn) : Bool :=
  di.dispatch.isSome && di.successors.isEmpty && (di.insn.mnem = .jsl || di.insn.mnem = .jmp)

/-- The handlers of a table, entered in the widths of the site; null entries are padding. -/
def handlerExitKeys (insn : Insn) (d : Dispatch) : List ExitKey :=
  (d.entries.filter (· ≠ 0)).map fun entry =>
    (if d.long then entry &&& 0xFFFFFF
      else (((insn.addr >>> 16) &&& 0xFF) <<< 16) ||| (entry &&& 0xFFFF), insn.mFlag, insn.xFlag)

/-- The exits of the handlers; `none` when one of them has no record. -/
def accumulateHandlers (callees : ExitMap) : List ExitKey → ExitMeet → Option ExitMeet
  | [], acc => some acc
  | key :: keys, acc =>
    match callees key with
    | none => none
    | some mode => accumulateHandlers callees keys (acc.accumulate mode)

/-- The loop over the instructions of the graph. -/
def accumulateExits (callees : ExitMap) : List DecodedInsn → ExitMeet → Option ExitMeet
  | [], acc => some acc
  | di :: insns, acc =>
    if di.insn.mnem = .rts ∨ di.insn.mnem = .rtl ∨ di.insn.mnem = .rti then
      accumulateExits callees insns (acc.accumulate (di.insn.mFlag, di.insn.xFlag))
    else if isDispatchTerm di then
      match di.dispatch with
      | none => accumulateExits callees insns acc
      | some d =>
        match accumulateHandlers callees (handlerExitKeys di.insn d) acc with
        | none => none
        | some acc => accumulateExits callees insns acc
    else accumulateExits callees insns acc

/-- `analyze_function_exit_mx`. -/
def analyzeFunctionExitMx (insns : List DecodedInsn) (callees : ExitMap) :
    Option Bool × Option Bool :=
  match accumulateExits callees insns .empty with
  | none => (none, none)
  | some acc => acc.result

/-! ### The variants of the cfgs -/

/-- What every decode of a run of `detect_and_route` is given. -/
structure RouteInput where
  rom : Rom
  recovery : Nat → Nat → Option Nat → Recovery
  /-- `_ACTIVE_INLINE_ARG_MAP`. -/
  inlineArgMap : Nat → Option Nat

/-- `exit_mx_at`. -/
structure ExitMxAt where
  bank : Nat
  addr16 : Nat
  exitM : Bool
  exitX : Bool
  deriving DecidableEq, Repr

structure BankEntry where
  name : Option String
  start : Nat
  endPc : Option Nat
  deriving DecidableEq, Repr

/-- A cfg of `parsed`, under its bank. -/
structure BankCfg where
  bank : Nat
  entries : List BankEntry
  exitMxAt : List ExitMxAt
  deriving DecidableEq, Repr

/-- One turn of the inner loop: a function entry in one pair of widths. -/
structure RouteVisit where
  bank : Nat
  addr16 : Nat
  endPc : Option Nat
  em : Bool
  ex : Bool
  deriving DecidableEq, Repr

/-- `_MX_COMBOS`. -/
def mxCombos : List (Bool × Bool) := [(false, false), (false, true), (true, false), (true, true)]

def RouteVisit.key (v : RouteVisit) : ExitKey := ((v.bank <<< 16) ||| v.addr16, v.em, v.ex)

def ExitMxAt.target (d : ExitMxAt) : Nat := ((d.bank &&& 0xFF) <<< 16) ||| (d.addr16 &&& 0xFFFF)

def directives (parsed : List BankCfg) : List ExitMxAt := parsed.flatMap (·.exitMxAt)

/-- `seeded_keys`. -/
def isSeeded (parsed : List BankCfg) (key : ExitKey) : Bool :=
  (directives parsed).any fun d => d.target = key.1

/-- A directive holds in all widths of entry; the last one for a target wins. -/
def seed (callees : ExitMap) (d : ExitMxAt) : ExitMap :=
  fun key => if key.1 = d.target then some (d.exitM, d.exitX) else callees key

/-- `callee_exit_mx` before the first pass. -/
def seeds (parsed : List BankCfg) : ExitMap := (directives parsed).foldl seed fun _ => none

/-- An entry without a name is skipped. -/
def BankEntry.named (entry : BankEntry) : Bool :=
  match entry.name with
  | none => false
  | some name => name ≠ ""

def BankEntry.visits (bank : Nat) (entry : BankEntry) : List RouteVisit :=
  mxCombos.map fun w => ⟨bank, entry.start &&& 0xFFFF, entry.endPc, w.1, w.2⟩

/-- The visits of a pass, in the order of the loops. -/
def routeVisits (parsed : List BankCfg) : List RouteVisit :=
  (parsed.flatMap fun cfg => (cfg.entries.filter BankEntry.named).flatMap (·.visits cfg.bank)).filter
    fun v => !isSeeded parsed v.key

/-! ### `detect_and_route` -/

/-- The decoder's view of the records. -/
def RouteInput.maps (rt : RouteInput) (callees : ExitMap) : ExitMaps where
  calleeExitMx a m x := (callees (a, m, x)).map fun mode => (some mode.1, some mode.2)
  calleeExitMxModes _ _ _ := none
  inlineArgMap := rt.inlineArgMap

def RouteInput.decodeInput (rt : RouteInput) (callees : ExitMap) (v : RouteVisit) : DecodeInput where
  rom := rt.rom
  bank := v.bank
  start := v.addr16
  entryM := v.em
  entryX := v.ex
  endPc := v.endPc
  siblingEntryPcs := []
  maps := rt.maps callees
  recovery := rt.recovery v.bank v.addr16 v.endPc
  maxInsns := 12000

/-- What `_decode_variant_exit` makes of the graph. -/
def graphExit (insns : List DecodedInsn) (callees : ExitMap) : Option (Bool × Bool) :=
  if insns.isEmpty then none
  else
    match analyzeFunctionExitMx insns callees with
    | (some exitM, some exitX) => some (exitM, exitX)
    | _ => none

/-- `_decode_variant_exit`; `none` also where the decoder raises. -/
def decodeVariantExit (rt : RouteInput) (callees : ExitMap) (v : RouteVisit) :
    Option (Bool × Bool) :=
  match decodeFunction (rt.decodeInput callees v) with
  | none => none
  | some graph => graphExit graph.insns callees

/-- A visit writes, or deletes, the record of its variant. -/
def routeSystem (rt : RouteInput) : Sweeps.System RouteVisit ExitKey (Option (Bool × Bool)) :=
  ⟨RouteVisit.key, decodeVariantExit rt⟩

/-- `_MAX_ITERS`. -/
def maxIters : Nat := 12

/-- The passes: `callee_exit_mx` behind them, and whether the last one was clean. -/
def routePasses (rt : RouteInput) (parsed : List BankCfg) : ExitMap × Bool :=
  Sweeps.sweeps (routeSystem rt) (routeVisits parsed) maxIters (seeds parsed)

/-- `callee_exit_mx` when the passes are over. -/
def exitMap (rt : RouteInput) (parsed : List BankCfg) : ExitMap := (routePasses rt parsed).1

def converged (rt : RouteInput) (parsed : List BankCfg) : Bool := (routePasses rt parsed).2

/-- The records of `exit_mx_at_per_variant`: the exits that differ from the widths of entry. -/
def mutating (callees : ExitMap) (v : RouteVisit) : Option (RouteVisit × Bool × Bool) :=
  match callees v.key with
  | none => none
  | some mode => if mode.1 ≠ v.em ∨ mode.2 ≠ v.ex then some (v, mode) else none

/-- `detect_and_route`: what is appended to the `exit_mx_at_per_variant` of the cfgs, however
the passes ended. -/
def detectAndRoute (rt : RouteInput) (parsed : List BankCfg) : List (RouteVisit × Bool × Bool) :=
  (routeVisits parsed).filterMap (mutating (exitMap rt parsed))

end SnesRecomp.Recompiler
