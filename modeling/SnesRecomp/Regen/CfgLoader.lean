import Mathlib.Data.List.DropRight
import Mathlib.Data.List.Perm.Basic
import Mathlib.Data.List.Count
import Mathlib.Logic.Function.Basic

/-!
# The bank configuration loader

`load_bank_cfg` reads the lines of a cfg file once, from top to bottom. `entry_mx_at` and
`end_at` lines are collected in two maps, applied to the `func` entries after the pass, and
last the in-bank `name` lines without an entry are promoted.
-/

namespace SnesRecomp.CfgLoader

/-- A line of a cfg file, or a word of it. -/
abbrev Token := List Char

/-- What the loader asks of Python about a token. `int base token` is `none` where
`int(token, base)` raises `ValueError`. -/
structure Python where
  int : Nat → Token → Option Int
  isalnum : Token → Bool
  isdigit : Char → Bool

inductive ValueError
  | literal (token : Token)
  | needs (head : String) (stripped : Token)
  | badArgument (head : String) (token : Token)
  | identifier (head : String) (name : Token)
  | widthBits (m x : Int)
  | duplicateSite (site : Int)
  | countOutOfRange (count : Int)
  | unknownOption (token : Token)
  | badTargets (token : Token)
  | targetCount (count : Int) (targets : Nat)
  | badIndex (register : Token)
  | badTables (token : Token)
  | missingBank
  deriving DecidableEq, Repr

structure BankEntry where
  name : Token
  start : Int
  endPc : Option Int := none
  entryM : Bool := true
  entryX : Bool := true
  tailCallPc16 : Option Int := none
  entrySOffset : Int := 0
  exitMx : Option (Bool × Bool) := none
  deriving DecidableEq, Repr

structure NameDecl where
  addr24 : Int
  name : Token
  deriving DecidableEq, Repr

structure IndirectDispatch where
  sitePc16 : Int
  count : Int
  idxReg : Char
  tableBases : List Int
  ptrCall : Bool
  targets : List Int
  deriving DecidableEq, Repr

structure BankCfg where
  bank : Int := -1
  includes : List Token := []
  entries : List BankEntry := []
  names : List NameDecl := []
  excludeRanges : List (Int × Int) := []
  dataRegions : List (Int × Int × Int) := []
  exitMxAt : List (Int × Int × Bool × Bool) := []
  autoVectors : Bool := false
  tierDownStubs : Bool := false
  indirectDispatch : List IndirectDispatch := []
  hleSpcUpload : List Int := []
  hleFunc : Int → Option Token := fun _ => none
  hleDispatch : Int → Option Token := fun _ => none
  forceVariantAt : Int → Option (Int × Int) := fun _ => none

/-- What one line asks for. -/
inductive Directive
  | ignored
  | bank (bank : Int)
  | includes (headers : List Token)
  | autoVectors
  | tierDownStubs
  | entryMxAt (pc : Int) (mx : Bool × Bool)
  | endAt (pc : Int) (endPc : Int)
  | hleSpcUpload (pc : Int)
  | hleFunc (pc : Int) (cName : Token)
  | forceVariantAt (site : Int) (mx : Int × Int)
  | hleDispatch (pc : Int) (cName : Token)
  | indirectDispatch (dispatch : IndirectDispatch)
  | func (name : Token) (start : Int) (options : List Token)
  | name (decl : NameDecl)
  | excludeRange (range : Int × Int)
  | exitMxAt (exit : Int × Int × Bool × Bool)
  | dataRegion (region : Int × Int × Int)
  deriving DecidableEq, Repr

section Words

/-- `str.isspace` of one character, the separators of `str.split`. -/
def isSpace (c : Char) : Bool :=
  let n := c.toNat
  (9 ≤ n && n ≤ 13) || (28 ≤ n && n ≤ 32) || n == 0x85 || n == 0xA0 || n == 0x1680 ||
    (0x2000 ≤ n && n ≤ 0x200A) || n == 0x2028 || n == 0x2029 || n == 0x202F || n == 0x205F ||
    n == 0x3000

def strip (t : Token) : Token := (t.dropWhile isSpace).rdropWhile isSpace

def split (t : Token) : List Token := (t.splitOnP isSpace).filter (· ≠ [])

/-- `_strip_comment`. -/
def stripComment (line : Token) : Token := (line.takeWhile (· ≠ '#')).rdropWhile isSpace

/-- `tokens` of a raw line. -/
def tokens (line : Token) : List Token := split (strip (stripComment line))

/-- `t[len(key):]` of a token that starts with `key`. -/
def after (key : String) (t : Token) : Option Token :=
  if key.toList <+: t then some (t.drop key.length) else none

/-- `n & 0xFFFF`. -/
def pc16 (n : Int) : Int := n % 0x10000

/-- `n & 1`. -/
def bit (n : Int) : Bool := n % 2 = 1

end Words

section Lines

variable (py : Python)

/-- `_parse_hex`: both of its branches call `int(token, 16)`. -/
def parseHex (t : Token) : Except ValueError Int :=
  match py.int 16 t with
  | some n => .ok n
  | none => .error (.literal t)

def parseEntryMxAt (stripped : Token) : List Token → Except ValueError Directive
  | [pc, m, x] =>
    match py.int 16 pc, py.int 10 m, py.int 10 x with
    | some pc, some m, some x => .ok (.entryMxAt (pc16 pc) (bit m, bit x))
    | _, _, _ => .error (.badArgument "entry_mx_at" stripped)
  | _ => .error (.needs "entry_mx_at" stripped)

def parseEndAt (stripped : Token) : List Token → Except ValueError Directive
  | [pc, endPc] =>
    match py.int 16 pc, py.int 16 endPc with
    | some pc, some endPc => .ok (.endAt (pc16 pc) endPc)
    | _, _ => .error (.badArgument "end_at" stripped)
  | _ => .error (.needs "end_at" stripped)

def parseHleSpcUpload (stripped : Token) : List Token → Except ValueError Directive
  | [pc] =>
    match py.int 16 pc with
    | some n => .ok (.hleSpcUpload (pc16 n))
    | none => .error (.badArgument "hle_spc_upload" pc)
  | _ => .error (.needs "hle_spc_upload" stripped)

/-- The test for a C identifier. -/
def isIdentifier (cName : Token) : Bool :=
  py.isalnum (cName.filter (· ≠ '_')) && !(cName.head?.any py.isdigit)

/-- `hle_func` and `hle_dispatch`. -/
def parseHle (head : String) (directive : Int → Token → Directive) (stripped : Token) :
    List Token → Except ValueError Directive
  | [pc, cName] =>
    match py.int 16 pc with
    | none => .error (.badArgument head pc)
    | some n =>
      if isIdentifier py cName then .ok (directive (pc16 n) cName)
      else .error (.identifier head cName)
  | _ => .error (.needs head stripped)

def parseForceVariantAt (stripped : Token) : List Token → Except ValueError Directive
  | [site, m, x] =>
    match py.int 16 site with
    | none => .error (.badArgument "force_variant_at" site)
    | some site =>
      match py.int 10 m, py.int 10 x with
      | some m, some x =>
        if (m = 0 ∨ m = 1) ∧ (x = 0 ∨ x = 1) then
          .ok (.forceVariantAt (site % 0x1000000) (m, x))
        else .error (.widthBits m x)
      | _, _ => .error (.badArgument "force_variant_at" stripped)
  | _ => .error (.needs "force_variant_at" stripped)

/-- The options of the `ptrcall` form; the last `targets:` counts. -/
def ptrcallTargets : List Token → List Int → Except ValueError (List Int)
  | [], targets => .ok targets
  | t :: ts, targets =>
    if t = "ptrcall".toList then ptrcallTargets ts targets
    else
      match after "targets:" t with
      | none => .error (.unknownOption t)
      | some raw =>
        match ((raw.splitOn ',').filter (· ≠ [])).mapM (py.int 16) with
        | none => .error (.badTargets t)
        | some targets => ptrcallTargets ts (targets.map (· % 0x1000000))

/-- The options of the index form. -/
def indexOptions : List Token → Option Char → List Int →
    Except ValueError (Option Char × List Int)
  | [], idx, bases => .ok (idx, bases)
  | t :: ts, idx, bases =>
    match after "idx:" t, after "tables:" t with
    | some v, _ =>
      if v = ['X'] ∨ v = ['x'] then indexOptions ts (some 'X') bases
      else if v = ['Y'] ∨ v = ['y'] then indexOptions ts (some 'Y') bases
      else .error (.badIndex v)
    | none, some raw =>
      if 3 < (raw.splitOn ',').length then .error (.badTables t)
      else
        match (raw.splitOn ',').mapM (py.int 16) with
        | none => .error (.badTables t)
        | some found => indexOptions ts idx (found.map pc16)
    | none, none => .error (.unknownOption t)

def parseIndirectDispatch (stripped : Token) : List Token → Except ValueError Directive
  | site :: count :: first :: rest => do
    let some site := py.int 16 site | .error (.badArgument "indirect_dispatch" site)
    let some count := py.int 0 count | .error (.badArgument "indirect_dispatch" count)
    if count ≤ 0 ∨ 4096 < count then .error (.countOutOfRange count)
    else if "ptrcall".toList ∈ first :: rest then
      let targets ← ptrcallTargets py (first :: rest) []
      if targets = [] then .error (.needs "targets" stripped)
      else if targets.length ≠ count then .error (.targetCount count targets.length)
      else .ok (.indirectDispatch ⟨pc16 site, count, 'X', [], true, targets⟩)
    else
      let (idx, bases) ← indexOptions py (first :: rest) none []
      match idx with
      | none => .error (.needs "idx" stripped)
      | some idx => .ok (.indirectDispatch ⟨pc16 site, count, idx, bases, false, []⟩)
  | _ => .error (.needs "indirect_dispatch" stripped)

/-- A `func` line whose address does not parse is an error, a `name` line is skipped. -/
def parseFunc : List Token → Except ValueError Directive
  | name :: start :: options => do .ok (.func name (← parseHex py start) options)
  | _ => .ok .ignored

def parseName : List Token → Directive
  | addr :: friendly :: _ =>
    match py.int 16 addr with
    | some addr => .name ⟨addr, friendly⟩
    | none => .ignored
  | _ => .ignored

def parseExcludeRange : List Token → Directive
  | s :: e :: _ =>
    match py.int 16 s, py.int 16 e with
    | some s, some e => .excludeRange (s, e)
    | _, _ => .ignored
  | _ => .ignored

def parseExitMxAt : List Token → Directive
  | addr :: m :: x :: _ =>
    match py.int 16 addr, py.int 10 m, py.int 10 x with
    | some addr, some m, some x => .exitMxAt (addr / 0x10000 % 0x100, pc16 addr, bit m, bit x)
    | _, _, _ => .ignored
  | _ => .ignored

def parseDataRegion : List Token → Directive
  | b :: s :: e :: _ =>
    match py.int 16 b, py.int 16 s, py.int 16 e with
    | some b, some s, some e => .dataRegion (b, s, e)
    | _, _, _ => .ignored
  | _ => .ignored

def parseBank : List Token → Except ValueError Directive
  | eq :: bank :: _ => if eq = ['='] then do .ok (.bank (← parseHex py bank)) else .ok .ignored
  | _ => .ok .ignored

def parseIncludes : List Token → Directive
  | eq :: h :: headers => if eq = ['='] then .includes (h :: headers) else .ignored
  | _ => .ignored

/-- One turn of the loop of `load_bank_cfg`, as far as the line alone decides it. -/
def parseLine (line : Token) : Except ValueError Directive :=
  let stripped := strip (stripComment line)
  match split stripped with
  | [] => .ok .ignored
  | head :: args =>
    if head = "bank".toList then parseBank py args
    else if head = "includes".toList then .ok (parseIncludes args)
    else if head = "auto_vectors".toList then .ok .autoVectors
    else if head = "tier_down_stubs".toList then .ok .tierDownStubs
    else if head = "entry_mx_at".toList then parseEntryMxAt py stripped args
    else if head = "end_at".toList then parseEndAt py stripped args
    else if head = "hle_spc_upload".toList then parseHleSpcUpload py stripped args
    else if head = "hle_func".toList then parseHle py "hle_func" .hleFunc stripped args
    else if head = "force_variant_at".toList then parseForceVariantAt py stripped args
    else if head = "hle_dispatch".toList then parseHle py "hle_dispatch" .hleDispatch stripped args
    else if head = "indirect_dispatch".toList then parseIndirectDispatch py stripped args
    else if head = "func".toList then parseFunc py args
    else if head = "name".toList then .ok (parseName py args)
    else if head = "exclude_range".toList then .ok (parseExcludeRange py args)
    else if head = "exit_mx_at".toList then .ok (parseExitMxAt py args)
    else if head = "data_region".toList then .ok (parseDataRegion py args)
    else .ok .ignored

end Lines

section Options

variable (py : Python)

/-- `mx_str.split(',')` when it has two parts. -/
def twoParts (t : Token) : Option (Token × Token) :=
  match t.splitOn ',' with
  | [first, second] => some (first, second)
  | _ => none

/-- One option of a `func` line. A number that does not parse leaves the option out; a bad
second width of `entry_mx:` comes after the first was stored. -/
def funcOption (e : BankEntry) (t : Token) : BankEntry :=
  match after "end:" t, after "tail_call:" t, after "exit_mx:" t, after "entry_mx:" t,
      after "entry_s_offset:" t with
  | some v, _, _, _, _ => { e with endPc := (py.int 16 v).or e.endPc }
  | none, some v, _, _, _ => { e with tailCallPc16 := (py.int 16 v).or e.tailCallPc16 }
  | none, none, some v, _, _ =>
    match twoParts v with
    | none => e
    | some (m, x) =>
      match py.int 10 m, py.int 10 x with
      | some m, some x => { e with exitMx := some (bit m, bit x) }
      | _, _ => e
  | none, none, none, some v, _ =>
    match twoParts v with
    | none => e
    | some (m, x) =>
      match py.int 10 m, py.int 10 x with
      | some m, some x => { e with entryM := bit m, entryX := bit x }
      | some m, none => { e with entryM := bit m }
      | none, _ => e
  | none, none, none, none, some v => { e with entrySOffset := (py.int 10 v).getD e.entrySOffset }
  | none, none, none, none, none => e

end Options

/-- The locals of `load_bank_cfg`. -/
structure Loader where
  cfg : BankCfg := {}
  entryMxAt : Int → Option (Bool × Bool) := fun _ => none
  endAt : Int → Option Int := fun _ => none

section Load

variable (py : Python)

/-- A `func` line, under the overrides read so far. -/
def Loader.funcEntry (l : Loader) (name : Token) (start : Int) (options : List Token) :
    BankEntry :=
  let mx := (l.entryMxAt (pc16 start)).getD (true, true)
  let e := options.foldl (funcOption py)
    { name := name, start := start, entryM := mx.1, entryX := mx.2 }
  { e with endPc := (l.endAt (pc16 start)).or e.endPc }

def Loader.apply (l : Loader) : Directive → Except ValueError Loader
  | .ignored => .ok l
  | .bank bank => .ok { l with cfg := { l.cfg with bank := bank } }
  | .includes headers => .ok { l with cfg := { l.cfg with includes := headers } }
  | .autoVectors => .ok { l with cfg := { l.cfg with autoVectors := true } }
  | .tierDownStubs => .ok { l with cfg := { l.cfg with tierDownStubs := true } }
  | .entryMxAt pc mx => .ok { l with entryMxAt := Function.update l.entryMxAt pc (some mx) }
  | .endAt pc endPc => .ok { l with endAt := Function.update l.endAt pc (some endPc) }
  | .hleSpcUpload pc =>
    .ok { l with cfg := { l.cfg with hleSpcUpload := l.cfg.hleSpcUpload ++ [pc] } }
  | .hleFunc pc cName =>
    .ok { l with cfg := { l.cfg with hleFunc := Function.update l.cfg.hleFunc pc (some cName) } }
  | .forceVariantAt site mx =>
    if (l.cfg.forceVariantAt site).isSome then .error (.duplicateSite site)
    else
      .ok { l with cfg := { l.cfg with
        forceVariantAt := Function.update l.cfg.forceVariantAt site (some mx) } }
  | .hleDispatch pc cName =>
    .ok { l with cfg := { l.cfg with
      hleDispatch := Function.update l.cfg.hleDispatch pc (some cName) } }
  | .indirectDispatch dispatch =>
    .ok { l with cfg := { l.cfg with indirectDispatch := l.cfg.indirectDispatch ++ [dispatch] } }
  | .func name start options =>
    .ok { l with cfg := { l.cfg with
      entries := l.cfg.entries ++ [l.funcEntry py name start options] } }
  | .name decl => .ok { l with cfg := { l.cfg with names := l.cfg.names ++ [decl] } }
  | .excludeRange range =>
    .ok { l with cfg := { l.cfg with excludeRanges := l.cfg.excludeRanges ++ [range] } }
  | .exitMxAt exit => .ok { l with cfg := { l.cfg with exitMxAt := l.cfg.exitMxAt ++ [exit] } }
  | .dataRegion region =>
    .ok { l with cfg := { l.cfg with dataRegions := l.cfg.dataRegions ++ [region] } }

def Loader.readLine (l : Loader) (line : Token) : Except ValueError Loader := do
  l.apply py (← parseLine py line)

/-- The override pass. -/
def Loader.override (l : Loader) (e : BankEntry) : BankEntry :=
  let mx := (l.entryMxAt (pc16 e.start)).getD (e.entryM, e.entryX)
  { e with entryM := mx.1, entryX := mx.2, endPc := (l.endAt (pc16 e.start)).or e.endPc }

/-- The bank byte of a name. -/
def NameDecl.bank (decl : NameDecl) : Int := decl.addr24 / 0x10000 % 0x100

/-- One turn of the promotion pass; `existing_starts` are the starts of `entries`. -/
def promote (bank : Int) (entries : List BankEntry) (decl : NameDecl) : List BankEntry :=
  if decl.bank ≠ bank then entries
  else if pc16 decl.addr24 ∈ entries.map fun e => pc16 e.start then entries
  else entries ++ [{ name := decl.name, start := pc16 decl.addr24 }]

/-- What `load_bank_cfg` does after the last line. -/
def Loader.finish (l : Loader) : Except ValueError BankCfg :=
  if l.cfg.bank < 0 then .error .missingBank
  else .ok { l.cfg with
    entries := l.cfg.names.foldl (promote l.cfg.bank) (l.cfg.entries.map l.override) }

def loadBankCfg (lines : List Token) : Except ValueError BankCfg := do
  (← lines.foldlM (Loader.readLine py) {}).finish

end Load

end SnesRecomp.CfgLoader
