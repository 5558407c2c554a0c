import SnesRecomp.Regen.CfgLoader
import Mathlib.Data.List.Nodup

/-!
# Overrides and promotion of a bank configuration

The override pass reaches the entries of `func` lines only: an entry promoted from a `name`
line afterwards keeps the default widths and no end.
-/

namespace SnesRecomp.CfgLoader

section Reading

variable (py : Python)

/-- Some line of the file reads as `d`. -/
def Asks (lines : List Token) (d : Directive) : Prop :=
  ∃ line ∈ lines, parseLine py line = .ok d

/-- The bank that a directive sets. -/
def Directive.setsBank : Directive → Option Int
  | .bank b => some b
  | _ => none

/-- The call site that a directive pins. -/
def Directive.pins : Directive → Option Int
  | .forceVariantAt site _ => some site
  | _ => none

/-- A reading of the directive of a line. -/
def ofLine (f : Directive → Option Int) (line : Token) : Option Int :=
  (parseLine py line).toOption.bind f

/-- The bank of the file: its last `bank =` line counts. -/
def bankOf (lines : List Token) : Int :=
  (lines.filterMap (ofLine py Directive.setsBank)).getLastD (-1)

/-- What the loader holds after the lines. -/
structure ReadBy (lines : List Token) (l : Loader) : Prop where
  mx_asked : ∀ {pc mx}, l.entryMxAt pc = some mx → Asks py lines (.entryMxAt pc mx)
  mx_found : ∀ {pc mx}, Asks py lines (.entryMxAt pc mx) → (l.entryMxAt pc).isSome
  end_asked : ∀ {pc e}, l.endAt pc = some e → Asks py lines (.endAt pc e)
  end_found : ∀ {pc e}, Asks py lines (.endAt pc e) → (l.endAt pc).isSome
  bank : l.cfg.bank = bankOf py lines
  names : ∀ decl, decl ∈ l.cfg.names ↔ Asks py lines (.name decl)
  funcs : ∀ start, (∃ e ∈ l.cfg.entries, e.start = start) ↔
    ∃ name options, Asks py lines (.func name start options)
  sites : ∀ site, (l.cfg.forceVariantAt site).isSome ↔ site ∈ lines.filterMap (ofLine py Directive.pins)

variable {py}

theorem asks_append {lines : List Token} {line : Token} {d : Directive}
    (h : parseLine py line = .ok d) (d' : Directive) :
    Asks py (lines ++ [line]) d' ↔ Asks py lines d' ∨ d' = d := by
  constructor
  · rintro ⟨l, hl, hd⟩
    rcases List.mem_append.mp hl with hl | hl
    · exact Or.inl ⟨l, hl, hd⟩
    · rw [List.mem_singleton.mp hl, h] at hd
      exact Or.inr (Except.ok.inj hd).symm
  · rintro (⟨l, hl, hd⟩ | rfl)
    · exact ⟨l, List.mem_append_left _ hl, hd⟩
    · exact ⟨line, List.mem_append_right _ (List.mem_singleton.mpr rfl), h⟩

theorem ofLine_eq {line : Token} {d : Directive} (h : parseLine py line = .ok d)
    (f : Directive → Option Int) : ofLine py f line = f d := by
  rw [ofLine, h]
  rfl

theorem bankOf_append {lines : List Token} {line : Token} {d : Directive}
    (h : parseLine py line = .ok d) :
    bankOf py (lines ++ [line]) = d.setsBank.getD (bankOf py lines) := by
  rw [bankOf, List.filterMap_append, List.filterMap_cons, List.filterMap_nil, ofLine_eq h]
  cases d.setsBank <;> simp [bankOf]

theorem pins_append {lines : List Token} {line : Token} {d : Directive}
    (h : parseLine py line = .ok d) (site : Int) :
    site ∈ (lines ++ [line]).filterMap (ofLine py Directive.pins) ↔
      site ∈ lines.filterMap (ofLine py Directive.pins) ∨ d.pins = some site := by
  rw [List.filterMap_append, List.mem_append, List.filterMap_cons, List.filterMap_nil,
    ofLine_eq h]
  cases d.pins <;> simp [eq_comm]

theorem funcEntry_start (l : Loader) (name : Token) (start : Int) (options : List Token) :
    (l.funcEntry py name start options).start = start := by
  have hfold : ∀ (e : BankEntry), (options.foldl (funcOption py) e).start = e.start := by
    induction options with
    | nil => intro e; rfl
    | cons t options ih =>
      intro e
      rw [List.foldl_cons, ih]
      unfold funcOption
      split <;> first | rfl | skip
      all_goals split <;> first | rfl | skip
      all_goals split <;> rfl
  exact hfold _

theorem ReadBy.nil : ReadBy py [] {} where
  mx_asked h := by cases h
  mx_found h := by obtain ⟨_, h, _⟩ := h; cases h
  end_asked h := by cases h
  end_found h := by obtain ⟨_, h, _⟩ := h; cases h
  bank := rfl
  names decl := by simp [Asks]
  funcs start := by simp [Asks]
  sites site := by simp

section Apply

variable {l l' : Loader} {d : Directive}

theorem apply_pin {site : Int} {mx : Int × Int}
    (h : l.apply py (.forceVariantAt site mx) = .ok l') :
    { l with cfg := { l.cfg with
      forceVariantAt := Function.update l.cfg.forceVariantAt site (some mx) } } = l' := by
  simp only [Loader.apply] at h
  split at h
  · cases h
  · exact Except.ok.inj h

theorem apply_entryMxAt : l.apply py d = .ok l' →
    l'.entryMxAt = match d with
      | .entryMxAt pc mx => Function.update l.entryMxAt pc (some mx)
      | _ => l.entryMxAt := by
  intro h
  cases d with
  | forceVariantAt site mx => rw [← apply_pin h]
  | _ => cases h; rfl

theorem apply_endAt : l.apply py d = .ok l' →
    l'.endAt = match d with
      | .endAt pc e => Function.update l.endAt pc (some e)
      | _ => l.endAt := by
  intro h
  cases d with
  | forceVariantAt site mx => rw [← apply_pin h]
  | _ => cases h; rfl

theorem apply_bank (h : l.apply py d = .ok l') :
    l'.cfg.bank = d.setsBank.getD l.cfg.bank := by
  cases d with
  | forceVariantAt site mx => rw [← apply_pin h]; rfl
  | _ => cases h; rfl

theorem apply_names : l.apply py d = .ok l' →
    l'.cfg.names = match d with
      | .name decl => l.cfg.names ++ [decl]
      | _ => l.cfg.names := by
  intro h
  cases d with
  | forceVariantAt site mx => rw [← apply_pin h]
  | _ => cases h; rfl

theorem apply_entries : l.apply py d = .ok l' →
    l'.cfg.entries = match d with
      | .func name start options => l.cfg.entries ++ [l.funcEntry py name start options]
      | _ => l.cfg.entries := by
  intro h
  cases d with
  | forceVariantAt site mx => rw [← apply_pin h]
  | _ => cases h; rfl

theorem apply_forceVariantAt (h : l.apply py d = .ok l') (site : Int) :
    (l'.cfg.forceVariantAt site).isSome ↔
      (l.cfg.forceVariantAt site).isSome ∨ d.pins = some site := by
  cases d with
  | forceVariantAt s mx =>
    rw [← apply_pin h]
    by_cases hs : site = s
    · simp [Directive.pins, hs]
    · simp [Directive.pins, Function.update_of_ne hs, Ne.symm hs]
  | _ => cases h; simp [Directive.pins]

/-- A line fails to apply only if it pins a site again. -/
theorem apply_isOk : (∃ l', l.apply py d = .ok l') ↔
    ∀ site, d.pins = some site → ¬ (l.cfg.forceVariantAt site).isSome := by
  cases d with
  | forceVariantAt s mx =>
    cases hs : l.cfg.forceVariantAt s with
    | none => simp [Loader.apply, Directive.pins, hs]
    | some v => simp [Loader.apply, Directive.pins, hs]
  | _ => simp [Loader.apply, Directive.pins]

end Apply

/-- What a line leaves behind. -/
theorem ReadBy.line {lines : List Token} {line : Token} {d : Directive} {l l' : Loader}
    (hl : ReadBy py lines l) (hd : parseLine py line = .ok d) (h : l.apply py d = .ok l') :
    ReadBy py (lines ++ [line]) l' where
  mx_asked := by
    intro pc mx hmx
    rw [apply_entryMxAt h] at hmx
    refine (asks_append hd _).mpr ?_
    cases d with
    | entryMxAt p v =>
      by_cases hp : pc = p
      · subst hp
        exact Or.inr (by simpa [eq_comm] using hmx)
      · exact Or.inl (hl.mx_asked (by simpa [Function.update_of_ne hp] using hmx))
    | _ => exact Or.inl (hl.mx_asked hmx)
  mx_found := by
    intro pc mx hmx
    rw [apply_entryMxAt h]
    rcases (asks_append hd _).mp hmx with hmx | rfl
    · cases d with
      | entryMxAt p v =>
        by_cases hp : pc = p
        · simp [hp]
        · simpa [Function.update_of_ne hp] using hl.mx_found hmx
      | _ => exact hl.mx_found hmx
    · simp
  end_asked := by
    intro pc e he
    rw [apply_endAt h] at he
    refine (asks_append hd _).mpr ?_
    cases d with
    | endAt p v =>
      by_cases hp : pc = p
      · subst hp
        exact Or.inr (by simpa [eq_comm] using he)
      · exact Or.inl (hl.end_asked (by simpa [Function.update_of_ne hp] using he))
    | _ => exact Or.inl (hl.end_asked he)
  end_found := by
    intro pc e he
    rw [apply_endAt h]
    rcases (asks_append hd _).mp he with he | rfl
    · cases d with
      | endAt p v =>
        by_cases hp : pc = p
        · simp [hp]
        · simpa [Function.update_of_ne hp] using hl.end_found he
      | _ => exact hl.end_found he
    · simp
  bank := by rw [apply_bank h, bankOf_append hd, hl.bank]
  names := by
    intro decl
    rw [apply_names h, asks_append hd, ← hl.names]
    cases d <;> simp
  funcs := by
    intro start
    rw [apply_entries h]
    simp only [asks_append hd, exists_or, ← hl.funcs]
    cases d with
    | func name s options => simp [or_and_right, exists_or, funcEntry_start, eq_comm]
    | _ => simp
  sites := by
    intro site
    rw [apply_forceVariantAt h, pins_append hd, hl.sites]

theorem readLine_eq_ok {l l' : Loader} {line : Token} :
    l.readLine py line = .ok l' ↔ ∃ d, parseLine py line = .ok d ∧ l.apply py d = .ok l' := by
  unfold Loader.readLine
  cases h : parseLine py line with
  | error e => simp [bind, Except.bind]
  | ok d => simp [bind, Except.bind]

theorem foldlM_readLine_append {l l' : Loader} {lines : List Token} {line : Token} :
    (lines ++ [line]).foldlM (Loader.readLine py) l = .ok l' ↔
      ∃ l₁, lines.foldlM (Loader.readLine py) l = .ok l₁ ∧ l₁.readLine py line = .ok l' := by
  rw [List.foldlM_append]
  cases h : lines.foldlM (Loader.readLine py) l with
  | error e => simp [bind, Except.bind]
  | ok l₁ =>
    simp only [bind, Except.bind, List.foldlM_cons, List.foldlM_nil, pure, Except.pure]
    cases hline : l₁.readLine py line <;> simp [hline]

/-- The pass over the lines reads every line. -/
theorem readBy_of_foldlM : ∀ {lines : List Token} {l : Loader},
    lines.foldlM (Loader.readLine py) {} = .ok l → ReadBy py lines l := by
  intro lines
  induction lines using List.reverseRecOn with
  | nil =>
    intro l h
    cases h
    exact ReadBy.nil
  | append_singleton lines line ih =>
    intro l h
    obtain ⟨l₁, h₁, hline⟩ := foldlM_readLine_append.mp h
    obtain ⟨d, hd, happly⟩ := readLine_eq_ok.mp hline
    exact (ih h₁).line hd happly

/-- The pass fails only on a line that does not parse or pins a site again. -/
theorem foldlM_isOk : ∀ {lines : List Token},
    (∃ l, lines.foldlM (Loader.readLine py) {} = .ok l) ↔
      (∀ line ∈ lines, ∃ d, parseLine py line = .ok d) ∧
        (lines.filterMap (ofLine py Directive.pins)).Nodup := by
  intro lines
  induction lines using List.reverseRecOn with
  | nil => simp [pure, Except.pure]
  | append_singleton lines line ih =>
    have hstep : (∃ l, (lines ++ [line]).foldlM (Loader.readLine py) {} = .ok l) ↔
        (∃ l, lines.foldlM (Loader.readLine py) {} = .ok l) ∧
          ∃ d, parseLine py line = .ok d ∧
            ∀ site, d.pins = some site → site ∉ lines.filterMap (ofLine py Directive.pins) := by
      constructor
      · rintro ⟨l, h⟩
        obtain ⟨l₁, h₁, hline⟩ := foldlM_readLine_append.mp h
        obtain ⟨d, hd, happly⟩ := readLine_eq_ok.mp hline
        refine ⟨⟨l₁, h₁⟩, d, hd, fun site hsite => ?_⟩
        rw [← (readBy_of_foldlM h₁).sites]
        exact apply_isOk.mp ⟨l, happly⟩ site hsite
      · rintro ⟨⟨l₁, h₁⟩, d, hd, hpins⟩
        have happly : ∃ l', l₁.apply py d = .ok l' := by
          refine apply_isOk.mpr fun site hsite => ?_
          rw [(readBy_of_foldlM h₁).sites]
          exact hpins site hsite
        obtain ⟨l', happly⟩ := happly
        exact ⟨l', foldlM_readLine_append.mpr ⟨l₁, h₁, readLine_eq_ok.mpr ⟨d, hd, happly⟩⟩⟩
    rw [hstep, ih, List.filterMap_append, List.nodup_append]
    constructor
    · rintro ⟨⟨hall, hnodup⟩, d, hd, hpins⟩
      refine ⟨fun l hl => ?_, hnodup, ?_, ?_⟩
      · rcases List.mem_append.mp hl with hl | hl
        · exact hall l hl
        · exact ⟨d, List.mem_singleton.mp hl ▸ hd⟩
      · rw [List.filterMap_cons, List.filterMap_nil, ofLine_eq hd]
        cases d.pins <;> simp
      · rw [List.filterMap_cons, List.filterMap_nil, ofLine_eq hd]
        rintro a ha b hb rfl
        cases hpin : d.pins with
        | none => rw [hpin] at hb; cases hb
        | some site =>
          rw [hpin] at hb
          exact hpins site hpin (List.mem_singleton.mp hb ▸ ha)
    · rintro ⟨hall, hnodup, _, hdisjoint⟩
      obtain ⟨d, hd⟩ := hall line (List.mem_append_right _ (List.mem_singleton.mpr rfl))
      refine ⟨⟨fun l hl => hall l (List.mem_append_left _ hl), hnodup⟩, d, hd, ?_⟩
      intro site hsite hmem
      refine hdisjoint site hmem site ?_ rfl
      rw [List.filterMap_cons, List.filterMap_nil, ofLine_eq hd, hsite]
      exact List.mem_singleton.mpr rfl

end Reading

section Promotion

/-- What the promotion pass appends. -/
structure Promoted (bank : Int) (names : List NameDecl) (entries ps : List BankEntry) : Prop where
  named : ∀ p ∈ ps, ∃ decl ∈ names, decl.bank = bank ∧
    p = { name := decl.name, start := pc16 decl.addr24 } ∧
    pc16 decl.addr24 ∉ entries.map fun e => pc16 e.start
  nodup : (ps.map fun p => pc16 p.start).Nodup
  covers : ∀ decl ∈ names, decl.bank = bank →
    pc16 decl.addr24 ∈ (entries ++ ps).map fun e => pc16 e.start

theorem pc16_pc16 (n : Int) : pc16 (pc16 n) = pc16 n := Int.emod_emod_of_dvd n (Int.dvd_refl _)

theorem foldl_promote (bank : Int) : ∀ (names : List NameDecl) (entries : List BankEntry),
    ∃ ps, names.foldl (promote bank) entries = entries ++ ps ∧
      Promoted bank names entries ps := by
  intro names
  induction names using List.reverseRecOn with
  | nil =>
    intro entries
    exact ⟨[], by simp, by simp, by simp, by simp⟩
  | append_singleton names decl ih =>
    intro entries
    obtain ⟨ps, hps, hp⟩ := ih entries
    have hnamed : ∀ p ∈ ps, ∃ d ∈ names ++ [decl], d.bank = bank ∧
        p = { name := d.name, start := pc16 d.addr24 } ∧
        pc16 d.addr24 ∉ entries.map fun e => pc16 e.start := by
      intro p hmem
      obtain ⟨d, hd, hrest⟩ := hp.named p hmem
      exact ⟨d, List.mem_append_left _ hd, hrest⟩
    rw [List.foldl_append, List.foldl_cons, List.foldl_nil, hps, promote]
    by_cases hbank : decl.bank ≠ bank
    · rw [if_pos hbank]
      refine ⟨ps, rfl, hnamed, hp.nodup, fun d hd hdb => ?_⟩
      rcases List.mem_append.mp hd with hd | hd
      · exact hp.covers d hd hdb
      · exact absurd (List.mem_singleton.mp hd ▸ hdb) hbank
    · rw [if_neg hbank]
      by_cases hold : pc16 decl.addr24 ∈ (entries ++ ps).map fun e => pc16 e.start
      · rw [if_pos hold]
        refine ⟨ps, rfl, hnamed, hp.nodup, fun d hd hdb => ?_⟩
        rcases List.mem_append.mp hd with hd | hd
        · exact hp.covers d hd hdb
        · exact List.mem_singleton.mp hd ▸ hold
      · rw [if_neg hold]
        rw [List.map_append, List.mem_append, not_or] at hold
        refine ⟨ps ++ [{ name := decl.name, start := pc16 decl.addr24 }], by simp, ?_, ?_, ?_⟩
        · intro p hmem
          rcases List.mem_append.mp hmem with hmem | hmem
          · exact hnamed p hmem
          · exact ⟨decl, by simp, not_not.mp hbank, List.mem_singleton.mp hmem, hold.1⟩
        · rw [List.map_append, List.map_cons, List.map_nil, pc16_pc16, List.nodup_append]
          refine ⟨hp.nodup, by simp, ?_⟩
          rintro a ha b hb rfl
          exact hold.2 (List.mem_singleton.mp hb ▸ ha)
        · intro d hd hdb
          rcases List.mem_append.mp hd with hd | hd
          · have := hp.covers d hd hdb
            rw [List.map_append, List.mem_append] at this
            rw [List.map_append, List.mem_append, List.map_append, List.mem_append]
            exact this.imp_right Or.inl
          · rw [List.mem_singleton.mp hd]
            simp [pc16_pc16]

end Promotion

section Honours

variable (py : Python)

/-- Words are looked up in lists. -/
local instance lawfulToken : LawfulBEq Token := inferInstance

/-- A `name`, `func`, `entry_mx_at` or `end_at` line. -/
def isMovable (line : Token) : Bool :=
  (tokens line).head?.any fun head =>
    head ∈ ["name".toList, "func".toList, "entry_mx_at".toList, "end_at".toList]

/-- The same lines, with the names, functions and overrides in another order and place. -/
structure Reordered (lines lines' : List Token) : Prop where
  perm : lines.Perm lines'
  others : lines.filter (fun line => !isMovable line) = lines'.filter fun line => !isMovable line

/-- A `func` line starts at `pc`. -/
def FuncAt (lines : List Token) (pc : Int) : Prop :=
  ∃ name start options, Asks py lines (.func name start options) ∧ pc16 start = pc

/-- The configuration has the overrides that the lines ask for, and one entry for each
in-bank name without a `func` line. -/
structure Honours (lines : List Token) (cfg : BankCfg) : Prop where
  widths : ∀ e ∈ cfg.entries, ∀ mx, Asks py lines (.entryMxAt (pc16 e.start) mx) →
    (e.entryM, e.entryX) = mx
  ends : ∀ e ∈ cfg.entries, ∀ endPc, Asks py lines (.endAt (pc16 e.start) endPc) →
    e.endPc = some endPc
  promoted : ∀ decl, Asks py lines (.name decl) → decl.bank = cfg.bank →
    ¬ FuncAt py lines (pc16 decl.addr24) →
    (cfg.entries.filter fun e => pc16 e.start = pc16 decl.addr24).length = 1

/-- In any order of the lines the file loads and its overrides are honoured. -/
def OverridesHonoured (lines : List Token) : Prop :=
  ∀ lines', Reordered lines lines' →
    ∃ cfg, loadBankCfg py lines' = .ok cfg ∧ Honours py lines cfg

/-- No two overrides for the start of a function contradict one another, and the in-bank
names that are promoted have no end and no widths other than `1 1` asked for them. -/
structure Overridable (lines : List Token) : Prop where
  widths : ∀ pc mx mx', FuncAt py lines pc → Asks py lines (.entryMxAt pc mx) →
    Asks py lines (.entryMxAt pc mx') → mx = mx'
  ends : ∀ pc e e', FuncAt py lines pc → Asks py lines (.endAt pc e) →
    Asks py lines (.endAt pc e') → e = e'
  names : ∀ decl, Asks py lines (.name decl) → decl.bank = bankOf py lines →
    ¬ FuncAt py lines (pc16 decl.addr24) →
    (∀ mx, Asks py lines (.entryMxAt (pc16 decl.addr24) mx) → mx = (true, true)) ∧
      ∀ e, ¬ Asks py lines (.endAt (pc16 decl.addr24) e)

variable {py}

theorem asks_perm {lines lines' : List Token} (h : lines.Perm lines') (d : Directive) :
    Asks py lines d ↔ Asks py lines' d := by
  simp only [Asks, h.mem_iff]

theorem setsBank_parseName (args : List Token) : (parseName py args).setsBank = none := by
  unfold parseName
  split
  · split <;> rfl
  · rfl

theorem setsBank_parseFunc {args : List Token} {d : Directive}
    (h : parseFunc py args = .ok d) : d.setsBank = none := by
  unfold parseFunc at h
  split at h
  · next name start options =>
    cases hstart : parseHex py start with
    | error e => rw [hstart] at h; cases h
    | ok n => rw [hstart] at h; cases h; rfl
  · cases h; rfl

theorem setsBank_parseEntryMxAt {stripped : Token} {args : List Token} {d : Directive}
    (h : parseEntryMxAt py stripped args = .ok d) : d.setsBank = none := by
  unfold parseEntryMxAt at h
  split at h
  · split at h <;> cases h
    rfl
  · cases h

theorem setsBank_parseEndAt {stripped : Token} {args : List Token} {d : Directive}
    (h : parseEndAt py stripped args = .ok d) : d.setsBank = none := by
  unfold parseEndAt at h
  split at h
  · split at h <;> cases h
    rfl
  · cases h

theorem setsBank_movable {line : Token} (h : isMovable line = true) :
    ofLine py Directive.setsBank line = none := by
  have hparse : ∀ d, parseLine py line = .ok d → d.setsBank = none := by
    intro d hd
    unfold isMovable at h
    cases htokens : tokens line with
    | nil => rw [htokens] at h; cases h
    | cons head args =>
      rw [htokens] at h
      have hhead : head = "name".toList ∨ head = "func".toList ∨ head = "entry_mx_at".toList ∨
          head = "end_at".toList := by simpa using h
      unfold parseLine at hd
      dsimp only at hd
      rw [show split (strip (stripComment line)) = head :: args from htokens] at hd
      rcases hhead with rfl | rfl | rfl | rfl
      · simp +decide only [if_true, if_false, Except.ok.injEq] at hd
        exact hd ▸ setsBank_parseName args
      · simp +decide only [if_true, if_false] at hd
        exact setsBank_parseFunc hd
      · simp +decide only [if_true, if_false] at hd
        exact setsBank_parseEntryMxAt hd
      · simp +decide only [if_true, if_false] at hd
        exact setsBank_parseEndAt hd
  unfold ofLine
  cases hd : parseLine py line with
  | error e => rfl
  | ok d => exact hparse d hd

theorem bankOf_filter (lines : List Token) :
    bankOf py (lines.filter fun line => !isMovable line) = bankOf py lines := by
  have hfilter : (lines.filter fun line => !isMovable line).filterMap
      (ofLine py Directive.setsBank) = lines.filterMap (ofLine py Directive.setsBank) := by
    induction lines with
    | nil => rfl
    | cons line lines ih =>
      rw [List.filter_cons]
      by_cases hline : isMovable line = true
      · rw [hline, List.filterMap_cons, setsBank_movable hline]
        exact ih
      · rw [Bool.not_eq_true] at hline
        rw [hline]
        simp only [Bool.not_false, if_true, List.filterMap_cons, ih]
  rw [bankOf, bankOf, hfilter]

theorem Reordered.bankOf_eq {lines lines' : List Token} (h : Reordered lines lines') :
    bankOf py lines = bankOf py lines' := by
  rw [← bankOf_filter lines, h.others, bankOf_filter]

theorem loadBankCfg_eq_ok {lines : List Token} {cfg : BankCfg} :
    loadBankCfg py lines = .ok cfg ↔
      ∃ l, lines.foldlM (Loader.readLine py) {} = .ok l ∧ l.finish = .ok cfg := by
  unfold loadBankCfg
  cases h : lines.foldlM (Loader.readLine py) {} <;> simp [bind, Except.bind]

theorem finish_eq_ok {l : Loader} {cfg : BankCfg} :
    l.finish = .ok cfg ↔ 0 ≤ l.cfg.bank ∧ { l.cfg with
      entries := l.cfg.names.foldl (promote l.cfg.bank) (l.cfg.entries.map l.override) } = cfg := by
  unfold Loader.finish
  by_cases h : l.cfg.bank < 0
  · simp [h, Int.not_le.mpr h]
  · simp [h, Int.not_lt.mp h]

/-- Whether a file loads does not depend on the order of the movable lines. -/
theorem Reordered.loads {lines lines' : List Token} (h : Reordered lines lines')
    (hload : ∃ cfg, loadBankCfg py lines = .ok cfg) : ∃ cfg, loadBankCfg py lines' = .ok cfg := by
  obtain ⟨cfg, hcfg⟩ := hload
  obtain ⟨l, hl, hfinish⟩ := loadBankCfg_eq_ok.mp hcfg
  obtain ⟨hall, hnodup⟩ := foldlM_isOk.mp ⟨l, hl⟩
  obtain ⟨l', hl'⟩ := foldlM_isOk.mpr
    ⟨fun line hline => hall line (h.perm.mem_iff.mpr hline),
      (h.perm.filterMap _).nodup_iff.mp hnodup⟩
  have hbank : l'.cfg.bank = l.cfg.bank := by
    rw [(readBy_of_foldlM hl').bank, (readBy_of_foldlM hl).bank, h.bankOf_eq]
  refine ⟨_, loadBankCfg_eq_ok.mpr ⟨l', hl', finish_eq_ok.mpr ⟨?_, rfl⟩⟩⟩
  rw [hbank]
  exact (finish_eq_ok.mp hfinish).1

/-- The entries of a loaded file: those of its `func` lines under the override pass, then the
promoted names. -/
structure Loaded (py : Python) (lines : List Token) (cfg : BankCfg) (l : Loader)
    (ps : List BankEntry) : Prop where
  read : ReadBy py lines l
  bank : cfg.bank = bankOf py lines
  entries : cfg.entries = l.cfg.entries.map l.override ++ ps
  promoted : Promoted cfg.bank l.cfg.names (l.cfg.entries.map l.override) ps

theorem loaded {lines : List Token} {cfg : BankCfg} (h : loadBankCfg py lines = .ok cfg) :
    ∃ l ps, Loaded py lines cfg l ps := by
  obtain ⟨l, hl, hfinish⟩ := loadBankCfg_eq_ok.mp h
  obtain ⟨-, rfl⟩ := finish_eq_ok.mp hfinish
  obtain ⟨ps, hps, hp⟩ := foldl_promote l.cfg.bank l.cfg.names (l.cfg.entries.map l.override)
  exact ⟨l, ps, readBy_of_foldlM hl, (readBy_of_foldlM hl).bank, hps, hp⟩

section Loaded

variable {lines lines' : List Token} {cfg : BankCfg} {l : Loader} {ps : List BankEntry}

theorem override_start (l : Loader) (e : BankEntry) : (l.override e).start = e.start := rfl

theorem starts_override (l : Loader) (entries : List BankEntry) :
    ((entries.map l.override).map fun e => pc16 e.start) = entries.map fun e => pc16 e.start := by
  rw [List.map_map]
  rfl

theorem Loaded.funcAt_iff (h : Loaded py lines cfg l ps) (pc : Int) :
    pc ∈ ((l.cfg.entries.map l.override).map fun e => pc16 e.start) ↔ FuncAt py lines pc := by
  rw [starts_override, List.mem_map]
  constructor
  · rintro ⟨e, he, rfl⟩
    obtain ⟨name, options, hasked⟩ := (h.read.funcs e.start).mp ⟨e, he, rfl⟩
    exact ⟨name, e.start, options, hasked, rfl⟩
  · rintro ⟨name, start, options, hasked, rfl⟩
    obtain ⟨e, he, rfl⟩ := (h.read.funcs start).mpr ⟨name, options, hasked⟩
    exact ⟨e, he, rfl⟩

/-- A promoted entry has the defaults. -/
theorem Loaded.of_promoted (h : Loaded py lines cfg l ps) {p : BankEntry} (hp : p ∈ ps) :
    ∃ decl, Asks py lines (.name decl) ∧ decl.bank = bankOf py lines ∧
      p = { name := decl.name, start := pc16 decl.addr24 } ∧
      ¬ FuncAt py lines (pc16 decl.addr24) := by
  obtain ⟨decl, hdecl, hbank, rfl, hnew⟩ := h.promoted.named p hp
  rw [h.funcAt_iff] at hnew
  exact ⟨decl, (h.read.names decl).mp hdecl, hbank.trans h.bank, rfl, hnew⟩

/-- A name without a function is promoted once. -/
theorem Loaded.one_entry (h : Loaded py lines cfg l ps) {decl : NameDecl}
    (hasked : Asks py lines (.name decl)) (hbank : decl.bank = cfg.bank)
    (hnew : ¬ FuncAt py lines (pc16 decl.addr24)) :
    (cfg.entries.filter fun e => pc16 e.start = pc16 decl.addr24).length = 1 := by
  have hfunc : ((l.cfg.entries.map l.override).filter fun e =>
      pc16 e.start = pc16 decl.addr24) = [] := by
    rw [List.filter_eq_nil_iff]
    intro e he heq
    refine hnew ((h.funcAt_iff _).mp (List.mem_map.mpr ⟨e, he, ?_⟩))
    simpa using heq
  have hmem : pc16 decl.addr24 ∈ ps.map fun p => pc16 p.start := by
    have hcover := h.promoted.covers decl ((h.read.names decl).mpr hasked) hbank
    rw [List.map_append, List.mem_append, h.funcAt_iff] at hcover
    exact hcover.resolve_left hnew
  have hcount : ((ps.map fun p => pc16 p.start).count (pc16 decl.addr24)) = 1 :=
    List.count_eq_one_of_mem h.promoted.nodup hmem
  rw [h.entries, List.filter_append, hfunc, List.nil_append, ← List.countP_eq_length_filter]
  rw [List.count, List.countP_map] at hcount
  rw [← hcount]
  congr 1

/-- The overrides of an entry of a `func` line. -/
theorem Loaded.honours (h : Loaded py lines cfg l ps) (ho : Overridable py lines) :
    Honours py lines cfg where
  widths := by
    intro e he mx hasked
    rw [h.entries, List.mem_append] at he
    rcases he with he | he
    · obtain ⟨e₀, he₀, rfl⟩ := List.mem_map.mp he
      rw [override_start] at hasked
      obtain ⟨mx', hmx'⟩ := Option.isSome_iff_exists.mp (h.read.mx_found hasked)
      have hfunc := (h.funcAt_iff _).mp (List.mem_map.mpr ⟨_, he, rfl⟩)
      have heq := ho.widths _ _ _ hfunc (h.read.mx_asked hmx') hasked
      simp [Loader.override, hmx', heq]
    · obtain ⟨decl, hdecl, hbank, rfl, hnew⟩ := h.of_promoted he
      rw [pc16_pc16] at hasked
      exact ((ho.names decl hdecl hbank hnew).1 mx hasked).symm
  ends := by
    intro e he endPc hasked
    rw [h.entries, List.mem_append] at he
    rcases he with he | he
    · obtain ⟨e₀, he₀, rfl⟩ := List.mem_map.mp he
      rw [override_start] at hasked
      obtain ⟨end', hend'⟩ := Option.isSome_iff_exists.mp (h.read.end_found hasked)
      have hfunc := (h.funcAt_iff _).mp (List.mem_map.mpr ⟨_, he, rfl⟩)
      have heq := ho.ends _ _ _ hfunc (h.read.end_asked hend') hasked
      simp [Loader.override, hend', heq]
    · obtain ⟨decl, hdecl, hbank, rfl, hnew⟩ := h.of_promoted he
      rw [pc16_pc16] at hasked
      exact absurd hasked ((ho.names decl hdecl hbank hnew).2 endPc)
  promoted := fun decl hasked hbank hnew => h.one_entry hasked hbank hnew

theorem Loaded.overridable (h : Loaded py lines cfg l ps) (hh : Honours py lines cfg) :
    Overridable py lines where
  widths := by
    intro pc mx mx' hfunc hmx hmx'
    obtain ⟨e, he, rfl⟩ := List.mem_map.mp ((h.funcAt_iff pc).mpr hfunc)
    have hmem : e ∈ cfg.entries := by
      rw [h.entries]
      exact List.mem_append_left _ he
    exact (hh.widths e hmem mx hmx).symm.trans (hh.widths e hmem mx' hmx')
  ends := by
    intro pc e₁ e₂ hfunc he₁ he₂
    obtain ⟨e, he, rfl⟩ := List.mem_map.mp ((h.funcAt_iff pc).mpr hfunc)
    have hmem : e ∈ cfg.entries := by
      rw [h.entries]
      exact List.mem_append_left _ he
    exact Option.some.inj ((hh.ends e hmem e₁ he₁).symm.trans (hh.ends e hmem e₂ he₂))
  names := by
    intro decl hasked hbank hnew
    have hcover := h.promoted.covers decl ((h.read.names decl).mpr hasked)
      (hbank.trans h.bank.symm)
    rw [List.map_append, List.mem_append, h.funcAt_iff] at hcover
    obtain ⟨p, hp, hstart⟩ := List.mem_map.mp (hcover.resolve_left hnew)
    have hmem : p ∈ cfg.entries := by
      rw [h.entries]
      exact List.mem_append_right _ hp
    obtain ⟨decl', -, -, rfl, -⟩ := h.of_promoted hp
    rw [← hstart]
    exact ⟨fun mx hmx => (hh.widths _ hmem mx hmx).symm,
      fun e he => by have := hh.ends _ hmem e he; cases this⟩

end Loaded

theorem Overridable.perm {lines lines' : List Token} (h : Reordered lines lines')
    (ho : Overridable py lines) : Overridable py lines' where
  widths := by
    simpa only [FuncAt, ← asks_perm h.perm] using ho.widths
  ends := by
    simpa only [FuncAt, ← asks_perm h.perm] using ho.ends
  names := by
    simpa only [FuncAt, ← asks_perm h.perm, ← h.bankOf_eq] using ho.names

/-- The overrides of a file that loads are honoured exactly if no two of them contradict one
another and none is asked for a promoted name. -/
theorem overridesHonoured_iff {lines : List Token} (hload : ∃ cfg, loadBankCfg py lines = .ok cfg) :
    OverridesHonoured py lines ↔ Overridable py lines := by
  constructor
  · intro h
    obtain ⟨cfg, hcfg, hh⟩ := h lines ⟨List.Perm.refl _, rfl⟩
    obtain ⟨l, ps, hl⟩ := loaded hcfg
    exact hl.overridable hh
  · intro ho lines' hr
    obtain ⟨cfg, hcfg⟩ := hr.loads hload
    obtain ⟨l, ps, hl⟩ := loaded hcfg
    have hh := hl.honours (ho.perm hr)
    refine ⟨cfg, hcfg, ?_, ?_, ?_⟩
    · simpa only [← asks_perm hr.perm] using hh.widths
    · simpa only [← asks_perm hr.perm] using hh.ends
    · simpa only [FuncAt, ← asks_perm hr.perm] using hh.promoted

section Promoted

/-- The value of an ASCII digit, in any base up to 16. -/
def asciiDigit (c : Char) : Option Nat :=
  if c.isDigit then some (c.toNat - 48)
  else if 'a' ≤ c ∧ c ≤ 'f' then some (c.toNat - 87)
  else if 'A' ≤ c ∧ c ≤ 'F' then some (c.toNat - 55)
  else none

/-- `int(token, base)` on plain ASCII digits. -/
def asciiInt (base : Nat) (t : Token) : Option Int :=
  let base := if base = 0 then 10 else base
  match t.mapM asciiDigit with
  | none => none
  | some ds =>
    if ds ≠ [] ∧ ∀ d ∈ ds, d < base then some (ds.foldl (fun n d => base * n + d) 0 : Nat)
    else none

def asciiPython : Python where
  int := asciiInt
  isalnum t := !t.isEmpty && t.all Char.isAlphanum
  isdigit := Char.isDigit

/-- An in-bank name, and the widths asked for at its address. -/
def widthsOfName : List Token :=
  ["bank = 00".toList, "name 008000 Body".toList, "entry_mx_at 8000 0 0".toList]

/-- The name is promoted to an entry that keeps the default widths. -/
theorem not_overridesHonoured_name :
    (loadBankCfg asciiPython widthsOfName).toOption.map BankCfg.entries =
        some [{ name := "Body".toList, start := 0x8000, entryM := true, entryX := true }] ∧
      ¬ OverridesHonoured asciiPython widthsOfName := by
  refine ⟨by decide, fun h => ?_⟩
  obtain ⟨cfg, hcfg, hh⟩ := h widthsOfName ⟨List.Perm.refl _, rfl⟩
  obtain ⟨l, ps, hl⟩ := loaded hcfg
  have hname : Asks asciiPython widthsOfName (.name ⟨0x8000, "Body".toList⟩) :=
    ⟨"name 008000 Body".toList, by decide, by decide⟩
  have hmx : Asks asciiPython widthsOfName (.entryMxAt 0x8000 (false, false)) :=
    ⟨"entry_mx_at 8000 0 0".toList, by decide, by decide⟩
  have hnew : ¬ FuncAt asciiPython widthsOfName 0x8000 := by
    rintro ⟨name, start, options, ⟨line, hline, hparse⟩, -⟩
    have hnone : ∀ line ∈ widthsOfName, ∀ name start options,
        parseLine asciiPython line ≠ .ok (.func name start options) := by
      have hlines : widthsOfName.map (parseLine asciiPython) =
          [.ok (.bank 0), .ok (.name ⟨0x8000, "Body".toList⟩),
            .ok (.entryMxAt 0x8000 (false, false))] := by decide
      intro line hline name start options heq
      have hmem := List.mem_map.mpr ⟨line, hline, heq⟩
      rw [hlines] at hmem
      simp at hmem
    exact hnone line hline name start options hparse
  have hwidths := ((hl.overridable hh).names _ hname (by decide) hnew).1 _ hmx
  exact absurd hwidths (by decide)

/-- The theorem at that file. -/
theorem overridesHonoured_iff_name :
    OverridesHonoured asciiPython widthsOfName ↔ Overridable asciiPython widthsOfName := by
  refine overridesHonoured_iff ?_
  have hsome : (loadBankCfg asciiPython widthsOfName).toOption.isSome := by decide
  cases h : loadBankCfg asciiPython widthsOfName with
  | error e => rw [h] at hsome; cases hsome
  | ok cfg => exact ⟨cfg, rfl⟩

end Promoted

end Honours

end SnesRecomp.CfgLoader
