import ExprLang.Proofs.Chain.Climb
import ExprLang.Proofs.Reading.Passage
import ExprLang.Proofs.Reading.Phrase

/-! Expressions are read exactly as the grammar has them: what a reader takes is a phrase, and every
phrase is taken whole unless what follows makes it longer. -/
namespace ExprLang

/-- What stands behind tokens makes no call of a name at their end. -/
def Uncalled (ts : List Token) (next : Token) : Prop :=
  EndsInName ts → next.isSymbol '(' = false

theorem uncalled_cons {operator next : Token} {ts : List Token} (hts : ts ≠ []) :
    Uncalled (operator :: ts) next ↔ Uncalled ts next := by
  rw [Uncalled, endsInName_cons hts, Uncalled]

theorem uncalled_append {next : Token} {ts us : List Token} :
    Uncalled (ts ++ us) next ↔ Uncalled us next ∧ (us = [] → Uncalled ts next) := by
  unfold Uncalled
  by_cases hnil : us = []
  · simp [hnil]
  · rw [endsInName_append hnil]
    simp [hnil]

/-- What stands behind an expression does not make it longer. -/
structure Follows (t : Table) (ts : List Token) (next : Token) : Prop where
  uncalled : Uncalled ts next
  ended : t.isOperator next = false

private theorem Uncalled.of_isSymbol {ts : List Token} {next : Token} {c : Char}
    (h : next.isSymbol c = true) (hc : c ≠ '(') : Uncalled ts next := by
  intro _
  simpa [Token.isSymbol, Token.isSymbol_iff.mp h] using hc

theorem Follows.of_isSymbol {t : Table} (ht : t.Legal) {ts : List Token} {next : Token} {c : Char}
    (h : next.isSymbol c = true) (hc : c ≠ '(') (hr : c ∈ reservedChars) : Follows t ts next :=
  ⟨.of_isSymbol h hc, ht.isOperator_eq_false h hr⟩

theorem Uncalled.of_end {ts : List Token} {next : Token} (h : next.kind = .endOfInput) :
    Uncalled ts next :=
  fun _ => by simp [Token.isSymbol, h]

theorem Follows.of_end {t : Table} {ts : List Token} {next : Token} (h : next.kind = .endOfInput) :
    Follows t ts next :=
  ⟨.of_end h, by simp [Table.isOperator, h]⟩

namespace Reader
variable {t : Table} {inner : Reader Expr} {P : Phrase Expr} {s s' : Lookahead} {e : Expr}

/-- Arguments are read up to the closing bracket behind them. -/
theorem arguments_eq_ok_iff (ht : t.Legal) (hinner : Reads inner P (Follows t))
    (hP : ∀ ts e, P ts e → Derives t .expression ts) (count : Nat) {args : List Expr}
    (hcount : s.ahead.length < count) :
    arguments inner count s = .ok args s' ↔ ∃ ts, Passes s ts s' ∧ Phrase.Arguments P ts args := by
  induction count generalizing s args with
  | zero => exact absurd hcount (Nat.not_lt_zero _)
  | succ count ih =>
    -- One argument and a comma leave fewer tokens than before, so the bound never runs out.
    have hless {s1 s2 : Lookahead} {ts : List Token} {e : Expr} {c : Char} (hpass : Passes s ts s1)
        (hts : P ts e) (hc : s1.current.isSymbol c = true) (hadvance : advance s1 = .ok () s2) :
        s1.current.kind ≠ .endOfInput ∧ s2.ahead.length < count := by
      have hend := Token.ne_end_of_isSymbol hc
      have hlen := (hpass.append (.one hend hadvance)).length_ahead
      have hpos := List.length_pos_iff.mpr (hP _ _ hts).expression_ne_nil
      rw [List.length_append, List.length_singleton] at hlen
      exact ⟨hend, by omega⟩
    rw [arguments, bind_eq_ok_iff]
    constructor
    · rintro ⟨arg, s1, harg, h⟩
      obtain ⟨ts, hpass, hts, _⟩ := (hinner _ _ _).mp harg
      rw [current_bind] at h
      split at h
      · rename_i hclose
        obtain ⟨_, s2, hadvance, h⟩ := bind_eq_ok_iff.mp h
        obtain ⟨rfl, rfl⟩ := pure_eq_ok_iff.mp h
        exact ⟨_, hpass.append (.one (hless hpass hts hclose hadvance).1 hadvance),
          .last hts hclose⟩
      · split at h
        · rename_i hcomma
          obtain ⟨_, s2, hadvance, h⟩ := bind_eq_ok_iff.mp h
          obtain ⟨rest, s3, hrest, h⟩ := bind_eq_ok_iff.mp h
          obtain ⟨rfl, rfl⟩ := pure_eq_ok_iff.mp h
          obtain ⟨hend, hlt⟩ := hless hpass hts hcomma hadvance
          obtain ⟨us, hpass', hus⟩ := (ih hlt).mp hrest
          exact ⟨_, hpass.append (.step hend hadvance hpass'), .more hts hcomma hus⟩
        · cases h
    · rintro ⟨ts, hall, hargs⟩
      cases hargs with
      | last harg hclose =>
        obtain ⟨s1, hpass, hlast⟩ := Passes.append_iff.mp hall
        obtain ⟨rfl, _, s2, hadvance, hrest⟩ := Passes.cons_iff.mp hlast
        obtain rfl := Passes.nil_iff.mp hrest
        refine ⟨_, s1, (hinner _ _ _).mpr
          ⟨_, hpass, harg, .of_isSymbol ht hclose (by decide) (by decide)⟩, ?_⟩
        rw [current_bind, if_pos hclose]
        exact bind_eq_ok_iff.mpr ⟨(), s2, hadvance, rfl⟩
      | more harg hcomma hrest =>
        obtain ⟨s1, hpass, hlast⟩ := Passes.append_iff.mp hall
        obtain ⟨rfl, hend, s2, hadvance, hpass'⟩ := Passes.cons_iff.mp hlast
        have hclose : ¬ s1.current.isSymbol ')' = true := by
          simp [Token.isSymbol, Token.isSymbol_iff.mp hcomma]
        refine ⟨_, s1, (hinner _ _ _).mpr
          ⟨_, hpass, harg, .of_isSymbol ht hcomma (by decide) (by decide)⟩, ?_⟩
        rw [current_bind, if_neg hclose, if_pos hcomma]
        refine bind_eq_ok_iff.mpr ⟨(), s2, hadvance, bind_eq_ok_iff.mpr ⟨_, s', ?_, rfl⟩⟩
        exact (ih (hless hpass harg hcomma hadvance).2).mpr ⟨_, hpass', hrest⟩

private theorem nameOrCall_eq_ok_iff :
    nameOrCall inner s = .ok e s' ↔ ∃ s1, advance s = .ok () s1 ∧
      if s1.current.isSymbol '(' then ∃ s2, advance s1 = .ok () s2 ∧
        if s2.current.isSymbol ')' then
          advance s2 = .ok () s' ∧ e = .call s.current.valueText [] s.current.pos
        else ∃ args, arguments inner (s2.ahead.length + 1) s2 = .ok args s' ∧
          e = .call s.current.valueText args s.current.pos
      else e = .var s.current.valueText s.current.pos ∧ s' = s1 := by
  rw [nameOrCall, current_bind, advance_bind_eq_ok_iff]
  refine exists_congr fun s1 => and_congr_right fun _ => ?_
  rw [current_bind]
  split
  · rw [advance_bind_eq_ok_iff]
    refine exists_congr fun s2 => and_congr_right fun _ => ?_
    rw [current_bind]
    split
    · rw [bind_pure_eq_ok_iff]
      exact ⟨fun ⟨_, h⟩ => h, fun h => ⟨(), h⟩⟩
    · rw [left_bind, bind_pure_eq_ok_iff]
  · rw [pure_eq_ok_iff, eq_comm (a := e), eq_comm (a := s')]

private theorem bracketed_eq_ok_iff : bracketed inner s = .ok e s' ↔
    ∃ s1, advance s = .ok () s1 ∧ ∃ s2, inner s1 = .ok e s2 ∧ s2.current.isSymbol ')' = true ∧
      advance s2 = .ok () s' := by
  rw [bracketed, advance_bind_eq_ok_iff]
  refine exists_congr fun s1 => and_congr_right fun _ => ?_
  rw [bind_eq_ok_iff]
  constructor
  · rintro ⟨_, s2, hinner, h⟩
    obtain ⟨hclose, _, hadvance, ⟨⟩⟩ := (expect_bind_eq_ok_iff closing_eq_singleton).mp h
    exact ⟨s2, hinner, hclose, hadvance⟩
  · rintro ⟨s2, hinner, hclose, hadvance⟩
    exact ⟨e, s2, hinner, (expect_bind_eq_ok_iff closing_eq_singleton).mpr ⟨hclose, s', hadvance, rfl⟩⟩

private theorem number_eq_ok_iff {value : Double} (h : s.current.kind = .number value) :
    number s = .ok e s' ↔ advance s = .ok () s' ∧ e = .number value s.current.pos := by
  rw [number, current_bind]
  simp only [h]
  rw [bind_pure_eq_ok_iff]
  exact ⟨fun ⟨_, h⟩ => h, fun h => ⟨(), h⟩⟩

/-- An operand is told by its first token. -/
theorem operandOver_eq (s : Lookahead) :
    operandOver inner s =
      if s.current.isName then nameOrCall inner s
      else if s.current.isNumber then number s
      else if s.current.isSymbol '(' then bracketed inner s
      else .error (.unexpected .expression s.current) s := by
  rw [operandOver, current_bind]
  cases hk : s.current.kind with
  | identifier name => simp [Token.isName, hk]
  | number value => simp [Token.isName, Token.isNumber, hk]
  | symbol c =>
    by_cases hc : c = '('
    · simp [Token.isName, Token.isNumber, Token.isSymbol, hk, hc]
    · simp [Token.isName, Token.isNumber, Token.isSymbol, hk, hc, fail]
  | _ => simp [Token.isName, Token.isNumber, Token.isSymbol, hk, fail]

private theorem uncalled_of_two_le (hP : ∀ ts e, P ts e → Derives t .expression ts)
    {ts : List Token} (h : Phrase.OperandOver P ts e) (hts : 2 ≤ ts.length) (next : Token) :
    Uncalled ts next := by
  intro hends
  obtain ⟨_, rfl, _⟩ := (h.derives hP).eq_name hends
  simp at hts

private theorem phrase_of_nameOrCall (ht : t.Legal) (hinner : Reads inner P (Follows t))
    (hP : ∀ ts e, P ts e → Derives t .expression ts) (hname : s.current.isName = true)
    (h : nameOrCall inner s = .ok e s') :
    ∃ ts, Passes s ts s' ∧ Phrase.OperandOver P ts e ∧ Uncalled ts s'.current := by
  obtain ⟨name, hk⟩ := Token.isName_iff.mp hname
  have hend : s.current.kind ≠ .endOfInput := by simp [hk]
  have hvalue := Token.valueText_of_kind hk
  obtain ⟨s1, h1, h⟩ := nameOrCall_eq_ok_iff.mp h
  rw [hvalue] at h
  split at h
  · rename_i hopen
    obtain ⟨s2, h2, h⟩ := h
    split at h
    · rename_i hclose
      obtain ⟨h3, rfl⟩ := h
      have hphrase : Phrase.OperandOver P _ _ := .emptyCall hk hopen hclose
      have hpass := Passes.one (Token.ne_end_of_isSymbol hclose) h3
      exact ⟨_, .step hend h1 (.step (Token.ne_end_of_isSymbol hopen) h2 hpass), hphrase,
        uncalled_of_two_le hP hphrase (by simp) _⟩
    · obtain ⟨args, hargs, rfl⟩ := h
      obtain ⟨ts, hpass, hts⟩ :=
        (arguments_eq_ok_iff ht hinner hP _ (Nat.lt_succ_self _)).mp hargs
      have hphrase := Phrase.OperandOver.call hk hopen hts
      exact ⟨_, .step hend h1 (.step (Token.ne_end_of_isSymbol hopen) h2 hpass), hphrase,
        uncalled_of_two_le hP hphrase (by simp) _⟩
  · rename_i hopen
    obtain ⟨rfl, rfl⟩ := h
    exact ⟨_, .one hend h1, .name hk, fun _ => by simpa using hopen⟩

private theorem arguments_head (hP : ∀ ts e, P ts e → Derives t .expression ts) {ts : List Token}
    {args : List Expr} (h : Phrase.Arguments P ts args) :
    ∃ token rest, ts = token :: rest ∧ token.isSymbol ')' = false := by
  have hhead {us : List Token} {e : Expr} (h : P us e) :
      ∃ token rest, us = token :: rest ∧ token.isSymbol ')' = false := by
    obtain ⟨token, rest, rfl, htoken⟩ := (hP _ _ h).expression_eq_cons
    refine ⟨token, rest, rfl, Bool.eq_false_iff.mpr fun hc => ?_⟩
    simp [Token.isNumber, Token.isName, Token.isSymbol, Token.isSymbol_iff.mp hc] at htoken
  cases h with
  | last harg hclose =>
    obtain ⟨token, rest, rfl, htoken⟩ := hhead harg
    exact ⟨token, _, rfl, htoken⟩
  | more harg hcomma hrest =>
    obtain ⟨token, rest, rfl, htoken⟩ := hhead harg
    exact ⟨token, _, rfl, htoken⟩

private theorem operandOver_of_phrase (ht : t.Legal) (hinner : Reads inner P (Follows t))
    (hP : ∀ ts e, P ts e → Derives t .expression ts) {ts : List Token} (hall : Passes s ts s')
    (hphrase : Phrase.OperandOver P ts e) (hfollow : Uncalled ts s'.current) :
    operandOver inner s = .ok e s' := by
  have hvalue {name : String} (hk : s.current.kind = .identifier name) :
      s.current.isName = true ∧ s.current.valueText = name :=
    ⟨Token.isName_iff.mpr ⟨_, hk⟩, Token.valueText_of_kind hk⟩
  rw [operandOver_eq]
  cases hphrase with
  | number hk =>
    obtain ⟨rfl, _, s1, h1, hrest⟩ := Passes.cons_iff.mp hall
    obtain rfl := Passes.nil_iff.mp hrest
    rw [if_neg (by simp [Token.isName, hk]), if_pos (by simp [Token.isNumber, hk])]
    exact (number_eq_ok_iff hk).mpr ⟨h1, rfl⟩
  | name hk =>
    obtain ⟨rfl, _, s1, h1, hrest⟩ := Passes.cons_iff.mp hall
    obtain rfl := Passes.nil_iff.mp hrest
    obtain ⟨hname, hvalue⟩ := hvalue hk
    rw [if_pos hname]
    refine nameOrCall_eq_ok_iff.mpr ⟨s1, h1, ?_⟩
    rw [if_neg (by simp [hfollow (endsInName_singleton.mpr hname)])]
    exact ⟨by rw [hvalue], rfl⟩
  | emptyCall hk hopen hclose =>
    obtain ⟨rfl, _, s1, h1, hrest⟩ := Passes.cons_iff.mp hall
    obtain ⟨rfl, _, s2, h2, hrest⟩ := Passes.cons_iff.mp hrest
    obtain ⟨rfl, _, s3, h3, hrest⟩ := Passes.cons_iff.mp hrest
    obtain rfl := Passes.nil_iff.mp hrest
    obtain ⟨hname, hvalue⟩ := hvalue hk
    rw [if_pos hname]
    refine nameOrCall_eq_ok_iff.mpr ⟨s1, h1, ?_⟩
    rw [if_pos hopen]
    refine ⟨s2, h2, ?_⟩
    rw [if_pos hclose]
    exact ⟨h3, by rw [hvalue]⟩
  | call hk hopen hargs =>
    obtain ⟨rfl, _, s1, h1, hrest⟩ := Passes.cons_iff.mp hall
    obtain ⟨rfl, _, s2, h2, hrest⟩ := Passes.cons_iff.mp hrest
    obtain ⟨token, us, rfl, hclose⟩ := arguments_head hP hargs
    obtain ⟨hname, hvalue⟩ := hvalue hk
    rw [if_pos hname]
    refine nameOrCall_eq_ok_iff.mpr ⟨s1, h1, ?_⟩
    rw [if_pos hopen]
    refine ⟨s2, h2, ?_⟩
    rw [if_neg (by simp [hrest.current_eq, hclose])]
    exact ⟨_, (arguments_eq_ok_iff ht hinner hP _ (Nat.lt_succ_self _)).mpr ⟨_, hrest, hargs⟩,
      by rw [hvalue]⟩
  | bracketed hopen hphrase hclose =>
    obtain ⟨rfl, _, s1, h1, hrest⟩ := Passes.cons_iff.mp hall
    obtain ⟨s2, hpass, hlast⟩ := Passes.append_iff.mp hrest
    obtain ⟨rfl, _, s3, h3, hrest⟩ := Passes.cons_iff.mp hlast
    obtain rfl := Passes.nil_iff.mp hrest
    have hk := Token.isSymbol_iff.mp hopen
    rw [if_neg (by simp [Token.isName, hk]), if_neg (by simp [Token.isNumber, hk]), if_pos hopen]
    exact bracketed_eq_ok_iff.mpr ⟨s1, h1, s2, (hinner _ _ _).mpr
      ⟨_, hpass, hphrase, .of_isSymbol ht hclose (by decide) (by decide)⟩, hclose, h3⟩

/-- An operand is read with all of its brackets. -/
theorem operandOver_reads (ht : t.Legal) (hinner : Reads inner P (Follows t))
    (hP : ∀ ts e, P ts e → Derives t .expression ts) :
    Reads (operandOver inner) (Phrase.OperandOver P) Uncalled := by
  intro s e s'
  constructor
  · intro h
    rw [operandOver_eq] at h
    split at h
    · rename_i hname
      exact phrase_of_nameOrCall ht hinner hP hname h
    split at h
    · rename_i hname hnumber
      obtain ⟨value, hk⟩ := Token.isNumber_iff.mp hnumber
      obtain ⟨h1, rfl⟩ := (number_eq_ok_iff hk).mp h
      exact ⟨_, .one (by simp [hk]) h1, .number hk,
        fun hends => absurd (endsInName_singleton.mp hends) hname⟩
    split at h
    · rename_i hopen
      obtain ⟨s1, h1, s2, hread, hclose, h2⟩ := bracketed_eq_ok_iff.mp h
      obtain ⟨ts, hpass, hts, _⟩ := (hinner _ _ _).mp hread
      have hphrase := Phrase.OperandOver.bracketed hopen hts hclose
      have hall := hpass.append (.one (Token.ne_end_of_isSymbol hclose) h2)
      exact ⟨_, .step (Token.ne_end_of_isSymbol hopen) h1 hall, hphrase,
        uncalled_of_two_le hP hphrase (by simp) _⟩
    · cases h
  · rintro ⟨ts, hall, hphrase, hfollow⟩
    exact operandOver_of_phrase ht hinner hP hall hphrase hfollow

section
variable {operand : Reader Expr} {Q : Phrase Expr} {least : Int}

/-- With whole strengths, only the current operator decides whether a chain goes on. -/
theorem links_succ (before : Option Value) (hbefore : ∀ v ∈ before, ∃ n, v = .integer n)
    (count : Nat) (s : Lookahead) :
    links (.ofTable t) operand (.integer least) before (count + 1) s =
      if t.strength s.current < least then .ok [] s
      else (do
        advance
        let right ← operand
        return (s.current, right) :: (← links (.ofTable t) operand (.integer least)
          (some (.integer (t.strength s.current))) count)) s := by
  have hacross : compareAcross before (.integer (t.strength s.current)) = return () := by
    cases before with
    | none => rfl
    | some v =>
      obtain ⟨n, rfl⟩ := hbefore v rfl
      exact compareAcross_integer n _
  rw [links, current_bind]
  simp only [Entries.strength_ofTable, hacross, isWeaker_integer, pure_bind, decide_eq_true_eq]
  split <;> rfl

private theorem uncalled_of_links (ht : t.Legal) (hleast : 0 ≤ least) {ts us : List Token}
    {found : List Link} (hus : Phrase.Links (least ≤ t.strength ·) Q us found)
    (hpass : Passes s us s') (hcall : us = [] → Uncalled ts s'.current) :
    Uncalled ts s.current := by
  cases hus with
  | nil =>
    rw [Passes.nil_iff.mp hpass]
    exact hcall rfl
  | cons hop _ _ =>
    rw [hpass.current_eq]
    exact fun _ => ht.isSymbol_eq_false (ht.zero_le_strength_iff.mp (by omega)) (by decide)

/-- Links are read up to the first operator that is too weak. -/
theorem links_eq_ok_iff (ht : t.Legal) (hleast : 0 ≤ least) (hoperand : Reads operand Q Uncalled)
    (hQ : ∀ ts e, Q ts e → Derives t .primary ts) (before : Option Value)
    (hbefore : ∀ v ∈ before, ∃ n, v = .integer n) (count : Nat) {found : List Link}
    (hcount : s.ahead.length < count) :
    links (.ofTable t) operand (.integer least) before count s = .ok found s' ↔
      ∃ ts, Passes s ts s' ∧ Phrase.Links (least ≤ t.strength ·) Q ts found ∧
        Uncalled ts s'.current ∧ t.strength s'.current < least := by
  induction count generalizing s found before with
  | zero => exact absurd hcount (Nat.not_lt_zero _)
  | succ count ih =>
    rw [links_succ before hbefore]
    by_cases hweak : t.strength s.current < least
    · rw [if_pos hweak]
      constructor
      · intro h
        cases h
        exact ⟨[], .refl _, .nil, fun h => absurd h not_endsInName_nil, hweak⟩
      · rintro ⟨ts, hpass, hlinks, _, _⟩
        cases hlinks with
        | nil =>
          obtain rfl := Passes.nil_iff.mp hpass
          rfl
        | cons hop _ _ =>
          rw [hpass.current_eq] at hweak
          omega
    · rw [if_neg hweak, advance_bind_eq_ok_iff]
      have hop : t.isOperator s.current = true := ht.zero_le_strength_iff.mp (by omega)
      have hend := Table.ne_end_of_isOperator hop
      have hless {s1 s2 : Lookahead} {ts : List Token} {e : Expr} (h1 : advance s = .ok () s1)
          (hpass : Passes s1 ts s2) (hts : Q ts e) : s2.ahead.length < count := by
        have hlen := (Passes.step hend h1 hpass).length_ahead
        have hpos := List.length_pos_iff.mpr (hQ _ _ hts).primary_ne_nil
        rw [List.length_cons] at hlen
        omega
      have hnext (n : Int) : ∀ v ∈ some (Value.integer n), ∃ n, v = .integer n := by simp
      constructor
      · rintro ⟨s1, h1, h⟩
        obtain ⟨right, s2, hright, h⟩ := bind_eq_ok_iff.mp h
        obtain ⟨rest, hrest, rfl⟩ := bind_pure_eq_ok_iff.mp h
        obtain ⟨ts, hpass, hts, hcall⟩ := (hoperand _ _ _).mp hright
        obtain ⟨us, hpass', hus, hcall', hstop⟩ := (ih _ (hnext _) (hless h1 hpass hts)).mp hrest
        refine ⟨_, .step hend h1 (hpass.append hpass'), .cons (by omega) hts hus, ?_, hstop⟩
        rw [uncalled_cons (by simp [(hQ _ _ hts).primary_ne_nil])]
        refine uncalled_append.mpr ⟨hcall', fun hnil => ?_⟩
        subst hnil
        rwa [← Passes.nil_iff.mp hpass']
      · rintro ⟨_, hall, hlinks, hcall, hstop⟩
        cases hlinks with
        | nil =>
          obtain rfl := Passes.nil_iff.mp hall
          exact absurd hstop hweak
        | @cons _ ts us right rest _ hts hus =>
          obtain ⟨hcurrent, _, s1, h1, hrest⟩ := Passes.cons_iff.mp hall
          obtain ⟨s2, hpass, hpass'⟩ := Passes.append_iff.mp hrest
          rw [uncalled_cons (by simp [(hQ _ _ hts).primary_ne_nil])] at hcall
          obtain ⟨hcall', hcall⟩ := uncalled_append.mp hcall
          have hcall := uncalled_of_links ht hleast hus hpass' hcall
          exact ⟨s1, h1, bind_eq_ok_iff.mpr ⟨right, s2, (hoperand _ _ _).mpr ⟨_, hpass, hts, hcall⟩,
            bind_pure_eq_ok_iff.mpr ⟨rest, (ih _ (hnext _) (hless h1 hpass hts)).mpr
              ⟨_, hpass', hus, hcall', hstop⟩, by rw [hcurrent]⟩⟩⟩

/-- Links none of which is weaker than `least` are all folded. -/
theorem foldChain_ofTable {first : Expr} {found : List Link}
    (h : ∀ link ∈ found, least ≤ t.strength link.1) :
    foldChain (Entries.ofTable t).strength (.integer least) first found =
      shuntingYard t.strength first found := by
  have hstrength : (Entries.ofTable t).strength = wholeStrength t.strength :=
    funext (Entries.strength_ofTable t)
  rw [hstrength]
  exact foldChain_eq_shuntingYard h

/-- A chain is folded as the shunting-yard algorithm folds it. -/
theorem chain_eq_ok_iff (ht : t.Legal) (hleast : 0 ≤ least) (hoperand : Reads operand Q Uncalled)
    (hQ : ∀ ts e, Q ts e → Derives t .primary ts) (first : Expr) :
    chain (.ofTable t) operand (.integer least) first s = .ok e s' ↔
      ∃ ts found, Passes s ts s' ∧ Phrase.Links (least ≤ t.strength ·) Q ts found ∧
        Uncalled ts s'.current ∧ t.strength s'.current < least ∧
        e = shuntingYard t.strength first found := by
  have hlinks (found : List Link) :
      links (.ofTable t) operand (.integer least) none (s.ahead.length + 1) s = .ok found s' ↔ _ :=
    links_eq_ok_iff ht hleast hoperand hQ none (by simp) _ (Nat.lt_succ_self _)
  rw [chain, left_bind, bind_pure_eq_ok_iff]
  constructor
  · rintro ⟨found, h, rfl⟩
    obtain ⟨ts, hpass, hts, hcall, hstop⟩ := (hlinks found).mp h
    exact ⟨ts, found, hpass, hts, hcall, hstop, foldChain_ofTable hts.admitted⟩
  · rintro ⟨ts, found, hpass, hts, hcall, hstop, rfl⟩
    exact ⟨found, (hlinks found).mpr ⟨ts, hpass, hts, hcall, hstop⟩,
      (foldChain_ofTable hts.admitted).symm⟩

/-- An expression is read up to the first token that is no operator. -/
theorem expressionOver_reads (ht : t.Legal) (hoperand : Reads operand Q Uncalled)
    (hQ : ∀ ts e, Q ts e → Derives t .primary ts) :
    Reads (expressionOver (.ofTable t) operand) (Phrase.ExpressionOver t Q) (Follows t) := by
  have hadmitted : ((0 : Int) ≤ t.strength ·) = (t.isOperator · = true) :=
    funext fun _ => propext ht.zero_le_strength_iff
  have hended {token : Token} : t.strength token < 0 ↔ t.isOperator token = false := by
    rw [Bool.eq_false_iff, Ne, ← ht.zero_le_strength_iff, Int.not_le]
  intro s e s'
  rw [expressionOver, bind_eq_ok_iff]
  constructor
  · rintro ⟨first, s1, hfirst, h⟩
    obtain ⟨ts, hpass, hts, hcall⟩ := (hoperand _ _ _).mp hfirst
    obtain ⟨us, found, hpass', hus, hcall', hstop, rfl⟩ :=
      (chain_eq_ok_iff ht (Int.le_refl 0) hoperand hQ first).mp h
    rw [hadmitted] at hus
    refine ⟨_, hpass.append hpass', .chain hts hus, ?_, hended.mp hstop⟩
    refine uncalled_append.mpr ⟨hcall', fun hnil => ?_⟩
    subst hnil
    rwa [← Passes.nil_iff.mp hpass']
  · rintro ⟨_, hall, hphrase, hcall, hstop⟩
    cases hphrase with
    | @chain ts us first found hts hus =>
      rw [← hadmitted] at hus
      obtain ⟨s1, hpass, hpass'⟩ := Passes.append_iff.mp hall
      obtain ⟨hcall', hcall⟩ := uncalled_append.mp hcall
      have hcall := uncalled_of_links ht (Int.le_refl 0) hus hpass' hcall
      exact ⟨first, s1, (hoperand _ _ _).mpr ⟨_, hpass, hts, hcall⟩,
        (chain_eq_ok_iff ht (Int.le_refl 0) hoperand hQ first).mpr
          ⟨us, found, hpass', hus, hcall', hended.mpr hstop, rfl⟩⟩

end

/-- Operands are read exactly as the grammar has them, up to the limit of nesting. -/
theorem operand_reads (ht : t.Legal) (levels : Nat) :
    Reads (operand (.ofTable t) levels) (Phrase.Operand t levels) Uncalled := by
  induction levels with
  | zero =>
    intro s e s'
    constructor
    · intro h
      cases h
    · rintro ⟨ts, _, hphrase, _⟩
      exact hphrase.elim
  | succ levels ih =>
    exact operandOver_reads ht (expressionOver_reads ht ih fun _ _ => Phrase.Operand.derives)
      fun _ _ => Phrase.Expression.derives

/-- Expressions are read exactly as the grammar has them, up to the limit of nesting. -/
theorem expression_reads (ht : t.Legal) (levels : Nat) :
    Reads (expression (.ofTable t) levels) (Phrase.Expression t levels) (Follows t) :=
  expressionOver_reads ht (operand_reads ht levels) fun _ _ => Phrase.Operand.derives

end Reader
end ExprLang
