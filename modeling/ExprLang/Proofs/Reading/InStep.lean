import ExprLang.Proofs.Chain.Order
import ExprLang.Proofs.Reading.Program

/-! Two readings that go in step. The second one finds what the first one finds, maybe at other
places and with another table that has the same operators in the same order. Where the first one
comes to the end of input, the second one may come to a semicolon. -/
namespace ExprLang

/-- What two readers do that go in step. Where they find no fault of the text, they fail at the same
place. Nothing is known of the second one where the first one wants more at the end of input and the
second one is only at a semicolon. -/
inductive Alike {α : Type} (Rel : Lookahead → Lookahead → Prop) (move : Pos → Pos) (goesOn : Prop)
    (value : α → α → Prop) :
    EStateM.Result SyntaxError Lookahead α → EStateM.Result SyntaxError Lookahead α → Prop
  | ok {a b : α} {s s' : Lookahead} (hvalue : value a b) (hrel : Rel s s') :
      Alike Rel move goesOn value (.ok a s) (.ok b s')
  | error {e : SyntaxError} {s s' : Lookahead} (hrel : (∀ fault, e ≠ .lexical fault) → Rel s s') :
      Alike Rel move goesOn value (.error e s) (.error (e.moved move) s')
  | wanting {e : SyntaxError} {got : Token} {s : Lookahead}
      {r : EStateM.Result SyntaxError Lookahead α} (hgoes : goesOn) (hgot : e.got? = some got)
      (hend : got.kind = .endOfInput) :
      Alike Rel move goesOn value (.error e s) r

/-- Two tables, and lookaheads that stay related as both move on. -/
structure InStep where
  first : Table
  second : Table
  first_legal : first.Legal
  second_legal : second.Legal
  /-- The tokens of which the tables say the same. -/
  known : Token → Prop
  isOperator : ∀ token, known token → second.isOperator token = first.isOperator token
  sameOrder : SameOrder first.strength second.strength
    fun token => known token ∧ first.isOperator token = true
  /-- The place in the second text of what stands at a place of the first one. -/
  move : Pos → Pos
  /-- The second text may go on behind a semicolon where the first one ends. -/
  goesOn : Prop
  Rel : Lookahead → Lookahead → Prop
  current : ∀ {s s'}, Rel s s' → (known s.current ∧ s'.current = s.current.moved move) ∨
    (goesOn ∧ s.current.kind = .endOfInput ∧ s'.current.isSymbol ';' = true)
  advance : ∀ {s s'}, Rel s s' → s.current.kind ≠ .endOfInput →
    Alike Rel move goesOn (fun _ _ => True) (Reader.advance s) (Reader.advance s')

namespace Reader
variable {α : Type}

/-- Wherever a reader succeeds, it has passed at least one token. -/
def Passing (x : Reader α) : Prop := ∀ s a s', x s = .ok a s' → ∃ ts, ts ≠ [] ∧ Passes s ts s'

theorem Reads.passing {x : Reader α} {phrase : Phrase α} {follow : List Token → Token → Prop}
    (h : Reads x phrase follow) (hne : ∀ ts a, phrase ts a → ts ≠ []) : Passing x := by
  intro s a s' ha
  obtain ⟨ts, hpass, hts, _⟩ := (h _ _ _).mp ha
  exact ⟨ts, hne ts a hts, hpass⟩

/-- Whoever passes something and the token behind it has less ahead. -/
theorem Passing.ahead_lt {x : Reader α} (hx : Passing x) {s s1 s2 : Lookahead} {a : α}
    (ha : x s = .ok a s1) (hend : s1.current.kind ≠ .endOfInput)
    (hadvance : advance s1 = .ok () s2) : s2.ahead.length < s.ahead.length := by
  obtain ⟨ts, hne, hpass⟩ := hx s a s1 ha
  have hlen := (hpass.append (.one hend hadvance)).length_ahead
  have hpos := List.length_pos_iff.mpr hne
  rw [List.length_append, List.length_singleton] at hlen
  omega

/-- Whoever passes a token and something behind it has less ahead. -/
theorem Passing.ahead_lt_of_advance {x : Reader α} (hx : Passing x) {s s1 s2 : Lookahead} {a : α}
    (hend : s.current.kind ≠ .endOfInput) (hadvance : advance s = .ok () s1)
    (ha : x s1 = .ok a s2) : s2.ahead.length < s.ahead.length := by
  obtain ⟨ts, hne, hpass⟩ := hx s1 a s2 ha
  have hlen := (Passes.step hend hadvance hpass).length_ahead
  have hpos := List.length_pos_iff.mpr hne
  rw [List.length_cons] at hlen
  omega

end Reader

namespace InStep

/-- Both readings with the same table. -/
def ofTable (t : Table) (ht : t.Legal) (move : Pos → Pos) (goesOn : Prop)
    (Rel : Lookahead → Lookahead → Prop)
    (current : ∀ {s s'}, Rel s s' → s'.current = s.current.moved move ∨
      (goesOn ∧ s.current.kind = .endOfInput ∧ s'.current.isSymbol ';' = true))
    (advance : ∀ {s s'}, Rel s s' → s.current.kind ≠ .endOfInput →
      ExprLang.Alike Rel move goesOn (fun _ _ => True) (Reader.advance s) (Reader.advance s')) :
    InStep where
  first := t
  second := t
  first_legal := ht
  second_legal := ht
  known _ := True
  isOperator _ _ := rfl
  sameOrder _ _ _ _ := Iff.rfl
  move := move
  goesOn := goesOn
  Rel := Rel
  current h := (current h).imp_left fun hmoved => ⟨trivial, hmoved⟩
  advance := advance

variable {w : InStep} {s s' : Lookahead}

section
variable (h : w.Rel s s')
include h

private theorem current_of_ne_end (hend : s.current.kind ≠ .endOfInput) :
    w.known s.current ∧ s'.current = s.current.moved w.move :=
  (w.current h).resolve_right fun hsemi => hend hsemi.2.1

private theorem isSymbol_eq {c : Char} (hc : c ≠ ';') :
    s'.current.isSymbol c = s.current.isSymbol c := by
  rcases w.current h with ⟨_, hmoved⟩ | ⟨_, hend, hsemi⟩
  · simp [hmoved]
  · rw [Bool.eq_iff_iff, Token.isSymbol_iff, Token.isSymbol_iff, hend, Token.isSymbol_iff.mp hsemi]
    simp [hc.symm]

private theorem isName_eq : s'.current.isName = s.current.isName := by
  rcases w.current h with ⟨_, hmoved⟩ | ⟨_, hend, hsemi⟩
  · simp [hmoved]
  · simp [Token.isName, hend, Token.isSymbol_iff.mp hsemi]

private theorem isNumber_eq : s'.current.isNumber = s.current.isNumber := by
  rcases w.current h with ⟨_, hmoved⟩ | ⟨_, hend, hsemi⟩
  · simp [hmoved]
  · simp [Token.isNumber, hend, Token.isSymbol_iff.mp hsemi]

private theorem isOperator_eq : w.second.isOperator s'.current = w.first.isOperator s.current := by
  rcases w.current h with ⟨hknown, hmoved⟩ | ⟨_, hend, hsemi⟩
  · rw [hmoved, Table.isOperator_moved, w.isOperator _ hknown]
  · rw [w.second_legal.isOperator_eq_false hsemi (by decide)]
    simp [Table.isOperator, hend]

private theorem keyword_iff {kind : TokenKind}
    (hkind : kind = .defKeyword ∨ kind = .externKeyword) :
    s'.current.kind = kind ↔ s.current.kind = kind := by
  rcases w.current h with ⟨_, hmoved⟩ | ⟨_, hend, hsemi⟩
  · rw [hmoved, Token.moved_kind]
  · rw [hend, Token.isSymbol_iff.mp hsemi]
    rcases hkind with rfl | rfl <;> simp

end

/-- Two readings that go in step come to the same. -/
abbrev Alike (w : InStep) {α : Type} (value : α → α → Prop) :
    EStateM.Result SyntaxError Lookahead α → EStateM.Result SyntaxError Lookahead α → Prop :=
  ExprLang.Alike w.Rel w.move w.goesOn value

/-- Two readers go in step. -/
def Keeps (w : InStep) {α : Type} (value : α → α → Prop) (x y : Reader α) : Prop :=
  ∀ ⦃s s'⦄, w.Rel s s' → w.Alike value (x s) (y s')

section
variable {α β : Type} {value : α → α → Prop} {value' : β → β → Prop}

private theorem Alike.bind {x y : Reader α} {f g : α → Reader β} (h : w.Alike value (x s) (y s'))
    (hrest : ∀ a b s1 s1', x s = .ok a s1 → y s' = .ok b s1' → value a b → w.Rel s1 s1' →
      w.Alike value' (f a s1) (g b s1')) :
    w.Alike value' ((x >>= f) s) ((y >>= g) s') := by
  rw [Reader.bind_apply, Reader.bind_apply]
  generalize hx : x s = r at h hrest
  generalize hy : y s' = r' at h hrest
  cases h with
  | ok hvalue hrel => exact hrest _ _ _ _ rfl rfl hvalue hrel
  | error hrel => exact .error hrel
  | wanting hgoes hgot hend => exact .wanting hgoes hgot hend

private theorem advance_bind {f g : Unit → Reader β} (h : w.Rel s s')
    (hend : s.current.kind ≠ .endOfInput)
    (hrest : ∀ s1 s1', Reader.advance s = .ok () s1 → Reader.advance s' = .ok () s1' →
      w.Rel s1 s1' → w.Alike value' (f () s1) (g () s1')) :
    w.Alike value' ((Reader.advance >>= f) s) ((Reader.advance >>= g) s') :=
  Alike.bind (w.advance h hend) fun _ _ _ _ hx hy _ hrel => hrest _ _ hx hy hrel

private theorem fail {r : Reader α} (h : w.Rel s s') (missing : Missing)
    (hr : r s' = .error (.unexpected missing s'.current) s') :
    w.Alike value (Reader.fail missing s) (r s') := by
  rcases w.current h with ⟨_, hmoved⟩ | ⟨hgoes, hend, _⟩
  · rw [hr, hmoved]
    exact .error fun _ => h
  · exact .wanting hgoes rfl hend

private theorem breakOff_keeps : w.Keeps value Reader.breakOff Reader.breakOff := by
  intro s s' h
  rcases w.current h with ⟨_, hmoved⟩ | ⟨hgoes, hend, _⟩
  · rw [Reader.breakOff, Reader.breakOff, hmoved]
    exact .error fun _ => h
  · exact .wanting hgoes rfl hend

private theorem expect_bind {type : String} {c : Char} (htype : type = String.singleton c)
    (hc : c ≠ ';') {missing : Missing} {f g : Token → Reader β} (h : w.Rel s s')
    (hrest : ∀ s1 s1', w.Rel s1 s1' → w.Alike value' (f s.current s1) (g s'.current s1')) :
    w.Alike value' ((Reader.expect type missing >>= f) s)
      ((Reader.expect type missing >>= g) s') := by
  rw [Reader.expect_bind htype, Reader.expect_bind htype, isSymbol_eq h hc]
  split
  · rename_i hsymbol
    exact advance_bind h (Token.ne_end_of_isSymbol hsymbol) fun s1 s1' _ _ => hrest s1 s1'
  · exact fail h missing rfl

end

variable {x y : Reader Expr}

/-- The same expression, at other places. -/
abbrev Moved (w : InStep) (e e' : Expr) : Prop := e' = e.moved w.move

private theorem arguments_keep (h : w.Keeps w.Moved x y) (hx : Reader.Passing x)
    (hy : Reader.Passing y)
    (m n : Nat) (hrel : w.Rel s s') (hm : s.ahead.length < m) (hn : s'.ahead.length < n) :
    w.Alike (fun args args' => args' = args.map (Expr.moved w.move))
      (Reader.arguments x m s) (Reader.arguments y n s') := by
  induction m generalizing n s s' with
  | zero => exact absurd hm (Nat.not_lt_zero _)
  | succ m ih =>
    obtain ⟨n, rfl⟩ := Nat.exists_eq_succ_of_ne_zero (Nat.ne_zero_of_lt hn)
    rw [Reader.arguments, Reader.arguments]
    refine Alike.bind (h hrel) fun arg arg' s1 s1' harg harg' hvalue hrel1 => ?_
    subst hvalue
    rw [Reader.current_bind, Reader.current_bind, isSymbol_eq hrel1 (by decide),
      isSymbol_eq hrel1 (by decide)]
    split
    · rename_i hclose
      exact advance_bind hrel1 (Token.ne_end_of_isSymbol hclose) fun _ _ _ _ => .ok rfl
    split
    · rename_i hcomma
      have hend := Token.ne_end_of_isSymbol hcomma
      have hend' : s1'.current.kind ≠ .endOfInput :=
        Token.ne_end_of_isSymbol (c := ',') (by rwa [isSymbol_eq hrel1 (by decide)])
      refine advance_bind hrel1 hend fun s2 s2' h2 h2' hrel2 => ?_
      have hm2 := hx.ahead_lt harg hend h2
      have hn2 := hy.ahead_lt harg' hend' h2'
      refine Alike.bind (ih n hrel2 (by omega) (by omega)) fun args _ _ _ _ _ hargs => ?_
      subst hargs
      exact .ok rfl
    · exact fail hrel1 _ rfl

private theorem nameOrCall_keeps (h : w.Keeps w.Moved x y) (hx : Reader.Passing x)
    (hy : Reader.Passing y) (hrel : w.Rel s s') (hname : s.current.isName = true) :
    w.Alike w.Moved (Reader.nameOrCall x s) (Reader.nameOrCall y s') := by
  have hend := Token.ne_end_of_isName hname
  rw [Reader.nameOrCall, Reader.nameOrCall, Reader.current_bind, Reader.current_bind,
    (current_of_ne_end hrel hend).2]
  refine advance_bind hrel hend fun s1 s1' _ _ hrel1 => ?_
  rw [Reader.current_bind, Reader.current_bind, isSymbol_eq hrel1 (by decide)]
  split
  · rename_i hopen
    refine advance_bind hrel1 (Token.ne_end_of_isSymbol hopen) fun s2 s2' _ _ hrel2 => ?_
    rw [Reader.current_bind, Reader.current_bind, isSymbol_eq hrel2 (by decide)]
    split
    · rename_i hclose
      exact advance_bind hrel2 (Token.ne_end_of_isSymbol hclose) fun _ _ _ _ => .ok rfl
    · rw [Reader.left_bind, Reader.left_bind]
      refine Alike.bind (arguments_keep h hx hy _ _ hrel2 (Nat.lt_succ_self _) (Nat.lt_succ_self _))
        fun args _ _ _ _ _ hargs => ?_
      subst hargs
      refine .ok ?_
      simp [Moved, Expr.moved, Expr.movedArgs_eq_map]
  · exact .ok rfl hrel1

private theorem number_keeps (hrel : w.Rel s s') (hnumber : s.current.isNumber = true) :
    w.Alike w.Moved (Reader.number s) (Reader.number s') := by
  have hend := Token.ne_end_of_isNumber hnumber
  obtain ⟨value, hk⟩ := Token.isNumber_iff.mp hnumber
  rw [Reader.number, Reader.current_bind, Reader.current_bind, (current_of_ne_end hrel hend).2]
  simp only [Token.moved_kind, hk]
  exact advance_bind hrel hend fun _ _ _ _ => .ok rfl

private theorem bracketed_keeps (h : w.Keeps w.Moved x y) (hrel : w.Rel s s')
    (hend : s.current.kind ≠ .endOfInput) :
    w.Alike w.Moved (Reader.bracketed x s) (Reader.bracketed y s') := by
  refine advance_bind hrel hend fun s1 s1' _ _ hrel1 => ?_
  refine Alike.bind (h hrel1) fun e _ s2 s2' _ _ hvalue hrel2 => ?_
  exact expect_bind Reader.closing_eq_singleton (by decide) hrel2 fun _ _ => .ok hvalue

private theorem operandOver_keeps (h : w.Keeps w.Moved x y) (hx : Reader.Passing x)
    (hy : Reader.Passing y) :
    w.Keeps w.Moved (Reader.operandOver x) (Reader.operandOver y) := by
  intro s s' hrel
  rw [Reader.operandOver_eq s, Reader.operandOver_eq s', isName_eq hrel, isNumber_eq hrel,
    isSymbol_eq hrel (by decide)]
  split
  · rename_i hname
    exact nameOrCall_keeps h hx hy hrel hname
  split
  · rename_i hnumber
    exact number_keeps hrel hnumber
  split
  · rename_i hopen
    exact bracketed_keeps h hrel (Token.ne_end_of_isSymbol hopen)
  · exact fail hrel _ rfl

/-- Links are found in step, and all of their operators are known. -/
theorem links_keep (h : w.Keeps w.Moved x y) (hx : Reader.Passing x) (hy : Reader.Passing y)
    {before before' : Option Value} (hbefore : ∀ v ∈ before, ∃ n, v = .integer n)
    (hbefore' : ∀ v ∈ before', ∃ n, v = .integer n) (m n : Nat) (hrel : w.Rel s s')
    (hm : s.ahead.length < m) (hn : s'.ahead.length < n) :
    w.Alike (fun found found' => found' = found.map (movedLink w.move) ∧
        ∀ link ∈ found, w.known link.1 ∧ w.first.isOperator link.1 = true)
      (Reader.links (.ofTable w.first) x (.integer 0) before m s)
      (Reader.links (.ofTable w.second) y (.integer 0) before' n s') := by
  induction m generalizing n s s' before before' with
  | zero => exact absurd hm (Nat.not_lt_zero _)
  | succ m ih =>
    obtain ⟨n, rfl⟩ := Nat.exists_eq_succ_of_ne_zero (Nat.ne_zero_of_lt hn)
    have hweak : w.second.strength s'.current < 0 ↔ w.first.strength s.current < 0 := by
      rw [← Int.not_le, ← Int.not_le, w.first_legal.zero_le_strength_iff,
        w.second_legal.zero_le_strength_iff, isOperator_eq hrel]
    rw [Reader.links_succ before hbefore, Reader.links_succ before' hbefore']
    by_cases hstop : w.first.strength s.current < 0
    · rw [if_pos hstop, if_pos (hweak.mpr hstop)]
      exact .ok ⟨rfl, by simp⟩ hrel
    · rw [if_neg hstop, if_neg (mt hweak.mp hstop)]
      have hop := w.first_legal.zero_le_strength_iff.mp (Int.not_lt.mp hstop)
      have hend := Table.ne_end_of_isOperator hop
      obtain ⟨hknown, hmoved⟩ := current_of_ne_end hrel hend
      have hend' : s'.current.kind ≠ .endOfInput := by rwa [hmoved]
      refine advance_bind hrel hend fun s1 s1' h1 h1' hrel1 => ?_
      refine Alike.bind (h hrel1) fun right _ s2 s2' hright hright' hvalue hrel2 => ?_
      have hm2 := hx.ahead_lt_of_advance hend h1 hright
      have hn2 := hy.ahead_lt_of_advance hend' h1' hright'
      refine Alike.bind (ih (by simp) (by simp) n hrel2 (by omega) (by omega))
        fun found _ _ _ _ _ hfound => ?_
      obtain ⟨rfl, hfound⟩ := hfound
      refine .ok ⟨?_, List.forall_mem_cons.mpr ⟨⟨hknown, hop⟩, hfound⟩⟩
      rw [hvalue, hmoved]
      rfl

private theorem chain_keeps (h : w.Keeps w.Moved x y) (hx : Reader.Passing x)
    (hy : Reader.Passing y) (first : Expr) :
    w.Keeps w.Moved (Reader.chain (.ofTable w.first) x (.integer 0) first)
      (Reader.chain (.ofTable w.second) y (.integer 0) (first.moved w.move)) := by
  intro s s' hrel
  rw [Reader.chain, Reader.chain, Reader.left_bind, Reader.left_bind]
  refine Alike.bind (links_keep h hx hy (by simp) (by simp) _ _ hrel (Nat.lt_succ_self _)
    (Nat.lt_succ_self _)) fun found _ _ _ _ _ hfound => .ok ?_
  obtain ⟨rfl, hfound⟩ := hfound
  have hfirst : ∀ link ∈ found, 0 ≤ w.first.strength link.1 := fun link hlink =>
    w.first_legal.zero_le_strength_iff.mpr (hfound link hlink).2
  have hsecond : ∀ link ∈ found.map (movedLink w.move), 0 ≤ w.second.strength link.1 := by
    rw [List.forall_mem_map]
    intro link hlink
    obtain ⟨hknown, hop⟩ := hfound link hlink
    rw [w.second_legal.zero_le_strength_iff]
    exact (w.isOperator _ hknown).trans hop
  rw [Moved, Reader.foldChain_ofTable hfirst, Reader.foldChain_ofTable hsecond]
  exact shuntingYard_moved w.sameOrder (fun _ => rfl) hfound

private theorem expressionOver_keeps (h : w.Keeps w.Moved x y) (hx : Reader.Passing x)
    (hy : Reader.Passing y) :
    w.Keeps w.Moved (Reader.expressionOver (.ofTable w.first) x)
      (Reader.expressionOver (.ofTable w.second) y) := by
  intro s s' hrel
  refine Alike.bind (h hrel) fun first _ _ _ _ _ hvalue hrel1 => ?_
  subst hvalue
  exact chain_keeps h hx hy first hrel1

end InStep

namespace Reader
variable {t : Table}

theorem operand_passing (ht : t.Legal) (levels : Nat) :
    Passing (operand (.ofTable t) levels) :=
  (operand_reads ht levels).passing fun _ _ h => h.derives.primary_ne_nil

theorem expression_passing (ht : t.Legal) (levels : Nat) :
    Passing (expression (.ofTable t) levels) :=
  (expression_reads ht levels).passing fun _ _ h => h.derives.expression_ne_nil

end Reader

namespace InStep
variable {w : InStep} {levels : Nat} {s s' : Lookahead}

private theorem operand_keeps (levels : Nat) :
    w.Keeps w.Moved (Reader.operand (.ofTable w.first) levels)
      (Reader.operand (.ofTable w.second) levels) := by
  induction levels with
  | zero => exact breakOff_keeps
  | succ levels ih =>
    have hx := Reader.operand_passing w.first_legal levels
    have hy := Reader.operand_passing w.second_legal levels
    exact operandOver_keeps (expressionOver_keeps ih hx hy)
      (Reader.expression_passing w.first_legal levels)
      (Reader.expression_passing w.second_legal levels)

theorem expression_keeps (levels : Nat) :
    w.Keeps w.Moved (Reader.expression (.ofTable w.first) levels)
      (Reader.expression (.ofTable w.second) levels) :=
  expressionOver_keeps (operand_keeps levels) (Reader.operand_passing w.first_legal levels)
    (Reader.operand_passing w.second_legal levels)

private theorem parameters_keep (m n : Nat) (hrel : w.Rel s s')
    (hm : s.current.isName = true → s.ahead.length < m)
    (hn : s'.current.isName = true → s'.ahead.length < n) :
    w.Alike (fun names names' => names' = names) (Reader.parameters m s)
      (Reader.parameters n s') := by
  induction m generalizing n s s' with
  | zero =>
    have hname : ¬ s.current.isName = true := fun hname => absurd (hm hname) (Nat.not_lt_zero _)
    rw [Reader.parameters_eq_nil _ hname, Reader.parameters_eq_nil _ (by rwa [isName_eq hrel])]
    exact .ok rfl hrel
  | succ m ih =>
    by_cases hname : s.current.isName = true
    · have hname' : s'.current.isName = true := by rwa [isName_eq hrel]
      have hend := Token.ne_end_of_isName hname
      have hend' := Token.ne_end_of_isName hname'
      obtain ⟨n, rfl⟩ := Nat.exists_eq_succ_of_ne_zero (Nat.ne_zero_of_lt (hn hname'))
      rw [Reader.parameters_succ, Reader.parameters_succ, if_pos hname, if_pos hname',
        (current_of_ne_end hrel hend).2, Token.moved_valueText]
      have hless {r r1 : Lookahead} (hr : r.current.kind ≠ .endOfInput)
          (hadvance : Reader.advance r = .ok () r1) (hname1 : r1.current.isName = true) :
          r1.ahead.length < r.ahead.length :=
        (Passes.one hr hadvance).ahead_lt (by simp) (Token.ne_end_of_isName hname1)
      refine advance_bind hrel hend fun s1 s1' h1 h1' hrel1 => ?_
      refine Alike.bind (ih n hrel1 (fun hname1 => ?_) fun hname1 => ?_)
        fun _ _ _ _ _ _ hvalue => .ok (by rw [hvalue])
      · have := hless hend h1 hname1
        have := hm hname
        omega
      · have := hless hend' h1' hname1
        have := hn hname'
        omega
    · rw [Reader.parameters_eq_nil _ hname, Reader.parameters_eq_nil _ (by rwa [isName_eq hrel])]
      exact .ok rfl hrel

private theorem prototype_keeps : w.Keeps (fun p p' => p' = p.moved w.move) Reader.prototype
    Reader.prototype := by
  intro s s' hrel
  rw [Reader.prototype_eq, Reader.prototype_eq, isName_eq hrel]
  split
  · rename_i hname
    have hend := Token.ne_end_of_isName hname
    rw [(current_of_ne_end hrel hend).2]
    refine advance_bind hrel hend fun s1 s1' _ _ hrel1 => ?_
    refine expect_bind Reader.opening_eq_singleton (by decide) hrel1 fun s2 s2' hrel2 => ?_
    rw [Reader.left_bind, Reader.left_bind]
    refine Alike.bind (parameters_keep _ _ hrel2 (fun _ => Nat.lt_succ_self _)
      fun _ => Nat.lt_succ_self _) fun params _ s3 s3' _ _ hparams hrel3 => ?_
    subst hparams
    exact expect_bind Reader.closing_eq_singleton (by decide) hrel3 fun _ _ => .ok rfl
  · exact fail hrel _ rfl

private theorem item_keeps (levels : Nat) : w.Keeps (fun item item' => item' = item.moved w.move)
    (Reader.item (.ofTable w.first) levels) (Reader.item (.ofTable w.second) levels) := by
  intro s s' hrel
  rw [Reader.item_eq, Reader.item_eq]
  simp only [keyword_iff hrel (.inl rfl), keyword_iff hrel (.inr rfl)]
  split
  · rename_i hkey
    have hend : s.current.kind ≠ .endOfInput := by simp [hkey]
    rw [(current_of_ne_end hrel hend).2]
    refine advance_bind hrel hend fun s1 s1' _ _ hrel1 => ?_
    refine Alike.bind (prototype_keeps hrel1) fun proto _ s2 s2' _ _ hproto hrel2 => ?_
    refine Alike.bind (expression_keeps levels hrel2) fun body _ _ _ _ _ hbody => .ok ?_
    subst hproto hbody
    rfl
  split
  · rename_i hkey
    refine advance_bind hrel (by simp [hkey]) fun s1 s1' _ _ hrel1 => ?_
    refine Alike.bind (prototype_keeps hrel1) fun proto _ _ _ _ _ hproto => .ok ?_
    subst hproto
    rfl
  · refine Alike.bind (expression_keeps levels hrel) fun body _ _ _ hread _ hbody => .ok ?_
    obtain ⟨ts, hne, hpass⟩ := Reader.expression_passing w.first_legal _ _ _ _ hread
    have hend : s.current.kind ≠ .endOfInput := by
      cases hpass with
      | refl => exact absurd rfl hne
      | step hend _ _ => exact hend
    rw [(current_of_ne_end hrel hend).2]
    subst hbody
    rfl

/-- How two programs end that are read in step. The second one goes on where the first one is read
to its end. -/
inductive Ends (w : InStep) (levels : Nat) : Progress → Progress → Prop
  | finished {items : List Item} {r r' : Lookahead} (hend : r.current.kind = .endOfInput)
      (hrel : w.Rel r r') {n : Nat} (hn : r'.current.kind ≠ .endOfInput → r'.ahead.length < n) :
      Ends w levels ⟨items, none, r⟩
        { Progress.within (.ofTable w.second) levels n r' with
          items := items.map (Item.moved w.move) ++
            (Progress.within (.ofTable w.second) levels n r').items }
  | failed {items : List Item} {e : SyntaxError} {r r' : Lookahead}
      (hrel : (∀ fault, e ≠ .lexical fault) → w.Rel r r') :
      Ends w levels ⟨items, some e, r⟩ ⟨items.map (Item.moved w.move), some (e.moved w.move), r'⟩
  | wanting {items : List Item} {e : SyntaxError} {got : Token} {r : Lookahead} {q : Progress}
      (hgoes : w.goesOn) (hgot : e.got? = some got) (hend : got.kind = .endOfInput) :
      Ends w levels ⟨items, some e, r⟩ q

private theorem Ends.withItem {p q : Progress} (h : w.Ends levels p q) (item : Item) :
    w.Ends levels (p.withItem item) (q.withItem (item.moved w.move)) := by
  cases h with
  | @finished items _ _ hend hrel _ hn => exact @finished w levels (item :: items) _ _ hend hrel _ hn
  | @failed items _ _ _ hrel => exact @failed w levels (item :: items) _ _ _ hrel
  | wanting hgoes hgot hend => exact .wanting hgoes hgot hend

/-- If the second text ends with the first one, the same items are found or the same error. -/
theorem Ends.result {p q : Progress} (h : w.Ends levels p q) (hgoes : ¬ w.goesOn) :
    q.result =
      (p.result.map (List.map (Item.moved w.move))).mapError (SyntaxError.moved w.move) := by
  cases h with
  | finished hend hrel _ =>
    have hend' := Or.resolve_right (w.current hrel) fun hsemi => hgoes hsemi.1
    rw [Progress.within_end _ (by rw [hend'.2, Token.moved_kind, hend]), List.append_nil]
    rfl
  | failed => rfl
  | wanting h _ _ => exact absurd h hgoes

/-- If the second text ends with the first one, both are refused at the same place. -/
theorem Ends.rel {p q : Progress} (h : w.Ends levels p q) (hgoes : ¬ w.goesOn) {e : SyntaxError}
    (he : p.error = some e) (hfault : ∀ fault, e ≠ .lexical fault) : w.Rel p.state q.state := by
  cases h with
  | finished _ _ _ => cases he
  | failed hrel =>
    cases he
    exact hrel hfault
  | wanting h _ _ => exact absurd h hgoes

/-- Programs are read in step up to the end of the first one. -/
theorem within_ends (levels m n : Nat) (hrel : w.Rel s s')
    (hm : s.current.kind ≠ .endOfInput → s.ahead.length < m)
    (hn : s'.current.kind ≠ .endOfInput → s'.ahead.length < n) :
    w.Ends levels (.within (.ofTable w.first) levels m s) (.within (.ofTable w.second) levels n s') := by
  induction m generalizing n s s' with
  | zero =>
    by_cases hend : s.current.kind = .endOfInput
    · exact .finished hend hrel hn
    · exact absurd (hm hend) (Nat.not_lt_zero _)
  | succ m ih =>
    by_cases hend : s.current.kind = .endOfInput
    · rw [Progress.within_end _ hend]
      exact .finished hend hrel hn
    have hmoved := (current_of_ne_end hrel hend).2
    have hend' : s'.current.kind ≠ .endOfInput := by rwa [hmoved]
    obtain ⟨n, rfl⟩ := Nat.exists_eq_succ_of_ne_zero (Nat.ne_zero_of_lt (hn hend'))
    have hless {r r1 : Lookahead} {ts : List Token} {k : Nat} (hk : r.ahead.length < k + 1)
        (hpass : Passes r ts r1) (hne : ts ≠ []) :
        r1.current.kind ≠ .endOfInput → r1.ahead.length < k := by
      intro hend1
      have := hpass.ahead_lt hne hend1
      omega
    rw [Progress.within_succ _ _ hend, Progress.within_succ _ _ hend', hmoved, Token.moved_isSymbol]
    split
    · have hadvance := w.advance hrel hend
      generalize h1 : Reader.advance s = r at hadvance
      generalize h1' : Reader.advance s' = r' at hadvance
      cases hadvance with
      | ok _ hrel1 =>
        exact ih n hrel1 (hless (hm hend) (.one hend h1) (by simp))
          (hless (hn hend') (.one hend' h1') (by simp))
      | error hrel1 => exact .failed hrel1
      | wanting hgoes hgot hend => exact .wanting hgoes hgot hend
    · have hitem := item_keeps levels hrel
      generalize h1 : Reader.item (.ofTable w.first) levels s = r at hitem
      generalize h1' : Reader.item (.ofTable w.second) levels s' = r' at hitem
      cases hitem with
      | @ok item _ s1 s1' hvalue hrel1 =>
        subst hvalue
        obtain ⟨ts, hpass, hts, _⟩ := (Reader.item_reads w.first_legal _ _ _ _).mp h1
        obtain ⟨us, hpass', hus, _⟩ := (Reader.item_reads w.second_legal _ _ _ _).mp h1'
        exact (ih n hrel1 (hless (hm hend) hpass hts.ne_nil)
          (hless (hn hend') hpass' hus.ne_nil)).withItem item
      | error hrel1 => exact .failed hrel1
      | wanting hgoes hgot hend => exact .wanting hgoes hgot hend

end InStep
end ExprLang
