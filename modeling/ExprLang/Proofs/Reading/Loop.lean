import ExprLang.Proofs.Reading.Stages
import ExprLang.Proofs.Reading.Upcoming

/-! The loops of the readers, turn by turn. Every turn takes at least one token, so there are no
more turns than tokens, and the bounds on the loops are never reached. -/
namespace ExprLang

private theorem Passes.tokens_lt {s s' : Lookahead} {ts : List Token} (h : Passes s ts s')
    (hts : ts ≠ []) :
    s'.tokens.length < s.tokens.length := by
  have hpos := List.length_pos_iff.mpr hts
  rw [h.tokens_eq, List.length_append]
  omega

namespace Reader
variable {α : Type}

/-- Take turns until one of them is the last or the current token stops the loop. The number bounds
the turns. -/
def turns (stop : Token → Bool) (turn : α → Reader (ForInStep α)) : Nat → α → Reader α
  | 0, a => return a
  | count + 1, a => do
    if stop (← current) then return a
    else
      match ← turn a with
      | .done b => return b
      | .yield b => turns stop turn count b

def goOn (loop : α → Reader α) : ForInStep α → Reader α
  | .done b => return b
  | .yield b => loop b

/-- Every turn leaves fewer tokens, and a loop is nothing but turns, of which there are never more
than tokens. -/
structure Loop (stop : Token → Bool) (turn : α → Reader (ForInStep α)) (loop : α → Reader α) :
    Prop where
  shortens : ∀ a s step s', stop s.current = false → turn a s = .ok step s' →
    s'.tokens.length < s.tokens.length
  ends : ∀ a s n, s.tokens.length < n → loop a s = turns stop turn n a s

variable {stop : Token → Bool} {turn : α → Reader (ForInStep α)} {loop : α → Reader α}
  {s s' : Lookahead}

theorem turns_succ (count : Nat) (a : α) (s : Lookahead) : turns stop turn (count + 1) a s =
    if stop s.current then .ok a s else (turn a >>= goOn (turns stop turn count)) s := by
  rw [turns, current_bind]
  split
  · rfl
  · refine bind_congr_of_ok fun step s' _ => ?_
    cases step <;> rfl

private theorem Loop.of_eq
    (shortens : ∀ a s step s', stop s.current = false → turn a s = .ok step s' →
      s'.tokens.length < s.tokens.length)
    (heq : ∀ a s, loop a s = if stop s.current then .ok a s else (turn a >>= goOn loop) s) :
    Loop stop turn loop where
  shortens := shortens
  ends a s n hn := by
    induction n generalizing a s with
    | zero => exact absurd hn (Nat.not_lt_zero _)
    | succ n ih =>
      rw [heq, turns_succ]
      split
      · rfl
      · rename_i hstop
        refine bind_congr_of_ok fun step s' hturn => ?_
        have hlt := shortens a s step s' (by simpa using hstop) hturn
        cases step with
        | done b => rfl
        | yield b => exact ih b s' (by omega)

section
variable {t : Table} {levels : Nat} {inner : Reader Expr} {least : Int}

private theorem tokens_lt_of_advance {s s' : Lookahead} (hend : s.current.kind ≠ .endOfInput)
    (h : advance s = .ok () s') : s'.tokens.length < s.tokens.length :=
  (Passes.one hend h).tokens_lt (by simp)

private theorem Passing.tokens_lt {x : Reader α} (hx : Passing x) {a : α} (h : x s = .ok a s') :
    s'.tokens.length < s.tokens.length := by
  obtain ⟨ts, hts, hpass⟩ := hx _ _ _ h
  exact hpass.tokens_lt hts

/-- An operand behind an operator, with all that is stronger folded onto it. -/
def withStronger (t : Table) (climb : Int → Expr → Reader Expr) (operator : Token) (right : Expr) :
    Reader Expr := do
  if t.strength operator < t.strength (← current) then climb (t.strength operator + 1) right
  else return right

/-- One more operator and its operand. -/
def linkTurn (t : Table) (operand : Reader Expr) (climb : Int → Expr → Reader Expr) (left : Expr) :
    Reader (ForInStep Expr) := do
  let operator ← current
  advance
  let right ← operand
  let right ← withStronger t climb operator right
  return .yield (joinLink left operator right)

private theorem withStronger_chain (ht : t.Legal) {operand : Reader Expr}
    (hoperand : Passing operand)
    {operator : Token} (hoperator : 0 ≤ t.strength operator) (right : Expr) :
    withStronger t (fun least => chain (.ofTable t) operand (.integer least)) operator right =
      chain (.ofTable t) operand (.integer (t.strength operator + 1)) right := by
  funext s
  rw [withStronger, current_bind]
  split
  · rfl
  · rw [chain_eq ht (by omega) hoperand, if_pos (by omega)]
    rfl

/-- What is behind an expression is read by folding one operator after the other onto it. -/
theorem chain_loop (ht : t.Legal) (hleast : 0 ≤ least) (levels : Nat) :
    Loop (t.strength · < least)
      (linkTurn t (operand (.ofTable t) levels) fun least =>
        chain (.ofTable t) (operand (.ofTable t) levels) (.integer least))
      (chain (.ofTable t) (operand (.ofTable t) levels) (.integer least)) := by
  have hoperand := operand_passing ht levels
  refine .of_eq (fun left s step s' hstop hturn => ?_) fun left s => ?_
  · have hstrong : ¬ t.strength s.current < least := by simpa using hstop
    rw [linkTurn, current_bind] at hturn
    obtain ⟨s1, h1, hturn⟩ := advance_bind_eq_ok_iff.mp hturn
    obtain ⟨right, s2, hright, hturn⟩ := bind_eq_ok_iff.mp hturn
    rw [withStronger_chain ht hoperand (by omega)] at hturn
    obtain ⟨folded, hfolded, _⟩ := bind_pure_eq_ok_iff.mp hturn
    obtain ⟨ts, _, hpass, _⟩ := (chain_eq_ok_iff ht (by omega) (operand_reads ht levels)
      (fun _ _ => Phrase.Operand.derives) right).mp hfolded
    calc s'.tokens.length
      _ ≤ s2.tokens.length := by
        rw [hpass.tokens_eq, List.length_append]
        exact Nat.le_add_left _ _
      _ < s1.tokens.length := hoperand.tokens_lt hright
      _ < s.tokens.length := tokens_lt_of_advance (ne_end_of_le_strength ht hleast hstrong) h1
  · rw [chain_eq ht hleast hoperand]
    simp only [decide_eq_true_eq]
    split
    · rfl
    · rename_i hstrong
      simp only [linkTurn, bind_assoc, pure_bind, current_bind,
        withStronger_chain ht hoperand (show 0 ≤ t.strength s.current by omega)]
      rfl

/-- One more item or a semicolon. -/
def itemTurn (item : Reader Item) (items : List Item) : Reader (ForInStep (List Item)) := do
  if (← current).isSymbol ';' then
    advance
    return .yield items
  else return .yield (items ++ [← item])

/-- One more argument and what is behind it. The last turn takes the closing bracket. -/
def argumentTurn (inner : Reader Expr) (args : List Expr) : Reader (ForInStep (List Expr)) := do
  let arg ← inner
  let token ← current
  if token.isSymbol ')' then
    advance
    return .done (args ++ [arg])
  else if token.isSymbol ',' then
    advance
    return .yield (args ++ [arg])
  else fail .argumentEnd

def parameterTurn (names : List String) : Reader (ForInStep (List String)) := do
  let token ← current
  advance
  return .yield (names ++ [token.valueText])

def allParameters : Reader (List String) := do parameters (← left)

def allArguments (inner : Reader Expr) : Reader (List Expr) := do arguments inner (← left)

def behind (read : Reader (List α)) (found : List α) : Reader (List α) := do
  return found ++ (← read)

private theorem behind_cons (first : α) (read : Reader (List α)) (found : List α) :
    behind (do return first :: (← read)) found = behind read (found ++ [first]) := by
  simp [behind]

private theorem behind_pure (more found : List α) :
    behind (pure more) found = pure (found ++ more) := by
  simp [behind]

private theorem behind_bind {β : Type} (x : Reader β) (f : β → Reader (List α)) (found : List α) :
    behind (x >>= f) found = x >>= fun b => behind (f b) found := by
  simp [behind]

private theorem behind_of_nil {read : Reader (List α)} (h : read s = .ok [] s) (found : List α) :
    behind read found s = .ok found s := by
  rw [behind, bind_of_ok h, List.append_nil]
  rfl

private theorem behind_congr {read read' : Reader (List α)} (h : read s = read' s)
    (found : List α) :
    behind read found s = behind read' found s := bind_of_eq h

/-- The bound on parameters does not matter as long as there may be as many as there are tokens. -/
theorem parameters_eq_parameters (m n : Nat) (hm : s.current.isName = true → s.ahead.length < m)
    (hn : s.current.isName = true → s.ahead.length < n) : parameters m s = parameters n s := by
  induction m generalizing n s with
  | zero =>
    have hname : ¬ s.current.isName = true := fun hname => absurd (hm hname) (Nat.not_lt_zero _)
    rw [parameters_eq_nil _ hname, parameters_eq_nil _ hname]
  | succ m ih =>
    by_cases hname : s.current.isName = true
    · obtain ⟨n, rfl⟩ := Nat.exists_eq_succ_of_ne_zero (Nat.ne_zero_of_lt (hn hname))
      rw [parameters_succ, parameters_succ, if_pos hname, if_pos hname]
      refine bind_congr_of_ok fun _ s1 h1 => ?_
      have hless (hname1 : s1.current.isName = true) : s1.ahead.length < s.ahead.length :=
        (Passes.one (Token.ne_end_of_isName hname) h1).ahead_lt (by simp)
          (Token.ne_end_of_isName hname1)
      refine bind_of_eq (ih n (fun hname1 => ?_) fun hname1 => ?_)
      · exact Nat.lt_of_lt_of_le (hless hname1) (Nat.le_of_lt_succ (hm hname))
      · exact Nat.lt_of_lt_of_le (hless hname1) (Nat.le_of_lt_succ (hn hname))
    · rw [parameters_eq_nil _ hname, parameters_eq_nil _ hname]

/-- Parameters are read one after the other. -/
theorem parameters_loop :
    Loop (!·.isName) parameterTurn (behind allParameters) := by
  refine .of_eq (fun names s step s' hstop hturn => ?_) fun names s => ?_
  · have hend := Token.ne_end_of_isName (t := s.current) (by simpa using hstop)
    rw [parameterTurn, current_bind] at hturn
    obtain ⟨_, h1, _⟩ := bind_pure_eq_ok_iff.mp hturn
    exact tokens_lt_of_advance hend h1
  · by_cases hname : s.current.isName = true
    · have hone : allParameters s =
          (do advance; return s.current.valueText :: (← allParameters)) s := by
        rw [allParameters, left_bind, parameters_succ, if_pos hname]
        refine bind_congr_of_ok fun _ s1 h1 => ?_
        refine bind_of_eq (parameters_eq_parameters _ (s1.ahead.length + 1) (fun hname1 => ?_)
          fun _ => Nat.lt_succ_self _)
        exact (Passes.one (Token.ne_end_of_isName hname) h1).ahead_lt (by simp)
          (Token.ne_end_of_isName hname1)
      rw [behind_congr hone, behind_bind, hname, if_neg (by simp)]
      simp only [behind_cons, parameterTurn, bind_assoc, pure_bind, current_bind]
      rfl
    · have hnone : allParameters s = .ok [] s := parameters_eq_nil _ hname
      rw [behind_of_nil hnone, if_pos (by simp [hname])]

/-- The bound on arguments does not matter as long as there may be as many as there are tokens. -/
theorem arguments_eq_arguments (hinner : Passing inner) (m n : Nat) (hm : s.ahead.length < m)
    (hn : s.ahead.length < n) : arguments inner m s = arguments inner n s := by
  induction m generalizing n s with
  | zero => exact absurd hm (Nat.not_lt_zero _)
  | succ m ih =>
    obtain ⟨n, rfl⟩ := Nat.exists_eq_succ_of_ne_zero (Nat.ne_zero_of_lt hn)
    rw [arguments, arguments]
    refine bind_congr_of_ok fun arg s1 harg => ?_
    rw [current_bind, current_bind]
    split
    · rfl
    split
    · rename_i hcomma
      refine bind_congr_of_ok fun _ s2 h2 => ?_
      have hlt := hinner.ahead_lt harg (Token.ne_end_of_isSymbol hcomma) h2
      exact bind_of_eq (ih n (by omega) (by omega))
    · rfl

/-- Arguments are read one after the other. -/
theorem arguments_loop (hinner : Passing inner) :
    Loop (fun _ => false) (argumentTurn inner) (behind (allArguments inner)) := by
  refine .of_eq (fun args s step s' _ hturn => ?_) fun args s => ?_
  · obtain ⟨arg, s1, harg, hturn⟩ := bind_eq_ok_iff.mp hturn
    have hlt := hinner.tokens_lt harg
    rw [current_bind] at hturn
    split at hturn
    · rename_i hclose
      obtain ⟨_, h2, _⟩ := bind_pure_eq_ok_iff.mp hturn
      have := tokens_lt_of_advance (Token.ne_end_of_isSymbol hclose) h2
      omega
    split at hturn
    · rename_i hcomma
      obtain ⟨_, h2, _⟩ := bind_pure_eq_ok_iff.mp hturn
      have := tokens_lt_of_advance (Token.ne_end_of_isSymbol hcomma) h2
      omega
    · cases hturn
  · have hone : allArguments inner s = (do
        let arg ← inner
        let token ← current
        if token.isSymbol ')' then
          advance
          return [arg]
        else if token.isSymbol ',' then
          advance
          return arg :: (← allArguments inner)
        else fail .argumentEnd) s := by
      rw [allArguments, left_bind, arguments]
      refine bind_congr_of_ok fun arg s1 harg => ?_
      rw [current_bind, current_bind]
      split
      · rfl
      split
      · rename_i hcomma
        refine bind_congr_of_ok fun _ s2 h2 => ?_
        have hlt := hinner.ahead_lt harg (Token.ne_end_of_isSymbol hcomma) h2
        exact bind_of_eq (arguments_eq_arguments hinner _ (s2.ahead.length + 1) hlt
          (Nat.lt_succ_self _))
      · rfl
    rw [behind_congr hone, if_neg (by simp), behind_bind, argumentTurn, bind_assoc]
    refine bind_congr_of_ok fun arg s1 _ => ?_
    rw [behind_bind, bind_assoc, current_bind, current_bind]
    split
    · rw [behind_bind, bind_assoc]
      simp only [behind_pure, pure_bind]
      rfl
    split
    · rw [behind_bind, bind_assoc]
      simp only [behind_cons, pure_bind]
      rfl
    · rfl

/-- The bound on items and semicolons does not matter as long as there may be as many as there are
tokens. -/
theorem within_eq_within (ht : t.Legal) (levels m n : Nat)
    (hm : s.current.kind ≠ .endOfInput → s.ahead.length < m)
    (hn : s.current.kind ≠ .endOfInput → s.ahead.length < n) :
    Progress.within (.ofTable t) levels m s = Progress.within (.ofTable t) levels n s := by
  induction m generalizing n s with
  | zero =>
    have hend : s.current.kind = .endOfInput :=
      Decidable.byContradiction fun hend => Nat.not_lt_zero _ (hm hend)
    rw [Progress.within_end _ hend, Progress.within_end _ hend]
  | succ m ih =>
    by_cases hend : s.current.kind = .endOfInput
    · rw [Progress.within_end _ hend, Progress.within_end _ hend]
    obtain ⟨n, rfl⟩ := Nat.exists_eq_succ_of_ne_zero (Nat.ne_zero_of_lt (hn hend))
    have hless {k : Nat} {s1 : Lookahead} {ts : List Token} (hk : s.ahead.length < k + 1)
        (hpass : Passes s ts s1) (hts : ts ≠ []) :
        s1.current.kind ≠ .endOfInput → s1.ahead.length < k := fun hend1 =>
      Nat.lt_of_lt_of_le (hpass.ahead_lt hts hend1) (Nat.le_of_lt_succ hk)
    rw [Progress.within_succ _ _ hend, Progress.within_succ _ _ hend]
    split
    · cases h1 : advance s with
      | ok _ s1 =>
        exact ih n (hless (hm hend) (.one hend h1) (by simp))
          (hless (hn hend) (.one hend h1) (by simp))
      | error e s1 => rfl
    · cases h1 : item (.ofTable t) levels s with
      | ok found s1 =>
        obtain ⟨ts, hpass, hts, _⟩ := (item_reads ht _ _ _ _).mp h1
        exact congrArg (Progress.withItem found)
          (ih n (hless (hm hend) hpass hts.ne_nil) (hless (hn hend) hpass hts.ne_nil))
      | error e s1 => rfl

private def outcome (p : Progress) : EStateM.Result SyntaxError Lookahead (List Item) :=
  match p.error with
  | none => .ok p.items p.state
  | some e => .error e p.state

private theorem outcome_withItem (first : Item) (p : Progress) :
    outcome (p.withItem first) = match outcome p with
      | .ok items s => .ok (first :: items) s
      | .error e s => .error e s := by
  obtain ⟨items, error, state⟩ := p
  cases error <;> rfl

private theorem program_apply (entries : Entries) (s : Lookahead) :
    program entries levels s = outcome (.within entries levels (s.ahead.length + 1) s) := rfl

/-- A program is the first item or semicolon and the program behind it. -/
theorem program_eq (ht : t.Legal) (levels : Nat) (s : Lookahead) : program (.ofTable t) levels s =
    if s.current.kind = .endOfInput then .ok [] s
    else if s.current.isSymbol ';' then (do advance; program (.ofTable t) levels) s
    else (do return (← item (.ofTable t) levels) :: (← program (.ofTable t) levels)) s := by
  by_cases hend : s.current.kind = .endOfInput
  · rw [if_pos hend, program_apply, Progress.within_end _ hend]
    rfl
  rw [if_neg hend, program_apply, Progress.within_succ _ _ hend]
  split
  · rw [bind_apply]
    cases h1 : advance s with
    | ok _ s1 =>
      exact congrArg outcome (within_eq_within ht levels s.ahead.length (s1.ahead.length + 1)
        ((Passes.one hend h1).ahead_lt (by simp)) fun _ => Nat.lt_succ_self _)
    | error e s1 => rfl
  · rw [bind_apply]
    cases h1 : item (.ofTable t) levels s with
    | ok found s1 =>
      obtain ⟨ts, hpass, hts, _⟩ := (item_reads ht _ _ _ _).mp h1
      have hsame := within_eq_within ht levels s.ahead.length (s1.ahead.length + 1)
        (hpass.ahead_lt hts.ne_nil) fun _ => Nat.lt_succ_self _
      refine (outcome_withItem found _).trans ?_
      rw [hsame, ← program_apply]
      change _ = (program (.ofTable t) levels >>= fun items => pure (found :: items)) s1
      rw [bind_apply]
      cases program (.ofTable t) levels s1 <;> rfl
    | error e s1 => rfl

theorem item_passing (ht : t.Legal) (levels : Nat) : Passing (item (.ofTable t) levels) :=
  (item_reads ht levels).passing fun _ _ h => h.ne_nil

/-- Items and semicolons are read one after the other. -/
theorem program_loop (ht : t.Legal) (levels : Nat) :
    Loop (·.kind = .endOfInput) (itemTurn (item (.ofTable t) levels))
      (behind (program (.ofTable t) levels)) := by
  refine .of_eq (fun items s step s' hstop hturn => ?_) fun items s => ?_
  · have hend : s.current.kind ≠ .endOfInput := by simpa using hstop
    rw [itemTurn, current_bind] at hturn
    split at hturn
    · obtain ⟨_, h1, _⟩ := bind_pure_eq_ok_iff.mp hturn
      exact tokens_lt_of_advance hend h1
    · obtain ⟨item, h1, _⟩ := bind_pure_eq_ok_iff.mp hturn
      exact (item_passing ht levels).tokens_lt h1
  · by_cases hend : s.current.kind = .endOfInput
    · rw [behind_of_nil (by rw [program_eq ht, if_pos hend]), if_pos (by simpa using hend)]
    have hone := program_eq ht levels s
    rw [if_neg hend] at hone
    rw [if_neg (by simpa using hend), itemTurn, bind_assoc, current_bind]
    split at hone
    · rename_i hsemi
      rw [behind_congr hone, behind_bind, if_pos hsemi, bind_assoc]
      rfl
    · rename_i hsemi
      rw [behind_congr hone, behind_bind, if_neg hsemi, bind_assoc]
      simp only [behind_cons, pure_bind]
      rfl

end
end Reader
end ExprLang
