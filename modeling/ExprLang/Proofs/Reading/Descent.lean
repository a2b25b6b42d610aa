import ExprLang.Proofs.Reading.Agreement
import ExprLang.Proofs.Reading.Failure
import Mathlib.Data.Finset.Card

/-! Reading by calls that wait for each other on a stack. Every pending call takes a frame, and
where no frame is left, reading breaks off. Calls that look at a token or take one wait for no
others and are not counted. A call that folds operators waits only for calls that fold stronger
ones, so a level of brackets takes three frames more than there are strengths. -/
namespace ExprLang

namespace Descent
open Reader

mutual

/-- An operand, and what is behind it folded onto it. -/
def expression (t : Table) : (frames : Nat) → Reader Expr
  | 0 => breakOff
  | frames + 1 => do climb t frames 0 (← operand t frames)

/-- Operators that are not weaker than `least` are folded by a loop, and what is stronger than an
operator is folded onto its operand by a call. -/
def climb (t : Table) : (frames : Nat) → Int → Expr → Reader Expr
  | 0, _, _ => breakOff
  | frames + 1, least, left => do
    turns (t.strength · < least) (linkTurn t (operand t frames) (climb t frames))
      ((← Reader.left) + 1) left

/-- One call tells what kind of operand there is, and another one reads it. -/
def operand (t : Table) : (frames : Nat) → Reader Expr
  | frames + 2 => operandOver (expression t frames)
  | _ => breakOff

end

/-- An item, given how expressions are read. -/
def itemOver (expression : Reader Expr) : Reader Item := do
  let token ← current
  match token.kind with
  | .defKeyword =>
    advance
    let proto ← prototype
    return .function ⟨proto, ← expression, token.pos⟩
  | .externKeyword => return .external (← declaration)
  | _ => return .function (.anonymous (← expression) token.pos)

/-- One call tells what kind of item there is, and another one reads it. It calls for the prototype
or the body. -/
def item (t : Table) : (frames : Nat) → Reader Item
  | frames + 3 => itemOver (expression t (frames + 1))
  | _ => breakOff

def itemsOver (item : Reader Item) : Reader (List Item) := do
  turns (·.kind = .endOfInput) (itemTurn item) ((← Reader.left) + 1) []

def program (t : Table) : (frames : Nat) → Reader (List Item)
  | 0 => breakOff
  | frames + 1 => itemsOver (item t frames)

/-- What a reader comes to, without the lookahead that it leaves. -/
def answer {α : Type} : EStateM.Result SyntaxError Lookahead α → Except SyntaxError α
  | .error e _ => .error e
  | .ok a _ => .ok a

/-- What a reader comes to from the beginning of a text. -/
def fromText {α : Type} (read : Reader α) (text : String) : Except SyntaxError α := do
  answer (read (← begin? text))

/-- An expression and nothing behind it, given how expressions are read. -/
def wholeOver (expression : Reader Expr) : Reader Expr := do
  let e ← expression
  if (← current).kind = .endOfInput then return e else fail .endOfInput

/-- The items of a program. -/
def parse (t : Table) (frames : Nat) : String → Except SyntaxError (List Item) :=
  fromText (program t (frames - 1))

def parseExpression (t : Table) (frames : Nat) : String → Except SyntaxError Expr :=
  fromText (wholeOver (expression t (frames - 1)))

end Descent

namespace Table

/-- The strengths of a table that are not less than `least`. -/
def strengthsFrom (t : Table) (least : Int) : Finset Int :=
  (t.entries.map (·.2)).toFinset.filter (least ≤ ·)

/-- How many different strengths there are. -/
def ranks (t : Table) : Nat := (t.strengthsFrom 0).card

private theorem Legal.card_strengthsFrom_lt {t : Table} (ht : t.Legal) {least : Int}
    {operator : Token} (hop : 0 ≤ t.strength operator) (hle : least ≤ t.strength operator) :
    (t.strengthsFrom (t.strength operator + 1)).card < (t.strengthsFrom least).card := by
  obtain ⟨c, n, hc, hn⟩ := isOperator_iff.mp (ht.zero_le_strength_iff.mp hop)
  have hstrength : t.strength operator = n := by simp [strength, hc, hn]
  have hmem : n ∈ t.strengthsFrom least := by
    simp only [strengthsFrom, Finset.mem_filter, List.mem_toFinset, List.mem_map]
    exact ⟨⟨(c, n), mem_of_strength? hn, rfl⟩, by omega⟩
  refine Finset.card_lt_card (Finset.ssubset_iff_subset_ne.mpr ⟨fun m hm => ?_, fun he => ?_⟩)
  · simp only [strengthsFrom, Finset.mem_filter] at hm ⊢
    exact ⟨hm.1, by omega⟩
  · rw [← he] at hmem
    simp only [strengthsFrom, Finset.mem_filter] at hmem
    omega

/-- The frames that an operand takes whose brackets nest less than `levels` deep. -/
def operandFrames (t : Table) (levels : Nat) : Nat := (t.ranks + 3) * levels + 1

end Table

namespace Descent
open Reader
variable {t : Table} {frames more levels : Nat} {least : Int} {s : Lookahead}

theorem breakOff_deep {α : Type} : TooDeepAt (breakOff : Reader α) s := ⟨s.current, s, rfl⟩

private theorem agrees_breakOff {α : Type} (x : Reader α) : Agrees x breakOff :=
  fun _ hdeep => absurd breakOff_deep hdeep

private theorem folding_agrees {operand operand' : Reader Expr}
    {climb climb' : Int → Expr → Reader Expr}
    (h : ∀ operator, least ≤ t.strength operator → Agrees operand operand' ∧ ∀ right,
      Agrees (climb (t.strength operator + 1) right) (climb' (t.strength operator + 1) right))
    (count : Nat) (left : Expr) :
    Agrees (turns (t.strength · < least) (linkTurn t operand climb) count left)
      (turns (t.strength · < least) (linkTurn t operand' climb') count left) := by
  refine turns_agrees (fun left s hstop => ?_) count left
  obtain ⟨hoperand, hclimb⟩ := h s.current (by simpa using hstop)
  refine .behind fun operator s1 hcurrent => ?_
  cases hcurrent
  refine .behind fun _ s1 _ => .bind (hoperand s1) fun right s2 _ => ?_
  refine .bind (.behind fun next s3 _ => ?_) fun _ _ _ => .of_eq rfl
  exact .ite (fun _ => hclimb right s3) fun _ => .of_eq rfl

private theorem climb_succ (left : Expr) : climb t (frames + 1) least left s =
    turns (t.strength · < least) (linkTurn t (operand t frames) (climb t frames))
      (s.ahead.length + 1 + 1) left s := rfl

private theorem chain_turns (ht : t.Legal) (hleast : 0 ≤ least) (left : Expr) :
    chain (.ofTable t) (Reader.operand (.ofTable t) levels) (.integer least) left s =
      turns (t.strength · < least) (linkTurn t (Reader.operand (.ofTable t) levels) fun least =>
        chain (.ofTable t) (Reader.operand (.ofTable t) levels) (.integer least))
          (s.ahead.length + 1 + 1) left s := by
  have hlength := s.length_tokens_le
  exact (chain_loop ht hleast levels).ends left s _ (by omega)

/-- A bracket takes three frames, so reading breaks off behind as many brackets as there are frames
for. -/
theorem expression_of_brackets {us : List Token} {s' : Lookahead}
    (hopen : ∀ u ∈ us, u.isSymbol '(' = true) (hpass : Passes s us s') {rest : Nat} (hrest : rest < 3) :
    expression t (3 * us.length + rest) s = .error (.tooDeep s'.current) s' := by
  induction us generalizing s with
  | nil =>
    cases hpass
    match rest, hrest with
    | 0, _ | 1, _ | 2, _ => rfl
  | cons u us ih =>
    obtain ⟨rfl, _, _, hadvance, hpass⟩ := Passes.cons_iff.mp hpass
    obtain ⟨hu, hopen⟩ := List.forall_mem_cons.mp hopen
    have hinner := ih hopen hpass
    have hoperand : operand t (3 * us.length + rest + 2) s = .error (.tooDeep s'.current) s' := by
      rw [operand, operandOver, current_bind, Token.isSymbol_iff.mp hu]
      simp only [bracketed, bind_apply, hadvance, hinner]
    rw [List.length_cons, show 3 * (us.length + 1) + rest = 3 * us.length + rest + 2 + 1 by omega,
      expression, bind_apply, hoperand]

theorem item_of_brackets {us : List Token} {s' : Lookahead}
    (hopen : ∀ u ∈ us, u.isSymbol '(' = true) (hpass : Passes s us s') (hus : us ≠ []) {rest : Nat}
    (hrest : rest < 3) :
    item t (3 * us.length + rest + 2) s = .error (.tooDeep s'.current) s' := by
  have hread : expression t _ s = _ := expression_of_brackets hopen hpass hrest
  have hcurrent : s.current ∈ us := by
    cases hpass with
    | refl => exact absurd rfl hus
    | step _ _ _ => exact List.mem_cons_self
  obtain ⟨frames, hframes⟩ : ∃ n, 3 * us.length + rest = n + 1 :=
    ⟨3 * us.length + rest - 1, by have := List.length_pos_iff.mpr hus; omega⟩
  rw [hframes] at hread ⊢
  rw [item, itemOver, current_bind, Token.isSymbol_iff.mp (hopen _ hcurrent)]
  simp only [bind_apply, hread]

/-- With more frames the same is read, as long as the fewer ones suffice. -/
theorem frames_agree (hle : frames ≤ more) :
    Agrees (operand t more) (operand t frames) ∧
      (∀ least left, Agrees (climb t more least left) (climb t frames least left)) ∧
      Agrees (expression t more) (expression t frames) := by
  induction frames using Nat.strongRecOn generalizing more with
  | ind frames ih =>
    match frames, more with
    | 0, _ => exact ⟨agrees_breakOff _, fun _ _ => agrees_breakOff _, agrees_breakOff _⟩
    | frames + 1, more + 1 =>
      obtain ⟨hoperand, hclimb, _⟩ := ih frames (by omega) (Nat.le_of_succ_le_succ hle)
      refine ⟨?_, fun least left s => ?_, fun s => ?_⟩
      · match frames, more with
        | 0, _ => exact agrees_breakOff _
        | frames + 1, more + 1 =>
          exact operandOver_agrees (ih frames (by omega) (by omega)).2.2
      · exact folding_agrees (fun _ _ => ⟨hoperand, hclimb _⟩) _ left s
      · exact .bind (hoperand s) fun first s1 _ => hclimb 0 first s1

/-- With as many levels as there are frames the same is read, as long as the frames suffice. -/
theorem levels_agree (ht : t.Legal) (hle : frames ≤ levels) :
    Agrees (Reader.operand (.ofTable t) levels) (operand t frames) ∧
      (∀ least, 0 ≤ least → ∀ left,
        Agrees (chain (.ofTable t) (Reader.operand (.ofTable t) levels) (.integer least) left)
          (climb t frames least left)) ∧
      Agrees (Reader.expression (.ofTable t) levels) (expression t frames) := by
  induction frames using Nat.strongRecOn generalizing levels with
  | ind frames ih =>
    match frames with
    | 0 => exact ⟨agrees_breakOff _, fun _ _ _ => agrees_breakOff _, agrees_breakOff _⟩
    | frames + 1 =>
      obtain ⟨hoperand, hclimb, _⟩ := ih frames (by omega) (Nat.le_of_succ_le hle)
      refine ⟨?_, fun least hleast left s => ?_, fun s => ?_⟩
      · match frames, levels with
        | 0, _ => exact agrees_breakOff _
        | frames + 1, levels + 1 =>
          exact operandOver_agrees (ih frames (by omega) (by omega)).2.2
      · rw [AgreesAt, chain_turns ht hleast, climb_succ]
        exact folding_agrees (fun _ hle => ⟨hoperand, hclimb _ (by omega)⟩) _ left s
      · exact .bind (hoperand s) fun first s1 _ => hclimb 0 (Int.le_refl 0) first s1

private theorem climb_agrees (ht : t.Legal) {room : Nat} (hroom : 0 < room)
    (hoperand : ∀ frames, room ≤ frames →
      Agrees (operand t frames) (Reader.operand (.ofTable t) levels))
    (hleast : 0 ≤ least) (hframes : (t.strengthsFrom least).card + room ≤ frames) (left : Expr) :
    Agrees (climb t frames least left)
      (chain (.ofTable t) (Reader.operand (.ofTable t) levels) (.integer least) left) := by
  induction frames generalizing least left with
  | zero => omega
  | succ frames ih =>
    intro s
    rw [AgreesAt, TooDeepAt, chain_turns ht hleast, climb_succ]
    refine folding_agrees (fun operator hstrong => ?_) _ left s
    have hcard := ht.card_strengthsFrom_lt (by omega) hstrong
    exact ⟨hoperand frames (by omega), ih (by omega) (by omega)⟩

private theorem expression_agrees (ht : t.Legal)
    (hoperand : ∀ frames, t.operandFrames levels ≤ frames →
      Agrees (operand t frames) (Reader.operand (.ofTable t) levels))
    (hframes : t.ranks + t.operandFrames levels < frames) :
    Agrees (expression t frames) (Reader.expression (.ofTable t) levels) := by
  obtain ⟨frames, rfl⟩ := Nat.exists_eq_succ_of_ne_zero (Nat.ne_zero_of_lt hframes)
  intro s
  refine .bind (hoperand frames (by omega) s) fun first s1 _ => ?_
  have hroom : (t.strengthsFrom 0).card + t.operandFrames levels ≤ frames :=
    Nat.le_of_lt_succ hframes
  exact climb_agrees ht (Nat.succ_pos _) hoperand (Int.le_refl 0) hroom first s1

private theorem operand_agrees (ht : t.Legal) (levels : Nat)
    (hframes : t.operandFrames levels ≤ frames) :
    Agrees (operand t frames) (Reader.operand (.ofTable t) levels) := by
  induction levels generalizing frames with
  | zero => exact agrees_breakOff _
  | succ levels ih =>
    have hmore : t.operandFrames (levels + 1) = t.operandFrames levels + t.ranks + 3 := by
      simp only [Table.operandFrames, Nat.mul_succ]
      omega
    obtain ⟨frames, rfl⟩ : ∃ n, frames = n + 2 := ⟨frames - 2, by omega⟩
    exact operandOver_agrees (expression_agrees ht (fun _ => ih) (by omega))

/-- As many frames as a number of levels takes are enough. -/
theorem expression_suffices (ht : t.Legal) (hframes : t.ranks + t.operandFrames levels < frames) :
    Agrees (expression t frames) (Reader.expression (.ofTable t) levels) :=
  expression_agrees ht (fun _ => operand_agrees ht levels) hframes

end Descent
end ExprLang
