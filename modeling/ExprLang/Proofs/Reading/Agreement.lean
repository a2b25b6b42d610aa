import ExprLang.Proofs.Reading.Loop

/-! Readers that do the same as long as no brackets nest too deep. -/
namespace ExprLang

namespace Reader
variable {α β : Type}

/-- A reader breaks off. -/
def TooDeepAt (x : Reader α) (s : Lookahead) : Prop := ∃ got s', x s = .error (.tooDeep got) s'

/-- The first reader does what the second one does, unless the second one breaks off. -/
def AgreesAt (x y : Reader α) (s : Lookahead) : Prop := ¬ TooDeepAt y s → x s = y s

abbrev Agrees (x y : Reader α) : Prop := ∀ s, AgreesAt x y s

variable {x y : Reader α} {f g : α → Reader β} {s : Lookahead}

theorem AgreesAt.of_eq (h : x s = y s) : AgreesAt x y s := fun _ => h

theorem AgreesAt.bind (h : AgreesAt x y s)
    (hrest : ∀ a s1, y s = .ok a s1 → AgreesAt (f a) (g a) s1) :
    AgreesAt (x >>= f) (y >>= g) s := by
  intro hdeep
  have hx : x s = y s := h fun ⟨got, s', hs'⟩ =>
    hdeep ⟨got, s', bind_eq_error_iff.mpr (.inl hs')⟩
  rw [bind_of_eq hx]
  refine bind_congr_of_ok fun a s1 ha => hrest a s1 ha fun ⟨got, s', hs'⟩ => ?_
  exact hdeep ⟨got, s', bind_eq_error_iff.mpr (.inr ⟨a, s1, ha, hs'⟩)⟩

/-- What is in front of two readers does not keep them apart. -/
theorem AgreesAt.behind {z : Reader α} (hrest : ∀ a s1, z s = .ok a s1 → AgreesAt (f a) (g a) s1) :
    AgreesAt (z >>= f) (z >>= g) s :=
  AgreesAt.bind (.of_eq rfl) hrest

theorem AgreesAt.ite {c : Prop} [Decidable c] {x' y' : Reader α} (h : c → AgreesAt x y s)
    (h' : ¬ c → AgreesAt x' y' s) :
    AgreesAt (if c then x else x') (if c then y else y') s := by
  by_cases hc : c
  · rw [if_pos hc, if_pos hc]
    exact h hc
  · rw [if_neg hc, if_neg hc]
    exact h' hc

section
variable {inner inner' : Reader Expr} (h : Agrees inner inner')
include h

private theorem arguments_agrees (count : Nat) :
    Agrees (arguments inner count) (arguments inner' count) := by
  induction count with
  | zero => exact fun s => .of_eq rfl
  | succ count ih =>
    intro s
    refine .bind (h s) fun arg s1 _ => .behind fun token s2 _ => .ite (fun _ => .of_eq rfl) fun _ => ?_
    refine .ite (fun _ => ?_) fun _ => .of_eq rfl
    exact .behind fun _ s3 _ => .bind (ih s3) fun _ _ _ => .of_eq rfl

private theorem nameOrCall_agrees : Agrees (nameOrCall inner) (nameOrCall inner') := by
  intro s
  refine .behind fun token s1 _ => .behind fun _ s2 _ => .behind fun next s3 _ => .ite (fun _ => ?_)
    fun _ => .of_eq rfl
  refine .behind fun _ s4 _ => .behind fun first s5 _ => .ite (fun _ => .of_eq rfl) fun _ => ?_
  exact .behind fun count s6 _ => .bind (arguments_agrees h count s6) fun _ _ _ => .of_eq rfl

private theorem bracketed_agrees : Agrees (bracketed inner) (bracketed inner') :=
  fun _ => .behind fun _ s1 _ => .bind (h s1) fun _ _ _ => .of_eq rfl

theorem operandOver_agrees : Agrees (operandOver inner) (operandOver inner') := by
  intro s
  refine .behind fun token s1 _ => ?_
  split
  · exact nameOrCall_agrees h s1
  · exact .of_eq rfl
  · exact bracketed_agrees h s1
  · exact .of_eq rfl

end

section
variable {operand operand' : Reader Expr} (h : Agrees operand operand')
include h

private theorem links_agrees (entries : Entries) (least : Value) (before : Option Value)
    (count : Nat) :
    Agrees (links entries operand least before count) (links entries operand' least before count) := by
  induction count generalizing before with
  | zero => exact fun s => .of_eq rfl
  | succ count ih =>
    intro s
    refine .behind fun operator s1 _ => .behind fun _ s2 _ => .behind fun weak s3 _ =>
      .ite (fun _ => .of_eq rfl) fun _ => .behind fun _ s4 _ => .bind (h s4) fun right s5 _ => ?_
    exact .bind (ih _ s5) fun _ _ _ => .of_eq rfl

theorem expressionOver_agrees (entries : Entries) :
    Agrees (expressionOver entries operand) (expressionOver entries operand') := by
  intro s
  refine .bind (h s) fun first s1 _ => .behind fun count s2 _ => ?_
  exact .bind (links_agrees h entries _ _ count s2) fun _ _ _ => .of_eq rfl

end

/-- With more levels the same is read, as long as the fewer ones suffice. -/
theorem operand_agrees (entries : Entries) {levels more : Nat} (hle : levels ≤ more) :
    Agrees (operand entries more) (operand entries levels) := by
  induction levels generalizing more with
  | zero => exact fun s hdeep => absurd ⟨s.current, s, rfl⟩ hdeep
  | succ levels ih =>
    obtain ⟨more, rfl⟩ := Nat.exists_eq_add_of_le' (Nat.lt_of_lt_of_le (Nat.succ_pos _) hle)
    exact operandOver_agrees (expressionOver_agrees (ih (Nat.le_of_succ_le_succ hle)) entries)

theorem turns_agrees {stop : Token → Bool} {turn turn' : α → Reader (ForInStep α)}
    (h : ∀ a s, stop s.current = false → AgreesAt (turn a) (turn' a) s) (count : Nat) (a : α) :
    Agrees (turns stop turn count a) (turns stop turn' count a) := by
  induction count generalizing a with
  | zero => exact fun s => .of_eq rfl
  | succ count ih =>
    intro s
    by_cases hstop : stop s.current = true
    · refine .of_eq ?_
      rw [turns_succ, turns_succ, if_pos hstop, if_pos hstop]
    · intro hdeep
      rw [TooDeepAt, turns_succ, if_neg hstop] at hdeep
      rw [turns_succ, turns_succ, if_neg hstop, if_neg hstop]
      refine AgreesAt.bind (h a s (by simpa using hstop)) (fun step s1 _ => ?_) hdeep
      cases step with
      | done b => exact .of_eq rfl
      | yield b => exact ih b s1

end Reader
end ExprLang
