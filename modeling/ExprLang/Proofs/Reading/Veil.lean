import ExprLang.Proofs.Reading.Refusal

/-! No reader looks past the current token. Until it asks for what a fault stands in place of, a
fault might as well be the end of input. -/
namespace ExprLang

/-- What is ahead, with nothing but the end of input from the first fault on. -/
def veil (finish : Pos) : List Lexed → List Lexed
  | [] => []
  | .ok token :: rest => .ok token :: veil finish rest
  | .error _ :: rest => List.replicate (rest.length + 1) (.ok ⟨.endOfInput, finish⟩)

theorem length_veil (finish : Pos) (ahead : List Lexed) :
    (veil finish ahead).length = ahead.length := by
  induction ahead with
  | nil => rfl
  | cons found rest ih =>
    cases found with
    | ok token => simp [veil, ih]
    | error fault => simp [veil]

theorem veil_ok (finish : Pos) (ahead : List Lexed) :
    ∀ found ∈ veil finish ahead, ∃ token, found = .ok token := by
  induction ahead with
  | nil => simp [veil]
  | cons found rest ih =>
    cases found with
    | ok token => simpa [veil] using ih
    | error fault => exact fun found hfound => ⟨_, List.eq_of_mem_replicate hfound⟩

theorem veil_append_fault (finish : Pos) (ts : List Token) (fault : LexError) (rest : List Lexed) :
    veil finish (ts.map .ok ++ .error fault :: rest) =
      ts.map .ok ++ List.replicate (rest.length + 1) (.ok ⟨.endOfInput, finish⟩) := by
  induction ts with
  | nil => rfl
  | cons t ts ih => simp [veil, ih]

namespace Lookahead

def veiled (s : Lookahead) : Lookahead := { s with ahead := veil s.finish s.ahead }

@[simp] theorem veiled_current (s : Lookahead) : s.veiled.current = s.current := rfl

/-- There is nothing but the end of input, now and from now on. -/
structure Spent (s : Lookahead) : Prop where
  current : s.current.kind = .endOfInput
  ahead : ∀ found ∈ s.ahead, ∃ pos, found = .ok ⟨.endOfInput, pos⟩

end Lookahead

namespace Reader
variable {α β : Type} {s : Lookahead}

/-- A reader goes on as if there were no fault, up to the point where it would find one. From there
on it would find nothing but the end of input. -/
structure Blind (x : Reader α) : Prop where
  agrees : ∀ ⦃s a s'⦄, x s = .ok a s' → x s.veiled = .ok a s'.veiled
  refuses : ∀ ⦃s e s'⦄, x s = .error e s' → (∀ fault, e ≠ .lexical fault) →
    x s.veiled = .error e s'.veiled
  faults : ∀ ⦃s fault s'⦄, x s = .error (.lexical fault) s' → (x.leaves s.veiled).Spent
  rests : ∀ ⦃s⦄, s.Spent → (x.leaves s).Spent

private theorem leaves_cases (x : Reader α) (s : Lookahead) :
    (∃ a, x s = .ok a (x.leaves s)) ∨ ∃ e, x s = .error e (x.leaves s) := by
  rw [leaves]
  cases x s with
  | ok a s' => exact .inl ⟨a, rfl⟩
  | error e s' => exact .inr ⟨e, rfl⟩

private theorem leaves_bind_of_ok {x : Reader α} {f : α → Reader β} {s s' : Lookahead} {a : α}
    (h : x s = .ok a s') : (x >>= f).leaves s = (f a).leaves s' := by
  rw [leaves, leaves, bind_apply, h]

private theorem leaves_bind_of_error {x : Reader α} {f : α → Reader β} {s s' : Lookahead}
    {e : SyntaxError} (h : x s = .error e s') : (x >>= f).leaves s = s' := by
  rw [leaves, bind_apply, h]

private theorem advance_rests (hs : s.Spent) : (advance.leaves s).Spent := by
  rw [leaves]
  cases hahead : s.ahead with
  | nil =>
    rw [advance_end hahead]
    exact ⟨rfl, by simp⟩
  | cons found rest =>
    obtain ⟨pos, rfl⟩ := hs.ahead found (by simp [hahead])
    rw [advance_token hahead]
    exact ⟨rfl, fun next hnext => hs.ahead next (by simp [hahead, hnext])⟩

namespace Blind
variable {x : Reader α} {f : α → Reader β}

private theorem pure (a : α) : Blind (Pure.pure a : Reader α) where
  agrees _ _ _ h := by
    obtain ⟨rfl, rfl⟩ := pure_eq_ok_iff.mp h
    rfl
  refuses _ _ _ h := nomatch h
  faults _ _ _ h := nomatch h
  rests _ hs := hs

private theorem throw {e : SyntaxError} (he : ∀ fault, e ≠ .lexical fault) :
    Blind (throw e : Reader α) where
  agrees _ _ _ h := nomatch h
  refuses _ _ _ h _ := by
    cases h
    rfl
  faults _ fault _ h := by
    cases h
    exact absurd rfl (he fault)
  rests _ hs := hs

private theorem fail (missing : Missing) : Blind (fail missing : Reader α) where
  agrees _ _ _ h := nomatch h
  refuses _ _ _ h _ := by
    cases h
    rfl
  faults _ _ _ h := nomatch h
  rests _ hs := hs

private theorem breakOff : Blind (breakOff : Reader α) where
  agrees _ _ _ h := nomatch h
  refuses _ _ _ h _ := by
    cases h
    rfl
  faults _ _ _ h := nomatch h
  rests _ hs := hs

private theorem current : Blind current where
  agrees _ _ _ h := by
    cases h
    rfl
  refuses _ _ _ h := nomatch h
  faults _ _ _ h := nomatch h
  rests _ hs := hs

private theorem left : Blind left where
  agrees _ _ _ h := by
    cases h
    rw [Reader.left, Lookahead.veiled, length_veil]
  refuses _ _ _ h := nomatch h
  faults _ _ _ h := nomatch h
  rests _ hs := hs

private theorem advance : Blind advance where
  agrees s _ _ h := by
    obtain ⟨hahead, rfl⟩ | ⟨token, rest, hahead, rfl⟩ := advance_cases h
    · exact advance_end (by rw [Lookahead.veiled, hahead, veil])
    · exact advance_token (by rw [Lookahead.veiled, hahead, veil])
  refuses s _ _ h hfault := by
    obtain ⟨fault, _, _, he, _⟩ := advance_eq_error_iff.mp h
    exact absurd he (hfault fault)
  faults s _ _ h := by
    obtain ⟨_, rest, hahead, _⟩ := advance_eq_error_iff.mp h
    have hveiled : s.veiled.ahead = .ok ⟨.endOfInput, s.finish⟩ ::
        List.replicate rest.length (.ok ⟨.endOfInput, s.finish⟩) := by
      rw [Lookahead.veiled, hahead, veil, List.replicate_succ]
    rw [leaves, advance_token hveiled]
    exact ⟨rfl, fun next hnext => ⟨_, List.eq_of_mem_replicate hnext⟩⟩
  rests _ hs := advance_rests hs

private theorem leaves_bind_spent (hf : ∀ a, Blind (f a)) (h : (x.leaves s).Spent) :
    ((x >>= f).leaves s).Spent := by
  rcases leaves_cases x s with ⟨a, hread⟩ | ⟨e, hread⟩
  · rw [leaves_bind_of_ok hread]
    exact (hf a).rests h
  · rwa [leaves_bind_of_error hread]

private theorem bind (hx : Blind x) (hf : ∀ a, Blind (f a)) : Blind (x >>= f) where
  agrees _ _ _ h := by
    obtain ⟨a, s', hread, h⟩ := bind_eq_ok_iff.mp h
    exact bind_eq_ok_iff.mpr ⟨a, _, hx.agrees hread, (hf a).agrees h⟩
  refuses _ _ _ h hfault := by
    rcases bind_eq_error_iff.mp h with h | ⟨a, s', hread, h⟩
    · exact bind_eq_error_iff.mpr (.inl (hx.refuses h hfault))
    · exact bind_eq_error_iff.mpr (.inr ⟨a, _, hx.agrees hread, (hf a).refuses h hfault⟩)
  faults _ _ _ h := by
    rcases bind_eq_error_iff.mp h with h | ⟨a, s', hread, h⟩
    · exact leaves_bind_spent hf (hx.faults h)
    · rw [leaves_bind_of_ok (hx.agrees hread)]
      exact (hf a).faults h
  rests _ hs := leaves_bind_spent hf (hx.rests hs)

end Blind

private theorem expect_blind (type : String) (missing : Missing) : Blind (expect type missing) := by
  refine .bind .current fun token => ?_
  split
  · exact .bind .advance fun _ => .pure _
  · exact .fail _

variable {entries : Entries} {inner operand : Reader Expr}

private theorem arguments_blind (hinner : Blind inner) (count : Nat) :
    Blind (arguments inner count) := by
  induction count with
  | zero => exact .pure _
  | succ count ih =>
    refine .bind hinner fun arg => .bind .current fun token => ?_
    split
    · exact .bind .advance fun _ => .pure _
    split
    · exact .bind .advance fun _ => .bind ih fun _ => .pure _
    · exact .fail _

private theorem nameOrCall_blind (hinner : Blind inner) : Blind (nameOrCall inner) := by
  refine .bind .current fun token => .bind .advance fun _ => .bind .current fun next => ?_
  split
  · refine .bind .advance fun _ => .bind .current fun first => ?_
    split
    · exact .bind .advance fun _ => .pure _
    · exact .bind .left fun count => .bind (arguments_blind hinner count) fun _ => .pure _
  · exact .pure _

private theorem number_blind : Blind number := by
  refine .bind .current fun token => ?_
  split
  · exact .bind .advance fun _ => .pure _
  · exact .throw (by simp)

private theorem bracketed_blind (hinner : Blind inner) : Blind (bracketed inner) :=
  .bind .advance fun _ => .bind hinner fun _ => .bind (expect_blind _ _) fun _ => .pure _

private theorem operandOver_blind (hinner : Blind inner) : Blind (operandOver inner) := by
  refine .bind .current fun token => ?_
  split
  · exact nameOrCall_blind hinner
  · exact number_blind
  · exact bracketed_blind hinner
  · exact .fail _

private theorem isWeaker_blind (left right : Value) : Blind (isWeaker left right) := by
  rw [isWeaker]
  split
  · exact .pure _
  · exact .throw (by simp)

private theorem compareAcross_blind (before : Option Value) (behind : Value) :
    Blind (compareAcross before behind) := by
  rw [compareAcross.eq_def]
  split
  · exact .pure _
  · refine .bind (isWeaker_blind _ _) fun weaker => ?_
    split
    · split
      · exact .throw (by simp)
      · exact .pure _
    · exact .pure _

private theorem links_blind (hoperand : Blind operand) (least : Value) (before : Option Value)
    (count : Nat) : Blind (links entries operand least before count) := by
  induction count generalizing before with
  | zero => exact .pure _
  | succ count ih =>
    refine .bind .current fun operator => .bind (compareAcross_blind _ _) fun _ =>
      .bind (isWeaker_blind _ _) fun weaker => ?_
    split
    · exact .pure _
    · exact .bind .advance fun _ => .bind hoperand fun _ => .bind (ih _) fun _ => .pure _

private theorem chain_blind (hoperand : Blind operand) (least : Value) (first : Expr) :
    Blind (chain entries operand least first) :=
  .bind .left fun count => .bind (links_blind hoperand least none count) fun _ => .pure _

private theorem expressionOver_blind (hoperand : Blind operand) :
    Blind (expressionOver entries operand) :=
  .bind hoperand fun first => chain_blind hoperand _ first

private theorem operand_blind (entries : Entries) (levels : Nat) :
    Blind (Reader.operand entries levels) := by
  induction levels with
  | zero => exact .breakOff
  | succ levels ih => exact operandOver_blind (expressionOver_blind ih)

private theorem expression_blind (entries : Entries) (levels : Nat) :
    Blind (expression entries levels) :=
  expressionOver_blind (operand_blind entries levels)

private theorem parameters_blind (count : Nat) : Blind (parameters count) := by
  induction count with
  | zero => exact .pure _
  | succ count ih =>
    refine .bind .current fun token => ?_
    split
    · exact .bind .advance fun _ => .bind ih fun _ => .pure _
    · exact .pure _

private theorem prototype_blind : Blind prototype := by
  refine .bind .current fun token => ?_
  split
  · exact .bind .advance fun _ => .bind (expect_blind _ _) fun _ => .bind .left fun count =>
      .bind (parameters_blind count) fun _ => .bind (expect_blind _ _) fun _ => .pure _
  · exact .fail _

private theorem definition_blind (entries : Entries) (levels : Nat) :
    Blind (definition entries levels) := by
  refine .bind .current fun token => ?_
  split
  · exact .bind .advance fun _ => .bind prototype_blind fun _ =>
      .bind (expression_blind entries levels) fun _ => .pure _
  · exact .fail _

private theorem declaration_blind : Blind declaration := by
  refine .bind .current fun token => ?_
  split
  · exact .bind .advance fun _ => prototype_blind
  · exact .fail _

theorem item_blind (entries : Entries) (levels : Nat) : Blind (item entries levels) := by
  refine .bind .current fun token => ?_
  split
  · exact .bind (definition_blind entries levels) fun _ => .pure _
  · exact .bind declaration_blind fun _ => .pure _
  · exact .bind (.bind .current fun _ => .bind (expression_blind entries levels) fun _ => .pure _)
      fun _ => .pure _

end Reader

namespace Progress
variable {entries : Entries} {levels : Nat} {s : Lookahead}

/-- Nothing more is read at the end of input. -/
theorem within_spent (count : Nat) (hs : s.Spent) :
    (within entries levels count s).state.Spent := by
  cases count with
  | zero => exact hs
  | succ count =>
    rw [within, if_pos hs.current]
    exact hs

/-- Where a program would find a fault, it comes to the end of input if it cannot see the fault. -/
theorem within_veiled (count : Nat) {fault : LexError}
    (h : (within entries levels count s).error = some (.lexical fault)) :
    (within entries levels count s.veiled).state.Spent := by
  induction count generalizing s with
  | zero => cases h
  | succ count ih =>
    by_cases hend : s.current.kind = .endOfInput
    · rw [within, if_pos hend] at h
      cases h
    rw [within_succ _ _ hend] at h
    rw [within_succ _ _ (show s.veiled.current.kind ≠ _ from hend), Lookahead.veiled_current]
    split at h
    · rename_i hsemi
      rw [if_pos hsemi]
      cases hadvance : Reader.advance s with
      | ok _ s1 =>
        rw [hadvance] at h
        rw [Reader.Blind.advance.agrees hadvance]
        exact ih h
      | error e s1 =>
        rw [hadvance] at h
        cases h
        have hspent := Reader.Blind.advance.faults hadvance
        rcases Reader.leaves_cases Reader.advance s.veiled with ⟨a, hread⟩ | ⟨e, hread⟩
        · rw [hread]
          exact within_spent count hspent
        · rwa [hread]
    · rename_i hsemi
      rw [if_neg hsemi]
      cases hitem : Reader.item entries levels s with
      | ok item s1 =>
        rw [hitem] at h
        rw [(Reader.item_blind entries levels).agrees hitem]
        exact ih h
      | error e s1 =>
        rw [hitem] at h
        cases h
        have hspent := (Reader.item_blind entries levels).faults hitem
        rcases Reader.leaves_cases (Reader.item entries levels) s.veiled with ⟨item, hread⟩ | ⟨e, hread⟩
        · rw [hread]
          exact within_spent count hspent
        · rwa [hread]

end Progress
end ExprLang
