import ExprLang.Proofs.Chain.Stages
import ExprLang.Proofs.Reading.InStep

/-! Chains read in stages. Strong links may be read and folded first, and the weaker ones onto what
they make. So a chain is read by a procedure that calls itself: for the right operand of an
operator, and for what stands behind it. -/
namespace ExprLang.Reader

variable {α β : Type} {t : Table} {operand : Reader Expr} {least low : Int} {s s' : Lookahead}

theorem bind_of_ok {x : Reader α} {f : α → Reader β} {a : α} (h : x s = .ok a s') :
    (x >>= f) s = f a s' := by
  rw [bind_apply, h]

theorem bind_of_eq {x y : Reader α} {f : α → Reader β} (h : x s = y s) :
    (x >>= f) s = (y >>= f) s := by
  rw [bind_apply, bind_apply, h]

/-- What goes on behind a reader matters only where the reader succeeds. -/
theorem bind_congr_of_ok {x : Reader α} {f g : α → Reader β}
    (h : ∀ a s', x s = .ok a s' → f a s' = g a s') : (x >>= f) s = (x >>= g) s := by
  rw [bind_apply, bind_apply]
  cases hx : x s with
  | ok a s' => exact h a s' hx
  | error e s' => rfl

theorem ne_end_of_le_strength (ht : t.Legal) (hleast : 0 ≤ least)
    (h : ¬ t.strength s.current < least) : s.current.kind ≠ .endOfInput :=
  Table.ne_end_of_isOperator (ht.zero_le_strength_iff.mp (by omega))

private theorem integer_of_mem {n : Int} : ∀ v ∈ some (Value.integer n), ∃ n, v = .integer n := by
  simp

private theorem integer_of_mem_none : ∀ v ∈ (none : Option Value), ∃ n, v = .integer n := nofun

/-- The bound on the links of a chain does not matter as long as there may be as many as there are
tokens, nor does the operator in front. -/
theorem links_eq_links (ht : t.Legal) (hleast : 0 ≤ least) (hoperand : Passing operand)
    {before before' : Option Value} (hbefore : ∀ v ∈ before, ∃ n, v = .integer n)
    (hbefore' : ∀ v ∈ before', ∃ n, v = .integer n) (m n : Nat) (hm : s.ahead.length < m)
    (hn : s.ahead.length < n) :
    links (.ofTable t) operand (.integer least) before m s =
      links (.ofTable t) operand (.integer least) before' n s := by
  induction m generalizing n s before before' with
  | zero => exact absurd hm (Nat.not_lt_zero _)
  | succ m ih =>
    obtain ⟨n, rfl⟩ := Nat.exists_eq_succ_of_ne_zero (Nat.ne_zero_of_lt hn)
    rw [links_succ before hbefore, links_succ before' hbefore']
    split
    · rfl
    · rename_i hstrong
      have hend := ne_end_of_le_strength ht hleast hstrong
      refine bind_congr_of_ok fun _ s1 h1 => bind_congr_of_ok fun right s2 h2 => ?_
      have hlt := hoperand.ahead_lt_of_advance hend h1 h2
      exact bind_of_eq (ih integer_of_mem integer_of_mem n (by omega) (by omega))

private theorem links_strong {before : Option Value} (hbefore : ∀ v ∈ before, ∃ n, v = .integer n)
    (count : Nat) {found : List Link}
    (h : links (.ofTable t) operand (.integer least) before count s = .ok found s') :
    (∀ link ∈ found, least ≤ t.strength link.1) ∧ ∀ link ∈ found.head?, link.1 = s.current := by
  induction count generalizing s found before with
  | zero =>
    cases h
    simp
  | succ count ih =>
    rw [links_succ before hbefore] at h
    split at h
    · cases h
      simp
    · rename_i hstrong
      obtain ⟨s1, _, h⟩ := advance_bind_eq_ok_iff.mp h
      obtain ⟨right, s2, _, h⟩ := bind_eq_ok_iff.mp h
      obtain ⟨rest, hrest, rfl⟩ := bind_pure_eq_ok_iff.mp h
      have hothers := (ih integer_of_mem hrest).1
      exact ⟨List.forall_mem_cons.mpr ⟨Int.not_lt.mp hstrong, hothers⟩, by simp⟩

/-- Links may be read in two stages, with the strong ones first, and something be made of both. -/
theorem links_stages (ht : t.Legal) (hlow : 0 ≤ low) (hle : low ≤ least)
    (hoperand : Passing operand)
    {before : Option Value} (hbefore : ∀ v ∈ before, ∃ n, v = .integer n) (count : Nat)
    (hcount : s.ahead.length < count) {whole : List Link → β} {parts : List Link → List Link → β}
    (hparts : ∀ strong others : List Link, (∀ link ∈ strong, least ≤ t.strength link.1) →
      (∀ link ∈ others, low ≤ t.strength link.1) →
      (∀ link ∈ others.head?, t.strength link.1 < least) →
      whole (strong ++ others) = parts strong others) :
    (do return whole (← links (.ofTable t) operand (.integer low) before count)) s =
      (do
        let strong ← links (.ofTable t) operand (.integer least) before count
        return parts strong (← links (.ofTable t) operand (.integer low) none (← left))) s := by
  induction count generalizing s before whole parts with
  | zero => exact absurd hcount (Nat.not_lt_zero _)
  | succ count ih =>
    by_cases hweak : t.strength s.current < least
    · -- Nothing is strong enough, so all links are left to the second stage.
      have hnone : links (.ofTable t) operand (.integer least) before (count + 1) s = .ok [] s := by
        rw [links_succ before hbefore, if_pos hweak]
      have hsame := links_eq_links ht hlow hoperand hbefore integer_of_mem_none (count + 1)
        (s.ahead.length + 1) hcount (Nat.lt_succ_self _)
      rw [bind_of_ok hnone, left_bind, bind_of_eq hsame]
      refine bind_congr_of_ok fun others s1 hothers => ?_
      obtain ⟨hall, hfirst⟩ := links_strong integer_of_mem_none _ hothers
      rw [← hparts [] others (by simp) hall fun link hlink => by rwa [hfirst link hlink]]
      rfl
    · have hend := ne_end_of_le_strength ht (Int.le_trans hlow hle) hweak
      have hstrong : ¬ t.strength s.current < low := by omega
      rw [bind_apply, bind_apply, links_succ before hbefore, links_succ before hbefore,
        if_neg hstrong, if_neg hweak, ← bind_apply, ← bind_apply]
      simp only [bind_assoc, pure_bind]
      refine bind_congr_of_ok fun _ s1 h1 => bind_congr_of_ok fun right s2 h2 => ?_
      have hlt := hoperand.ahead_lt_of_advance hend h1 h2
      refine ih integer_of_mem (by omega) fun strong others hall => ?_
      exact hparts ((s.current, right) :: strong) others
        (List.forall_mem_cons.mpr ⟨Int.not_lt.mp hweak, hall⟩)

/-- Reading the strong links first and the others onto what they make comes to the same as reading
them all. -/
theorem chain_stages (ht : t.Legal) (hlow : 0 ≤ low) (hle : low ≤ least)
    (hoperand : Passing operand) (first : Expr) :
    (chain (.ofTable t) operand (.integer least) first >>=
        chain (.ofTable t) operand (.integer low)) =
      chain (.ofTable t) operand (.integer low) first := by
  funext s
  simp only [chain, bind_assoc, pure_bind]
  rw [left_bind, left_bind]
  refine (links_stages ht hlow hle hoperand integer_of_mem_none _ (Nat.lt_succ_self _)
    fun strong others hstrong hothers hfirst => ?_).symm
  have hall : ∀ link ∈ strong ++ others, low ≤ t.strength link.1 :=
    List.forall_mem_append.mpr ⟨fun link hlink => Int.le_trans hle (hstrong link hlink), hothers⟩
  rw [foldChain_ofTable hall, foldChain_ofTable hstrong, foldChain_ofTable hothers,
    shuntingYard_append hstrong hfirst]

/-- What is read behind an expression: nothing if the current operator is too weak, else an operand,
all that is stronger than the operator, and the rest. -/
theorem chain_eq (ht : t.Legal) (hleast : 0 ≤ least) (hoperand : Passing operand) (first : Expr)
    (s : Lookahead) : chain (.ofTable t) operand (.integer least) first s =
      if t.strength s.current < least then .ok first s
      else (do
        advance
        let right ← operand
        let right ← chain (.ofTable t) operand (.integer (t.strength s.current + 1)) right
        chain (.ofTable t) operand (.integer least) (joinLink first s.current right)) s := by
  by_cases hweak : t.strength s.current < least
  · rw [if_pos hweak, chain, left_bind, bind_apply, links_succ none integer_of_mem_none, if_pos hweak]
    rfl
  · rw [if_neg hweak, chain, left_bind, bind_apply, links_succ none integer_of_mem_none, if_neg hweak,
      ← bind_apply]
    simp only [chain, bind_assoc, pure_bind]
    refine bind_congr_of_ok fun _ s1 h1 => bind_congr_of_ok fun right s2 h2 => ?_
    have hlt := hoperand.ahead_lt_of_advance (ne_end_of_le_strength ht hleast hweak) h1 h2
    have hsame := links_eq_links ht hleast hoperand (integer_of_mem (n := t.strength s.current))
      integer_of_mem_none s.ahead.length (s2.ahead.length + 1) hlt (Nat.lt_succ_self _)
    rw [left_bind, bind_of_eq hsame]
    refine links_stages ht hleast (by omega) hoperand integer_of_mem_none _ (Nat.lt_succ_self _)
      fun strong others hstrong hothers hfirst => ?_
    have hall : ∀ link ∈ (s.current, right) :: (strong ++ others), least ≤ t.strength link.1 := by
      refine List.forall_mem_cons.mpr ⟨Int.not_lt.mp hweak,
        List.forall_mem_append.mpr ⟨fun link hlink => ?_, hothers⟩⟩
      have := hstrong link hlink
      omega
    rw [foldChain_ofTable hall, foldChain_ofTable hstrong, foldChain_ofTable hothers,
      shuntingYard_link hstrong fun link hlink => Int.le_of_lt_add_one (hfirst link hlink)]

end ExprLang.Reader
