import ExprLang.Proofs.Chain.ShuntingYard
import ExprLang.Proofs.Reading.Moved

/-! The tree of a chain depends on which operators are stronger than which others, and on nothing
else of their strengths. -/
namespace ExprLang

/-- Two kinds of strength put some operators into the same order. -/
def SameOrder (strength strength' : Token → Int) (operators : Token → Prop) : Prop :=
  ∀ a b, operators a → operators b → (strength' a ≤ strength' b ↔ strength a ≤ strength b)

def movedLink (f : Pos → Pos) (link : Link) : Link := (link.1.moved f, link.2.moved f)

private def movedPending (f : Pos → Pos) (pending : Pending) : Pending :=
  pending.map fun entry => (entry.1.moved f, entry.2.moved f)

variable {strength strength' : Token → Int} {operators : Token → Prop} {f : Pos → Pos}

private theorem close_moved (pending : Pending) (top : Expr) :
    close (movedPending f pending) (top.moved f) = (close pending top).moved f := by
  induction pending generalizing top with
  | nil => rfl
  | cons entry below ih =>
    rw [close, ← ih, joinLink_moved]
    rfl

private theorem reduce_moved (horder : SameOrder strength strength' operators)
    (hplace : ∀ a, strength' (a.moved f) = strength' a) {operator : Token}
    (hoperator : operators operator) {pending : Pending} (top : Expr)
    (hpending : ∀ entry ∈ pending, operators entry.2) :
    reduce strength' (strength' operator) (movedPending f pending) (top.moved f) =
      (movedPending f (reduce strength (strength operator) pending top).1,
        (reduce strength (strength operator) pending top).2.moved f) ∧
    ∀ entry ∈ (reduce strength (strength operator) pending top).1, operators entry.2 := by
  induction pending generalizing top with
  | nil => exact ⟨rfl, by simp [reduce]⟩
  | cons entry below ih =>
    obtain ⟨left, waiting⟩ := entry
    obtain ⟨hwaiting, hbelow⟩ := List.forall_mem_cons.mp hpending
    have hle : strength' operator ≤ strength' (waiting.moved f) ↔
        strength operator ≤ strength waiting := by
      rw [hplace]
      exact horder operator waiting hoperator hwaiting
    have hmoved : movedPending f ((left, waiting) :: below) =
        (left.moved f, waiting.moved f) :: movedPending f below := rfl
    rw [hmoved, reduce, reduce]
    by_cases h : strength operator ≤ strength waiting
    · rw [if_pos h, if_pos (hle.mpr h), ← joinLink_moved]
      exact ih _ hbelow
    · rw [if_neg h, if_neg (mt hle.mp h)]
      exact ⟨rfl, hpending⟩

private theorem shunt_moved (horder : SameOrder strength strength' operators)
    (hplace : ∀ a, strength' (a.moved f) = strength' a) {pending : Pending} {top : Expr}
    {links : List Link} (hpending : ∀ entry ∈ pending, operators entry.2)
    (hlinks : ∀ link ∈ links, operators link.1) :
    shunt strength' (movedPending f pending) (top.moved f) (links.map (movedLink f)) =
      (shunt strength pending top links).moved f := by
  induction links generalizing pending top with
  | nil => exact close_moved pending top
  | cons link rest ih =>
    obtain ⟨operator, operand⟩ := link
    obtain ⟨hoperator, hrest⟩ := List.forall_mem_cons.mp hlinks
    obtain ⟨hreduce, hleft⟩ := reduce_moved horder hplace hoperator top hpending
    simp only [List.map_cons, movedLink, shunt, hplace, hreduce]
    exact ih (List.forall_mem_cons.mpr ⟨hoperator, hleft⟩ :
      ∀ entry ∈ ((reduce strength (strength operator) pending top).2, operator) ::
        (reduce strength (strength operator) pending top).1, operators entry.2) hrest

/-- Chains of which the operators have the same order fold in the same way. -/
theorem shuntingYard_moved (horder : SameOrder strength strength' operators)
    (hplace : ∀ a, strength' (a.moved f) = strength' a) {first : Expr} {links : List Link}
    (hlinks : ∀ link ∈ links, operators link.1) :
    shuntingYard strength' (first.moved f) (links.map (movedLink f)) =
      (shuntingYard strength first links).moved f :=
  @shunt_moved _ _ _ _ horder hplace [] first links (by simp) hlinks

end ExprLang
