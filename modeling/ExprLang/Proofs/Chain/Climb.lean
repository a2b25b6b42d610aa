import ExprLang.Proofs.Chain.ShuntingYard

/-! Folding a chain by climbing, and the grouping that it finds. Climbing folds the longest run of
links that are strong enough, and it folds them as the shunting-yard algorithm does. -/
namespace ExprLang
open Grouping

/-- Whole numbers as strengths. -/
abbrev wholeStrength (strength : Token → Int) (token : Token) : Value := .integer (strength token)

/-- Climbing from a grouping has folded the links of `taken` onto it, up to the first operator
weaker than `least`. -/
structure Climbed (strength : Token → Int) (least : Int) (start : Grouping) (chain : List Link)
    (result : Expr × List Link) (grouping : Grouping) (taken : List Link) : Prop where
  tree_eq : result.1 = grouping.tree
  chain_eq : chain = taken ++ result.2
  first_eq : grouping.first = start.first
  links_eq : grouping.links = start.links ++ taken
  ordered : grouping.Ordered strength
  strong : grouping.Root (least ≤ strength ·)
  stops : ∀ next ∈ result.2.head?, strength next.1 < least

namespace Climbed
variable {strength : Token → Int} {least : Int} {start : Grouping}

private theorem stay {chain : List Link} (ho : start.Ordered strength)
    (hs : start.Root (least ≤ strength ·)) (hstop : ∀ next ∈ chain.head?, strength next.1 < least) :
    Climbed strength least start chain (start.tree, chain) start [] where
  tree_eq := rfl
  chain_eq := rfl
  first_eq := rfl
  links_eq := (List.append_nil _).symm
  ordered := ho
  strong := hs
  stops := hstop

private theorem further {operator : Token} {operand : Expr} {rest more taken : List Link}
    {right result : Expr × List Link} {g h : Grouping}
    (hr : Climbed strength (strength operator + 1) (.operand operand) rest right g more)
    (ho : Climbed strength least (.join start operator g) right.2 result h taken) :
    Climbed strength least start ((operator, operand) :: rest) result h
      ((operator, operand) :: more ++ taken) where
  tree_eq := ho.tree_eq
  chain_eq := by rw [hr.chain_eq, ho.chain_eq]; simp
  first_eq := ho.first_eq
  links_eq := by
    have hf : g.first = operand := hr.first_eq
    have hl : g.links = more := by simpa [links] using hr.links_eq
    rw [ho.links_eq, links, hf, hl]
    simp
  ordered := ho.ordered
  strong := ho.strong
  stops := ho.stops

end Climbed

variable {strength : Token → Int}

private def rightOperand (strength : Token → Int) (count : Nat) (operator : Token) (operand : Expr)
    (rest : List Link) : Expr × List Link :=
  if rest.head?.any fun next => decide (strength operator < strength next.1) then
    climb (wholeStrength strength) count (.integer (strength operator + 1)) operand rest
  else (operand, rest)

private theorem climb_cons (count : Nat) (least : Int) (left : Expr) (operator : Token)
    (operand : Expr) (rest : List Link) :
    climb (wholeStrength strength) (count + 1) (.integer least) left ((operator, operand) :: rest) =
      if decide (strength operator < least) then (left, (operator, operand) :: rest)
      else
        let right := rightOperand strength count operator operand rest
        climb (wholeStrength strength) count (.integer least) (joinLink left operator right.1)
          right.2 := rfl

/-- Climbing folds links onto an ordered grouping and keeps it ordered. The next operator must not
be stronger than the grouping. -/
theorem climb_climbed (count : Nat) {least : Int} {start : Grouping} {chain : List Link}
    (hcount : chain.length ≤ count) (ho : start.Ordered strength)
    (hs : start.Root (least ≤ strength ·))
    (hnext : ∀ next ∈ chain.head?, start.Root (strength next.1 ≤ strength ·)) :
    ∃ g taken, Climbed strength least start chain
      (climb (wholeStrength strength) count (.integer least) start.tree chain) g taken := by
  induction count generalizing least start chain with
  | zero =>
    obtain rfl : chain = [] := List.length_eq_zero_iff.mp (Nat.le_zero.mp hcount)
    exact ⟨start, [], .stay ho hs (by simp)⟩
  | succ count ih =>
    cases chain with
    | nil => exact ⟨start, [], .stay ho hs (by simp)⟩
    | cons link rest =>
      obtain ⟨operator, operand⟩ := link
      have hrest : rest.length ≤ count := Nat.le_of_succ_le_succ hcount
      rw [climb_cons]
      by_cases hweak : strength operator < least
      · rw [if_pos (decide_eq_true hweak)]
        exact ⟨start, [], .stay ho hs (by simpa using hweak)⟩
      rw [if_neg (by simpa using hweak)]
      -- The right operand takes all that is stronger than its operator, so what is left is not.
      obtain ⟨g, more, hg⟩ : ∃ g more, Climbed strength (strength operator + 1) (.operand operand)
          rest (rightOperand strength count operator operand rest) g more := by
        unfold rightOperand
        split
        · exact ih hrest trivial trivial fun _ _ => trivial
        · rename_i hn
          refine ⟨_, _, .stay trivial trivial fun next hfirst => ?_⟩
          simp only [Option.mem_def.mp hfirst, Option.any_some, decide_eq_true_eq] at hn
          omega
      have hlt : g.Root (strength operator < strength ·) := hg.strong.imp fun _ h => h
      have hle : start.Root (strength operator ≤ strength ·) := hnext (operator, operand) rfl
      have hleft : (rightOperand strength count operator operand rest).2.length ≤ count := by
        have := congrArg List.length hg.chain_eq
        rw [List.length_append] at this
        omega
      have hjoin : (join start operator g).Ordered strength := ⟨ho, hg.ordered, hle, hlt⟩
      have hroot : (join start operator g).Root (least ≤ strength ·) := Int.not_lt.mp hweak
      obtain ⟨h, taken, hh⟩ := ih hleft hjoin hroot
        fun next hfirst => Int.lt_add_one_iff.mp (hg.stops next hfirst)
      rw [tree, ← hg.tree_eq] at hh
      exact ⟨h, _, .further hg hh⟩

/-- A chain of operators that are all strong enough folds as the shunting-yard algorithm folds
it. -/
theorem foldChain_eq_shuntingYard {least : Int} {e : Expr} {chain : List Link}
    (h : ∀ link ∈ chain, least ≤ strength link.1) :
    foldChain (wholeStrength strength) (.integer least) e chain = shuntingYard strength e chain := by
  have hstart : (Grouping.operand e).Ordered strength := trivial
  have hroot : (Grouping.operand e).Root (least ≤ strength ·) := trivial
  obtain ⟨g, taken, hg⟩ :=
    climb_climbed chain.length (Nat.le_refl _) hstart hroot fun _ _ => trivial
  obtain ⟨y, hy, ho, hf, hl⟩ := shuntingYard_eq_tree strength e chain
  rw [hy, foldChain]
  change (climb _ _ _ (Grouping.operand e).tree chain).1 = _
  generalize climb _ _ _ (Grouping.operand e).tree chain = result at hg ⊢
  obtain ⟨folded, rest⟩ := result
  have hall : taken = chain := by
    have hchain : chain = taken ++ rest := hg.chain_eq
    cases rest with
    | nil => simpa using hchain.symm
    | cons next rest =>
      have hstop : strength next.1 < least := hg.stops next rfl
      have hstrong := h next (by rw [hchain]; simp)
      omega
  have hlinks : g.links = chain := by simpa [links, hall] using hg.links_eq
  rw [hg.tree_eq, hg.ordered.unique ho (hg.first_eq.trans hf.symm) (hlinks.trans hl.symm)]

end ExprLang
