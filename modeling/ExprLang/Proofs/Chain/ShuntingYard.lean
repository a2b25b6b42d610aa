import ExprLang.Proofs.Chain.Grouping

/-! Chains folded with an explicit stack of operators that wait for their right operand. The result
is the tree of the one ordered grouping. -/
namespace ExprLang

/-- Operators that wait for their right operand, the last one first, each with its left operand. -/
abbrev Pending := List (Expr × Token)

/-- Give `top` to the pending operators that are at least as strong as `bound`, the last one
first. -/
def reduce (strength : Token → Int) (bound : Int) : Pending → Expr → Pending × Expr
  | [], top => ([], top)
  | (left, operator) :: below, top =>
    if bound ≤ strength operator then reduce strength bound below (joinLink left operator top)
    else ((left, operator) :: below, top)

/-- Give `top` to all pending operators, the last one first. -/
def close : Pending → Expr → Expr
  | [], top => top
  | (left, operator) :: below, top => close below (joinLink left operator top)

/-- Read the links from left to right. A new operator takes the place of all that are at least as
strong as it. -/
def shunt (strength : Token → Int) : Pending → Expr → List Link → Expr
  | pending, top, [] => close pending top
  | pending, top, (operator, operand) :: rest =>
    let (below, left) := reduce strength (strength operator) pending top
    shunt strength ((left, operator) :: below) operand rest

/-- The tree of a chain by the shunting-yard algorithm. Operators of equal strength associate to the
left. -/
def shuntingYard (strength : Token → Int) (first : Expr) (links : List Link) : Expr :=
  shunt strength [] first links

namespace Grouping

private abbrev Stack := List (Grouping × Token)

private def Stack.pending (stack : Stack) :
    Pending := stack.map fun entry => (entry.1.tree, entry.2)

private def Stack.closed : Stack → Grouping → Grouping
  | [], top => top
  | (left, operator) :: below, top => closed below (join left operator top)

private def Stack.Rising (strength : Token → Int) : Stack → Grouping → Prop
  | [], top => top.Ordered strength
  | (left, operator) :: below, top =>
    top.Ordered strength ∧ top.Root (strength operator < strength ·) ∧
      left.Root (strength operator ≤ strength ·) ∧
      (∀ next ∈ below.head?, strength next.2 < strength operator) ∧ Rising strength below left

variable {strength : Token → Int}

private theorem Stack.Rising.top {stack : Stack} {top : Grouping} (h : stack.Rising strength top) :
    top.Ordered strength := by
  cases stack with
  | nil => exact h
  | cons entry below => exact h.1

private theorem Stack.Rising.join {below : Stack} {left top : Grouping} {operator : Token}
    (h : Stack.Rising strength ((left, operator) :: below) top) :
    below.Rising strength (.join left operator top) := by
  obtain ⟨htop, hlt, hle, hnext, hbelow⟩ := h
  have hjoin : (Grouping.join left operator top).Ordered strength := ⟨hbelow.top, htop, hle, hlt⟩
  cases below with
  | nil => exact hjoin
  | cons entry below => exact ⟨hjoin, hnext entry rfl, hbelow.2.2⟩

private theorem Stack.Rising.closed {stack : Stack} {top : Grouping}
    (h : stack.Rising strength top) : (stack.closed top).Ordered strength := by
  induction stack generalizing top with
  | nil => exact h
  | cons entry below ih => exact ih h.join

private theorem close_pending (stack : Stack) (top : Grouping) :
    close stack.pending top.tree = (stack.closed top).tree := by
  induction stack generalizing top with
  | nil => rfl
  | cons entry below ih => exact ih (.join entry.1 entry.2 top)

private theorem Stack.first_closed (stack : Stack) {top top' : Grouping}
    (h : top'.first = top.first) : (stack.closed top').first = (stack.closed top).first := by
  induction stack generalizing top top' with
  | nil => exact h
  | cons entry below ih => exact ih rfl

private theorem Stack.links_closed (stack : Stack) {top top' : Grouping} {more : List Link}
    (hfirst : top'.first = top.first) (hlinks : top'.links = top.links ++ more) :
    (stack.closed top').links = (stack.closed top).links ++ more := by
  induction stack generalizing top top' with
  | nil => exact hlinks
  | cons entry below ih => exact ih rfl (by simp [links, hfirst, hlinks])

private theorem reduce_pending (bound : Int) (stack : Stack) (top : Grouping)
    (h : stack.Rising strength top) (hroot : top.Root (bound ≤ strength ·)) :
    ∃ (below : Stack) (left : Grouping),
      reduce strength bound stack.pending top.tree = (below.pending, left.tree) ∧
      below.closed left = stack.closed top ∧ below.Rising strength left ∧
      left.Root (bound ≤ strength ·) ∧ ∀ next ∈ below.head?, strength next.2 < bound := by
  induction stack generalizing top with
  | nil => exact ⟨[], top, rfl, rfl, h, hroot, by simp⟩
  | cons entry below ih =>
    obtain ⟨left, operator⟩ := entry
    by_cases hb : bound ≤ strength operator
    · obtain ⟨below', left', he, hc, hrest⟩ := ih (.join left operator top) h.join hb
      refine ⟨below', left', ?_, hc, hrest⟩
      rw [← he]
      simp [Stack.pending, reduce, hb, tree]
    · refine ⟨(left, operator) :: below, top, ?_, rfl, h, hroot, ?_⟩
      · simp [Stack.pending, reduce, hb]
      · intro next hnext
        cases hnext
        exact Int.not_le.mp hb

private theorem shunt_pending (stack : Stack) (e : Expr) (rest : List Link)
    (h : stack.Rising strength (operand e)) :
    ∃ g : Grouping, shunt strength stack.pending e rest = g.tree ∧ g.Ordered strength ∧
      g.first = (stack.closed (operand e)).first ∧
      g.links = (stack.closed (operand e)).links ++ rest := by
  induction rest generalizing stack e with
  | nil => exact ⟨_, close_pending stack (operand e), h.closed, rfl, by simp⟩
  | cons link rest ih =>
    obtain ⟨operator, right⟩ := link
    obtain ⟨below, left, he, hclosed, hrising, hroot, hnext⟩ :=
      reduce_pending (strength operator) stack (operand e) h trivial
    have hpush : Stack.Rising strength ((left, operator) :: below) (operand right) :=
      ⟨trivial, trivial, hroot, hnext, hrising⟩
    obtain ⟨g, hg, ho, hf, hl⟩ := ih ((left, operator) :: below) right hpush
    have hfirst : (join left operator (operand right)).first = left.first := rfl
    refine ⟨g, ?_, ho, ?_, ?_⟩
    · rw [← hg]
      change shunt strength stack.pending (operand e).tree _ = _
      simp only [shunt, he]
      rfl
    · rw [hf, ← hclosed]
      exact below.first_closed hfirst
    · have hlinks : (join left operator (operand right)).links = left.links ++ [(operator, right)] :=
        rfl
      have hmore : (Stack.closed ((left, operator) :: below) (operand right)).links = _ :=
        below.links_closed hfirst hlinks
      rw [hl, hmore, hclosed, List.append_assoc]
      rfl

/-- The shunting-yard algorithm finds the ordered grouping of every chain. -/
theorem shuntingYard_eq_tree (strength : Token → Int) (e : Expr) (chain : List Link) :
    ∃ g : Grouping, shuntingYard strength e chain = g.tree ∧ g.Ordered strength ∧
      g.first = e ∧ g.links = chain := by
  have hempty : Stack.Rising strength [] (operand e) := trivial
  obtain ⟨g, hg, ho, hf, hl⟩ := shunt_pending [] e chain hempty
  exact ⟨g, hg, ho, hf, by simpa [Stack.closed, links] using hl⟩

end Grouping
end ExprLang
