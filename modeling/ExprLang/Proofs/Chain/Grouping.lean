import ExprLang.Reader.Chain

/-! Groupings of a chain of operands and operators, and those among them that respect the strengths
of the operators. A chain has at most one of the latter. -/
namespace ExprLang

/-- A way to put brackets around the operands of a chain. What is inside of an operand is not its
concern. -/
inductive Grouping where
  | operand (e : Expr)
  | join (left : Grouping) (operator : Token) (right : Grouping)

namespace Grouping

def tree : Grouping → Expr
  | operand e => e
  | join left operator right => joinLink left.tree operator right.tree

def first : Grouping → Expr
  | operand e => e
  | join left _ _ => left.first

/-- All operators as they stand in the chain, each with the operand behind it. -/
def links : Grouping → List Link
  | operand _ => []
  | join left operator right => left.links ++ (operator, right.first) :: right.links

/-- The operator that is applied last, if there is one, has a property. -/
def Root (p : Token → Prop) : Grouping → Prop
  | operand _ => True
  | join _ operator _ => p operator

/-- Every group on the left of an operator is at least as strong as it, and every group on its right
is stronger. -/
def Ordered (strength : Token → Int) : Grouping → Prop
  | operand _ => True
  | join left operator right =>
    left.Ordered strength ∧ right.Ordered strength ∧
      left.Root (strength operator ≤ strength ·) ∧ right.Root (strength operator < strength ·)

variable {strength : Token → Int} {g h : Grouping}

theorem Root.imp {p q : Token → Prop} (hg : g.Root p) (hpq : ∀ t, p t → q t) : g.Root q := by
  cases g with
  | operand e => trivial
  | join left operator right => exact hpq operator hg

/-- What joining keeps holds of the tree if it holds of all operands. -/
theorem tree_induction {p : Expr → Prop} {q : Token → Prop}
    (hjoin : ∀ left operator right, q operator → p left → p right →
      p (joinLink left operator right))
    (hfirst : p g.first) (hlinks : ∀ link ∈ g.links, q link.1 ∧ p link.2) : p g.tree := by
  induction g with
  | operand e => exact hfirst
  | join left operator right ihl ihr =>
    obtain ⟨hop, hright⟩ := hlinks (operator, right.first) (by simp [links])
    exact hjoin _ _ _ hop (ihl hfirst fun link h => hlinks link (by simp [links, h]))
      (ihr hright fun link h => hlinks link (by simp [links, h]))

/-- No operator of an ordered grouping is weaker than the one that is applied last. -/
theorem Ordered.le_strength {least : Int} (hg : g.Ordered strength)
    (hroot : g.Root (least ≤ strength ·)) : ∀ link ∈ g.links, least ≤ strength link.1 := by
  induction g generalizing least with
  | operand e => simp [links]
  | join left operator right ihl ihr =>
    obtain ⟨hl, hr, hle, hlt⟩ := hg
    intro link hlink
    simp only [links, List.mem_append, List.mem_cons] at hlink
    rcases hlink with hlink | rfl | hlink
    · exact Int.le_trans hroot (ihl hl hle link hlink)
    · exact hroot
    · have hlt' : strength operator + 1 ≤ strength link.1 :=
        ihr hr (hlt.imp fun _ h => h) link hlink
      have : least ≤ strength operator := hroot
      omega

theorem Ordered.lt_strength {bound : Int} (hg : g.Ordered strength)
    (hroot : g.Root (bound < strength ·)) : ∀ link ∈ g.links, bound < strength link.1 :=
  fun link hlink =>
    (hg.le_strength (hroot.imp fun _ h => h) link hlink : bound + 1 ≤ strength link.1)

private theorem no_earlier_root {l r l' r' : Grouping} {o o' : Token} {between : List Link}
    (hg : (join l o r).Ordered strength) (hh : (join l' o' r').Ordered strength)
    (hl : l'.links = l.links ++ (o, r.first) :: between)
    (hr : r.links = between ++ (o', r'.first) :: r'.links) : False := by
  obtain ⟨_, hro, _, hlt⟩ := hg
  obtain ⟨hlo, _, hle, _⟩ := hh
  have h1 : strength o' ≤ strength o := hlo.le_strength hle (o, r.first) (by simp [hl])
  have h2 : strength o < strength o' := hro.lt_strength hlt (o', r'.first) (by simp [hr])
  omega

private theorem left_links_eq {l r l' r' : Grouping} {o o' : Token}
    (hg : (join l o r).Ordered strength) (hh : (join l' o' r').Ordered strength)
    (hlinks : (join l o r).links = (join l' o' r').links) : l.links = l'.links := by
  rcases List.append_eq_append_iff.mp hlinks with ⟨between, hl, hr⟩ | ⟨between, hl, hr⟩
  all_goals
    cases between with
    | nil => simp [hl]
    | cons link between =>
      simp only [List.cons_append, List.cons.injEq] at hr
      obtain ⟨rfl, hr⟩ := hr
      first
        | exact (no_earlier_root hg hh hl hr).elim
        | exact (no_earlier_root hh hg hl hr).elim

/-- A chain has at most one ordered grouping. -/
theorem Ordered.unique (hg : g.Ordered strength) (hh : h.Ordered strength)
    (hfirst : g.first = h.first) (hlinks : g.links = h.links) : g = h := by
  induction g generalizing h with
  | operand e =>
    cases h with
    | operand e' => exact congrArg operand hfirst
    | join l' o' r' => simp [links] at hlinks
  | join l o r ihl ihr =>
    cases h with
    | operand e' => simp [links] at hlinks
    | join l' o' r' =>
      have hl := left_links_eq hg hh hlinks
      simp only [links, hl, List.append_cancel_left_eq, List.cons.injEq, Prod.mk.injEq] at hlinks
      obtain ⟨⟨rfl, hf⟩, hr⟩ := hlinks
      rw [ihl hg.1 hh.1 hfirst hl, ihr hg.2.1 hh.2.1 hf hr]

end Grouping
end ExprLang
