import ExprLang.Proofs.Chain.ShuntingYard

/-! Chains folded in stages, and the left side of the trees that they fold into. What strong
operators join is one operand to the weaker ones around it. So a chain may be cut where its strength
falls, and the operators at which it does not rise are those on the left side of its tree. -/
namespace ExprLang

section
variable {strength : Token → Int} {bound : Int} {waiting below : Pending} {top : Expr}
  {links more : List Link}

private theorem close_append (waiting below : Pending) (top : Expr) :
    close (waiting ++ below) top = close below (close waiting top) := by
  induction waiting generalizing top with
  | nil => rfl
  | cons entry waiting ih => exact ih _

private theorem reduce_of_le (h : ∀ entry ∈ waiting, bound ≤ strength entry.2) (below : Pending)
    (top : Expr) :
    reduce strength bound (waiting ++ below) top = reduce strength bound below (close waiting top) := by
  induction waiting generalizing top with
  | nil => rfl
  | cons entry waiting ih =>
    obtain ⟨hentry, hwaiting⟩ := List.forall_mem_cons.mp h
    rw [List.cons_append, reduce, if_pos hentry, ih hwaiting]
    rfl

private theorem reduce_of_lt (h : ∀ entry ∈ below.head?, strength entry.2 < bound)
    (waiting : Pending) (top : Expr) : reduce strength bound (waiting ++ below) top =
      ((reduce strength bound waiting top).1 ++ below, (reduce strength bound waiting top).2) := by
  induction waiting generalizing top with
  | nil =>
    cases below with
    | nil => rfl
    | cons entry below =>
      have hlt : strength entry.2 < bound := h entry rfl
      exact if_neg (Int.not_le.mpr hlt)
  | cons entry waiting ih =>
    rw [List.cons_append, reduce, reduce]
    split
    · exact ih _
    · rfl

private theorem reduce_subset (bound : Int) (waiting : Pending) (top : Expr) :
    (reduce strength bound waiting top).1 ⊆ waiting := by
  induction waiting generalizing top with
  | nil => exact List.Subset.refl _
  | cons entry waiting ih =>
    rw [reduce]
    split
    · exact List.subset_cons_of_subset _ (ih _)
    · exact List.Subset.refl _

/-- Operators that are stronger than those around them are applied first, and what they make is one
operand to the others. -/
theorem shunt_append (hwaiting : ∀ entry ∈ waiting, bound ≤ strength entry.2)
    (hbelow : ∀ entry ∈ below.head?, strength entry.2 < bound)
    (hlinks : ∀ link ∈ links, bound ≤ strength link.1)
    (hmore : ∀ link ∈ more.head?, strength link.1 < bound) :
    shunt strength (waiting ++ below) top (links ++ more) =
      shunt strength below (shunt strength waiting top links) more := by
  induction links generalizing waiting top with
  | nil =>
    cases more with
    | nil => exact close_append waiting below top
    | cons link more =>
      have hlt : strength link.1 < bound := hmore link rfl
      have hle : ∀ entry ∈ waiting, strength link.1 ≤ strength entry.2 :=
        fun entry hentry => Int.le_trans (Int.le_of_lt hlt) (hwaiting entry hentry)
      rw [List.nil_append, shunt, shunt, shunt, reduce_of_le hle]
  | cons link links ih =>
    obtain ⟨hlink, hlinks⟩ := List.forall_mem_cons.mp hlinks
    have hstays : ∀ entry ∈ below.head?, strength entry.2 < strength link.1 :=
      fun entry hentry => Int.lt_of_lt_of_le (hbelow entry hentry) hlink
    rw [List.cons_append, shunt, shunt, reduce_of_lt hstays]
    -- The new operator waits on top of what is left of the old ones, and all are strong enough.
    refine ih (List.forall_mem_cons.mpr ⟨hlink, fun entry hentry => ?_⟩) hlinks
    exact hwaiting entry (reduce_subset _ _ _ hentry)

/-- A chain may be folded up to an operator that is weaker than all before it, and then from
there. -/
theorem shuntingYard_append {first : Expr} (hlinks : ∀ link ∈ links, bound ≤ strength link.1)
    (hmore : ∀ link ∈ more.head?, strength link.1 < bound) :
    shuntingYard strength first (links ++ more) =
      shuntingYard strength (shuntingYard strength first links) more :=
  @shunt_append strength bound [] [] first links more (by simp) (by simp) hlinks hmore

/-- All that is stronger than an operator and stands right behind it is part of its right
operand. -/
theorem shuntingYard_link {first operand : Expr} {operator : Token}
    (hlinks : ∀ link ∈ links, strength operator < strength link.1)
    (hmore : ∀ link ∈ more.head?, strength link.1 ≤ strength operator) :
    shuntingYard strength first ((operator, operand) :: (links ++ more)) =
      shuntingYard strength
        (joinLink first operator (shuntingYard strength operand links)) more := by
  have hwaits : ∀ entry ∈ ([(first, operator)] : Pending).head?,
      strength entry.2 < strength operator + 1 := by
    rintro _ ⟨⟩
    exact Int.lt_succ _
  have hfold : shunt strength ([] ++ [(first, operator)]) operand (links ++ more) =
      shunt strength [(first, operator)] (shunt strength [] operand links) more :=
    @shunt_append strength (strength operator + 1) [] _ operand links more (by simp) hwaits hlinks
      fun link hlink => Int.lt_add_one_of_le (hmore link hlink)
  change shunt strength [(first, operator)] operand (links ++ more) = _
  rw [List.nil_append] at hfold
  rw [hfold]
  cases more with
  | nil => rfl
  | cons link more =>
    have hle : strength link.1 ≤ strength operator := hmore link rfl
    have hreduce (right : Expr) : reduce strength (strength link.1) [(first, operator)] right =
        ([], joinLink first operator right) := if_pos hle
    rw [shunt, hreduce]
    rfl

end

/-- The operators that are not stronger than any before them. -/
def lowering (strength : Token → Int) : List Token → List Token
  | [] => []
  | operator :: rest =>
    operator :: (lowering strength rest).filter fun next => strength next ≤ strength operator

/-- The node that a link makes of the expression on its left, with other links inside of its right
operand. -/
def joinGroup (strength : Token → Int) (left : Expr) (group : Link × List Link) : Expr :=
  joinLink left group.1.1 (shuntingYard strength group.1.2 group.2)

/-- A tree is `first` with some links joined onto it on its left side, the innermost first, and the
other links of `run` inside of their right operands. The operators on the left side are those that
are not stronger than any before them. -/
structure LeftSide (strength : Token → Int) (first : Expr) (run : List Link) (e : Expr)
    (spine : List (Link × List Link)) : Prop where
  tree_eq : e = spine.foldl (joinGroup strength) first
  operators : spine.map (·.1.1) = lowering strength (run.map (·.1))
  links_eq : run = spine.flatMap fun group => group.1 :: group.2
  inside : ∀ group ∈ spine, ∀ link ∈ group.2, strength group.1.1 < strength link.1

section
variable {strength : Token → Int}

private theorem lowering_subset (operators : List Token) :
    lowering strength operators ⊆ operators := by
  induction operators with
  | nil => exact List.Subset.refl _
  | cons operator rest ih =>
    exact List.cons_subset_cons _ (List.Subset.trans List.filter_sublist.subset ih)

private theorem lowering_append (front back : List Token) :
    lowering strength (front ++ back) = lowering strength front ++
      (lowering strength back).filter fun next =>
        ∀ operator ∈ front, strength next ≤ strength operator := by
  induction front with
  | nil => exact (List.filter_eq_self.mpr fun _ _ => by simp).symm
  | cons operator front ih => simp [lowering, ih, List.filter_filter]

namespace Grouping
variable {g : Grouping}

/-- The links on the left side of the tree, the innermost first, each with the links that are inside
of its right operand. -/
def spine : Grouping → List (Link × List Link)
  | operand _ => []
  | join left operator right => left.spine ++ [((operator, right.first), right.links)]

private theorem links_eq_spine (g : Grouping) :
    g.links = g.spine.flatMap fun node => node.1 :: node.2 := by
  induction g with
  | operand e => rfl
  | join left operator right ihl _ => simp [links, spine, ihl]

/-- An ordered grouping is that which the shunting-yard algorithm finds. -/
theorem Ordered.tree_eq (hg : g.Ordered strength) :
    g.tree = shuntingYard strength g.first g.links := by
  obtain ⟨h, hh, ho, hf, hl⟩ := shuntingYard_eq_tree strength g.first g.links
  rw [hh, hg.unique ho hf.symm hl.symm]

private theorem Ordered.tree_eq_spine (hg : g.Ordered strength) :
    g.tree = g.spine.foldl (joinGroup strength) g.first := by
  induction g with
  | operand e => rfl
  | join left operator right ihl _ =>
    obtain ⟨hl, hr, _, _⟩ := hg
    have hjoin : joinLink left.tree operator right.tree =
        joinLink left.tree operator (shuntingYard strength right.first right.links) := by
      rw [← hr.tree_eq]
    rw [tree, hjoin, spine, List.foldl_append, ihl hl]
    rfl

private theorem Ordered.lt_of_mem_spine (hg : g.Ordered strength) {node : Link × List Link}
    (hnode : node ∈ g.spine) : ∀ link ∈ node.2, strength node.1.1 < strength link.1 := by
  induction g with
  | operand e => cases hnode
  | join left operator right ihl _ =>
    obtain ⟨hl, hr, _, hlt⟩ := hg
    rcases List.mem_append.mp hnode with hnode | hnode
    · exact ihl hl hnode
    · obtain rfl := List.mem_singleton.mp hnode
      exact hr.lt_strength hlt

/-- The operators on the left side of an ordered grouping are those that are not stronger than any
before them. -/
theorem Ordered.spine_operators (hg : g.Ordered strength) :
    g.spine.map (·.1.1) = lowering strength (g.links.map (·.1)) := by
  induction g with
  | operand e => rfl
  | join left operator right ihl _ =>
    obtain ⟨hl, hr, hle, hlt⟩ := hg
    have hleft : ∀ link ∈ left.links, strength operator ≤ strength link.1 := hl.le_strength hle
    have hkept : ([operator].filter fun next =>
        ∀ before ∈ left.links.map (fun link : Link => link.1), strength next ≤ strength before) =
          [operator] := by
      simpa using fun token e => hleft (token, e)
    have hright : ∀ next ∈ lowering strength (right.links.map (·.1)),
        ¬ strength next ≤ strength operator := by
      intro next hnext
      obtain ⟨link, hlink, rfl⟩ := List.mem_map.mp (lowering_subset _ hnext)
      exact Int.not_le.mpr (hr.lt_strength hlt link hlink)
    have hinside : (lowering strength (right.links.map (·.1))).filter
        (fun next => strength next ≤ strength operator) = [] := by
      simpa using hright
    have hback : lowering strength (operator :: right.links.map (·.1)) = [operator] := by
      rw [← hinside]
      rfl
    rw [spine, links, List.map_append, List.map_append, List.map_cons,
      List.map_cons (l := right.links),
      lowering_append, ihl hl, hback, hkept]
    rfl

end Grouping

/-- The left side of the tree of a chain. -/
theorem exists_leftSide (strength : Token → Int) (first : Expr) (run : List Link) :
    ∃ spine, LeftSide strength first run (shuntingYard strength first run) spine := by
  obtain ⟨g, hg, ho, rfl, rfl⟩ := Grouping.shuntingYard_eq_tree strength first run
  exact ⟨g.spine, hg.trans ho.tree_eq_spine, ho.spine_operators, g.links_eq_spine,
    fun _ hgroup => ho.lt_of_mem_spine hgroup⟩

/-- A chain with links is joined at its root. -/
theorem exists_joinLink (strength : Token → Int) (first : Expr) {run : List Link} (h : run ≠ []) :
    ∃ left operator right, shuntingYard strength first run = joinLink left operator right := by
  obtain ⟨g, hg, _, _, hlinks⟩ := Grouping.shuntingYard_eq_tree strength first run
  cases g with
  | operand e => exact absurd hlinks.symm h
  | join left operator right => exact ⟨_, _, _, hg⟩

end
end ExprLang
