import ExprLang.Proofs.Writing.Writable

/-! Items that are one item when they are written one after the other: a name that stands alone
takes the brackets behind it for those of a call. -/
namespace ExprLang

/-- The item that two items are read as together, if they are. The first one has a name for a body
and the other one is a binary operation outside of all functions. -/
def Item.absorb? : Item → Item → Option Item
  | .function ⟨proto, .var name pos, place⟩,
    .function ⟨other, .binary operator left right inner, _⟩ =>
    if other.name = anonymousName then
      some (.function ⟨proto, .call name [.binary operator left right inner] pos, place⟩)
    else none
  | _, _ => none

/-- The items that are left when each is read together with the one behind it, if that can be. -/
def fuse : List Item → List Item
  | [] => []
  | [item] => [item]
  | item :: next :: rest =>
    match item.absorb? next with
    | some joined => joined :: fuse rest
    | none => item :: fuse (next :: rest)

/-- No two neighbours are read together. -/
def Settled (items : List Item) : Prop :=
  ∀ front item next back, items = front ++ item :: next :: back → item.absorb? next = none

namespace Item

/-- The second item is the argument of a call of the first one, and the third one has the call. -/
inductive Absorbs : Item → Item → Item → Prop
  | intro {proto other : Prototype} {name operator : String} {left right : Expr}
      {pos place inner place' : Pos} (hname : other.name = anonymousName) :
      Absorbs (.function ⟨proto, .var name pos, place⟩)
        (.function ⟨other, .binary operator left right inner, place'⟩)
        (.function ⟨proto, .call name [.binary operator left right inner] pos, place⟩)

theorem absorb?_eq_some_iff {item next joined : Item} :
    item.absorb? next = some joined ↔ Absorbs item next joined := by
  constructor
  · intro h
    unfold absorb? at h
    split at h
    · split at h
      · rename_i hname
        cases h
        exact .intro hname
      · cases h
    · cases h
  · rintro ⟨hname⟩
    exact if_pos hname

private theorem absorb?_left {item next joined : Item} (h : item.absorb? next = some joined)
    (other : Item) : joined.absorb? other = none := by
  cases absorb?_eq_some_iff.mp h
  rfl

private theorem absorb?_right {item next joined : Item} (h : item.absorb? next = some joined)
    (other : Item) : other.absorb? joined = none := by
  rw [Option.eq_none_iff_forall_ne_some]
  intro joined' h'
  cases absorb?_eq_some_iff.mp h
  cases absorb?_eq_some_iff.mp h'

end Item

theorem fuse_of_some {item next joined : Item} {rest : List Item}
    (h : item.absorb? next = some joined) :
    fuse (item :: next :: rest) = joined :: fuse rest := by
  rw [fuse, h]

theorem fuse_of_none {item next : Item} {rest : List Item} (h : item.absorb? next = none) :
    fuse (item :: next :: rest) = item :: fuse (next :: rest) := by
  rw [fuse, h]

private theorem settled_of_short {items : List Item} (h : items.length < 2) : Settled items := by
  rintro front item next back rfl
  simp at h
  omega

private theorem settled_cons_iff {item next : Item} {rest : List Item} :
    Settled (item :: next :: rest) ↔
    item.absorb? next = none ∧ Settled (next :: rest) := by
  constructor
  · intro h
    refine ⟨h [] item next rest rfl, fun front a b back he => h (item :: front) a b back ?_⟩
    rw [he, List.cons_append]
  · rintro ⟨h, hrest⟩ front a b back he
    cases front with
    | nil =>
      cases he
      exact h
    | cons c front => exact hrest front a b back (List.cons.inj he).2

theorem fuse_eq_self {items : List Item} (h : Settled items) : fuse items = items := by
  induction items using fuse.induct with
  | case1 => rfl
  | case2 item => rfl
  | case3 item next rest joined hjoined _ =>
    rw [(settled_cons_iff.mp h).1] at hjoined
    cases hjoined
  | case4 item next rest hnone ih => rw [fuse_of_none hnone, ih (settled_cons_iff.mp h).2]

private theorem length_fuse_le (items : List Item) : (fuse items).length ≤ items.length := by
  induction items using fuse.induct with
  | case1 => exact Nat.le_refl _
  | case2 item => exact Nat.le_refl _
  | case3 item next rest joined hjoined ih =>
    rw [fuse_of_some hjoined]
    simp only [List.length_cons]
    omega
  | case4 item next rest hnone ih =>
    rw [fuse_of_none hnone]
    exact Nat.succ_le_succ ih

private theorem length_fuse_lt {items : List Item} (h : ¬ Settled items) :
    (fuse items).length < items.length := by
  induction items using fuse.induct with
  | case1 => exact absurd (settled_of_short (by decide)) h
  | case2 item => exact absurd (settled_of_short (by simp)) h
  | case3 item next rest joined hjoined _ =>
    rw [fuse_of_some hjoined]
    have := length_fuse_le rest
    simp only [List.length_cons]
    omega
  | case4 item next rest hnone ih =>
    rw [fuse_of_none hnone]
    exact Nat.succ_lt_succ (ih fun hrest => h (settled_cons_iff.mpr ⟨hnone, hrest⟩))

private theorem fuse_head (next : Item) (rest : List Item) : ∃ head tail,
    fuse (next :: rest) = head :: tail ∧
      ∀ item : Item, item.absorb? next = none → item.absorb? head = none := by
  cases rest with
  | nil => exact ⟨next, [], rfl, fun _ h => h⟩
  | cons other rest =>
    cases hjoined : next.absorb? other with
    | none => exact ⟨next, _, fuse_of_none hjoined, fun _ h => h⟩
    | some joined =>
      exact ⟨joined, _, fuse_of_some hjoined, fun item _ => Item.absorb?_right hjoined item⟩

/-- What is left after reading items together is not read together any further. -/
theorem settled_fuse (items : List Item) : Settled (fuse items) := by
  induction items using fuse.induct with
  | case1 => exact settled_of_short (by decide)
  | case2 item => exact settled_of_short (Nat.lt_succ_self 1)
  | case3 item next rest joined hjoined ih =>
    rw [fuse_of_some hjoined]
    cases hrest : fuse rest with
    | nil => exact settled_of_short (Nat.lt_succ_self 1)
    | cons head tail =>
      rw [hrest] at ih
      exact settled_cons_iff.mpr ⟨Item.absorb?_left hjoined head, ih⟩
  | case4 item next rest hnone ih =>
    obtain ⟨head, tail, hfuse, hhead⟩ := fuse_head next rest
    rw [fuse_of_none hnone]
    rw [hfuse] at ih ⊢
    exact settled_cons_iff.mpr ⟨hhead item hnone, ih⟩

/-- Items are left as they are exactly if no two neighbours are read together. -/
theorem fuse_unplaced_eq_iff {items : List Item} :
    (fuse items).map Item.unplaced = items.map Item.unplaced ↔ Settled items := by
  constructor
  · intro h
    refine Classical.byContradiction fun hnot => ?_
    have hlength := congrArg List.length h
    rw [List.length_map, List.length_map] at hlength
    have := length_fuse_lt hnot
    omega
  · intro h
    rw [fuse_eq_self h]

end ExprLang
