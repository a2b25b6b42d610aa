import ExprLang.Proofs.Chain.Stages
import ExprLang.Proofs.Reading.Language
import ExprLang.Proofs.Reading.Stages
import ExprLang.Proofs.Reading.Upcoming

/-! How far operators and operands are read behind an expression, and what becomes of them. -/
namespace ExprLang

namespace Phrase
variable {t : Table} {least : Int} {Q Q' : Phrase Expr} {ts us zs zs' : List Token}
  {found more : List Link}

private theorem fits_operand (ht : t.Legal) (hleast : 0 ≤ least)
    (hlinks : Links (least ≤ t.strength ·) Q us found) {ws : List Token}
    (hword : Derives t .primary ws) (hfollow : us = [] → ∀ next ∈ zs.head?, Uncalled ws next) :
    (Language.operand t).Fits ws (us ++ zs) := by
  refine ⟨hword, fun next hnext => ?_⟩
  cases hlinks with
  | nil => exact hfollow rfl next hnext
  | cons hop _ _ =>
    cases hnext
    exact fun _ => ht.isSymbol_eq_false
      (ht.zero_le_strength_iff.mp (Int.le_trans hleast hop)) (by decide)

/-- Links that no operator goes on, and no call of their last name, are as long as any others. -/
theorem Links.longest (ht : t.Legal) (hleast : 0 ≤ least)
    (hQ : ∀ ts e, Q ts e → Derives t .primary ts) (hQ' : ∀ ts e, Q' ts e → Derives t .primary ts)
    (hlinks : Links (least ≤ t.strength ·) Q ts found)
    (hmore : Links (least ≤ t.strength ·) Q' us more) (he : ts ++ zs = us ++ zs')
    (hcall : ∀ next ∈ zs.head?, Uncalled ts next)
    (hstop : ∀ next ∈ zs.head?, t.strength next < least) : us <+: ts := by
  induction hmore generalizing ts found with
  | nil => exact List.nil_prefix
  | @cons operator right' us' _ _ hop' hright' hmore ih =>
    cases hlinks with
    | nil =>
      rw [List.nil_append] at he
      have hweak := hstop operator (by simp [he])
      omega
    | @cons _ right ts' _ _ hop hright hlinks =>
      rw [List.cons_append, List.cons_append, List.append_assoc, List.append_assoc] at he
      obtain ⟨rfl, htail⟩ := List.cons.inj he
      have hnil := (hQ _ _ hright).primary_ne_nil
      have hcall' : ∀ next ∈ zs.head?, Uncalled (right ++ ts') next := fun next hnext =>
        (uncalled_cons (by simp [hnil])).mp (hcall next hnext)
      refine List.cons_prefix_cons.mpr ⟨rfl, ?_⟩
      have hfits := fits_operand ht hleast hlinks (hQ _ _ hright) fun hempty next hnext =>
        (uncalled_append.mp (hcall' next hnext)).2 hempty
      by_cases hopen : us' = [] ∧ EndsInName right'
      · -- The last operand of the others is a name, so it may be called in these links.
        obtain ⟨rfl, hends⟩ := hopen
        obtain ⟨name, rfl, _⟩ := (hQ' _ _ hright').eq_name hends
        obtain ⟨first, rest, rfl⟩ := List.exists_cons_of_ne_nil hnil
        obtain ⟨rfl, _⟩ := List.cons.inj htail
        exact List.cons_prefix_cons.mpr ⟨rfl, List.nil_prefix⟩
      · have hfits' : (Language.operand t).Fits right' (us' ++ zs') :=
          fits_operand ht hleast hmore (hQ' _ _ hright') fun hempty _ _ hends =>
            absurd ⟨hempty, hends⟩ hopen
        obtain rfl := Language.operand_unambiguous ht hfits hfits' htail
        rw [List.prefix_append_right_inj]
        exact ih hlinks (List.append_cancel_left htail)
          fun next hnext => (uncalled_append.mp (hcall' next hnext)).1

end Phrase

/-- What is read at `s` behind an expression, with operators that are not weaker than `least`: the
tokens `ts`, which stand for the links `run`. -/
structure Extent (t : Table) (levels : Nat) (least : Int) (first : Expr) (s : Lookahead) (e : Expr)
    (s' : Lookahead) (ts : List Token) (run : List Link) : Prop where
  passes : Passes s ts s'
  links : Phrase.Links (least ≤ t.strength ·) (Phrase.Operand t levels) ts run
  /-- No more of such operators and operands stand here, however deep their brackets nest. -/
  longest : ∀ deeper us more s'', Passes s us s'' →
    Phrase.Links (least ≤ t.strength ·) (Phrase.Operand t deeper) us more → us <+: ts
  stops : t.strength s'.current < least
  empty : run = [] → e = first ∧ s' = s
  joined : run ≠ [] → ∃ left operator right, e = joinLink left operator right
  /-- The expression is at the bottom of the left side. -/
  leftSide : ∃ spine, LeftSide t.strength first run e spine

/-- Behind an expression the longest run of operators that are strong enough is read, each with its
operand. In the tree of them, the expression is at the bottom of the left side. Reading the stronger
operators first and then the others comes to the same as reading all of them at once. -/
theorem rest_extent {t : Table} (ht : t.Legal) (levels : Nat) {least : Int} (hleast : 0 ≤ least)
    (first : Expr) :
    (∀ s e s', Reader.rest (.ofTable t) levels (.integer least) first s = .ok e s' →
      ∃ ts run, Extent t levels least first s e s' ts run) ∧
    ∀ low, 0 ≤ low → low ≤ least →
      (Reader.rest (.ofTable t) levels (.integer least) first >>=
        Reader.rest (.ofTable t) levels (.integer low)) =
          Reader.rest (.ofTable t) levels (.integer low) first := by
  refine ⟨fun s e s' h => ?_, fun low hlow hle => ?_⟩
  · obtain ⟨ts, run, hpass, hlinks, hcall, hstop, rfl⟩ :=
      (Reader.chain_eq_ok_iff ht hleast (Reader.operand_reads ht _)
        (fun _ _ => Phrase.Operand.derives) first).mp h
    have hcurrent {next : Token} (hnext : next ∈ s'.tokens.head?) : next = s'.current :=
      Lookahead.eq_current_of_mem_head? hnext
    refine ⟨ts, run, hpass, hlinks, fun _ us more s'' hpass' hmore => ?_, hstop, ?_,
      exists_joinLink _ _, exists_leftSide _ _ _⟩
    · refine hlinks.longest ht hleast (fun _ _ => Phrase.Operand.derives)
        (fun _ _ => Phrase.Operand.derives) hmore (hpass.tokens_eq.symm.trans hpass'.tokens_eq)
        (fun next hnext => ?_) fun next hnext => ?_
      · rwa [hcurrent hnext]
      · rwa [hcurrent hnext]
    · rintro rfl
      cases hlinks
      exact ⟨rfl, (Passes.nil_iff.mp hpass).symm⟩
  · exact Reader.chain_stages ht hlow hle (Reader.operand_passing ht _) first

private def behindName : Lookahead :=
  ⟨⟨.symbol '+', ⟨1, 1⟩⟩, [.ok ⟨.identifier "b", ⟨1, 3⟩⟩, .ok ⟨.symbol '*', ⟨1, 5⟩⟩,
    .ok ⟨.identifier "c", ⟨1, 7⟩⟩, .ok ⟨.symbol '<', ⟨1, 9⟩⟩, .ok ⟨.identifier "d", ⟨1, 11⟩⟩],
    ⟨1, 12⟩, 1⟩

private def sumOfProduct : Expr :=
  .binary "+" (.var "a" .start) (.binary "*" (.var "b" ⟨1, 3⟩) (.var "c" ⟨1, 7⟩) ⟨1, 5⟩) ⟨1, 1⟩

/-- Behind `a`, the run of operators of strength 20 and more ends in front of the comparison, and
the product is inside of the right operand of the sum. -/
theorem rest_extent_sumBeforeComparison : ∃ s' ts run,
    begin? "+ b * c < d" = .ok behindName ∧
    Reader.rest (.ofTable .standard) 2 (.integer 20) (.var "a" .start) behindName =
      .ok sumOfProduct s' ∧
    Extent .standard 2 20 (.var "a" .start) behindName sumOfProduct s' ts run ∧
    (Reader.rest (.ofTable .standard) 2 (.integer 20) (.var "a" .start) >>=
      Reader.rest (.ofTable .standard) 2 (.integer 10)) =
        Reader.rest (.ofTable .standard) 2 (.integer 10) (.var "a" .start) := by
  have hbegin : begin? "+ b * c < d" = .ok behindName := begin?_eq_ok_iff.mpr (by cbv)
  obtain ⟨hextent, hstages⟩ :=
    @rest_extent .standard Table.standard_legal 2 20 (by decide) (.var "a" .start)
  obtain ⟨s', hrest⟩ : ∃ s', Reader.rest (.ofTable .standard) 2 (.integer 20) (.var "a" .start)
      behindName = .ok sumOfProduct s' := ⟨_, rfl⟩
  obtain ⟨ts, run, hrun⟩ := hextent _ _ _ hrest
  exact ⟨s', ts, run, hbegin, hrest, hrun, hstages 10 (by decide) (by decide)⟩

end ExprLang
