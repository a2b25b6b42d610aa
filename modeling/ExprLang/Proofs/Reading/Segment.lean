import ExprLang.Proofs.Reading.Program

/-! The tokens of a program cut into those of its items. Where reading stops early, the items found
so far are those of the tokens passed. -/
namespace ExprLang

/-- Tokens cut into pieces, with semicolons between them. Something was made of each piece. -/
inductive Segmented {α : Type} (made : List Token → α → Prop) : List Token → List α → Prop
  | nil : Segmented made [] []
  | semicolon {semi : Token} {ts : List Token} {as : List α} (hsemi : semi.isSymbol ';' = true)
      (hrest : Segmented made ts as) : Segmented made (semi :: ts) as
  | piece {ts us : List Token} {a : α} {as : List α} (hpiece : made ts a)
      (hrest : Segmented made us as) : Segmented made (ts ++ us) (a :: as)

namespace Segmented
variable {α β : Type} {made : List Token → α → Prop} {made' : List Token → β → Prop}
  {ts : List Token} {as : List α}

/-- Something else may be made of the same pieces. -/
theorem exists_map {f : β → α} (h : Segmented made ts as)
    (hmade : ∀ us a, (∀ u ∈ us, u ∈ ts) → made us a → ∃ b, f b = a ∧ made' us b) :
    ∃ bs, bs.map f = as ∧ Segmented made' ts bs := by
  induction h with
  | nil => exact ⟨[], rfl, .nil⟩
  | semicolon hsemi _ ih =>
    obtain ⟨bs, hbs, hrest⟩ := ih fun us a hus => hmade us a fun u hu => by simp [hus u hu]
    exact ⟨bs, hbs, .semicolon hsemi hrest⟩
  | @piece ts _ a _ hpiece _ ih =>
    obtain ⟨b, rfl, hb⟩ := hmade ts a (fun u hu => by simp [hu]) hpiece
    obtain ⟨bs, rfl, hrest⟩ := ih fun us a hus => hmade us a fun u hu => by simp [hus u hu]
    exact ⟨b :: bs, rfl, .piece hb hrest⟩

theorem imp {made' : List Token → α → Prop} (h : Segmented made ts as)
    (hmade : ∀ us a, (∀ u ∈ us, u ∈ ts) → made us a → made' us a) : Segmented made' ts as := by
  obtain ⟨bs, hbs, hbs'⟩ := h.exists_map (f := id) fun us a hus ha => ⟨a, rfl, hmade us a hus ha⟩
  rw [List.map_id] at hbs
  rwa [← hbs]

theorem forall_mem (h : Segmented made ts as) : ∀ a ∈ as, ∃ us, made us a := by
  induction h with
  | nil => simp
  | semicolon _ _ ih => exact ih
  | piece hpiece _ ih => exact List.forall_mem_cons.mpr ⟨⟨_, hpiece⟩, ih⟩

end Segmented

variable {t : Table}

theorem Phrase.Program.segmented {levels : Nat} {ts : List Token} {items : List Item}
    (h : Program t levels ts items) : Segmented (TopItem t levels) ts items := by
  induction h with
  | nil => exact .nil
  | semicolon hsemi _ ih => exact .semicolon hsemi ih
  | item hitem _ _ ih => exact .piece hitem ih

/-- However far a program is read, its items are those of the tokens passed. -/
theorem Progress.within_segmented (ht : t.Legal) {levels : Nat} (count : Nat) (s : Lookahead) :
    ∃ us s', Passes s us s' ∧
      Segmented (Phrase.TopItem t levels) us (within (.ofTable t) levels count s).items := by
  induction count generalizing s with
  | zero => exact ⟨[], s, .refl s, .nil⟩
  | succ count ih =>
    by_cases hend : s.current.kind = .endOfInput
    · rw [within, if_pos hend]
      exact ⟨[], s, .refl s, .nil⟩
    rw [within_succ _ _ hend]
    split
    · rename_i hsemi
      cases hadvance : Reader.advance s with
      | ok _ s1 =>
        obtain ⟨us, s', hpass, hus⟩ := ih s1
        exact ⟨_, s', .step hend hadvance hpass, .semicolon hsemi hus⟩
      | error e s1 => exact ⟨[], s, .refl s, .nil⟩
    · cases hitem : Reader.item (.ofTable t) levels s with
      | ok item s1 =>
        obtain ⟨ts, hpass, hts, _⟩ := (Reader.item_reads ht _ _ _ _).mp hitem
        obtain ⟨us, s', hpass', hus⟩ := ih s1
        exact ⟨_, s', hpass.append hpass', .piece hts hus⟩
      | error e s1 => exact ⟨[], s, .refl s, .nil⟩

end ExprLang
