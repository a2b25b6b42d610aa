import ExprLang.Proofs.Grammar.Derivation

/-! Tokens that words begin with, and tokens behind which no word goes on. A word is told apart from
what stands behind it by the tokens that may follow it. -/
namespace ExprLang

/-- Tokens that some phrase begins with. -/
def Viable (t : Table) (k : Nonterminal) (ts : List Token) : Prop := ∃ us, Derives t k (ts ++ us)

/-- Words, and the tokens that may stand behind each of them. -/
structure Language where
  Word : List Token → Prop
  Follow : List Token → Token → Prop

namespace Language
variable {L M N : Language} {us vs ws zs : List Token} {token got : Token}

/-- A word stands in front of tokens that may follow it. -/
structure Fits (L : Language) (ws zs : List Token) : Prop where
  word : L.Word ws
  follow : ∀ next ∈ zs.head?, L.Follow ws next

/-- Any tokens begin with at most one word. -/
def Unambiguous (L : Language) : Prop :=
  ∀ ⦃ws zs ws' zs'⦄, L.Fits ws zs → L.Fits ws' zs' → ws ++ zs = ws' ++ zs' → ws = ws'

/-- Some word begins with the tokens `us`, but no word stands where `got` is behind them. -/
structure Refuses (L : Language) (us : List Token) (got : Token) : Prop where
  viable : ∃ vs, L.Word (us ++ vs)
  blocked : ∀ ⦃ws zs zs'⦄, L.Fits ws zs' → us ++ got :: zs ≠ ws ++ zs'

def after (L : Language) (token : Token) : Language :=
  ⟨fun ws => L.Word (token :: ws), fun ws => L.Follow (token :: ws)⟩

/-- A word of `M` is a word of `L` and a word of `N` behind it. -/
structure Joins (L N M : Language) : Prop where
  join : ∀ ⦃us vs⦄, L.Word us → N.Word vs → M.Word (us ++ vs)
  split : ∀ ⦃ws zs⦄, M.Fits ws zs →
    ∃ us vs, ws = us ++ vs ∧ L.Fits us (vs ++ zs) ∧ N.Fits vs zs
  inhabited : ∃ vs, N.Word vs

theorem Joins.unambiguous (h : Joins L N M) (hL : L.Unambiguous) (hN : N.Unambiguous) :
    M.Unambiguous := by
  intro _ zs _ zs' hws hws' he
  obtain ⟨us, vs, rfl, hus, hvs⟩ := h.split hws
  obtain ⟨us', vs', rfl, hus', hvs'⟩ := h.split hws'
  rw [List.append_assoc, List.append_assoc] at he
  obtain rfl := hL hus hus' he
  rw [hN hvs hvs' (List.append_cancel_left he)]

namespace Refuses

/-- Every word of the first language is one of the second. Only of those at hand the converse is
needed. -/
theorem imp (h : L.Refuses us got) (hword : ∀ ⦃ws⦄, L.Word ws → M.Word ws)
    (hfits : ∀ ⦃ws zs zs'⦄, us ++ got :: zs = ws ++ zs' → M.Fits ws zs' → L.Fits ws zs') :
    M.Refuses us got where
  viable := by
    obtain ⟨vs, hvs⟩ := h.viable
    exact ⟨vs, hword hvs⟩
  blocked _ _ _ hws he := h.blocked (hfits he hws) he

theorem not_word (h : L.Refuses us got) (zs : List Token) : ¬ L.Word (us ++ got :: zs) :=
  fun hword => h.blocked ⟨hword, by simp⟩ (List.append_nil _).symm

/-- What may follow a word is not refused behind it. -/
theorem not_word_of_follow (h : L.Refuses us got) (hfollow : L.Follow us got) : ¬ L.Word us := by
  intro hword
  have hfits : L.Fits us [got] := by
    refine ⟨hword, fun next hnext => ?_⟩
    cases hnext
    exact hfollow
  exact h.blocked hfits rfl

/-- A token is passed at which there is no empty word. -/
theorem cons (h : (L.after token).Refuses us got) (hempty : ∀ zs, ¬ L.Fits [] (token :: zs)) :
    L.Refuses (token :: us) got where
  viable := h.viable
  blocked := by
    intro ws zs zs' hws he
    cases ws with
    | nil =>
      obtain rfl : token :: (us ++ got :: zs) = zs' := he
      exact hempty _ hws
    | cons w ws =>
      obtain ⟨rfl, htail⟩ := List.cons.inj he
      exact h.blocked ⟨hws.word, hws.follow⟩ htail

/-- Where no word of the first language goes on, no longer word goes on. -/
theorem first (hr : L.Refuses us got) (h : Joins L N M) : M.Refuses us got where
  viable := by
    obtain ⟨vs, hvs⟩ := hr.viable
    obtain ⟨more, hmore⟩ := h.inhabited
    exact ⟨vs ++ more, by simpa using h.join hvs hmore⟩
  blocked := by
    intro _ zs zs' hws he
    obtain ⟨ws, ws', rfl, hws, _⟩ := h.split hws
    rw [List.append_assoc] at he
    exact hr.blocked hws he

/-- Behind a word of the first language, only the second one counts. -/
theorem second (hr : N.Refuses vs got) (h : Joins L N M) (hL : L.Unambiguous)
    (hus : ∀ zs, L.Fits us (vs ++ got :: zs)) : M.Refuses (us ++ vs) got where
  viable := by
    obtain ⟨more, hmore⟩ := hr.viable
    exact ⟨more, by simpa using h.join (hus []).word hmore⟩
  blocked := by
    intro _ zs zs' hws he
    obtain ⟨ws, ws', rfl, hws, hws'⟩ := h.split hws
    rw [List.append_assoc, List.append_assoc] at he
    obtain rfl := hL (hus zs) hws he
    exact hr.blocked hws' (List.append_cancel_left he)

end Refuses
end Language

/-- No phrase contains the end of input. -/
theorem Derives.kind_ne_end {t : Table} {k : Nonterminal} {ts : List Token} (h : Derives t k ts) :
    ∀ u ∈ ts, u.kind ≠ .endOfInput := by
  have hsymbol {u : Token} {c : Char} : u.isSymbol c = true → u.kind ≠ .endOfInput :=
    Token.ne_end_of_isSymbol
  have hends {us : List Token} {u : Token} {c : Char} (hus : ∀ v ∈ us, v.kind ≠ .endOfInput)
      (h : u.isSymbol c = true) : ∀ v ∈ us ++ [u], v.kind ≠ .endOfInput :=
    List.forall_mem_append.mpr ⟨hus, by simpa using hsymbol h⟩
  induction h with
  | noItem => simp
  | semicolon hsemi _ ih => exact List.forall_mem_cons.mpr ⟨hsymbol hsemi, ih⟩
  | definitionItem _ _ ihi ihr => exact List.forall_mem_append.mpr ⟨ihi, ihr⟩
  | externalItem _ _ ihi ihr => exact List.forall_mem_append.mpr ⟨ihi, ihr⟩
  | expressionItem _ _ ihi ihr => exact List.forall_mem_append.mpr ⟨ihi, ihr⟩
  | definition hkey _ _ ihp ihb =>
    exact List.forall_mem_cons.mpr ⟨by simp [hkey], List.forall_mem_append.mpr ⟨ihp, ihb⟩⟩
  | external hkey _ ih => exact List.forall_mem_cons.mpr ⟨by simp [hkey], ih⟩
  | prototype h hopen hparams hclose =>
    exact List.forall_mem_cons.mpr ⟨Token.ne_end_of_isName h, List.forall_mem_cons.mpr
      ⟨hsymbol hopen, hends (fun u hu => Token.ne_end_of_isName (hparams u hu)) hclose⟩⟩
  | expression _ _ ihf ihl => exact List.forall_mem_append.mpr ⟨ihf, ihl⟩
  | noLink => simp
  | link hop _ _ ihr ihl =>
    exact List.forall_mem_cons.mpr
      ⟨Table.ne_end_of_isOperator hop, List.forall_mem_append.mpr ⟨ihr, ihl⟩⟩
  | number h => simpa using Token.ne_end_of_isNumber h
  | name h => simpa using Token.ne_end_of_isName h
  | emptyCall h hopen hclose =>
    simp [Token.ne_end_of_isName h, hsymbol hopen, hsymbol hclose]
  | call h hopen _ hclose ih =>
    exact List.forall_mem_cons.mpr
      ⟨Token.ne_end_of_isName h, List.forall_mem_cons.mpr ⟨hsymbol hopen, hends ih hclose⟩⟩
  | bracketed hopen _ hclose ih => exact List.forall_mem_cons.mpr ⟨hsymbol hopen, hends ih hclose⟩
  | lastArgument _ ih => exact ih
  | moreArguments _ hcomma _ iha ihr =>
    exact List.forall_mem_append.mpr ⟨iha, List.forall_mem_cons.mpr ⟨hsymbol hcomma, ihr⟩⟩

end ExprLang
