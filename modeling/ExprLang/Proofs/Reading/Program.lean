import ExprLang.Proofs.Reading.Expression
import ExprLang.Proofs.Reading.Item

/-! Programs are read exactly as the grammar has them. Where the grammar leaves a choice, a name and
the brackets behind it are a call. -/
namespace ExprLang

namespace Reader
variable {t : Table} {s s' : Lookahead}

theorem parameters_succ (count : Nat) (s : Lookahead) : parameters (count + 1) s =
    if s.current.isName then (do
      advance
      return s.current.valueText :: (← parameters count)) s
    else (return [] : Reader (List String)) s := by
  rw [parameters, current_bind]
  cases hk : s.current.kind with
  | identifier name =>
    simp [Token.isName, hk, Token.valueText_of_kind hk]
  | _ => simp [Token.isName, hk]

theorem parameters_eq_nil (count : Nat) (hname : ¬ s.current.isName = true) :
    parameters count s = .ok [] s := by
  cases count with
  | zero => rfl
  | succ count =>
    rw [parameters_succ, if_neg hname]
    rfl

/-- What reading parameters comes to. -/
def ReadsNames (s : Lookahead) (names : List String) (s' : Lookahead) : Prop :=
  ∃ ts, Passes s ts s' ∧ (∀ t ∈ ts, t.isName = true) ∧ names = ts.map Token.valueText ∧
    s'.current.isName = false

private theorem readsNames_stop {names : List String} (hname : ¬ s.current.isName = true) :
    (return [] : Reader (List String)) s = .ok names s' ↔ ReadsNames s names s' := by
  rw [pure_eq_ok_iff]
  constructor
  · rintro ⟨rfl, rfl⟩
    exact ⟨[], .refl _, by simp, rfl, by simpa using hname⟩
  · rintro ⟨ts, hpass, hts, rfl, _⟩
    cases ts with
    | nil => exact ⟨rfl, Passes.nil_iff.mp hpass⟩
    | cons t ts =>
      rw [hpass.current_eq] at hname
      exact absurd (hts t (by simp)) hname

private theorem readsNames_cons {s1 : Lookahead} {names : List String}
    (hname : s.current.isName = true) (h1 : advance s = .ok () s1) :
    ReadsNames s names s' ↔
      ∃ rest, ReadsNames s1 rest s' ∧ names = s.current.valueText :: rest := by
  have hend := Token.ne_end_of_isName hname
  constructor
  · rintro ⟨ts, hpass, hts, rfl, hstop⟩
    cases hpass with
    | refl => simp [hname] at hstop
    | step _ h1' hrest =>
      cases h1.symm.trans h1'
      exact ⟨_, ⟨_, hrest, fun t ht => hts t (by simp [ht]), rfl, hstop⟩, rfl⟩
  · rintro ⟨_, ⟨ts, hpass, hts, rfl, hstop⟩, rfl⟩
    exact ⟨s.current :: ts, .step hend h1 hpass, by simpa [hname] using hts, rfl, hstop⟩

/-- Parameters are read as long as there are names. -/
theorem parameters_eq_ok_iff (count : Nat) {names : List String}
    (hcount : s.current.isName = true → s.ahead.length < count) :
    parameters count s = .ok names s' ↔ ReadsNames s names s' := by
  induction count generalizing s names with
  | zero => exact readsNames_stop fun hname => absurd (hcount hname) (Nat.not_lt_zero _)
  | succ count ih =>
    rw [parameters_succ]
    by_cases hname : s.current.isName = true
    · rw [if_pos hname, advance_bind_eq_ok_iff]
      have hless {s1 : Lookahead} (h1 : advance s = .ok () s1) :
          s1.current.isName = true → s1.ahead.length < count := by
        intro hname1
        have hlt := hcount hname
        rcases advance_ahead h1 with ⟨_, _, hend⟩ | hlen
        · simp [Token.isName, hend] at hname1
        · omega
      constructor
      · rintro ⟨s1, h1, h⟩
        obtain ⟨rest, hrest, rfl⟩ := bind_pure_eq_ok_iff.mp h
        exact (readsNames_cons hname h1).mpr ⟨rest, (ih (hless h1)).mp hrest, rfl⟩
      · intro h
        obtain ⟨s1, h1⟩ : ∃ s1, advance s = .ok () s1 := by
          obtain ⟨ts, hpass, _, _, hstop⟩ := h
          cases hpass with
          | refl => simp [hname] at hstop
          | step _ h1 _ => exact ⟨_, h1⟩
        obtain ⟨rest, hrest, rfl⟩ := (readsNames_cons hname h1).mp h
        exact ⟨s1, h1, bind_pure_eq_ok_iff.mpr ⟨rest, (ih (hless h1)).mpr hrest, rfl⟩⟩
    · rw [if_neg hname]
      exact readsNames_stop hname

/-- A prototype is told by its first token. -/
theorem prototype_eq (s : Lookahead) : prototype s =
    if s.current.isName then (do
      advance
      let _ ← expect "(" .prototypeOpening
      let params ← parameters (← left)
      let _ ← expect ")" .prototypeClosing
      return (⟨s.current.valueText, params, s.current.pos⟩ : Prototype)) s
    else fail .prototypeName s := by
  rw [prototype, current_bind]
  cases hk : s.current.kind with
  | identifier name => simp [Token.isName, hk, Token.valueText_of_kind hk]
  | _ => simp [Token.isName, hk]

private theorem prototype_eq_ok_iff {p : Prototype} : prototype s = .ok p s' ↔
    ∃ name, s.current.kind = .identifier name ∧ ∃ s1, advance s = .ok () s1 ∧
      s1.current.isSymbol '(' = true ∧ ∃ s2, advance s1 = .ok () s2 ∧
      ∃ params s3, ReadsNames s2 params s3 ∧ s3.current.isSymbol ')' = true ∧
      advance s3 = .ok () s' ∧ p = ⟨name, params, s.current.pos⟩ := by
  rw [prototype, current_bind]
  cases hk : s.current.kind with
  | identifier name =>
    simp only [TokenKind.identifier.injEq, exists_eq_left']
    rw [advance_bind_eq_ok_iff]
    refine exists_congr fun s1 => and_congr_right fun _ => ?_
    rw [expect_bind_eq_ok_iff opening_eq_singleton]
    refine and_congr_right fun _ => exists_congr fun s2 => and_congr_right fun _ => ?_
    rw [left_bind, bind_eq_ok_iff]
    refine exists_congr fun params => exists_congr fun s3 => ?_
    rw [parameters_eq_ok_iff _ fun _ => Nat.lt_succ_self _, expect_bind_eq_ok_iff closing_eq_singleton]
    refine and_congr_right fun _ => and_congr_right fun _ => ?_
    constructor
    · rintro ⟨_, hadvance, h⟩
      obtain ⟨rfl, rfl⟩ := pure_eq_ok_iff.mp h
      exact ⟨hadvance, rfl⟩
    · rintro ⟨hadvance, rfl⟩
      exact ⟨s', hadvance, rfl⟩
  | _ => simp [fail]

/-- A prototype is read whole, and nothing behind it matters. -/
theorem prototype_reads : Reads prototype Phrase.Header fun _ _ => True := by
  intro s p s'
  rw [prototype_eq_ok_iff]
  have hend {token : Token} {c : Char} : token.isSymbol c = true → token.kind ≠ .endOfInput :=
    Token.ne_end_of_isSymbol
  constructor
  · rintro ⟨name, hk, s1, h1, hopen, s2, h2, _, s3, ⟨ts, hpass, hts, rfl, _⟩, hclose, h3, rfl⟩
    exact ⟨_, .step (by simp [hk]) h1 (.step (hend hopen) h2
      (hpass.append (.one (hend hclose) h3))), .intro hk hopen hts hclose, trivial⟩
  · rintro ⟨_, hall, ⟨hk, hopen, hts, hclose⟩, _⟩
    obtain ⟨rfl, _, s1, h1, hrest⟩ := Passes.cons_iff.mp hall
    obtain ⟨rfl, _, s2, h2, hrest⟩ := Passes.cons_iff.mp hrest
    obtain ⟨s3, hpass, hlast⟩ := Passes.append_iff.mp hrest
    obtain ⟨rfl, _, s4, h4, hrest⟩ := Passes.cons_iff.mp hlast
    obtain rfl := Passes.nil_iff.mp hrest
    exact ⟨_, hk, s1, h1, hopen, s2, h2, _, s3, ⟨_, hpass, hts, rfl, Token.isName_eq_false hclose⟩,
      hclose, h4, rfl⟩

/-- What kind of item is read is told by the current token. -/
theorem item_eq (entries : Entries) (levels : Nat) (s : Lookahead) : item entries levels s =
    if s.current.kind = .defKeyword then (do
      advance
      let proto ← prototype
      let body ← expression entries levels
      return Item.function ⟨proto, body, s.current.pos⟩) s
    else if s.current.kind = .externKeyword then (do
      advance
      return Item.external (← prototype)) s
    else (do return Item.function (.anonymous (← expression entries levels) s.current.pos)) s := by
  rw [item, current_bind]
  cases hk : s.current.kind with
  | defKeyword =>
    simp only [definition, if_true, bind_assoc]
    rw [current_bind]
    simp only [hk, bind_assoc, pure_bind]
  | externKeyword =>
    simp only [declaration, bind_assoc]
    rw [current_bind]
    simp only [hk, bind_assoc, reduceCtorEq, if_true, if_false]
  | _ =>
    simp only [topExpression, bind_assoc, pure_bind, reduceCtorEq, if_false]
    rw [current_bind]

/-- What stands behind an item does not make it longer. Only a declaration ends by itself. -/
def FollowsItem (t : Table) (ts : List Token) (next : Token) : Prop :=
  (∀ head ∈ ts.head?, head.kind ≠ .externKeyword) → Follows t ts next

/-- Items are read exactly as the grammar has them. -/
theorem item_reads (ht : t.Legal) (levels : Nat) :
    Reads (item (.ofTable t) levels) (Phrase.TopItem t levels) (FollowsItem t) := by
  intro s i s'
  rw [item_eq]
  constructor
  · intro h
    split at h
    · rename_i hkey
      obtain ⟨s1, h1, h⟩ := advance_bind_eq_ok_iff.mp h
      obtain ⟨proto, s2, hproto, h⟩ := bind_eq_ok_iff.mp h
      obtain ⟨body, hbody, rfl⟩ := bind_pure_eq_ok_iff.mp h
      obtain ⟨ts, hpass, hts, _⟩ := (prototype_reads _ _ _).mp hproto
      obtain ⟨us, hpass', hus, hcall, hended⟩ := (expression_reads ht _ _ _ _).mp hbody
      have hne : us ≠ [] := hus.derives.expression_ne_nil
      refine ⟨_, .step (by simp [hkey]) h1 (hpass.append hpass'), .definition hkey hts hus,
        fun _ => ⟨?_, hended⟩⟩
      rw [uncalled_cons (by simp [hne])]
      exact uncalled_append.mpr ⟨hcall, fun h => absurd h hne⟩
    split at h
    · rename_i hkey
      obtain ⟨s1, h1, h⟩ := advance_bind_eq_ok_iff.mp h
      obtain ⟨proto, hproto, rfl⟩ := bind_pure_eq_ok_iff.mp h
      obtain ⟨ts, hpass, hts, _⟩ := (prototype_reads _ _ _).mp hproto
      exact ⟨_, .step (by simp [hkey]) h1 hpass, .external hkey hts,
        fun h => absurd hkey (h _ rfl)⟩
    · obtain ⟨body, hbody, rfl⟩ := bind_pure_eq_ok_iff.mp h
      obtain ⟨ts, hpass, hts, hfollow⟩ := (expression_reads ht _ _ _ _).mp hbody
      obtain ⟨token, rest, rfl, _⟩ := hts.derives.expression_eq_cons
      rw [hpass.current_eq]
      exact ⟨_, hpass, .expression hts, fun _ => hfollow⟩
  · rintro ⟨_, hall, hphrase, hfollow⟩
    cases hphrase with
    | @definition keyword ts us proto body hkey hts hus =>
      obtain ⟨hcall, hended⟩ := hfollow (by simp [hkey])
      obtain ⟨rfl, _, s1, h1, hrest⟩ := Passes.cons_iff.mp hall
      obtain ⟨s2, hpass, hpass'⟩ := Passes.append_iff.mp hrest
      rw [uncalled_cons (by simp [hts.ne_nil])] at hcall
      rw [if_pos hkey]
      exact advance_bind_eq_ok_iff.mpr ⟨s1, h1, bind_eq_ok_iff.mpr ⟨proto, s2,
        (prototype_reads _ _ _).mpr ⟨_, hpass, hts, trivial⟩, bind_pure_eq_ok_iff.mpr ⟨body,
          (expression_reads ht _ _ _ _).mpr ⟨_, hpass', hus, (uncalled_append.mp hcall).1, hended⟩,
          rfl⟩⟩⟩
    | @external keyword ts proto hkey hts =>
      obtain ⟨rfl, _, s1, h1, hrest⟩ := Passes.cons_iff.mp hall
      rw [if_neg (by simp [hkey]), if_pos hkey]
      exact advance_bind_eq_ok_iff.mpr ⟨s1, h1, bind_pure_eq_ok_iff.mpr ⟨proto,
        (prototype_reads _ _ _).mpr ⟨_, hrest, hts, trivial⟩, rfl⟩⟩
    | @expression token ts body hts =>
      obtain ⟨_, _, he, htoken⟩ := hts.derives.expression_eq_cons
      cases he
      have hkey (kind : TokenKind) (h : kind = .defKeyword ∨ kind = .externKeyword) :
          token.kind ≠ kind := by
        rintro rfl
        rcases h with h | h <;> simp [Token.isNumber, Token.isName, Token.isSymbol, h] at htoken
      rw [hall.current_eq, if_neg (hkey _ (.inl rfl)), if_neg (hkey _ (.inr rfl))]
      refine bind_pure_eq_ok_iff.mpr ⟨body, (expression_reads ht _ _ _ _).mpr
        ⟨_, hall, hts, hfollow fun head hhead => ?_⟩, rfl⟩
      cases hhead
      exact hkey _ (.inr rfl)

end Reader

/-- What stands behind an item in a program does not make the item longer. -/
theorem Phrase.Program.follows {t : Table} (ht : t.Legal) {levels : Nat} {us vs : List Token}
    {items : List Item} (hvs : Phrase.Program t levels vs items)
    (hcall : EndsInName us → ¬ BeginsWithBracket vs) : ∀ next ∈ vs.head?, Follows t us next :=
  fun next hnext =>
    ⟨fun hends => Bool.eq_false_iff.mpr fun hopen => hcall hends ⟨next, hnext, hopen⟩,
      hvs.isOperator_head ht next hnext⟩

namespace Progress
variable {t : Table} {levels : Nat} {s s' : Lookahead}

theorem within_end {entries : Entries} (count : Nat) (hend : s.current.kind = .endOfInput) :
    within entries levels count s = ⟨[], none, s⟩ := by
  cases count with
  | zero => rfl
  | succ count => exact if_pos hend

theorem within_succ (entries : Entries) (count : Nat) (hend : s.current.kind ≠ .endOfInput) :
    within entries levels (count + 1) s =
      if s.current.isSymbol ';' then
        match Reader.advance s with
        | .ok _ s => within entries levels count s
        | .error e s => ⟨[], some e, s⟩
      else
        match Reader.item entries levels s with
        | .ok item s => (within entries levels count s).withItem item
        | .error e s => ⟨[], some e, s⟩ :=
  if_neg hend

private theorem withItem_eq_iff {item : Item} {p : Progress} {items : List Item} :
    p.withItem item = ⟨items, none, s'⟩ ↔ ∃ rest, p = ⟨rest, none, s'⟩ ∧ items = item :: rest := by
  obtain ⟨found, error, state⟩ := p
  simp only [withItem, Progress.mk.injEq]
  constructor
  · rintro ⟨rfl, rfl, rfl⟩
    exact ⟨_, ⟨rfl, rfl, rfl⟩, rfl⟩
  · rintro ⟨_, ⟨rfl, rfl, rfl⟩, rfl⟩
    exact ⟨rfl, rfl, rfl⟩

/-- A program is all that is left. -/
def Finishes (t : Table) (levels : Nat) (s : Lookahead) (items : List Item) (s' : Lookahead) :
    Prop :=
  ∃ ts, Passes s ts s' ∧ s'.current.kind = .endOfInput ∧
    Phrase.Program t levels ts items

private theorem finishes_end (hend : s.current.kind = .endOfInput) {items : List Item} :
    Finishes t levels s items s' ↔ (⟨[], none, s⟩ : Progress) = ⟨items, none, s'⟩ := by
  constructor
  · rintro ⟨ts, hpass, _, hts⟩
    cases hpass with
    | refl => rw [Phrase.Program.nil_iff.mp hts]
    | step hne _ _ => exact absurd hend hne
  · intro h
    cases h
    exact ⟨[], .refl s, hend, .nil⟩

private theorem finishes_semicolon (hsemi : s.current.isSymbol ';' = true) {items : List Item} :
    Finishes t levels s items s' ↔
      ∃ s1, Reader.advance s = .ok () s1 ∧ Finishes t levels s1 items s' := by
  have hne := Token.ne_end_of_isSymbol hsemi
  constructor
  · rintro ⟨ts, hpass, hend, hts⟩
    cases hpass with
    | refl => exact absurd hend hne
    | step _ h1 hrest =>
      exact ⟨_, h1, _, hrest, hend, (Phrase.Program.semicolon_iff hsemi).mp hts⟩
  · rintro ⟨s1, h1, ts, hpass, hend, hts⟩
    exact ⟨_, .step hne h1 hpass, hend, .semicolon hsemi hts⟩

private theorem followsItem_of_program (ht : t.Legal) {s1 : Lookahead}
    {us vs : List Token} {items : List Item} (hcall : EndsInName us → ¬ BeginsWithBracket vs)
    (hvs : Phrase.Program t levels vs items)
    (hpass : Passes s1 vs s') (hend : s'.current.kind = .endOfInput) :
    Reader.FollowsItem t us s1.current := by
  intro _
  cases hpass with
  | refl => exact .of_end hend
  | step _ _ _ => exact hvs.follows ht hcall _ rfl

private theorem finishes_item (ht : t.Legal) (hne : s.current.kind ≠ .endOfInput)
    (hsemi : ¬ s.current.isSymbol ';' = true) {items : List Item} :
    Finishes t levels s items s' ↔ ∃ item s1 rest, Reader.item (.ofTable t) levels s = .ok item s1 ∧
      Finishes t levels s1 rest s' ∧ items = item :: rest := by
  constructor
  · rintro ⟨ts, hpass, hend, hts⟩
    have hcurrent : ∃ us, ts = s.current :: us := by
      cases hpass with
      | refl => exact absurd hend hne
      | step _ _ _ => exact ⟨_, rfl⟩
    obtain ⟨_, rfl⟩ := hcurrent
    obtain ⟨us, vs, item, rest, he, rfl, hitem, hcall, hvs⟩ := hts.eq_item hsemi
    rw [he] at hpass
    obtain ⟨s1, hpass, hpass'⟩ := Passes.append_iff.mp hpass
    exact ⟨item, s1, rest, (Reader.item_reads ht _ _ _ _).mpr
      ⟨us, hpass, hitem, followsItem_of_program ht hcall hvs hpass' hend⟩,
      ⟨vs, hpass', hend, hvs⟩, rfl⟩
  · rintro ⟨item, s1, rest, hread, ⟨vs, hpass', hend, hvs⟩, rfl⟩
    obtain ⟨us, hpass, hitem, hfollow⟩ := (Reader.item_reads ht _ _ _ _).mp hread
    refine ⟨_, hpass.append hpass', hend, .item hitem (fun hends hbegins => ?_) hvs⟩
    obtain ⟨head, hhead, hopen⟩ := hbegins
    have hcurrent : s1.current = head := by
      cases hpass' with
      | refl => cases hhead
      | step _ _ _ =>
        cases hhead
        rfl
    have hcall := (hfollow fun head hhead hkey =>
      hitem.not_endsInName ⟨head, hhead, hkey⟩ hends).uncalled hends
    simp [hcurrent, hopen] at hcall

/-- Programs are read exactly as the grammar has them. -/
theorem within_eq_iff (ht : t.Legal) (count : Nat) {items : List Item}
    (hcount : s.current.kind ≠ .endOfInput → s.ahead.length < count) :
    within (.ofTable t) levels count s = ⟨items, none, s'⟩ ↔ Finishes t levels s items s' := by
  induction count generalizing s items with
  | zero =>
    have hend : s.current.kind = .endOfInput := by
      by_cases hend : s.current.kind = .endOfInput
      · exact hend
      · exact absurd (hcount hend) (Nat.not_lt_zero _)
    exact (finishes_end hend).symm
  | succ count ih =>
    by_cases hend : s.current.kind = .endOfInput
    · rw [within, if_pos hend]
      exact (finishes_end hend).symm
    have hless {ts : List Token} {s1 : Lookahead} (hpass : Passes s ts s1) (hts : ts ≠ []) :
        s1.current.kind ≠ .endOfInput → s1.ahead.length < count := by
      intro hend'
      have := hpass.ahead_lt hts hend'
      have := hcount hend
      omega
    rw [within_succ _ _ hend]
    split
    · rename_i hsemi
      rw [finishes_semicolon hsemi]
      cases hadvance : Reader.advance s with
      | ok _ s1 => simpa using ih (hless (.one hend hadvance) (by simp))
      | error e s1 => simp
    · rename_i hsemi
      rw [finishes_item ht hend hsemi]
      cases hitem : Reader.item (.ofTable t) levels s with
      | ok item s1 =>
        obtain ⟨ts, hpass, hts, _⟩ := (Reader.item_reads ht _ _ _ _).mp hitem
        simp only [withItem_eq_iff, ih (hless hpass hts.ne_nil)]
        constructor
        · rintro ⟨rest, hrest, rfl⟩
          exact ⟨item, s1, rest, rfl, hrest, rfl⟩
        · rintro ⟨_, _, rest, h, hrest, rfl⟩
          cases h
          exact ⟨rest, hrest, rfl⟩
      | error e s1 => simp

end Progress
end ExprLang
