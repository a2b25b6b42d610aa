import ExprLang.Proofs.Lexing.Lexable
import ExprLang.Proofs.Reading.Passage
import ExprLang.Reader.Program

/-! Where the reading of a text begins, and what it finds ahead. -/
namespace ExprLang

/-- Everything that is left can be found in a text. -/
structure Lookahead.Sound (s : Lookahead) : Prop where
  current : s.current.kind = .endOfInput ∨ s.current.kind.Lexable
  ahead : ∀ t, .ok t ∈ s.ahead → t.kind.Lexable

namespace Lookahead

theorem Sound.advance {s s' : Lookahead} (hs : s.Sound) (h : Reader.advance s = .ok () s') :
    s'.Sound := by
  obtain ⟨_, rfl⟩ | ⟨token, rest, hahead, rfl⟩ := Reader.advance_cases h
  · exact ⟨.inl rfl, by simp⟩
  · exact ⟨.inr (hs.ahead token (by simp [hahead])), fun u hu => hs.ahead u (by simp [hahead, hu])⟩

/-- All tokens that are passed can be found in a text. -/
theorem Sound.passes {s s' : Lookahead} {ts : List Token} (hs : s.Sound) (h : Passes s ts s') :
    ∀ t ∈ ts, t.kind.Lexable := by
  induction h with
  | refl => simp
  | step hend hadvance _ ih =>
    intro t ht
    rcases List.mem_cons.mp ht with rfl | ht
    · exact hs.current.resolve_left hend
    · exact ih (hs.advance hadvance) t ht

theorem Sound.after {s s' : Lookahead} {ts : List Token} (hs : s.Sound) (h : Passes s ts s') :
    s'.Sound := by
  induction h with
  | refl => exact hs
  | step _ hadvance _ ih => exact ih (hs.advance hadvance)

end Lookahead

theorem begin?_eq_ok_iff {text : String} {s : Lookahead} :
    begin? text = .ok s ↔ Lookahead.ofText text = .ok s := by
  rw [begin?]
  cases Lookahead.ofText text with
  | error e => exact ⟨nofun, nofun⟩
  | ok s' => exact ⟨fun h => congrArg Except.ok (Except.ok.inj h),
      fun h => congrArg Except.ok (Except.ok.inj h)⟩

/-- Reading begins at the first token. A fault in its place is found at once. -/
theorem begin?_eq (text : String) :
    begin? text = match (Cursor.ofText text .start).lexemes.map (·.1) with
      | [] => .ok ⟨⟨.endOfInput, (Cursor.ofText text .start).finish⟩, [],
          (Cursor.ofText text .start).finish, 1⟩
      | .ok token :: rest => .ok ⟨token, rest, (Cursor.ofText text .start).finish, 1⟩
      | .error fault :: _ => .error (.lexical fault) := by
  rw [begin?, Lookahead.ofText, Lookahead.ofCursor]
  cases (Cursor.ofText text .start).lexemes.map (·.1) with
  | nil => rfl
  | cons found rest => cases found <;> rfl

theorem mem_lexemes (text : String) {t : Token}
    (h : .ok t ∈ (Cursor.ofText text .start).lexemes.map (·.1)) : t.kind.Lexable := by
  obtain ⟨found, hfound, he⟩ := List.mem_map.mp h
  exact Cursor.lexemes_lexable _ found hfound t he

/-- What is found at the beginning of a text can be found in a text. -/
theorem sound_of_begin? {text : String} {s : Lookahead} (h : begin? text = .ok s) : s.Sound := by
  rw [begin?_eq_ok_iff, Lookahead.ofText, Lookahead.ofCursor] at h
  have hlexable {t : Token} := mem_lexemes text (t := t)
  generalize (Cursor.ofText text .start).lexemes.map (·.1) = found at h hlexable
  match found with
  | [] =>
    cases h
    exact ⟨.inl rfl, by simp⟩
  | .ok t :: rest =>
    cases h
    exact ⟨.inr (hlexable (by simp)), fun u hu => hlexable (by simp [hu])⟩
  | .error e :: rest => cases h

private theorem ahead_eq_of_passes {s s' : Lookahead} {ts : List Token} (h : Passes s ts s')
    (hend : s'.current.kind = .endOfInput) (hs : s.Sound) (hne : s.current.kind ≠ .endOfInput) :
    .ok s.current :: s.ahead = ts.map Except.ok := by
  induction h with
  | refl => exact absurd hend hne
  | @step s s1 _ ts _ hadvance hrest ih =>
    have hs1 := hs.advance hadvance
    rw [List.map_cons]
    congr 1
    obtain ⟨hahead, rfl⟩ | ⟨token, rest, hahead, rfl⟩ := Reader.advance_cases hadvance
    · cases hrest with
      | refl => exact hahead
      | step hne' _ _ => exact absurd rfl hne'
    · have hlexable := hs.ahead token (by simp [hahead])
      rw [hahead]
      refine ih hend hs1 fun hk => ?_
      rwa [hk] at hlexable

/-- If all of a text can be passed, what is passed are its tokens. -/
theorem tokenize_of_passes {text : String} {s s' : Lookahead} {ts : List Token}
    (hbegin : begin? text = .ok s) (h : Passes s ts s') (hend : s'.current.kind = .endOfInput) :
    tokenize text = .ok ts := by
  have hs := sound_of_begin? hbegin
  rw [begin?_eq_ok_iff, Lookahead.ofText, Lookahead.ofCursor] at hbegin
  rw [tokenize_eq_ok_iff]
  generalize hfound : (Cursor.ofText text .start).lexemes.map (·.1) = found at hbegin
  match found with
  | [] =>
    cases hbegin
    cases h with
    | refl => rfl
    | step hne _ _ => exact absurd rfl hne
  | .ok t :: rest =>
    cases hbegin
    have hlexable : t.kind.Lexable := mem_lexemes text (by simp [hfound])
    refine ahead_eq_of_passes h hend hs fun hk => ?_
    rw [show t.kind = _ from hk] at hlexable
    exact hlexable
  | .error e :: rest => cases hbegin

/-- If a text has no fault, reading it begins at the first of its tokens. -/
theorem begin?_eq_ofTokens_finish {text : String} {ts : List Token} (h : tokenize text = .ok ts) :
    begin? text = .ok (.ofTokens (Cursor.ofText text .start).finish 1 ts) := by
  rw [tokenize_eq_ok_iff] at h
  rw [begin?_eq_ok_iff, Lookahead.ofText, Lookahead.ofCursor, h]
  cases ts <;> rfl

theorem begin?_eq_ofTokens {text : String} {ts : List Token} (h : tokenize text = .ok ts) :
    ∃ finish, begin? text = .ok (.ofTokens finish 1 ts) := ⟨_, begin?_eq_ofTokens_finish h⟩

/-- No token of a text is the end of input. -/
theorem kind_ne_end_of_tokenize {text : String} {ts : List Token} (h : tokenize text = .ok ts) :
    ∀ t ∈ ts, t.kind ≠ .endOfInput := by
  rw [tokenize_eq_ok_iff] at h
  intro t ht hk
  have hlexable : t.kind.Lexable := mem_lexemes text (by
    rw [h]
    exact List.mem_map_of_mem ht)
  rw [hk] at hlexable
  exact hlexable

/-- If a text has no fault, reading it can pass all of its tokens. -/
theorem begin?_of_tokenize {text : String} {ts : List Token} (h : tokenize text = .ok ts) :
    ∃ s s', begin? text = .ok s ∧ Passes s ts s' ∧ s'.current.kind = .endOfInput ∧
      ∀ found ∈ s.ahead, ∃ t, found = .ok t := by
  obtain ⟨finish, hbegin⟩ := begin?_eq_ofTokens h
  have hpass : Passes (.ofTokens finish 1 (ts ++ [])) ts (.ofTokens finish (1 + ts.length) []) :=
    .ofTokens 1 (kind_ne_end_of_tokenize h)
  rw [List.append_nil] at hpass
  refine ⟨_, _, hbegin, hpass, rfl, ?_⟩
  cases ts <;> simp [Lookahead.ofTokens]

end ExprLang
