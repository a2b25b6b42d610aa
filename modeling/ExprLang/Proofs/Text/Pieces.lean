import ExprLang.Text.Blank
import ExprLang.Text.Joined

/-! Texts without the white space around them, and texts cut at marks into the pieces that they were
put together from. -/
namespace ExprLang.Text

section Trimming

variable {blank : Char → Bool} {cs before after : List Char}

private theorem trimEnd_append_blank (h : ∀ c ∈ after, blank c = true) :
    trimEnd blank (cs ++ after) = trimEnd blank cs := by
  induction cs with
  | nil =>
    induction after with
    | nil => rfl
    | cons c rest ih =>
      obtain ⟨hc, hrest⟩ := List.forall_mem_cons.mp h
      have hnil : trimEnd blank rest = [] := ih hrest
      simp [trimEnd, hnil, hc]
  | cons c rest ih => rw [List.cons_append, trimEnd, ih, trimEnd]

private theorem trimEnd_of_getLast? (h : ∀ c ∈ cs.getLast?, blank c = false) :
    trimEnd blank cs = cs := by
  induction cs with
  | nil => rfl
  | cons c rest ih =>
    cases rest with
    | nil =>
      have hc : blank c = false := h c rfl
      simp [trimEnd, hc]
    | cons d more =>
      rw [trimEnd, ih (by simpa using h)]

/-- The white space around a text goes, and none within it. -/
theorem trim_between (hbefore : ∀ c ∈ before, blank c = true) (hafter : ∀ c ∈ after, blank c = true)
    (hfirst : ∀ c ∈ cs.head?, blank c = false) (hlast : ∀ c ∈ cs.getLast?, blank c = false) :
    trim blank (before ++ (cs ++ after)) = cs := by
  have hskip : (before ++ (cs ++ after)).dropWhile blank = (cs ++ after).dropWhile blank :=
    List.dropWhile_append_of_pos hbefore
  rw [trim, hskip]
  cases cs with
  | nil =>
    have hall : (after ++ []).dropWhile blank = [].dropWhile blank :=
      List.dropWhile_append_of_pos hafter
    rw [List.append_nil] at hall
    rw [List.nil_append, hall]
    rfl
  | cons c rest =>
    have hc : blank c = false := hfirst c rfl
    rw [List.cons_append, List.dropWhile_cons_of_neg (by simp [hc]), ← List.cons_append,
      trimEnd_append_blank hafter, trimEnd_of_getLast? hlast]

private theorem exists_trimEnd (blank : Char → Bool) (cs : List Char) :
    ∃ after, cs = trimEnd blank cs ++ after ∧ ∀ c ∈ after, blank c = true := by
  induction cs with
  | nil => exact ⟨[], rfl, by simp⟩
  | cons c rest ih =>
    obtain ⟨after, hrest, hafter⟩ := ih
    rw [trimEnd]
    split
    · rename_i hnil
      rw [hnil, List.nil_append] at hrest
      split
      · rename_i hc
        exact ⟨c :: rest, rfl, List.forall_mem_cons.mpr ⟨hc, hrest ▸ hafter⟩⟩
      · exact ⟨after, by rw [List.singleton_append, ← hrest], hafter⟩
    · exact ⟨after, by rw [List.cons_append, ← hrest], hafter⟩

/-- Only blanks are cut off. -/
theorem exists_trim (blank : Char → Bool) (cs : List Char) :
    ∃ after, cs = cs.takeWhile blank ++ (trim blank cs ++ after) ∧ ∀ c ∈ after, blank c = true := by
  obtain ⟨after, hrest, hafter⟩ := exists_trimEnd blank (cs.dropWhile blank)
  refine ⟨after, ?_, hafter⟩
  rw [trim, ← hrest, List.takeWhile_append_dropWhile]

/-- A text without blanks has none at its ends. -/
theorem trim_of_not_blank (h : ∀ c ∈ cs, blank c = false) : trim blank cs = cs := by
  have hbetween : trim blank ([] ++ (cs ++ [])) = cs := trim_between (by simp) (by simp)
    (fun c hc => h c (List.mem_of_head? hc)) (fun c hc => h c (List.mem_of_getLast? hc))
  simpa using hbetween

end Trimming

section Cutting

variable {mark : Char}

private theorem cutAt_ne_nil (cs : List Char) : cutAt mark cs ≠ [] := by
  cases cs with
  | nil => simp [cutAt]
  | cons c rest =>
    rw [cutAt]
    split
    · simp
    · split <;> simp

/-- No piece reaches over a mark. -/
theorem cutAt_append_mark (before after : List Char) :
    cutAt mark (before ++ mark :: after) = cutAt mark before ++ cutAt mark after := by
  induction before with
  | nil => simp [cutAt]
  | cons c rest ih =>
    rw [List.cons_append, cutAt, cutAt, ih]
    split
    · rfl
    · cases hpieces : cutAt mark rest with
      | nil => exact absurd hpieces (cutAt_ne_nil rest)
      | cons piece pieces => rfl

theorem cutAt_of_not_mem {cs : List Char} (h : mark ∉ cs) : cutAt mark cs = [cs] := by
  induction cs with
  | nil => rfl
  | cons c rest ih =>
    have hc : c ≠ mark := (List.ne_of_not_mem_cons h).symm
    rw [cutAt, if_neg hc, ih (List.not_mem_of_not_mem_cons h)]

/-- Pieces that were put together with marks are cut apart again, each at its own marks. -/
theorem cutAt_joined {separator : String} (hseparator : separator.toList = [mark])
    {pieces : List String} (hne : pieces ≠ []) :
    cutAt mark (joined separator pieces).toList =
      pieces.flatMap fun piece => cutAt mark piece.toList := by
  induction pieces with
  | nil => exact absurd rfl hne
  | cons piece rest ih =>
    cases rest with
    | nil => simp [joined]
    | cons next more =>
      have htext : (joined separator (piece :: next :: more)).toList =
          piece.toList ++ mark :: (joined separator (next :: more)).toList := by
        simp [joined, hseparator]
      rw [htext, cutAt_append_mark, ih (by simp)]
      rfl

private theorem cutAtLast?_eq_none {cs : List Char} (h : mark ∉ cs) :
    cutAtLast? mark cs = none := by
  induction cs with
  | nil => rfl
  | cons c rest ih =>
    have hc : c ≠ mark := (List.ne_of_not_mem_cons h).symm
    rw [cutAtLast?, ih (List.not_mem_of_not_mem_cons h)]
    exact if_neg hc

/-- A mark with no other behind it is the last one, whatever stands in front. -/
theorem cutAtLast?_append_mark (before : List Char) {after : List Char} (h : mark ∉ after) :
    cutAtLast? mark (before ++ mark :: after) = some (before, after) := by
  induction before with
  | nil => simp [cutAtLast?, cutAtLast?_eq_none h]
  | cons c rest ih => rw [List.cons_append, cutAtLast?, ih]

end Cutting
end ExprLang.Text
