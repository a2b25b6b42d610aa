import ExprLang.Precedence.Entries

/-! The check of a proposal makes a legal table of it, or refuses it. -/
namespace ExprLang

namespace Entries

/-- No two operators of a proposal are the same. -/
def Distinct (entries : Entries) : Prop :=
  (entries.pairs.map Prod.fst).Pairwise fun v w => v.same w = false

theorem Distinct.put {entries : Entries} (h : entries.Distinct) (operator strength : Value) :
    (entries.put operator strength).Distinct := by
  unfold Entries.put
  split
  · have hkeys : (entries.pairs.map fun pair =>
        if pair.1.same operator then (pair.1, strength) else pair).map Prod.fst =
          entries.pairs.map Prod.fst := by
      rw [List.map_map]
      refine List.map_congr_left fun pair _ => ?_
      simp only [Function.comp]
      split <;> rfl
    rw [Distinct, hkeys]
    exact h
  · rename_i hnew
    rw [Distinct, List.map_append, List.pairwise_append]
    refine ⟨h, List.pairwise_singleton _ _, fun v hv w hw => ?_⟩
    obtain rfl : w = operator := by simpa using hw
    obtain ⟨pair, hpair, rfl⟩ := List.mem_map.mp hv
    rw [List.any_eq_true, not_exists] at hnew
    exact Bool.eq_false_iff.mpr fun hsame => hnew pair ⟨hpair, hsame⟩

/-- Later proposals take the place of earlier ones, so none stands twice. -/
theorem ofList_distinct (pairs : List (Value × Value)) : (ofList pairs).Distinct := by
  have hfold (pairs : List (Value × Value)) {entries : Entries} (h : entries.Distinct) :
      (pairs.foldl (fun entries pair => entries.put pair.1 pair.2) entries).Distinct := by
    induction pairs generalizing entries with
    | nil => exact h
    | cons pair rest ih => exact ih (h.put pair.1 pair.2)
  exact hfold pairs List.Pairwise.nil

/-- The proposal of a caller, who may leave the table open. -/
def given : Option (List (Value × Value)) → Entries
  | none => .standard
  | some pairs => .ofList pairs

theorem given_distinct (table : Option (List (Value × Value))) : (given table).Distinct := by
  cases table with
  | none => exact ofList_distinct standard.pairs
  | some pairs => exact ofList_distinct pairs

/-- Only an operator character with a whole strength above zero passes. -/
theorem checkPair_eq_ok_iff {pair : Value × Value} {c : Char} {n : Int} :
    checkPair pair = .ok (c, n) ↔ pair = (.text (String.singleton c), .integer n) ∧
      isOperatorChar c = true ∧ 0 < n := by
  obtain ⟨operator, strength⟩ := pair
  constructor
  · intro h
    cases operator with
    | text s =>
      simp only [checkPair] at h
      split at h
      · rename_i d hd
        split at h
        · rename_i hop
          cases strength with
          | integer m =>
            simp only at h
            split at h
            · rename_i hm
              cases h
              have hs : s = String.singleton c := String.toList_injective (by simpa using hd)
              exact ⟨by rw [hs], hop, hm⟩
            · cases h
          | _ => cases h
        · cases h
      · cases h
    | _ => cases h
  · rintro ⟨he, hop, hn⟩
    cases he
    simp [checkPair, hop, hn]

private theorem checkPairs_cons_eq_ok_iff {pair : Value × Value} {rest : List (Value × Value)}
    {found : List (Char × Int)} : checkPairs (pair :: rest) = .ok found ↔
      ∃ entry more, checkPair pair = .ok entry ∧ checkPairs rest = .ok more ∧
        found = entry :: more := by
  rw [checkPairs]
  cases checkPair pair with
  | error e => simp [bind, Except.bind]
  | ok entry =>
    cases checkPairs rest with
    | error e => simp [bind, Except.bind]
    | ok more => simp [bind, Except.bind, pure, Except.pure, eq_comm]

private theorem checkPairs_eq_ok_iff {pairs : List (Value × Value)} {found : List (Char × Int)} :
    checkPairs pairs = .ok found ↔ pairs = (ofTable ⟨found⟩).pairs ∧
      ∀ entry ∈ found, isOperatorChar entry.1 = true ∧ 0 < entry.2 := by
  induction pairs generalizing found with
  | nil =>
    constructor
    · intro h
      cases h
      exact ⟨rfl, by simp⟩
    · rintro ⟨h, _⟩
      obtain rfl : found = [] := List.map_eq_nil_iff.mp h.symm
      rfl
  | cons pair rest ih =>
    rw [checkPairs_cons_eq_ok_iff]
    constructor
    · rintro ⟨⟨c, n⟩, more, hpair, hmore, rfl⟩
      obtain ⟨rfl, hentry⟩ := checkPair_eq_ok_iff.mp hpair
      obtain ⟨rfl, hrest⟩ := ih.mp hmore
      exact ⟨rfl, List.forall_mem_cons.mpr ⟨hentry, hrest⟩⟩
    · rintro ⟨h, hfound⟩
      obtain ⟨⟨c, n⟩, more, rfl, rfl, hmore⟩ := List.map_eq_cons_iff.mp h.symm
      obtain ⟨hentry, hrest⟩ := List.forall_mem_cons.mp hfound
      exact ⟨(c, n), more, checkPair_eq_ok_iff.mpr ⟨rfl, hentry⟩,
        ih.mpr ⟨hmore.symm, hrest⟩, rfl⟩

/-- A proposal passes the check if it is a table, and is kept as it is. -/
theorem check_eq_ok_iff {entries : Entries} {t : Table} : entries.check = .ok t ↔
    entries = ofTable t ∧ ∀ entry ∈ t.entries, isOperatorChar entry.1 = true ∧ 0 < entry.2 := by
  obtain ⟨pairs⟩ := entries
  obtain ⟨found⟩ := t
  have hcheck : check ⟨pairs⟩ = .ok ⟨found⟩ ↔ checkPairs pairs = .ok found := by
    rw [check]
    cases checkPairs pairs <;> simp [Except.map]
  rw [hcheck, checkPairs_eq_ok_iff]
  exact and_congr_left fun _ => (Entries.mk.injEq _ _).to_iff.symm

/-- A proposal that passes the check is a legal table. -/
theorem Distinct.legal {entries : Entries} (h : entries.Distinct) {t : Table}
    (hcheck : entries.check = .ok t) : t.Legal := by
  obtain ⟨rfl, hentries⟩ := check_eq_ok_iff.mp hcheck
  refine ⟨?_, fun entry he => (hentries entry he).1, fun entry he => (hentries entry he).2⟩
  rw [Distinct, ofTable, List.map_map, List.pairwise_map] at h
  rw [List.Nodup, List.pairwise_map]
  refine h.imp fun {a b} hsame he => ?_
  simp [Value.same, he] at hsame

end Entries
end ExprLang
