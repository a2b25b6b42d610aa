import ExprLang.Session
import Mathlib.Algebra.Ring.Parity
import Mathlib.Data.List.Basic

/-! A session is a machine whose only state is whether it is verbose. What it prints of a line
depends on that line and on how many lines in front of it have switched the state, and on nothing
else. -/
namespace ExprLang.Session

def bare (line : String) : String := String.ofList (Text.trim Text.isBlank line.toList)

def leaves (line : String) : Bool := bare line = "exit" ∨ bare line = "quit"

def silent (line : String) : Bool :=
  (bare line).isEmpty || (bare line).toList.head? = some '#'

def toggles (line : String) : Bool := (bare line).toLower = "verbose-mode"

/-- Whether a session is verbose behind some lines. -/
def verboseBehind (verbose : Bool) (lines : List String) : Bool :=
  verbose ^^ decide (Odd (lines.countP toggles))

@[simp] theorem verboseBehind_nil (verbose : Bool) : verboseBehind verbose [] = verbose := by
  simp [verboseBehind]

@[simp] theorem verboseBehind_cons (verbose : Bool) (line : String) (rest : List String) :
    verboseBehind verbose (line :: rest) = verboseBehind (verbose ^^ toggles line) rest := by
  rw [verboseBehind, verboseBehind, List.countP_cons]
  cases toggles line
  · simp
  · simp only [if_true, Nat.odd_add_one, Bool.xor_true, decide_not]
    cases verbose <;> simp

variable {limits : Limits} {table : Except TableError Table} {verbose : Bool} {line : String}

/-- What a session prints of a line, up to the next prompt. -/
def answer (limits : Limits) (table : Except TableError Table) (verbose : Bool) (line : String) :
    String :=
  match react limits table verbose line with
  | .leave => farewell
  | .goOn printed _ => printed

/-- What a session prints of lines that do not end it. -/
def answers (limits : Limits) (table : Except TableError Table) : Bool → List String → List String
  | _, [] => []
  | verbose, line :: rest =>
    answer limits table verbose line :: answers limits table (verbose ^^ toggles line) rest

private theorem not_silent_of_toggles (h : toggles line = true) : silent line = false := by
  -- Letters are lowered one by one, so the first one is lowered to the first one of the word.
  have hhead : (bare line).toList.head?.map Char.toLower = some 'v' := by
    have hlowered : ((bare line).map Char.toLower).toList.head? = "verbose-mode".toList.head? :=
      congrArg (·.toList.head?) (of_decide_eq_true h)
    simpa using hlowered
  cases hfirst : (bare line).toList.head? with
  | none => simp [hfirst] at hhead
  | some c =>
    have hlower : c.toLower = 'v' := by simpa [hfirst] using hhead
    have hc : c ≠ '#' := by
      rintro rfl
      cases hlower
    have hne : bare line ≠ "" := by
      intro hnil
      simp [hnil] at hfirst
    simp [silent, hfirst, hne, hc]

/-- All that a line can do that does not end the session. -/
theorem react_cases (h : leaves line = false) : react limits table verbose line =
    if silent line then .goOn "" verbose
    else if toggles line then
      .goOn ("[mode] >>> Verbose mode " ++ (if verbose then "OFF" else "ON") ++ "\n") (!verbose)
    else .goOn (Report.ofText limits table verbose (bare line)).shown verbose := by
  have hstays : ¬ (bare line = "exit" ∨ bare line = "quit") := of_decide_eq_false h
  simp only [silent, toggles, decide_eq_true_eq]
  exact if_neg hstays

private theorem react_of_leaves (h : leaves line = true) :
    react limits table verbose line = .leave :=
  if_pos (of_decide_eq_true h)

private theorem react_of_stays (h : leaves line = false) :
    react limits table verbose line =
      .goOn (answer limits table verbose line) (verbose ^^ toggles line) := by
  rw [answer, react_cases h]
  by_cases htoggles : toggles line = true
  · simp [not_silent_of_toggles htoggles, htoggles]
  · cases silent line <;> simp [htoggles]

theorem answer_of_parsed (hstays : leaves line = false) (hsilent : silent line = false)
    (htoggles : toggles line = false) :
    answer limits table verbose line = (Report.ofText limits table verbose (bare line)).shown := by
  simp [answer, react_cases hstays, hsilent, htoggles]

@[simp] theorem length_answers (verbose : Bool) (lines : List String) :
    (answers limits table verbose lines).length = lines.length := by
  induction lines generalizing verbose with
  | nil => rfl
  | cons line rest ih => simp [answers, ih]

private theorem getElem?_answers (verbose : Bool) (lines : List String) (i : Nat) :
    (answers limits table verbose lines)[i]? =
      lines[i]?.map (answer limits table (verboseBehind verbose (lines.take i))) := by
  induction lines generalizing verbose i with
  | nil => simp [answers]
  | cons line rest ih =>
    cases i with
    | zero => simp [answers]
    | succ i => simp [answers, ih]

/-- Lines in front are answered, and behind them the session goes on as if it began there. -/
theorem screens_append {lines : List String} (h : ∀ line ∈ lines, leaves line = false)
    (rest : List Typed) :
    screens limits table verbose (lines.map .line ++ rest) =
      (answers limits table verbose lines).map (· ++ prompt) ++
        screens limits table (verboseBehind verbose lines) rest := by
  induction lines generalizing verbose with
  | nil => simp [answers]
  | cons line lines ih =>
    obtain ⟨hline, hlines⟩ := List.forall_mem_cons.mp h
    simp only [List.map_cons, List.cons_append, screens, react_of_stays hline, answers,
      verboseBehind_cons, ih hlines]

/-- A session with the same table may begin behind lines that are answered. -/
theorem transcript_append {lines : List String} (h : ∀ line ∈ lines, leaves line = false)
    (rest : List Typed) :
    transcript limits table verbose (lines.map .line ++ rest) =
      ⟨(banner ++ prompt) :: ((answers limits table verbose lines).map (· ++ prompt) ++
          screens limits table (verboseBehind verbose lines) rest),
        lines.length + (transcript limits table (verboseBehind verbose lines) rest).read⟩ := by
  simp [transcript, screens_append h, Nat.add_min_add_left]

/-- How a session ends: by a line, by the wish to break off, or for want of input. The text is what
is printed, and the number counts what is read. -/
inductive Ends : List Typed → String → Nat → Prop
  | leave {line : String} (h : leaves line = true) (behind : List Typed) :
    Ends (.line line :: behind) farewell 1
  | interrupt (behind : List Typed) : Ends (.interrupt :: behind) ("\n" ++ farewell) 1
  | noInput : Ends [] ("\n" ++ farewell) 0

/-- Whatever is typed, the session ends behind some lines that do not end it. -/
theorem exists_ends (typed : List Typed) :
    ∃ (lines : List String) (rest : List Typed) (last : String) (count : Nat),
      typed = lines.map .line ++ rest ∧ (∀ line ∈ lines, leaves line = false) ∧
        Ends rest last count := by
  induction typed with
  | nil => exact ⟨[], [], _, _, rfl, by simp, .noInput⟩
  | cons first typed ih =>
    cases first with
    | interrupt => exact ⟨[], _, _, _, rfl, by simp, .interrupt typed⟩
    | line line =>
      cases hleaves : leaves line with
      | true => exact ⟨[], _, _, _, rfl, by simp, .leave hleaves typed⟩
      | false =>
        obtain ⟨lines, rest, last, count, rfl, hlines, hends⟩ := ih
        exact ⟨line :: lines, rest, last, count, rfl, by simpa [hleaves] using hlines, hends⟩

private theorem transcript_of_ends {typed : List Typed} {last : String} {count : Nat}
    (h : Ends typed last count) :
    transcript limits table verbose typed = ⟨[banner ++ prompt, last], count⟩ := by
  cases h with
  | leave h behind => simp [transcript, screens, react_of_leaves h]
  | interrupt behind => simp [transcript, screens]
  | noInput => simp [transcript, screens]

private theorem exists_chooseTable {table : Option (Except TableError Table)}
    {setting : Option String}
    (h : table.isSome ∨ ∃ asked, Table.ofEnvironment setting = .ok asked) :
    ∃ chosen, chooseTable table setting = .ok chosen := by
  cases table with
  | some table => exact ⟨table, rfl⟩
  | none =>
    obtain ⟨asked, hasked⟩ := h.resolve_left nofun
    exact ⟨.ok (asked.getD .standard), by rw [chooseTable, hasked]; rfl⟩

/-- A session decomposes line by line. What is printed of each line is what a session on this line
alone prints of it, with the state behind the lines in front, and what is printed behind the lines
is what a session prints that begins with the state behind all of them. A line in between that
switches nothing, be it silent, parsed, refused or a crash, changes nothing that is printed of other
lines. The session ends with one farewell at the first line that ends it, at the first wish to break
off or at the end of the input, whatever stands behind. -/
theorem run_lines (limits : Limits) {table : Option (Except TableError Table)}
    {setting : Option String}
    (hopens : table.isSome ∨ ∃ asked, Table.ofEnvironment setting = .ok asked) (verbose : Bool)
    {lines : List String} (hlines : ∀ line ∈ lines, leaves line = false) (rest : List Typed) :
    ∃ (chosen : Except TableError Table) (printed ends : List String),
      chooseTable table setting = .ok chosen ∧
      run limits table setting verbose (lines.map .line ++ rest) =
        ⟨(banner ++ prompt) :: (printed.map (· ++ prompt) ++ ends),
          lines.length + (run limits table setting (verboseBehind verbose lines) rest).read⟩ ∧
      (run limits table setting (verboseBehind verbose lines) rest).screens =
        (banner ++ prompt) :: ends ∧
      printed.length = lines.length ∧
      (∀ i line, lines[i]? = some line → ∃ text, printed[i]? = some text ∧
        run limits table setting (verboseBehind verbose (lines.take i)) [.line line] =
          ⟨[banner ++ prompt, text ++ prompt, "\n" ++ farewell], 1⟩) ∧
      (∀ line, leaves line = false → toggles line = false → ∃ text,
        (silent line = false → text =
          (Report.ofText limits chosen (verboseBehind verbose lines) (bare line)).shown) ∧
        run limits table setting verbose (lines.map .line ++ .line line :: rest) =
          ⟨(banner ++ prompt) :: (printed.map (· ++ prompt) ++ (text ++ prompt) :: ends),
            lines.length + 1 +
              (run limits table setting (verboseBehind verbose lines) rest).read⟩) ∧
      (∀ last count, Ends rest last count → ends = [last] ∧
        (run limits table setting (verboseBehind verbose lines) rest).read = count) ∧
      ∃ (more : List String) (tail : List Typed) (last : String) (count : Nat),
        rest = more.map .line ++ tail ∧ (∀ line ∈ more, leaves line = false) ∧
          Ends tail last count := by
  obtain ⟨chosen, hchosen⟩ := exists_chooseTable hopens
  have hrun (verbose : Bool) (typed : List Typed) :
      run limits table setting verbose typed = transcript limits chosen verbose typed := by
    rw [run, hchosen]
  simp only [hrun]
  refine ⟨chosen, answers limits chosen verbose lines,
    screens limits chosen (verboseBehind verbose lines) rest, hchosen,
    transcript_append hlines rest, rfl, length_answers _ _, fun i line hline => ?_,
    fun line hstays htoggles => ?_, fun last count hends => ?_, exists_ends rest⟩
  · have hstays := hlines line (List.mem_of_getElem? hline)
    refine ⟨answer limits chosen (verboseBehind verbose (lines.take i)) line, ?_, ?_⟩
    · rw [getElem?_answers, hline, Option.map_some]
    · simp [transcript, screens, react_of_stays hstays]
  · have hbehind : transcript limits chosen (verboseBehind verbose lines) (.line line :: rest) = _ :=
      transcript_append (List.forall_mem_singleton.mpr hstays) rest
    refine ⟨answer limits chosen (verboseBehind verbose lines) line,
      fun hsilent => answer_of_parsed hstays hsilent htoggles, ?_⟩
    rw [transcript_append hlines, hbehind, Nat.add_assoc]
    simp [screens, react_of_stays hstays, htoggles]
  · have hbehind : transcript limits chosen (verboseBehind verbose lines) rest = _ :=
      transcript_of_ends hends
    refine ⟨?_, by rw [hbehind]⟩
    exact (List.cons.inj (congrArg Transcript.screens hbehind)).2

/-- A session is switched, is told of a bad number and ends, with one more line in store. The number
alone brings the same about in a session that is verbose from the start. -/
theorem run_lines_badNumber : ∃ mode error,
    run ⟨2, 2, 2⟩ none none false [.line "Verbose-Mode", .line "1.2.3", .line " quit ", .line "x"] =
        ⟨[banner ++ prompt, mode ++ prompt, error ++ prompt, farewell], 3⟩ ∧
      run ⟨2, 2, 2⟩ none none true [.line "1.2.3"] =
        ⟨[banner ++ prompt, error ++ prompt, "\n" ++ farewell], 1⟩ := by
  have hopens : (none : Option (Except TableError Table)).isSome ∨
      ∃ asked, Table.ofEnvironment none = .ok asked := .inr ⟨none, rfl⟩
  have hlines : ∀ line ∈ ["Verbose-Mode", "1.2.3"], leaves line = false := by decide
  have htoggles : toggles "Verbose-Mode" = true := by decide +kernel
  have hquit : leaves " quit " = true := by decide
  obtain ⟨_, printed, ends, _, hrun, _, hlength, halone, _, hends, _⟩ :=
    run_lines ⟨2, 2, 2⟩ hopens false hlines [.line " quit ", .line "x"]
  obtain ⟨rfl, hread⟩ := hends _ _ (.leave hquit [.line "x"])
  obtain ⟨mode, error, rfl⟩ := List.length_eq_two.mp hlength
  obtain ⟨_, htext, hverbose⟩ := halone 1 "1.2.3" rfl
  cases htext
  have htrue : verboseBehind false (["Verbose-Mode", "1.2.3"].take 1) = true := by
    simp [htoggles]
  rw [hread] at hrun
  rw [htrue] at hverbose
  exact ⟨mode, error, hrun, hverbose⟩

end ExprLang.Session
