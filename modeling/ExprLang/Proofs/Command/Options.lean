import ExprLang.Command.Line
import ExprLang.Proofs.Precedence.Specs

/-! Specifications that are given in options one by one, in one option or in the environment ask for
the same table. -/
namespace ExprLang

namespace Settings

def withSpecs (front : List (Option String)) (s : Settings) : Settings :=
  { s with specs := front ++ s.specs }

variable (front : List (Option String)) (s : Settings)

private theorem takePlain_withSpecs (text : String) :
    (s.withSpecs front).takePlain text = (s.takePlain text).withSpecs front := by
  obtain ⟨source, _⟩ := s
  cases source <;> rfl

private theorem setValue_withSpecs (value : String) (switch : Switch) :
    (s.withSpecs front).setValue value switch = (s.setValue value switch).withSpecs front := by
  cases switch <;> simp [setValue, withSpecs]

private theorem chooseMode_withSpecs (choice : Switch) :
    (s.withSpecs front).chooseMode choice = (s.chooseMode choice).map (withSpecs front) := by
  obtain ⟨_, _, mode, _⟩ := s
  cases mode with
  | none => rfl
  | some earlier =>
    change (if earlier = choice then _ else _) = Except.map _ (if earlier = choice then _ else _)
    split <;> rfl

private theorem set_withSpecs (switch : Switch) :
    (s.withSpecs front).set switch = (s.set switch).map (withSpecs front) := by
  cases switch with
  | json => exact chooseMode_withSpecs front s .json
  | tokens => exact chooseMode_withSpecs front s .tokens
  | _ => rfl

private theorem unlessHelp_withSpecs {next : Settings → Except UsageError Settings}
    (hnext : next (s.withSpecs front) = (next s).map (withSpecs front)) :
    (if s.help then .ok (s.withSpecs front) else next (s.withSpecs front)) =
      (if s.help then .ok s else next s : Except UsageError Settings).map (withSpecs front) := by
  split
  · rfl
  · exact hnext

private theorem setAll_withSpecs (switches : List Switch) :
    (s.withSpecs front).setAll switches = (s.setAll switches).map (withSpecs front) := by
  induction switches generalizing s with
  | nil => rfl
  | cons switch rest ih =>
    rw [setAll, setAll, set_withSpecs]
    cases s.set switch with
    | error e => rfl
    | ok after => exact @unlessHelp_withSpecs front after (setAll · rest) (ih after)

private theorem setAll_bind_withSpecs {next : Settings → Except UsageError Settings}
    (hnext : ∀ s, next (s.withSpecs front) = (next s).map (withSpecs front))
    (switches : List Switch) :
    (do
      let s ← (s.withSpecs front).setAll switches
      if s.help then return s else next s) =
    (do
      let s ← s.setAll switches
      if s.help then return s else next s : Except UsageError Settings).map (withSpecs front) := by
  rw [setAll_withSpecs]
  cases s.setAll switches with
  | error e => rfl
  | ok after => exact unlessHelp_withSpecs front after (hnext after)

private theorem takeAll_withSpecs (args : List Argument) :
    (s.withSpecs front).takeAll args = (s.takeAll args).map (withSpecs front) := by
  fun_induction takeAll s args with
  | case1 => rfl
  | case2 s text rest hsource ih =>
    have hsource' : (s.withSpecs front).source.isNone = true := hsource
    rw [takeAll, if_pos hsource', takePlain_withSpecs, ih]
  | case3 s text rest hsource ih =>
    have hsource' : ¬ (s.withSpecs front).source.isNone = true := hsource
    rw [takeAll, if_neg hsource', takePlain_withSpecs]
    exact ih
  | case4 s text rest hnext ih => rw [takeAll.eq_3 _ _ _ hnext, takePlain_withSpecs, ih]
  | case5 s rest ih =>
    rw [takeAll, ← ih]
    congr 1
    change (if s.source.isNone then _ else _) = _
    split <;> rfl
  | case6 s text rest ih =>
    rw [takeAll]
    exact ih
  | case7 s first short attached rest e h =>
    rw [takeAll.eq_6 _ _ _ _ _ e h]
    rfl
  | case8 s first short attached before last rest h ih =>
    rw [takeAll.eq_7 _ _ _ _ _ before last h]
    exact setAll_bind_withSpecs front s ih (before ++ [last])
  | case9 s first short attached before last value rest h ih =>
    rw [takeAll.eq_8 _ _ _ _ _ before last value h]
    exact setAll_bind_withSpecs front s (fun s => by rw [setValue_withSpecs, ih]) before
  | case10 s first short attached before last value rest h ih =>
    rw [takeAll.eq_9 _ _ _ _ before last value rest h]
    exact setAll_bind_withSpecs front s (fun s => by rw [setValue_withSpecs, ih]) before
  | case11 s first short attached rest before last h hnext =>
    rw [takeAll.eq_10 _ _ _ _ _ _ _ h hnext]
    rfl

private def addSpecs (specs : List String) :
    Settings := { s with specs := s.specs ++ specs.map some }

private theorem addSpecs_cons (spec : String) (specs : List String) :
    s.addSpecs (spec :: specs) = (s.addSpecs [spec]).addSpecs specs := by
  simp [addSpecs]

variable {s} {spec : String} (hhelp : s.help = false) (hspec : spec ≠ "--") (rest : List Argument)

include hhelp hspec

private theorem takeAll_attachedTable (short : Bool) :
    s.takeAll (.switch .table short (some spec.toList) :: rest) =
      (s.addSpecs [spec]).takeAll rest := by
  have hvalue : s.setValue spec .table = s.addSpecs [spec] := by simp [setValue, addSpecs, hspec]
  have hcluster : Switch.cluster .table short (some spec.toList) =
      .ok ([], .table, .attached spec) := by
    cases short with
    | false => simp [Switch.cluster, Switch.takesValue]
    | true =>
      have htakes : Switch.table.takesValue = true := rfl
      rw [Switch.cluster, if_pos rfl, Switch.shortCluster.eq_def, if_pos htakes, String.ofList_toList]
  rw [takeAll.eq_8 _ _ _ _ _ [] .table spec hcluster, ← hvalue]
  exact if_neg (by simp [hhelp])

private theorem takeAll_separateTable (short : Bool) :
    s.takeAll (.switch .table short none :: .plain spec :: rest) =
      (s.addSpecs [spec]).takeAll rest := by
  have hvalue : s.setValue spec .table = s.addSpecs [spec] := by simp [setValue, addSpecs, hspec]
  rw [takeAll.eq_9 _ _ _ _ [] .table spec _ rfl, ← hvalue]
  exact if_neg (by simp [hhelp])

end Settings

namespace Argument

private theorem ne_mark {arg : String} {first : Argument} (h : ofText arg = .ok first) :
    arg ≠ "--" := by
  obtain ⟨e, hmark⟩ : ∃ e, ofText "--" = .error e := ⟨_, rfl⟩
  rintro rfl
  cases hmark.symm.trans h

private theorem ofTexts_cons {arg : String} {first : Argument} (h : ofText arg = .ok first)
    (rest : List String) : ofTexts (arg :: rest) = (ofTexts rest).map (first :: ·) := by
  rw [ofTexts.eq_3 _ _ (ne_mark h), h]
  cases ofTexts rest <;> rfl

private theorem ofText_equalsTable {name : String} (hname : name = "--prec" ∨ name = "-P")
    (spec : String) :
    ofText (name ++ "=" ++ spec) =
      .ok (.switch .table (name.toList.length == 2) (some spec.toList)) := by
  have htext : (name ++ "=" ++ spec).toList = name.toList ++ '=' :: spec.toList := by simp
  have hspelling : Switch.ofSpelling? (name.toList ++ '=' :: spec.toList) = none := by
    rcases hname with rfl | rfl <;> simp [Switch.ofSpelling?, Switch.spellings, List.lookup_cons]
  have hcut : cutAtEquals (name.toList ++ '=' :: spec.toList) =
      (name.toList, some spec.toList) := by
    rcases hname with rfl | rfl <;> rfl
  rw [ofText, htext]
  simp only [hspelling]
  rw [if_pos (by rcases hname with rfl | rfl <;> simp), ofDashed]
  simp only [hcut]
  rcases hname with rfl | rfl <;> rfl

private theorem ofText_attachedTable {spec : String} {c : Char}
    (hfirst : spec.toList.head? = some c)
    (hc : c ≠ '=') : ofText ("-P" ++ spec) = .ok (.switch .table true (some spec.toList)) := by
  obtain ⟨cs, hspec⟩ := List.head?_eq_some_iff.mp hfirst
  have htext : ("-P" ++ spec).toList = '-' :: 'P' :: c :: cs := by simp [hspec]
  have hspelling (more : List Char) : Switch.ofSpelling? ('-' :: 'P' :: c :: more) = none := by
    simp [Switch.ofSpelling?, Switch.spellings, List.lookup_cons]
  have hname : ∃ more, (cutAtEquals ('-' :: 'P' :: c :: cs)).1 = '-' :: 'P' :: c :: more := by
    rw [cutAtEquals]
    split
    · exact ⟨cs, rfl⟩
    · exact ⟨cs.takeWhile (· != '='), by simp [hc]⟩
  obtain ⟨more, hname⟩ := hname
  rw [ofText, htext]
  simp only [hspelling]
  rw [if_pos (by simp), ofDashed, hspec]
  simp only [hname, hspelling]
  cases (cutAtEquals ('-' :: 'P' :: c :: cs)).2 <;> rfl

end Argument

/-- One specification in an argument of its own: behind a name of the switch and an equals sign, or
right behind the short name. -/
inductive HoldsSpec (spec : String) : String → Prop
  | equals {name : String} (hname : name = "--prec" ∨ name = "-P") :
    HoldsSpec spec (name ++ "=" ++ spec)
  | attached {c : Char} (hfirst : spec.toList.head? = some c) (hc : c ≠ '=') :
    HoldsSpec spec ("-P" ++ spec)

/-- Options that give specifications in order, each together with the switch or in the argument
behind it. There it must not look like a switch itself: `-P -=30` is refused for want of a value,
and the strength of a minus sign has to be given together with the switch. -/
inductive GivesSpecs : List String → List String → Prop
  | nil : GivesSpecs [] []
  | together {option spec : String} {options specs : List String} (hoption : HoldsSpec spec option)
    (hspec : spec ≠ "--") (h : GivesSpecs options specs) :
    GivesSpecs (option :: options) (spec :: specs)
  | separate {name spec : String} {options specs : List String}
    (hname : name = "--prec" ∨ name = "-P") (hspec : Argument.ofText spec = .ok (.plain spec))
    (h : GivesSpecs options specs) : GivesSpecs (name :: spec :: options) (spec :: specs)

private theorem HoldsSpec.ofText {spec option : String} (h : HoldsSpec spec option) :
    ∃ short, Argument.ofText option = .ok (.switch .table short (some spec.toList)) := by
  cases h with
  | equals hname => exact ⟨_, Argument.ofText_equalsTable hname spec⟩
  | attached hfirst hc => exact ⟨_, Argument.ofText_attachedTable hfirst hc⟩

namespace GivesSpecs

open Settings

variable {options specs : List String}

private theorem takeAll (h : GivesSpecs options specs) {s : Settings} (hhelp : s.help = false)
    (rest : List String) : (Argument.ofTexts (options ++ rest)).bind s.takeAll =
      (Argument.ofTexts rest).bind (s.addSpecs specs).takeAll := by
  induction h generalizing s with
  | nil => simp [addSpecs]
  | @together option spec options specs hoption hspec _ ih =>
    obtain ⟨short, hswitch⟩ := hoption.ofText
    rw [List.cons_append, Argument.ofTexts_cons hswitch, addSpecs_cons,
      ← @ih (s.addSpecs [spec]) hhelp]
    cases Argument.ofTexts (options ++ rest) with
    | error e => rfl
    | ok args => exact takeAll_attachedTable hhelp hspec args short
  | @separate name spec options specs hname hplain _ ih =>
    obtain ⟨short, hswitch⟩ : ∃ short, Argument.ofText name = .ok (.switch .table short none) := by
      rcases hname with rfl | rfl <;> exact ⟨_, rfl⟩
    rw [List.cons_append, List.cons_append, Argument.ofTexts_cons hswitch,
      Argument.ofTexts_cons hplain, addSpecs_cons, ← @ih (s.addSpecs [spec]) hhelp]
    cases Argument.ofTexts (options ++ rest) with
    | error e => rfl
    | ok args => exact takeAll_separateTable hhelp (Argument.ne_mark hplain) args short

/-- Options that give specifications in front of all other arguments only put them in front of the
specifications that those ask for. -/
theorem ofArguments (h : GivesSpecs options specs) (rest : List String) :
    Settings.ofArguments (options ++ rest) =
      (Settings.ofArguments rest).map (withSpecs (specs.map some)) := by
  have hbind (args : List String) : Settings.ofArguments args =
      ((Argument.ofTexts args).bind initial.takeAll).bind fun s =>
        if s.help || s.unrecognized.isEmpty then .ok s
        else .error (.unrecognized s.unrecognized) := by
    rw [Settings.ofArguments]
    cases Argument.ofTexts args <;> rfl
  have hinitial : initial.addSpecs specs = initial.withSpecs (specs.map some) := by
    simp [addSpecs, withSpecs, initial]
  rw [hbind, hbind, h.takeAll rfl, hinitial]
  cases Argument.ofTexts rest with
  | error e => rfl
  | ok args =>
    change ((initial.withSpecs (specs.map some)).takeAll args).bind _ =
      ((initial.takeAll args).bind _).map _
    rw [takeAll_withSpecs]
    cases initial.takeAll args with
    | error e => rfl
    | ok s =>
      change (if s.help || s.unrecognized.isEmpty then Except.ok (s.withSpecs (specs.map some))
        else .error (UsageError.unrecognized s.unrecognized)) =
          Except.map _ (if s.help || s.unrecognized.isEmpty then Except.ok s
            else .error (UsageError.unrecognized s.unrecognized))
      split <;> rfl

end GivesSpecs

namespace Command

private theorem presentSpecs_append (front : List String) (specs : List (Option String)) :
    presentSpecs (front.map some ++ specs) =
      if specs.contains none then
        ((Entries.standard.putEntries (Entries.specEntries front ++ Entries.specEntries
          ((specs.takeWhile (·.isSome)).filterMap id))).mapError .badTable).bind fun _ =>
            .error .missing
      else .ok (front ++ specs.filterMap id) := by
  have hfront : (front.map some ++ specs).takeWhile (·.isSome) =
      front.map some ++ specs.takeWhile (·.isSome) := List.takeWhile_append_of_pos (by simp)
  have hmissing : (front.map some ++ specs).contains none = specs.contains none := by simp
  have hpresent (specs : List (Option String)) : (front.map some ++ specs).filterMap id =
      front ++ specs.filterMap id := by
    rw [List.filterMap_append, List.filterMap_map]
    simp
  rw [presentSpecs, hmissing, hfront, hpresent, hpresent, ← Entries.specEntries_append]
  rfl

variable {front other : List String}

/-- For the table it does not matter how the entries in front are divided among specifications. -/
theorem tableOf_withSpecs (hfront : front ≠ []) (hother : other ≠ [])
    (h : Entries.specEntries front = Entries.specEntries other) (s : Settings) :
    tableOf (s.withSpecs (front.map some)) = tableOf (s.withSpecs (other.map some)) := by
  have htable (more : List String) :
      Table.ofSpecs (front ++ more) .standard = Table.ofSpecs (other ++ more) .standard := by
    rw [Table.ofSpecs, Table.ofSpecs, Entries.specEntries_append, Entries.specEntries_append, h]
  rw [tableOf, tableOf, Settings.withSpecs, Settings.withSpecs, presentSpecs_append,
    presentSpecs_append, h]
  split
  · rfl
  · change (if (front ++ s.specs.filterMap id).isEmpty then _ else _) =
      if (other ++ s.specs.filterMap id).isEmpty then _ else _
    rw [if_neg (by simp [hfront]), if_neg (by simp [hother]), htable]

private theorem tableOf_specs {s : Settings} (h : s.specs = front.map some) (hfront : front ≠ []) :
    tableOf s = ((Table.ofSpecs front .standard).map some).mapError .badTable := by
  have hspecs : presentSpecs (front.map some) = .ok front := by
    simpa using presentSpecs_append front []
  rw [tableOf, h, hspecs]
  cases front with
  | nil => exact absurd rfl hfront
  | cons spec rest => rfl

private theorem ofSettings_withSpecs (hfront : front ≠ []) (hother : other ≠ [])
    (h : Entries.specEntries front = Entries.specEntries other) (s : Settings) :
    Plan.ofSettings (s.withSpecs (front.map some)) =
      Plan.ofSettings (s.withSpecs (other.map some)) := by
  rw [Plan.ofSettings, Plan.ofSettings, tableOf_withSpecs hfront hother h]
  rfl

end Command

namespace GivesSpecs

variable {options specs : List String}

private theorem plan (h : GivesSpecs options specs) (hne : specs ≠ []) (rest : List String) :
    Command.plan (options ++ rest) =
      match Settings.ofArguments rest with
      | .error e => .refuse e
      | .ok s => .ofSettings (s.withSpecs (specs.map some)) := by
  have hsome : ¬ (options ++ rest).isEmpty = true := by
    cases h with
    | nil => exact absurd rfl hne
    | together => simp
    | separate => simp
  rw [Command.plan, if_neg hsome, h.ofArguments]
  cases Settings.ofArguments rest <;> rfl

/-- Options that give specifications and nothing else open a session over the table of these. -/
theorem plan_alone (h : GivesSpecs options specs) (hne : specs ≠ []) :
    Command.plan options =
      match Table.ofSpecs specs .standard with
      | .error e => .refuse (.badTable e)
      | .ok t => .session (some t) false := by
  have hspecs : (Settings.initial.withSpecs (specs.map some)).specs = specs.map some :=
    List.append_nil _
  have hplan := h.plan hne []
  rw [List.append_nil] at hplan
  rw [hplan]
  change Command.Plan.ofSettings (Settings.initial.withSpecs (specs.map some)) = _
  rw [Command.Plan.ofSettings, Command.tableOf_specs hspecs hne]
  cases Table.ofSpecs specs .standard <;> rfl

end GivesSpecs

/-- Specifications are put over a base in order: a table that the first ones lead to may stand for
them and the base, and a comma does what the next specification does. So the command finds the same
table, or the same fault, in options one by one and in a single one, whatever other arguments there
are, and a session finds it in the environment. -/
theorem specs_compose :
    (∀ (first rest : List String) (base : Entries) (t : Table),
      Table.ofSpecs first base = .ok t →
        Table.ofSpecs (first ++ rest) base = Table.ofSpecs rest (.ofTable t)) ∧
    (∀ (specs : List String) (base : Entries),
      Table.ofSpecs [Text.joined "," specs] base = Table.ofSpecs specs base) ∧
    ∀ specs : List String,
      (∀ options, GivesSpecs options specs → specs ≠ [] →
        (∀ single, GivesSpecs single [Text.joined "," specs] → ∀ rest,
          Command.plan (options ++ rest) = Command.plan (single ++ rest)) ∧
        Command.plan options =
          match Table.ofSpecs specs .standard with
          | .error e => .refuse (.badTable e)
          | .ok t => .session (some t) false) ∧
      Session.chooseTable none (some (Text.joined "," specs)) =
        (Table.ofSpecs specs .standard).map .ok := by
  refine ⟨fun first rest base t h => Table.ofSpecs_append h rest, Table.ofSpecs_joined,
    fun specs => ⟨fun options hoptions hne => ⟨fun single hsingle rest => ?_,
      hoptions.plan_alone hne⟩, ?_⟩⟩
  · have hsettings := Command.ofSettings_withSpecs hne (List.cons_ne_nil _ _)
      (Entries.specEntries_joined hne).symm
    rw [hoptions.plan hne, hsingle.plan (List.cons_ne_nil _ _)]
    simp only [hsettings]
  · have htable := Table.ofEnvironment_getD (Text.joined "," specs)
    rw [Table.ofSpecs_joined] at htable
    rw [← htable, Session.chooseTable]
    cases Table.ofEnvironment (some (Text.joined "," specs)) <;> rfl

/-- The second specification mends what the first one spoils, and the third is at fault. -/
theorem specs_compose_mended :
    Table.ofSpecs ["+=0, ==7", ",-= 5 ,+=\t1"] .standard =
        .ok ⟨[('<', 10), ('+', 1), ('-', 5), ('*', 40), ('=', 7)]⟩ ∧
      Table.ofSpecs ["+=0, ==7", ",-= 5 ,+=\t1", "x=3"] .standard =
        Table.ofSpecs ["x=3"] (.ofTable ⟨[('<', 10), ('+', 1), ('-', 5), ('*', 40), ('=', 7)]⟩) ∧
      Command.plan ["-P", "+=0", "--prec=+=1", "-P-=30", "-s", "a+b"] =
        Command.plan ["--prec=+=0,+=1,-=30", "-s", "a+b"] := by
  have hfirst : Table.ofSpecs ["+=0, ==7", ",-= 5 ,+=\t1"] .standard =
      .ok ⟨[('<', 10), ('+', 1), ('-', 5), ('*', 40), ('=', 7)]⟩ := by rfl
  have hoptions : GivesSpecs ["-P", "+=0", "--prec=+=1", "-P-=30"] ["+=0", "+=1", "-=30"] :=
    .separate (.inr rfl) (by rfl) (.together (.equals (.inl rfl)) (by decide)
      (.together (@HoldsSpec.attached _ '-' (by rfl) (by decide)) (by decide) .nil))
  have hsingle : GivesSpecs ["--prec=+=0,+=1,-=30"] [Text.joined "," ["+=0", "+=1", "-=30"]] :=
    .together (.equals (.inl rfl)) (by decide) .nil
  obtain ⟨happend, _, hspecs⟩ := specs_compose
  exact ⟨hfirst, happend _ ["x=3"] _ _ hfirst,
    ((hspecs _).1 _ hoptions (List.cons_ne_nil _ _)).1 _ hsingle ["-s", "a+b"]⟩

end ExprLang
