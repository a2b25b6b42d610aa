import ExprLang.Proofs.Number.GeneralText
import ExprLang.Proofs.Writing.Escapes

/-! Documents are read back from the JSON that they are written as. -/
namespace ExprLang.Document

/-- Blanks and the ends of lines, which may stand between the parts of a document. -/
def isSpace (c : Char) : Bool := c = ' ' || c = '\n'

def isNumberChar (c : Char) : Bool :=
  Text.isAsciiDigit c || ['-', '+', '.', 'e', 'i', 'n', 'f', 'a'].contains c

def isWholeChar (c : Char) : Bool := Text.isAsciiDigit c || c = '-'

/-- The value of digits with an optional sign. -/
def wholeNumber : List Char → Int
  | '-' :: digits => -(Nat.ofDigitChars 10 digits 0 : Int)
  | digits => Nat.ofDigitChars 10 digits 0

def number? (word : List Char) : Option Document :=
  if word.isEmpty then none
  else if word.all isWholeChar then some (.integer (wholeNumber word))
  else (Double.ofText? word).map .real

section
variable {α : Type}

/-- Items with commas between them, up to a closing bracket. The number bounds the items. -/
def readSeries (read : List Char → Option (α × List Char)) (closing : Char) :
    Nat → List Char → Option (List α × List Char)
  | 0, _ => none
  | count + 1, cs => do
    let (item, rest) ← read (cs.dropWhile isSpace)
    match rest.dropWhile isSpace with
    | [] => none
    | mark :: rest =>
      if mark = ',' then do
        let (more, rest) ← readSeries read closing count rest
        return (item :: more, rest)
      else if mark = closing then return ([item], rest)
      else none

/-- Items in brackets, read from behind the opening one. -/
def readBracketed (read : List Char → Option (α × List Char)) (closing : Char) (cs : List Char) :
    Option (List α × List Char) :=
  if cs.head? = some closing then some ([], cs.tail) else readSeries read closing cs.length cs

/-- A field: its name and its value. -/
def readField (read : List Char → Option (α × List Char)) (cs : List Char) :
    Option ((String × α) × List Char) := do
  let (name, rest) ← readString cs
  match rest with
  | ':' :: rest => do
    let (value, rest) ← read (rest.dropWhile isSpace)
    return ((name, value), rest)
  | _ => none

end

/-- A document that nests less deep than the given number of levels. -/
def readWithin : Nat → List Char → Option (Document × List Char)
  | 0, _ => none
  | _ + 1, [] => none
  | levels + 1, c :: rest =>
    if c = '"' then (readString (c :: rest)).map fun found => (.text found.1, found.2)
    else if c = '[' then
      (readBracketed (readWithin levels) ']' rest).map fun found => (.list found.1, found.2)
    else if c = '\x7b' then
      (readBracketed (readField (readWithin levels)) '\x7d' rest).map fun found =>
        (.record found.1, found.2)
    else
      (number? ((c :: rest).takeWhile isNumberChar)).map fun d =>
        (d, (c :: rest).dropWhile isNumberChar)

/-- The document that takes up a whole text. -/
def ofJson? (json : String) : Option Document :=
  match readWithin (json.length + 1) json.toList with
  | some (d, []) => some d
  | _ => none

def isMark (c : Char) : Bool := isSpace c || c = ',' || c = ']' || c = '\x7d'

/-- A text that is read as one item, up to the mark behind it. -/
structure Reads {α : Type} (read : List Char → Option (α × List Char)) (text : String) (item : α) :
    Prop where
  begins : ∃ first more, text.toList = first :: more ∧ isMark first = false
  upTo : ∀ rest, (∀ c ∈ rest.head?, isMark c = true) →
    read (text.toList ++ rest) = some (item, rest)

section
variable {α : Type} {read : List Char → Option (α × List Char)} {closing : Char}

private theorem Reads.behindSpace {text : String} {item : α} (h : Reads read text item)
    {space : List Char} (hspace : ∀ c ∈ space, isSpace c = true) (rest : List Char)
    (hrest : ∀ c ∈ rest.head?, isMark c = true) :
    read ((space ++ (text.toList ++ rest)).dropWhile isSpace) = some (item, rest) := by
  obtain ⟨first, more, htext, hfirst⟩ := h.begins
  have hne : isSpace first = false := by
    rw [isMark] at hfirst
    simp only [Bool.or_eq_false_iff] at hfirst
    exact hfirst.1.1.1
  rw [List.dropWhile_append_of_pos hspace, ← h.upTo rest hrest, htext, List.cons_append,
    List.dropWhile_cons_of_neg (by simp [hne])]

private theorem isMark_of_space {space : List Char} (hspace : ∀ c ∈ space, isSpace c = true)
    {mark : Char} (hmark : isMark mark = true) (rest : List Char) :
    ∀ c ∈ (space ++ mark :: rest).head?, isMark c = true := by
  cases space with
  | nil => simpa using hmark
  | cons blank more => simp [isMark, hspace blank (by simp)]

/-- Items are read in order, up to the bracket behind the last one. -/
theorem readSeries_joined (hclosing : closing = ']' ∨ closing = '\x7d') {write : α → String}
    {items : List α} (hne : items ≠ []) (hitems : ∀ item ∈ items, Reads read (write item) item)
    {space final : List Char} (hspace : ∀ c ∈ space, isSpace c = true)
    (hfinal : ∀ c ∈ final, isSpace c = true) {count : Nat} (hcount : items.length ≤ count)
    (rest : List Char) :
    readSeries read closing count (space ++
      ((Text.joined ("," ++ String.ofList space) (items.map write)).toList ++
        (final ++ closing :: rest))) = some (items, rest) := by
  have hbracket : isMark closing = true ∧ isSpace closing = false ∧ closing ≠ ',' := by
    rcases hclosing with rfl | rfl <;> decide
  induction items generalizing count with
  | nil => exact absurd rfl hne
  | cons item items ih =>
    obtain ⟨hitem, hitems⟩ := List.forall_mem_cons.mp hitems
    obtain ⟨count, rfl⟩ := Nat.exists_eq_add_one_of_ne_zero (Nat.ne_zero_of_lt hcount)
    cases items with
    | nil =>
      have hread := hitem.behindSpace hspace _ (isMark_of_space hfinal hbracket.1 rest)
      have hclose : (final ++ closing :: rest).dropWhile isSpace = closing :: rest := by
        rw [List.dropWhile_append_of_pos hfinal, List.dropWhile_cons_of_neg (by simp [hbracket])]
      rw [readSeries, List.map_singleton, Text.joined, hread]
      simp [hclose, hbracket]
    | cons next items =>
      have hread := hitem.behindSpace hspace (',' :: (space ++
        ((Text.joined ("," ++ String.ofList space) ((next :: items).map write)).toList ++
          (final ++ closing :: rest)))) (by simp [isMark])
      have hmore := ih (by simp) hitems (Nat.le_of_succ_le_succ hcount)
      have hjoined : (Text.joined ("," ++ String.ofList space)
          ((item :: next :: items).map write)).toList ++ (final ++ closing :: rest) =
          (write item).toList ++ ',' :: (space ++
            ((Text.joined ("," ++ String.ofList space) ((next :: items).map write)).toList ++
              (final ++ closing :: rest))) := by
        simp [Text.joined]
      rw [readSeries, hjoined, hread]
      simp only [Option.bind_eq_bind, Option.bind_some]
      rw [List.dropWhile_cons_of_neg (by decide)]
      simp only [↓reduceIte, hmore, Option.bind_some]
      rfl

private theorem length_le_joined {separator : String} {texts : List String}
    (h : ∀ text ∈ texts, 0 < text.length) : texts.length ≤ (Text.joined separator texts).length := by
  induction texts with
  | nil => exact Nat.zero_le _
  | cons text texts ih =>
    obtain ⟨htext, htexts⟩ := List.forall_mem_cons.mp h
    have hle := ih htexts
    cases texts with
    | nil => exact htext
    | cons next texts =>
      rw [Text.joined, String.length_append, String.length_append, List.length_cons]
      omega

private theorem length_le_joined_of_mem {separator text : String} {texts : List String}
    (h : text ∈ texts) : text.length ≤ (Text.joined separator texts).length := by
  induction texts with
  | nil => cases h
  | cons first texts ih =>
    cases texts with
    | nil =>
      rw [List.mem_singleton.mp h]
      exact Nat.le_refl _
    | cons next texts =>
      rw [Text.joined, String.length_append, String.length_append]
      rcases List.mem_cons.mp h with rfl | h
      · omega
      · have hle := ih h
        omega

private theorem isSpace_newLine (level : Nat) : ∀ c ∈ (newLine level).toList, isSpace c = true := by
  rw [newLine, String.toList_ofList]
  refine List.forall_mem_cons.mpr ⟨by decide, fun c hc => ?_⟩
  rw [(List.mem_replicate.mp hc).2]
  decide

private theorem readBracketed_bracketed (hclosing : closing = ']' ∨ closing = '\x7d') (opening :
    Char)
    {write : α → String} {items : List α} (hitems : ∀ item ∈ items, Reads read (write item) item)
    (level : Nat) (rest : List Char) : ∃ inside,
      (bracketed (String.singleton opening) (String.singleton closing) level
        (items.map write)).toList ++ rest = opening :: inside ∧
      readBracketed read closing inside = some (items, rest) := by
  cases items with
  | nil =>
    refine ⟨closing :: rest, ?_, ?_⟩
    · simp [bracketed]
    · simp [readBracketed]
  | cons item items =>
    have hlength : ∀ text ∈ (item :: items).map write, 0 < text.length := by
      intro text htext
      obtain ⟨item, hitem, rfl⟩ := List.mem_map.mp htext
      obtain ⟨first, more, hfirst, _⟩ := (hitems item hitem).begins
      rw [← String.length_toList, hfirst]
      exact Nat.succ_pos _
    have hcount := @length_le_joined ("," ++ newLine (level + 1)) _ hlength
    have hseries (count : Nat) (hcount : (item :: items).length ≤ count) :=
      readSeries_joined hclosing (by simp) hitems (isSpace_newLine (level + 1))
        (isSpace_newLine level) hcount rest
    rw [String.ofList_toList] at hseries
    refine ⟨(newLine (level + 1)).toList ++
      ((Text.joined ("," ++ newLine (level + 1)) ((item :: items).map write)).toList ++
        ((newLine level).toList ++ closing :: rest)), by simp [bracketed], ?_⟩
    rw [readBracketed, if_neg]
    · refine hseries _ ?_
      simp only [List.length_append, String.length_toList]
      rw [List.length_map] at hcount
      omega
    · rcases hclosing with rfl | rfl <;> simp [newLine]

end

private theorem isNumberChar_of_isMark {c : Char} (h : isMark c = true) :
    isNumberChar c = false := by
  simp only [isMark, isSpace, Bool.or_eq_true, decide_eq_true_eq] at h
  rcases h with (((rfl | rfl) | rfl) | rfl) | rfl <;> decide

private theorem reads_number {levels : Nat} {text : String} {d : Document}
    (hchars : ∀ c ∈ text.toList, isNumberChar c = true) (hvalue : number? text.toList = some d) :
    Reads (readWithin (levels + 1)) text d := by
  have hword (rest : List Char) (hrest : ∀ c ∈ rest.head?, isMark c = true) :
      (text.toList ++ rest).takeWhile isNumberChar = text.toList ∧
        (text.toList ++ rest).dropWhile isNumberChar = rest := by
    rw [List.takeWhile_append_of_pos hchars, List.dropWhile_append_of_pos hchars]
    cases rest with
    | nil => simp
    | cons mark rest => simp [isNumberChar_of_isMark (hrest mark rfl)]
  cases htext : text.toList with
  | nil =>
    rw [htext] at hvalue
    cases hvalue
  | cons first more =>
    rw [htext] at hchars hvalue hword
    have hfirst := hchars first (by simp)
    have hne {c : Char} (hc : isNumberChar c = false) : first ≠ c := by
      rintro rfl
      rw [hfirst] at hc
      cases hc
    refine ⟨⟨first, more, htext, ?_⟩, fun rest hrest => ?_⟩
    · rw [Bool.eq_false_iff]
      exact fun hmark => hne (isNumberChar_of_isMark hmark) rfl
    · obtain ⟨htake, hdrop⟩ := hword rest hrest
      rw [List.cons_append] at htake hdrop
      rw [htext, List.cons_append, readWithin, if_neg (hne (by decide)), if_neg (hne (by decide)),
        if_neg (hne (by decide)), htake, hdrop, hvalue, Option.map_some]

private theorem wholeNumber_digitChars (n : Nat) : wholeNumber (Decimal.digitChars n) = n := by
  rw [wholeNumber, Double.ofDigitChars_digitChars]
  intro digits hdigits
  have hminus := Double.isAsciiDigit_of_mem_digitChars (n := n) (c := '-') (by simp [hdigits])
  exact absurd hminus (by decide)

theorem toString_integer (n : Int) : wholeNumber (toString n).toList = n ∧
    (toString n).toList ≠ [] ∧ ∀ c ∈ (toString n).toList, isWholeChar c = true := by
  have hdigits (m : Nat) : ∀ c ∈ Decimal.digitChars m, isWholeChar c = true := fun c hc => by
    simp [isWholeChar, Double.isAsciiDigit_of_mem_digitChars hc]
  cases n with
  | ofNat m =>
    have htext : (toString (Int.ofNat m)).toList = Decimal.digitChars m := Decimal.toList_toString m
    rw [htext]
    exact ⟨wholeNumber_digitChars m, List.ne_nil_of_length_pos (Decimal.length_digitChars_pos m),
      hdigits m⟩
  | negSucc m =>
    have htext : (toString (Int.negSucc m)).toList = '-' :: Decimal.digitChars (m + 1) := by
      rw [show toString (Int.negSucc m) = "-" ++ toString (m + 1) from rfl, String.toList_append,
        Decimal.toList_toString]
      rfl
    rw [htext]
    refine ⟨?_, by simp, List.forall_mem_cons.mpr ⟨by decide, hdigits _⟩⟩
    rw [wholeNumber, Double.ofDigitChars_digitChars]
    rfl

theorem not_mem_toString (n : Int) {c : Char} (hc : isWholeChar c = false) :
    c ∉ (toString n).toList := by
  intro hmem
  rw [(toString_integer n).2.2 c hmem] at hc
  cases hc

private theorem reads_integer (levels : Nat) (n : Int) :
    Reads (readWithin (levels + 1)) (toString n) (.integer n) := by
  obtain ⟨hvalue, hne, hchars⟩ := toString_integer n
  refine reads_number (fun c hc => ?_) ?_
  · have hwhole := hchars c hc
    simp only [isWholeChar, Bool.or_eq_true, decide_eq_true_eq] at hwhole
    rcases hwhole with hdigit | rfl
    · simp [isNumberChar, hdigit]
    · decide
  · rw [number?, if_neg (by simpa using hne), if_pos (List.all_eq_true.mpr hchars), hvalue]

theorem isNumberChar_of_isAsciiDigit {c : Char} (h : Text.isAsciiDigit c = true) :
    isNumberChar c = true := by
  simp [isNumberChar, h]

private theorem powerText_chars (power : Int) :
    (∀ c ∈ Double.powerText power, isNumberChar c = true) ∧
    'e' ∈ Double.powerText power := by
  refine ⟨?_, List.mem_cons_self⟩
  rw [Double.powerText]
  refine List.forall_mem_cons.mpr ⟨by decide, List.forall_mem_cons.mpr ⟨?_, fun c hc => ?_⟩⟩
  · split <;> decide
  · exact isNumberChar_of_isAsciiDigit ((List.mem_append.mp hc).elim
      Double.isAsciiDigit_of_mem_zeros Double.isAsciiDigit_of_mem_digitChars)

/-- A text with the characters of a number, not all of them those of a whole one. -/
def IsFractional (cs : List Char) : Prop :=
  cs.all isNumberChar = true ∧ cs.all isWholeChar = false

private theorem isFractional_of_mem {cs : List Char} (hchars : ∀ c ∈ cs, isNumberChar c = true)
    {mark : Char} (hmem : mark ∈ cs) (hmark : isWholeChar mark = false) : IsFractional cs :=
  ⟨List.all_eq_true.mpr hchars, List.all_eq_false.mpr ⟨mark, hmem, by simp [hmark]⟩⟩

private theorem isFractional_decimalText (d : Decimal) : IsFractional (Double.decimalText d) := by
  have hdigits := Double.significant_digits d
  rw [Double.decimalText]
  generalize Double.significant d = found at hdigits
  obtain ⟨digits, point⟩ := found
  dsimp only at hdigits ⊢
  split
  · obtain ⟨_, hparts⟩ := Double.positional_digits point hdigits
    generalize Double.positional digits point = parts at hparts
    obtain ⟨whole, fraction⟩ := parts
    dsimp only at hparts ⊢
    obtain ⟨hwhole, hfraction⟩ := List.forall_mem_append.mp hparts
    refine @isFractional_of_mem _ (List.forall_mem_append.mpr ⟨?_, List.forall_mem_cons.mpr
      ⟨by decide, ?_⟩⟩) '.' (by simp) (by decide)
    · exact fun c hc => isNumberChar_of_isAsciiDigit (hwhole c hc)
    · split
      · exact List.forall_mem_singleton.mpr (by decide)
      · exact fun c hc => isNumberChar_of_isAsciiDigit (hfraction c hc)
  · obtain ⟨hpower, hmark⟩ := powerText_chars (point - 1)
    have hmantissa := @Double.forall_pointed (isNumberChar · = true) (digits.take 1, digits.drop 1)
      (by decide) fun c hc => isNumberChar_of_isAsciiDigit
        (hdigits c (by rwa [List.take_append_drop] at hc))
    rw [Double.scientific_eq]
    exact isFractional_of_mem (List.forall_mem_append.mpr ⟨hmantissa, hpower⟩)
      (List.mem_append_right _ hmark) (by decide)

theorem isFractional_text (x : Double) : IsFractional x.text.toList := by
  cases x with
  | nan => exact ⟨rfl, rfl⟩
  | infinite negative => cases negative <;> exact ⟨rfl, rfl⟩
  | finite negative index =>
    have hmagnitude : IsFractional (Double.magnitudeText index) := by
      by_cases hindex : index.val = 0
      · rw [Double.magnitudeText, if_pos hindex]
        exact ⟨rfl, rfl⟩
      · rw [Double.magnitudeText_eq hindex]
        exact isFractional_decimalText _
    obtain ⟨hchars, hwhole⟩ := hmagnitude
    have hsign : (Double.signText negative).all isNumberChar = true := by cases negative <;> rfl
    rw [Double.text, String.toList_ofList]
    exact ⟨by simp [hsign, hchars], by simp [hwhole]⟩

private theorem reads_real (levels : Nat) (x : Double) :
    Reads (readWithin (levels + 1)) x.text (.real x) := by
  obtain ⟨hchars, hwhole⟩ := isFractional_text x
  have hne : x.text.toList.isEmpty = false := by
    rw [List.isEmpty_eq_false_iff]
    intro hnil
    rw [hnil] at hwhole
    cases hwhole
  refine reads_number (List.all_eq_true.mp hchars) ?_
  simp [number?, hne, hwhole, Double.ofText?_text]

private theorem reads_text (levels : Nat) (s : String) :
    Reads (readWithin (levels + 1)) (stringText s) (.text s) := by
  have hbegins : (stringText s).toList = '"' :: (s.toList.flatMap escapedChar ++ ['"']) := by
    rw [stringText, String.toList_ofList, List.cons_append]
  refine ⟨⟨_, _, hbegins, by decide⟩, fun rest _ => ?_⟩
  have hread := readString_stringText s rest
  rw [hbegins, List.cons_append] at hread ⊢
  rw [readWithin, if_pos rfl, hread, Option.map_some]

private theorem jsonItems_eq (level : Nat) (items : List Document) :
    jsonItems level items = items.map (json level) := by
  induction items with
  | nil => rfl
  | cons item items ih => rw [jsonItems, ih, List.map_cons]

private def fieldText (level : Nat) (field : String × Document) : String :=
  stringText field.1 ++ ": " ++ json level field.2

private theorem jsonFields_eq (level : Nat) (fields : List (String × Document)) :
    jsonFields level fields = fields.map (fieldText level) := by
  induction fields with
  | nil => rfl
  | cons field fields ih => rw [jsonFields, ih, List.map_cons, fieldText]

private theorem reads_field {read : List Char → Option (Document × List Char)} {level : Nat}
    {field : String × Document} (h : Reads read (json level field.2) field.2) :
    Reads (readField read) (fieldText level field) field := by
  obtain ⟨name, value⟩ := field
  have htext (rest : List Char) : (fieldText level (name, value)).toList ++ rest =
      (stringText name).toList ++ ':' :: ([' '] ++ ((json level value).toList ++ rest)) := by
    simp [fieldText]
  refine ⟨?_, fun rest hrest => ?_⟩
  · obtain ⟨first, more, hname, hfirst⟩ := (reads_text 0 name).begins
    exact ⟨first, more ++ ':' :: ' ' :: (json level value).toList, by simp [fieldText, hname], hfirst⟩
  · have hvalue := @Reads.behindSpace _ _ _ _ h [' '] (by simp [isSpace]) rest hrest
    rw [htext, readField, readString_stringText]
    simp only [Option.bind_eq_bind, Option.bind_some, hvalue]
    rfl

/-- A document is read wherever there are more levels than its text has characters. -/
def IsRead (d : Document) : Prop := ∀ level levels, (d.json level).length ≤ levels →
  Reads (readWithin (levels + 1)) (d.json level) d

private theorem length_lt_bracketed {opening closing : Char} {level : Nat} {text : String}
    {texts : List String} (h : text ∈ texts) : text.length <
      (bracketed (String.singleton opening) (String.singleton closing) level texts).length := by
  have hle := @length_le_joined_of_mem ("," ++ newLine (level + 1)) _ _ h
  cases texts with
  | nil => cases h
  | cons first texts =>
    simp only [bracketed, String.length_append, String.length_singleton]
    omega

private theorem reads_bracketed {α β : Type} {read : List Char → Option (α × List Char)}
    {readAll : List Char → Option (β × List Char)} {opening closing : Char}
    (hopening : isMark opening = false) (hclosing : closing = ']' ∨ closing = '\x7d')
    {write : α → String} {items : List α} {all : β}
    (hitems : ∀ item ∈ items, Reads read (write item) item)
    (hall : ∀ inside rest, readBracketed read closing inside = some (items, rest) →
      readAll (opening :: inside) = some (all, rest)) (level : Nat) :
    Reads readAll (bracketed (String.singleton opening) (String.singleton closing) level
      (items.map write)) all := by
  have hread (rest : List Char) := readBracketed_bracketed hclosing opening hitems level rest
  refine ⟨?_, fun rest _ => ?_⟩
  · obtain ⟨inside, htext, _⟩ := hread []
    rw [List.append_nil] at htext
    exact ⟨opening, inside, htext, hopening⟩
  · obtain ⟨inside, htext, hinside⟩ := hread rest
    rw [htext]
    exact hall inside rest hinside

private theorem IsRead.reads_below {d : Document} (h : d.IsRead) {level levels : Nat}
    (hlevels : (d.json level).length < levels) : Reads (readWithin levels) (d.json level) d := by
  obtain ⟨levels, rfl⟩ := Nat.exists_eq_add_one_of_ne_zero (Nat.ne_zero_of_lt hlevels)
  exact h level levels (Nat.le_of_lt_succ hlevels)

private theorem isRead_list {items : List Document} (h : ∀ item ∈ items, item.IsRead) :
    (list items).IsRead := by
  intro level levels hlevels
  have htext : json level (list items) = bracketed (String.singleton '[') (String.singleton ']')
      level (items.map (json (level + 1))) := by
    rw [json, jsonItems_eq]
    rfl
  rw [htext] at hlevels ⊢
  have hitems : ∀ item ∈ items, Reads (readWithin levels) (item.json (level + 1)) item :=
    fun item hitem => (h item hitem).reads_below
      (Nat.lt_of_lt_of_le (length_lt_bracketed (List.mem_map_of_mem hitem)) hlevels)
  exact reads_bracketed (by decide) (.inl rfl) hitems
    (fun inside rest hread => by simp [readWithin, hread]) level

private theorem isRead_record {fields : List (String × Document)}
    (h : ∀ field ∈ fields, field.2.IsRead) :
    (record fields).IsRead := by
  intro level levels hlevels
  have htext : json level (record fields) = bracketed (String.singleton '\x7b')
      (String.singleton '\x7d') level (fields.map (fieldText (level + 1))) := by
    rw [json, jsonFields_eq]
    rfl
  rw [htext] at hlevels ⊢
  have hfields : ∀ field ∈ fields,
      Reads (readField (readWithin levels)) (fieldText (level + 1) field) field := by
    intro field hfield
    have hlt := @length_lt_bracketed '\x7b' '\x7d' level _ _
      (List.mem_map_of_mem (f := fieldText (level + 1)) hfield)
    have hvalue : (json (level + 1) field.2).length ≤ (fieldText (level + 1) field).length := by
      simp [fieldText]
    exact reads_field ((h field hfield).reads_below (by omega))
  exact reads_bracketed (by decide) (.inr rfl) hfields
    (fun inside rest hread => by simp [readWithin, hread]) level

mutual

/-- Every document is read from its JSON, at any depth and in front of any mark. -/
theorem isRead : (d : Document) → d.IsRead
  | .text s => fun _ levels _ => reads_text levels s
  | .integer n => fun _ levels _ => reads_integer levels n
  | .real x => fun _ levels _ => reads_real levels x
  | .list items => isRead_list (isRead_items items)
  | .record fields => isRead_record (isRead_fields fields)

private theorem isRead_items : (items : List Document) → ∀ item ∈ items, item.IsRead
  | [] => by simp
  | item :: items => List.forall_mem_cons.mpr ⟨isRead item, isRead_items items⟩

private theorem isRead_fields :
    (fields : List (String × Document)) → ∀ field ∈ fields, field.2.IsRead
  | [] => by simp
  | (_, value) :: fields => List.forall_mem_cons.mpr ⟨isRead value, isRead_fields fields⟩

end

/-- A document is read back from its JSON. -/
theorem ofJson?_json (d : Document) : ofJson? (d.json 0) = some d := by
  have hread := (isRead d 0 _ (Nat.le_refl _)).upTo [] (by simp)
  rw [List.append_nil] at hread
  rw [ofJson?, hread]

end ExprLang.Document
