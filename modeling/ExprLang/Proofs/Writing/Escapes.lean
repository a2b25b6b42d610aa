import ExprLang.Proofs.Text.Classes
import ExprLang.Tree.Document

/-! JSON strings are read as the texts that they were written from. Every character is written in
its own way, and the quotation mark that closes a string is not the beginning of any. -/
namespace ExprLang.Document

def hexDigit? (c : Char) : Option Nat :=
  if Text.isAsciiDigit c then some (c.toNat - 48)
  else if 'a' ≤ c && c ≤ 'f' then some (c.toNat - 87)
  else none

/-- A 16-bit unit of four digits. -/
def unit? : List Char → Option (Nat × List Char)
  | a :: b :: c :: d :: rest => do
    let a ← hexDigit? a
    let b ← hexDigit? b
    let c ← hexDigit? c
    let d ← hexDigit? d
    return (((16 * a + b) * 16 + c) * 16 + d, rest)
  | _ => none

/-- A character given by its units. A unit in the range of surrogates has another one behind it. -/
def readUnits (cs : List Char) : Option (Char × List Char) := do
  let (unit, rest) ← unit? cs
  if unit < 0xD800 || 0xDFFF < unit then return (.ofNat unit, rest)
  else
    match rest with
    | '\\' :: 'u' :: rest => do
      let (second, rest) ← unit? rest
      return (.ofNat (0x10000 + 0x400 * (unit - 0xD800) + (second - 0xDC00)), rest)
    | _ => none

/-- The character that a letter behind a backslash stands for. -/
def escaped? : Char → Option Char
  | '"' => some '"'
  | '\\' => some '\\'
  | 'n' => some '\n'
  | 'r' => some '\r'
  | 't' => some '\t'
  | 'b' => some '\x08'
  | 'f' => some '\x0c'
  | _ => none

/-- One character of a string. -/
def readChar : List Char → Option (Char × List Char)
  | [] => none
  | c :: rest =>
    if c = '\\' then
      match rest with
      | [] => none
      | kind :: rest =>
        if kind = 'u' then readUnits rest else (escaped? kind).map fun c => (c, rest)
    else some (c, rest)

/-- The characters of a string up to its closing quotation mark. The number bounds them. -/
def readChars : Nat → List Char → Option (List Char × List Char)
  | 0, _ => none
  | count + 1, cs =>
    if cs.head? = some '"' then some ([], cs.tail)
    else do
      let (c, rest) ← readChar cs
      let (more, rest) ← readChars count rest
      return (c :: more, rest)

def readString : List Char → Option (String × List Char)
  | '"' :: rest => (readChars rest.length rest).map fun found => (.ofList found.1, found.2)
  | _ => none

private theorem hexDigit?_digitChar {n : Nat} (h : n < 16) :
    hexDigit? (Nat.digitChar n) = some n := by
  have hall : ∀ n : Fin 16, hexDigit? (Nat.digitChar n) = some n.val := by decide
  exact hall ⟨n, h⟩

private theorem hexDigits_succ {width : Nat} (hwidth : 0 < width) (n : Nat) :
    Text.hexDigits (width + 1) n =
    Text.hexDigits width (n / 16) ++ [Nat.digitChar (n % 16)] := by
  have hdigits (n : Nat) : Nat.toDigits 16 n =
      if n < 16 then [Nat.digitChar n] else Nat.toDigits 16 (n / 16) ++ [Nat.digitChar (n % 16)] :=
    Nat.toDigits_eq_if (by decide)
  rw [Text.hexDigits, Text.hexDigits, hdigits n]
  by_cases hn : n < 16
  · obtain ⟨width, rfl⟩ := Nat.exists_eq_add_of_lt hwidth
    have hzero : Nat.toDigits 16 (n / 16) = ['0'] := by
      rw [Nat.div_eq_of_lt hn]
      rfl
    simp [hn, hzero, Nat.mod_eq_of_lt hn, List.replicate_succ']
  · simp [hn]

private theorem unit?_hexDigits {n : Nat} (h : n < 0x10000) (rest : List Char) :
    unit? (Text.hexDigits 4 n ++ rest) = some (n, rest) := by
  have hone (n : Nat) (hn : n < 16) : Text.hexDigits 1 n = [Nat.digitChar n] := by
    rw [Text.hexDigits, Nat.toDigits_eq_if (by decide), if_pos hn]
    rfl
  rw [hexDigits_succ (by decide), hexDigits_succ (by decide), hexDigits_succ (by decide),
    hone _ (by omega)]
  simp only [List.cons_append, List.nil_append, unit?]
  rw [hexDigit?_digitChar (by omega), hexDigit?_digitChar (by omega),
    hexDigit?_digitChar (by omega), hexDigit?_digitChar (by omega)]
  simp
  omega

private theorem readUnits_one {n : Nat} (h : n < 0x10000) (hn : n < 0xD800 ∨ 0xDFFF < n)
    (rest : List Char) : readUnits (Text.hexDigits 4 n ++ rest) = some (.ofNat n, rest) := by
  rw [readUnits, unit?_hexDigits h]
  simp [hn]

private theorem readUnits_two {high low : Nat} (hlow : 0xD800 ≤ high) (hhigh : high ≤ 0xDFFF)
    (hsecond : low < 0x10000) (rest : List Char) :
    readUnits (Text.hexDigits 4 high ++ (unitEscape low ++ rest)) =
      some (.ofNat (0x10000 + 0x400 * (high - 0xD800) + (low - 0xDC00)), rest) := by
  have hsurrogate : ¬ (high < 0xD800 ∨ 0xDFFF < high) := by omega
  rw [readUnits, unit?_hexDigits (by omega), unitEscape]
  simp [hsurrogate, unit?_hexDigits hsecond]

private theorem toNat_valid (c : Char) :
    c.toNat < 0xD800 ∨ 0xDFFF < c.toNat ∧ c.toNat < 0x110000 := c.valid

/-- A character of a string is read as it was written. -/
theorem readChar_escapedChar (c : Char) (rest : List Char) :
    readChar (escapedChar c ++ rest) = some (c, rest) := by
  have hvalid := toNat_valid c
  rw [escapedChar]
  -- First the characters that have an escape of their own.
  iterate 7
    split
    · subst_vars
      rfl
  split
  · rename_i hbackslash _ _ _ _ _ _
    simp [readChar, hbackslash]
  have hread (cs : List Char) : readChar ('\\' :: 'u' :: cs) = readUnits cs := rfl
  split
  · rename_i hunit
    rw [unitEscape, List.cons_append, List.cons_append, hread, readUnits_one hunit (by omega),
      Char.ofNat_toNat]
  · rename_i hunit
    have hvalue : 0x10000 + 0x400 * (0xD800 + (c.toNat - 0x10000) / 0x400 - 0xD800) +
        (0xDC00 + (c.toNat - 0x10000) % 0x400 - 0xDC00) = c.toNat := by omega
    rw [unitEscape, List.append_assoc, List.cons_append, List.cons_append, hread,
      readUnits_two (by omega) (by omega) (by omega), hvalue, Char.ofNat_toNat]

private theorem exists_escapedChar (c : Char) :
    ∃ first more, escapedChar c = first :: more ∧ first ≠ '"' := by
  rw [escapedChar]
  split
  · exact ⟨_, _, rfl, by decide⟩
  rename_i hquote
  iterate 6
    split
    · exact ⟨_, _, rfl, by decide⟩
  split
  · exact ⟨c, [], rfl, hquote⟩
  split
  · exact ⟨_, _, rfl, by decide⟩
  · exact ⟨_, _, rfl, by decide⟩

/-- The characters of a string are read up to the mark that closes it. -/
theorem readChars_flatMap (cs rest : List Char) {count : Nat} (hcount : cs.length < count) :
    readChars count (cs.flatMap escapedChar ++ '"' :: rest) = some (cs, rest) := by
  induction cs generalizing count with
  | nil =>
    obtain ⟨count, rfl⟩ := Nat.exists_eq_add_of_lt hcount
    simp [readChars]
  | cons c cs ih =>
    obtain ⟨count, rfl⟩ := Nat.exists_eq_add_one_of_ne_zero (Nat.ne_zero_of_lt hcount)
    obtain ⟨first, more, hfirst, hquote⟩ := exists_escapedChar c
    have hhead : (escapedChar c ++ (cs.flatMap escapedChar ++ '"' :: rest)).head? ≠ some '"' := by
      simpa [hfirst] using hquote
    rw [List.flatMap_cons, List.append_assoc, readChars, if_neg hhead, readChar_escapedChar]
    simp [ih (Nat.lt_of_succ_lt_succ hcount)]

private theorem length_le_flatMap (cs : List Char) :
    cs.length ≤ (cs.flatMap escapedChar).length := by
  induction cs with
  | nil => exact Nat.le_refl _
  | cons c cs ih =>
    obtain ⟨first, more, hfirst, _⟩ := exists_escapedChar c
    simp only [List.flatMap_cons, List.length_append, hfirst, List.length_cons]
    omega

/-- A string is read as the text that it was written from. -/
theorem readString_stringText (s : String) (rest : List Char) :
    readString ((stringText s).toList ++ rest) = some (s, rest) := by
  have hlength : s.toList.length < (s.toList.flatMap escapedChar ++ '"' :: rest).length := by
    have hle := length_le_flatMap s.toList
    rw [List.length_append, List.length_cons]
    omega
  have htext : (stringText s).toList ++ rest =
      '"' :: (s.toList.flatMap escapedChar ++ '"' :: rest) := by
    rw [stringText, String.toList_ofList, List.cons_append, List.cons_append, List.append_assoc]
    rfl
  rw [htext, readString, readChars_flatMap _ _ hlength, Option.map_some, String.ofList_toList]

end ExprLang.Document
