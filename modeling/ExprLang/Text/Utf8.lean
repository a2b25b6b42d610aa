import ExprLang.Text.Quoted

/-! Bytes of a file as characters, and the first fault if they are not UTF-8. -/
namespace ExprLang.Text

/-- Why bytes are not UTF-8. -/
inductive Utf8Reason where
  | start
  | continuation
  | cut
  deriving DecidableEq, Repr

def Utf8Reason.words : Utf8Reason → String
  | .start => "invalid start byte"
  | .continuation => "invalid continuation byte"
  | .cut => "unexpected end of data"

/-- The first faulty bytes: their place, their number and the first of them. -/
structure Utf8Fault where
  reason : Utf8Reason
  place : Nat
  count : Nat
  byte : UInt8
  deriving DecidableEq, Repr

def Utf8Fault.message (f : Utf8Fault) : String :=
  let bytes :=
    if f.count = 1 then
      "byte 0x" ++ String.ofList (hexDigits 2 f.byte.toNat) ++ " in position " ++ toString f.place
    else "bytes in position " ++ toString f.place ++ "-" ++ toString (f.place + f.count - 1)
  "'utf-8' codec can't decode " ++ bytes ++ ": " ++ f.reason.words

/-- A character of which some bytes are still to come. -/
structure Utf8Partial where
  /-- The bits that have been read. -/
  bits : Nat
  /-- How many bytes are still to come. -/
  missing : Nat
  /-- The least and the greatest value that the next byte may have. -/
  low : UInt8
  high : UInt8
  /-- Where the character began, how many bytes of it have been read, and the first of them. -/
  place : Nat
  count : Nat
  byte : UInt8

/-- The character that a first byte begins. The bounds of the second byte keep out overlong forms,
surrogates and what lies past the last code point. -/
def Utf8Partial.begin? (place : Nat) (b : UInt8) : Option Utf8Partial :=
  if b < 0xC2 then none
  else if b < 0xE0 then some ⟨b.toNat % 0x20, 1, 0x80, 0xBF, place, 1, b⟩
  else if b < 0xF0 then
    some ⟨b.toNat % 0x10, 2, if b = 0xE0 then 0xA0 else 0x80, if b = 0xED then 0x9F else 0xBF,
      place, 1, b⟩
  else if b < 0xF5 then
    some ⟨b.toNat % 0x08, 3, if b = 0xF0 then 0x90 else 0x80, if b = 0xF4 then 0x8F else 0xBF,
      place, 1, b⟩
  else none

def Utf8Partial.extend (p : Utf8Partial) (b : UInt8) : Utf8Partial :=
  ⟨p.bits * 0x40 + b.toNat % 0x40, p.missing - 1, 0x80, 0xBF, p.place, p.count + 1, p.byte⟩

def Utf8Partial.fault (p : Utf8Partial) (reason : Utf8Reason) : Utf8Fault :=
  ⟨reason, p.place, p.count, p.byte⟩

/-- The characters of bytes, from the given place on, with a character begun or not. -/
def decodeFrom (place : Nat) : Option Utf8Partial → List UInt8 → Except Utf8Fault (List Char)
  | none, [] => .ok []
  | some p, [] => .error (p.fault .cut)
  | none, b :: rest =>
    if b < 0x80 then do
      return Char.ofNat b.toNat :: (← decodeFrom (place + 1) none rest)
    else
      match Utf8Partial.begin? place b with
      | none => .error ⟨.start, place, 1, b⟩
      | some p => decodeFrom (place + 1) (some p) rest
  | some p, b :: rest =>
    if p.low ≤ b && b ≤ p.high then
      let p := p.extend b
      if p.missing = 0 then do
        return Char.ofNat p.bits :: (← decodeFrom (place + 1) none rest)
      else decodeFrom (place + 1) (some p) rest
    else .error (p.fault .continuation)

def decodeUtf8 (bytes : List UInt8) : Except Utf8Fault (List Char) := decodeFrom 0 none bytes

def encodeUtf8 (cs : List Char) : List UInt8 := cs.flatMap String.utf8EncodeChar

section
variable {place start count bits n : Nat} {low high byte : UInt8} {rest : List UInt8}

private theorem toNat_byte (h : n < 256) : (UInt8.ofNat n).toNat = n := by
  simp [Nat.mod_eq_of_lt h]

private theorem tail_between (hn : n < 64) (hlow : low.toNat ≤ n + 128)
    (hhigh : n + 128 ≤ high.toNat) :
    (low ≤ UInt8.ofNat (n + 128) && UInt8.ofNat (n + 128) ≤ high) = true := by
  simp only [Bool.and_eq_true, decide_eq_true_eq, UInt8.le_iff_toNat_le,
    @toNat_byte (n + 128) (by omega)]
  exact ⟨hlow, hhigh⟩

private theorem tail_bits (hn : n < 64) : (UInt8.ofNat (n + 128)).toNat % 0x40 = n := by
  rw [toNat_byte (by omega)]
  omega

private theorem decodeFrom_more {missing : Nat} (hn : n < 64) (hlow : low.toNat ≤ n + 128)
    (hhigh : n + 128 ≤ high.toNat) :
    decodeFrom place (some ⟨bits, missing + 2, low, high, start, count, byte⟩)
        (UInt8.ofNat (n + 128) :: rest) =
      decodeFrom (place + 1)
        (some ⟨bits * 64 + n, missing + 1, 0x80, 0xBF, start, count + 1, byte⟩) rest := by
  rw [decodeFrom, if_pos (tail_between hn hlow hhigh)]
  simp only [Utf8Partial.extend, tail_bits hn]
  rfl

private theorem decodeFrom_last (hn : n < 64) (hlow : low.toNat ≤ n + 128)
    (hhigh : n + 128 ≤ high.toNat) :
    decodeFrom place (some ⟨bits, 1, low, high, start, count, byte⟩)
        (UInt8.ofNat (n + 128) :: rest) =
      (decodeFrom (place + 1) none rest).map (Char.ofNat (bits * 64 + n) :: ·) := by
  rw [decodeFrom, if_pos (tail_between hn hlow hhigh)]
  simp only [Utf8Partial.extend, tail_bits hn, Nat.sub_self, if_true]
  cases decodeFrom (place + 1) none rest <;> rfl

private theorem decodeFrom_one (hn : n < 128) : decodeFrom place none (UInt8.ofNat n :: rest) =
    (decodeFrom (place + 1) none rest).map (Char.ofNat n :: ·) := by
  have hb : (UInt8.ofNat n).toNat = n := toNat_byte (by omega)
  have hlt : UInt8.ofNat n < 0x80 := UInt8.lt_iff_toNat_lt.mpr (by rw [hb]; exact hn)
  rw [decodeFrom, if_pos hlt, hb]
  cases decodeFrom (place + 1) none rest <;> rfl

private theorem decodeFrom_first {p : Utf8Partial} (hn : 128 ≤ n) (hbyte : n < 256)
    (h : Utf8Partial.begin? place (UInt8.ofNat n) = some p) :
    decodeFrom place none (UInt8.ofNat n :: rest) = decodeFrom (place + 1) (some p) rest := by
  have hlt : ¬ UInt8.ofNat n < 0x80 := by
    rw [UInt8.lt_iff_toNat_lt, toNat_byte hbyte]
    exact Nat.not_lt.mpr hn
  rw [decodeFrom, if_neg hlt, h]

private theorem begin?_two (hlow : 2 ≤ n) (hhigh : n < 32) :
    Utf8Partial.begin? place (UInt8.ofNat (n + 192)) =
      some ⟨n, 1, 0x80, 0xBF, place, 1, UInt8.ofNat (n + 192)⟩ := by
  have hb : (UInt8.ofNat (n + 192)).toNat = n + 192 := toNat_byte (by omega)
  have hbits : (n + 192) % 0x20 = n := by omega
  simp only [Utf8Partial.begin?, UInt8.lt_iff_toNat_lt, hb, hbits]
  rw [if_neg (by simp; omega), if_pos (by simp; omega)]

private theorem begin?_three (hn : n < 16) :
    Utf8Partial.begin? place (UInt8.ofNat (n + 224)) =
      some ⟨n, 2, if n = 0 then 0xA0 else 0x80, if n = 13 then 0x9F else 0xBF, place, 1,
        UInt8.ofNat (n + 224)⟩ := by
  have hb : (UInt8.ofNat (n + 224)).toNat = n + 224 := toNat_byte (by omega)
  have hbits : (n + 224) % 0x10 = n := by omega
  have hfirst : UInt8.ofNat (n + 224) = 0xE0 ↔ n = 0 := by
    rw [← UInt8.toNat_inj, hb]; simp
  have hlast : UInt8.ofNat (n + 224) = 0xED ↔ n = 13 := by
    rw [← UInt8.toNat_inj, hb]; simp
  simp only [Utf8Partial.begin?, UInt8.lt_iff_toNat_lt, hb, hbits, hfirst, hlast]
  rw [if_neg (by simp), if_neg (by simp), if_pos (by simp; omega)]

private theorem begin?_four (hn : n < 5) :
    Utf8Partial.begin? place (UInt8.ofNat (n + 240)) =
      some ⟨n, 3, if n = 0 then 0x90 else 0x80, if n = 4 then 0x8F else 0xBF, place, 1,
        UInt8.ofNat (n + 240)⟩ := by
  have hb : (UInt8.ofNat (n + 240)).toNat = n + 240 := toNat_byte (by omega)
  have hbits : (n + 240) % 0x08 = n := by omega
  have hfirst : UInt8.ofNat (n + 240) = 0xF0 ↔ n = 0 := by
    rw [← UInt8.toNat_inj, hb]; simp
  have hlast : UInt8.ofNat (n + 240) = 0xF4 ↔ n = 4 := by
    rw [← UInt8.toNat_inj, hb]; simp
  simp only [Utf8Partial.begin?, UInt8.lt_iff_toNat_lt, hb, hbits, hfirst, hlast]
  rw [if_neg (by simp), if_neg (by simp), if_neg (by simp), if_pos (by simp; omega)]

end

/-- The bytes of a character are read as that character. -/
theorem decodeFrom_utf8EncodeChar (place : Nat) (c : Char) (rest : List UInt8) :
    decodeFrom place none (String.utf8EncodeChar c ++ rest) =
      (decodeFrom (place + (String.utf8EncodeChar c).length) none rest).map (c :: ·) := by
  obtain ⟨v, hv⟩ : ∃ v, c.val.toNat = v := ⟨_, rfl⟩
  have hvalid : v < 0xD800 ∨ 0xDFFF < v ∧ v < 0x110000 := hv ▸ c.valid
  have hchar {n : Nat} (hn : n = v) : Char.ofNat n = c := by rw [hn, ← hv]; exact Char.ofNat_toNat c
  simp only [String.utf8EncodeChar, hv]
  by_cases hone : v ≤ 127
  · rw [if_pos hone, ← hchar rfl]
    exact decodeFrom_one (by omega)
  by_cases htwo : v ≤ 2047
  · rw [if_neg hone, if_pos htwo, ← @hchar (v / 64 % 32 * 64 + v % 64) (by omega)]
    refine (decodeFrom_first (by omega) (by omega) (begin?_two (by omega) (by omega))).trans ?_
    exact decodeFrom_last (by omega) (by simp) (by simp; omega)
  by_cases hthree : v ≤ 65535
  · rw [if_neg hone, if_neg htwo, if_pos hthree,
      ← @hchar ((v / 4096 % 16 * 64 + v / 64 % 64) * 64 + v % 64) (by omega)]
    refine (decodeFrom_first (by omega) (by omega) (begin?_three (by omega))).trans ?_
    refine (decodeFrom_more (by omega) ?_ ?_).trans
      (decodeFrom_last (by omega) (by simp) (by simp; omega))
    · split <;> simp; omega
    · split <;> simp <;> omega
  · rw [if_neg hone, if_neg htwo, if_neg hthree,
      ← @hchar (((v / 262144 % 8 * 64 + v / 4096 % 64) * 64 + v / 64 % 64) * 64 + v % 64) (by omega)]
    refine (decodeFrom_first (by omega) (by omega) (begin?_four (by omega))).trans ?_
    refine (decodeFrom_more (by omega) ?_ ?_).trans ((decodeFrom_more (by omega) (by simp)
      (by simp; omega)).trans (decodeFrom_last (by omega) (by simp) (by simp; omega)))
    · split <;> simp; omega
    · split <;> simp <;> omega

/-- What was written can be read. -/
theorem decodeUtf8_encodeUtf8 (cs : List Char) : decodeUtf8 (encodeUtf8 cs) = .ok cs := by
  have hfrom (place : Nat) : decodeFrom place none (encodeUtf8 cs) = .ok cs := by
    induction cs generalizing place with
    | nil => rfl
    | cons c cs ih =>
      rw [encodeUtf8, List.flatMap_cons, decodeFrom_utf8EncodeChar]
      exact congrArg (Except.map (c :: ·)) (ih _)
  exact hfrom 0

/-- Halves of characters in a row, which have no bytes: the first of them, its place and how many
there are. -/
structure HalfFault where
  code : Nat
  place : Nat
  count : Nat
  deriving DecidableEq, Repr

def HalfFault.message (f : HalfFault) : String :=
  let halves :=
    if f.count = 1 then
      "character '\\u" ++ String.ofList (hexDigits 4 f.code) ++ "' in position " ++ toString f.place
    else "characters in position " ++ toString f.place ++ "-" ++ toString (f.place + f.count - 1)
  "'utf-8' codec can't encode " ++ halves ++ ": surrogates not allowed"

/-- The first halves among characters, given what half of a character each of these stands for, if
it does. -/
def halfFault? (half? : Char → Option Nat) (place : Nat) : List Char → Option HalfFault
  | [] => none
  | c :: rest =>
    match half? c with
    | some code => some ⟨code, place, (rest.takeWhile fun c => (half? c).isSome).length + 1⟩
    | none => halfFault? half? (place + 1) rest

/-- A text with every line ended by a line feed alone. -/
def unifyLineEnds : List Char → List Char
  | '\r' :: '\n' :: rest => '\n' :: unifyLineEnds rest
  | '\r' :: rest => '\n' :: unifyLineEnds rest
  | c :: rest => c :: unifyLineEnds rest
  | [] => []

end ExprLang.Text
