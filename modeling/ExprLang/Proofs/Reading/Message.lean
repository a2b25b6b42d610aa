import ExprLang.Proofs.Lexing.Lines

/-! What an error says: its words, the place that it tells and the token that it quotes. Only the
place depends on where a text stands. -/
namespace ExprLang.SyntaxError

variable {f : Pos → Pos} {e : SyntaxError} {p : Pos}

/-- What an error says of the token or the number at its place. -/
def words : SyntaxError → String
  | .lexical fault => fault.fault.words
  | .unexpected missing _ => missing.words
  | _ => "expression nested too deeply"

def quotation : SyntaxError → String
  | .unexpected _ got | .tooDeep got => " (got " ++ got.text ++ ")"
  | _ => ""

theorem message_eq (h : e.place? = some p) :
    e.message = e.words ++ " at " ++ p.inWords ++ e.quotation := by
  cases e with
  | lexical fault =>
    cases h
    change fault.message = fault.fault.words ++ " at " ++ fault.pos.inWords ++ ""
    rw [String.append_empty]
    exact fault.message_eq
  | unexpected _ got | tooDeep got =>
    cases h
    unfold message Token.complaint quotation words
    simp only [String.append_assoc]
  | notNumber | incomparable | noSuccessor => cases h

theorem words_moved (e : SyntaxError) : (e.moved f).words = e.words := by
  cases e <;> rfl

theorem place?_moved (e : SyntaxError) : (e.moved f).place? = e.place?.map f := by
  cases e <;> rfl

theorem message_moved (h : e.place? = some p) :
    (e.moved f).message = e.words ++ " at " ++ (f p).inWords ++ e.quotation := by
  have hmoved : (e.moved f).place? = some (f p) := by rw [place?_moved, h, Option.map_some]
  rw [message_eq hmoved]
  cases e <;> rfl

end ExprLang.SyntaxError
