import ExprLang.Text.Joined
import ExprLang.Token

/-! Tokens listed one on a line: the place, the type and the text, with tabs between them. -/
namespace ExprLang

def Token.listed (t : Token) : String :=
  toString t.pos.line ++ ":" ++ toString t.pos.column ++ "\t" ++ t.kind.typeName ++ "\t" ++
    t.valueText

def listing (ts : List Token) : String := Text.joined "\n" (ts.map Token.listed)

end ExprLang
