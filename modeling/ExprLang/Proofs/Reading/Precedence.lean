import ExprLang.Proofs.Lexing.Spelling
import ExprLang.Proofs.Reading.Begin
import ExprLang.Proofs.Reading.Descent

/-! Chains of operands are grouped by the strengths of their operators, as long as there are frames
for the calls that read them. -/
namespace ExprLang

variable {t : Table} {levels : Nat} {s s' : Lookahead} {ts us : List Token} {first : Expr}
  {links : List Link}

end ExprLang
