import ExprLang.Main
import ExprLang.Proofs.Reading.Extent
import ExprLang.Proofs.Reading.Depth
import ExprLang.Proofs.Reading.OnePass
import ExprLang.Proofs.Command.Effects
import ExprLang.Proofs.Command.Options
import ExprLang.Proofs.Number.Literal
import ExprLang.Proofs.Number.PlainText
import ExprLang.Proofs.Precedence.Isolation
import ExprLang.Proofs.Precedence.Written
import ExprLang.Proofs.Reading.Precedence
import ExprLang.Proofs.Reading.Respaced
import ExprLang.Proofs.Reading.Strengths
import ExprLang.Proofs.Session.Errors
import ExprLang.Proofs.Session.Later
import ExprLang.Proofs.Session.Trimmed
import ExprLang.Proofs.Writing.Faults
import ExprLang.Proofs.Writing.Listing
