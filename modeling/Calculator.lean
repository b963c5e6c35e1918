import Calculator.CommandLine.Program
import Calculator.Main
import Calculator.Proofs.Concatenation
import Calculator.Proofs.Continuation
import Calculator.Proofs.Conversations
import Calculator.Proofs.Evaluators
import Calculator.Proofs.Lexemes
import Calculator.Proofs.LineEnds
import Calculator.Proofs.OptionWords
import Calculator.Proofs.Precedence
import Calculator.Proofs.Printing
import Calculator.Proofs.Recognition
import Calculator.Proofs.Replay
import Calculator.Proofs.Scanning
import Calculator.Proofs.ShortestText
import Calculator.Proofs.SingleLine
import Calculator.Proofs.TwoPhases
import Calculator.Tree.Evaluation
import Calculator.Tree.Grammar
import Calculator.Tree.Parser
import Calculator.Evaluation.Groups
import Calculator.Proofs.Returns
import Calculator.Proofs.Invocations
import Calculator.Proofs.NestingLimit
import Calculator.Proofs.Atomicity
import Calculator.Proofs.Resumption
import Calculator.Proofs.TokensRead
import Calculator.Proofs.AssignmentSpellings
import Calculator.Proofs.NegatedNumerals
import Calculator.Proofs.ConvertedNumerals
import Calculator.Proofs.PrintedResults
import Calculator.Proofs.ReenteredResults
import Calculator.Proofs.Separators
import Calculator.Proofs.SeparatedTexts
import Calculator.Proofs.Streaming
import Calculator.Token.Lexer
