import ThreeAddress.Binary64.Basic
import ThreeAddress.Binary64.HexText
import ThreeAddress.Binary64.Rounding
import ThreeAddress.Channel
import ThreeAddress.CommandLine
import ThreeAddress.ExitCategory
import ThreeAddress.Folder
import ThreeAddress.Frames
import ThreeAddress.Input
import ThreeAddress.Instruction
import ThreeAddress.LineReader
import ThreeAddress.Machine.Action
import ThreeAddress.Machine.Exec
import ThreeAddress.Machine.Fault
import ThreeAddress.Machine.Run
import ThreeAddress.Machine.State
import ThreeAddress.Machine.Step
import ThreeAddress.Main
import ThreeAddress.Markup.Cursor
import ThreeAddress.Markup.Element
import ThreeAddress.Markup.Error
import ThreeAddress.Markup.LineTable
import ThreeAddress.Markup.Reader
import ThreeAddress.Markup.Reference
import ThreeAddress.Opcode
import ThreeAddress.Operand
import ThreeAddress.Operation
import ThreeAddress.Program
import ThreeAddress.Proofs.ArityTable
import ThreeAddress.Proofs.Atomicity
import ThreeAddress.Proofs.Channels
import ThreeAddress.Proofs.CommandLineGrammar
import ThreeAddress.Proofs.Comments
import ThreeAddress.Proofs.ControlFlow
import ThreeAddress.Proofs.CorrectRounding
import ThreeAddress.Proofs.Correspondence
import ThreeAddress.Proofs.DeeperStack
import ThreeAddress.Proofs.DocumentTypes
import ThreeAddress.Proofs.EscapeGrammar
import ThreeAddress.Proofs.ExponentLimit
import ThreeAddress.Proofs.FloatGrammar
import ThreeAddress.Proofs.FloatLiteral
import ThreeAddress.Proofs.FloatText
import ThreeAddress.Proofs.Footprint
import ThreeAddress.Proofs.ForwardPrograms
import ThreeAddress.Proofs.FrameEffects
import ThreeAddress.Proofs.FrameHistory
import ThreeAddress.Proofs.FrameStack
import ThreeAddress.Proofs.InputLines
import ThreeAddress.Proofs.IntegerArithmetic
import ThreeAddress.Proofs.Layout
import ThreeAddress.Proofs.LineShift
import ThreeAddress.Proofs.LiteralValues
import ThreeAddress.Proofs.Numerals
import ThreeAddress.Proofs.Padding
import ThreeAddress.Proofs.Passage
import ThreeAddress.Proofs.Printing
import ThreeAddress.Proofs.ProgramStore
import ThreeAddress.Proofs.ReadingEnds
import ThreeAddress.Proofs.Rearrangement
import ThreeAddress.Proofs.ReferenceGrammar
import ThreeAddress.Proofs.Rendering
import ThreeAddress.Proofs.Renumbering
import ThreeAddress.Proofs.StackFamily
import ThreeAddress.Proofs.StoreInvariant
import ThreeAddress.Proofs.StringIndexing
import ThreeAddress.Proofs.Truncation
import ThreeAddress.Proofs.ValueOrder
import ThreeAddress.Result
import ThreeAddress.Session
import ThreeAddress.Source
import ThreeAddress.Table
import ThreeAddress.Text.AlphabeticRanges
import ThreeAddress.Text.Blank
import ThreeAddress.Text.Escape
import ThreeAddress.Text.Letter
import ThreeAddress.Text.Numeral
import ThreeAddress.Text.NumericRanges
import ThreeAddress.Text.Utf8
import ThreeAddress.TypeTag
import ThreeAddress.Value
