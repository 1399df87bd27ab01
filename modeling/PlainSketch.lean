import PlainSketch.Block.Assembly
import PlainSketch.Block.Frame
import PlainSketch.Board
import PlainSketch.Declaration
import PlainSketch.Diagnostic
import PlainSketch.Duration
import PlainSketch.Expression
import PlainSketch.Fault
import PlainSketch.Json
import PlainSketch.Layout
import PlainSketch.Line.Comment
import PlainSketch.Line.Literal
import PlainSketch.Line.Numbered
import PlainSketch.Line.Words
import PlainSketch.Main
import PlainSketch.Opener
import PlainSketch.Phrase
import PlainSketch.Problem
import PlainSketch.Program
import PlainSketch.Proofs.AssemblySteps
import PlainSketch.Proofs.BlockGrammar
import PlainSketch.Proofs.BlockOrder
import PlainSketch.Proofs.BlockRuns
import PlainSketch.Proofs.BoardSwap
import PlainSketch.Proofs.BraceNesting
import PlainSketch.Proofs.CommentCut
import PlainSketch.Proofs.ConditionLiterals
import PlainSketch.Proofs.DeclaredNames
import PlainSketch.Proofs.DroppedStatements
import PlainSketch.Proofs.EscapedText
import PlainSketch.Proofs.Faultless
import PlainSketch.Proofs.FileEffects
import PlainSketch.Proofs.FreeText
import PlainSketch.Proofs.FunctionBodies
import PlainSketch.Proofs.HelperNames
import PlainSketch.Proofs.Indentation
import PlainSketch.Proofs.InstrText
import PlainSketch.Proofs.Keywords
import PlainSketch.Proofs.LaidLines
import PlainSketch.Proofs.LayoutContent
import PlainSketch.Proofs.LayoutDepth
import PlainSketch.Proofs.LayoutMeaning
import PlainSketch.Proofs.LineSorts
import PlainSketch.Proofs.Namespaces
import PlainSketch.Proofs.NestingDepth
import PlainSketch.Proofs.OutlineOrder
import PlainSketch.Proofs.PhraseScan
import PlainSketch.Proofs.PhraseSpacing
import PlainSketch.Proofs.PinAliases
import PlainSketch.Proofs.PinLines
import PlainSketch.Proofs.PinNames
import PlainSketch.Proofs.RangeReading
import PlainSketch.Proofs.Renumbering
import PlainSketch.Proofs.ReportEntries
import PlainSketch.Proofs.RespacedLines
import PlainSketch.Proofs.RespacedRuns
import PlainSketch.Proofs.RespacedSorts
import PlainSketch.Proofs.RespacedSteps
import PlainSketch.Proofs.RespacedText
import PlainSketch.Proofs.SessionSteps
import PlainSketch.Proofs.SessionView
import PlainSketch.Proofs.ShapeLaws
import PlainSketch.Proofs.ShapeSpacing
import PlainSketch.Proofs.SketchSpacing
import PlainSketch.Proofs.SketchText
import PlainSketch.Proofs.SourceKept
import PlainSketch.Proofs.Spacing
import PlainSketch.Proofs.StackShape
import PlainSketch.Proofs.StatementOrder
import PlainSketch.Proofs.StatementWalk
import PlainSketch.Proofs.StringAssignments
import PlainSketch.Proofs.SymbolPrefix
import PlainSketch.Proofs.TableSteps
import PlainSketch.Proofs.TameText
import PlainSketch.Proofs.TypeHints
import PlainSketch.Proofs.UniformSteps
import PlainSketch.Proofs.VariableTypes
import PlainSketch.Proofs.WellNested
import PlainSketch.Proofs.WholeBlocks
import PlainSketch.Proofs.WriteTypes
import PlainSketch.Proofs.WrittenLines
import PlainSketch.Reserved
import PlainSketch.Session
import PlainSketch.Shape
import PlainSketch.Sketch.Basic
import PlainSketch.Sketch.Indent
import PlainSketch.Sketch.Instr
import PlainSketch.Statement.Basic
import PlainSketch.Statement.Compile
import PlainSketch.Symbol.Declare
import PlainSketch.Symbol.Outline
import PlainSketch.Symbol.Table
import PlainSketch.Text.Blank
import PlainSketch.Text.ControlSequence
import PlainSketch.Text.Digit
import PlainSketch.Text.Displayed
import PlainSketch.Text.Hex
import PlainSketch.Text.Letter
import PlainSketch.Text.Lines
import PlainSketch.Text.Numeral
import PlainSketch.Text.Printable
import PlainSketch.Text.Quoted
import PlainSketch.Text.UpperCase
import PlainSketch.Text.Utf8
import PlainSketch.Text.WordChar
import PlainSketch.Tool.Arguments
import PlainSketch.Tool.Command
import PlainSketch.Tool.Failure
import PlainSketch.Tool.Files
import PlainSketch.Tool.Path
import PlainSketch.Tool.Run
import PlainSketch.ValueType
