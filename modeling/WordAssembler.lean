import WordAssembler.File.Tree
import WordAssembler.Main
import WordAssembler.Proofs.Bits.Imprint
import WordAssembler.Proofs.Bits.Value
import WordAssembler.Proofs.Layout.Slot
import WordAssembler.Proofs.Layout.Written
import WordAssembler.Proofs.Bits.Fits
import WordAssembler.Proofs.Registry.Entries
import WordAssembler.Proofs.Instruction.Decoded
import WordAssembler.Proofs.Text.Blank
import WordAssembler.Proofs.Text.Numeral
import WordAssembler.Proofs.Operand.Byte
import WordAssembler.Proofs.Operand.Grammar
import WordAssembler.Proofs.Assembly.Lines
import WordAssembler.Proofs.Assembly.Interruption
import WordAssembler.Proofs.Registry.Document
import WordAssembler.Proofs.Registry.Load
import WordAssembler.Proofs.Source.Statement
import WordAssembler.Proofs.Source.RoundTrip
import WordAssembler.Proofs.Assembly.Numbering
import WordAssembler.Proofs.Source.Annotated
import WordAssembler.Proofs.Operand.Column
import WordAssembler.Proofs.Assembly.Span
import WordAssembler.Proofs.Operand.Trimmed
import WordAssembler.Proofs.Instruction.Trimmed
import WordAssembler.Proofs.Registry.Order
import WordAssembler.Proofs.Instruction.Selectable
import WordAssembler.Proofs.Run.Outcome
import WordAssembler.Proofs.Bits.Canonical
import WordAssembler.Proofs.Word.Canonical
import WordAssembler.Proofs.Bits.Conversion
import WordAssembler.Proofs.Bits.Resize
import WordAssembler.Proofs.Bits.Reading
import WordAssembler.Proofs.Bits.SignExtension
import WordAssembler.Proofs.Bits.WidthCheck
import WordAssembler.Proofs.Bits.Digits
import WordAssembler.Proofs.Word.Conversion
import WordAssembler.Proofs.Layout.ClosedForm
import WordAssembler.Proofs.Instruction.Reencoded
import WordAssembler.Proofs.Operand.Spelled
import WordAssembler.Proofs.Registry.Tables
import WordAssembler.Proofs.Registry.Registration
import WordAssembler.Proofs.Text.Literal
import WordAssembler.Proofs.Registry.Written
import WordAssembler.Proofs.Registry.Loaded
import WordAssembler.Proofs.Word.Imprint
import WordAssembler.Proofs.Bits.Text
import WordAssembler.Proofs.Operand.Numeral
import WordAssembler.Proofs.Listing.Dump
import WordAssembler.Proofs.Listing.Row
import WordAssembler.Proofs.Run.Printed
