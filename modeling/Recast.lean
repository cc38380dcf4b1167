import Recast.Conversion.Converter
import Recast.Conversion.Error
import Recast.Conversion.Extract
import Recast.Conversion.Nested
import Recast.Conversion.Outcome
import Recast.Document.Basic
import Recast.Document.Raw
import Recast.Document.Record
import Recast.Native.Basic
import Recast.Native.Convert
import Recast.Number.Binary
import Recast.Number.Decimal
import Recast.Number.DecimalLiteral
import Recast.Number.Integer
import Recast.Number.IntegerLiteral
import Recast.Path.Basic
import Recast.Path.Evaluate
import Recast.Path.Options
import Recast.Recipe.Actions
import Recast.Recipe.Basic
import Recast.Recipe.Maps
import Recast.Recipe.Scalars
import Recast.Recipe.Sequences
import Recast.Recipe.Spelling
import Recast.Recipe.Structs
import Recast.Scalar.Basic
import Recast.Scalar.Coerce
import Recast.Text.Lowercase
import Recast.Text.Quoted
import Recast.Text.Utf8
import Recast.Ty
import Recast.Value.Basic
import Recast.Value.Entries
import Recast.Value.Equality
import Recast.Value.Text
import Recast.Proofs.Choice
import Recast.Proofs.Outcome
import Recast.Proofs.Parts
import Recast.Proofs.Simulation
import Recast.Proofs.Unfolding
import Recast.Proofs.Budget
import Recast.Proofs.Termination
import Recast.Proofs.Conformance
import Recast.Proofs.Typing
import Recast.Proofs.Remnants
import Recast.Proofs.Pointers
import Recast.Proofs.Reuse
import Recast.Proofs.Entries
import Recast.Proofs.Slots
import Recast.Proofs.Results
import Recast.Proofs.Identity
import Recast.Proofs.Allocation
import Recast.Proofs.Merging
import Recast.Proofs.Coordinates
import Recast.Proofs.Uniformity
import Recast.Proofs.Idempotence
import Recast.Proofs.Leniency
import Recast.Proofs.Replacement
import Recast.Proofs.Literals
import Recast.Proofs.Members
import Recast.Proofs.Documents
import Recast.Proofs.Layers
import Recast.Proofs.Rebuilding
import Recast.Proofs.Origins
import Recast.Proofs.Failures
import Recast.Proofs.Paths
import Recast.Proofs.Joining
import Recast.Proofs.Erasure
import Recast.Proofs.Extraction
import Recast.Proofs.Rollback
import Recast.Proofs.Detours
import Recast.Proofs.Keys
import Recast.Proofs.Reading
import Recast.Proofs.Reordering
import Recast.Proofs.Natives
import Recast.Proofs.Lossless
import Recast.Proofs.Filling
import Recast.Proofs.Ranges
import Recast.Proofs.Numerals
import Recast.Proofs.Arrays
import Recast.Proofs.Grammar
import Recast.Proofs.Words
import Recast.Proofs.Widening
import Recast.Proofs.Canonical
import Recast.Proofs.LetterCase
import Recast.Proofs.Clearing
import Recast.Proofs.Fields
import Recast.Proofs.ByteOrder
import Recast.Proofs.Positions
import Recast.Proofs.Disjointness
import Recast.Proofs.Encoding
import Recast.Proofs.Texts
import Recast.Proofs.Residues
import Recast.Proofs.NormalForms
import Recast.Proofs.ZeroValues
