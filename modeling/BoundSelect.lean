import BoundSelect.Draft
import BoundSelect.Executor
import BoundSelect.Json.Plain
import BoundSelect.Select.Fragment
import BoundSelect.Settings
import BoundSelect.Wire.Encoding
import BoundSelect.Wire.Standard
import BoundSelect.Proofs.Lockstep
import BoundSelect.Proofs.Alphabet
import BoundSelect.Proofs.Fence
import BoundSelect.Proofs.Numbering
import BoundSelect.Proofs.Noninterference
import BoundSelect.Proofs.Lexing
import BoundSelect.Proofs.Soundness
import BoundSelect.Proofs.NullEquality
import BoundSelect.Proofs.Tokens
import BoundSelect.Proofs.Reader
import BoundSelect.Proofs.Canonical
import BoundSelect.Proofs.Reading
import BoundSelect.Proofs.RoundTrip
import BoundSelect.Proofs.Unambiguous
import BoundSelect.Proofs.Respelling
import BoundSelect.Proofs.Counting
import BoundSelect.Proofs.CountedRows
import BoundSelect.Proofs.Conditions
import BoundSelect.Proofs.Marks
import BoundSelect.Proofs.Lexemes
import BoundSelect.Proofs.Meaning
import BoundSelect.Proofs.Rearrangement
import BoundSelect.Proofs.Days
import BoundSelect.Proofs.Bytes
import BoundSelect.Proofs.Decoding
import BoundSelect.Proofs.Fitting
import BoundSelect.Proofs.Boundary
import BoundSelect.Proofs.CountReferences
import BoundSelect.Proofs.BulkEntries
import BoundSelect.Proofs.QuotedNames
import BoundSelect.Proofs.Spelling
import BoundSelect.Proofs.Comparisons
import BoundSelect.Proofs.Shorthands
import BoundSelect.Proofs.Groups
import BoundSelect.Proofs.Respacing
import BoundSelect.Proofs.Pages
import BoundSelect.Proofs.JsonTokens
import BoundSelect.Proofs.JsonDocuments
import BoundSelect.Proofs.JsonLibrary
import BoundSelect.Proofs.EngineNames
import BoundSelect.Proofs.SettingsText
import BoundSelect.Proofs.Clipping
