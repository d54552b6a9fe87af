import DiceNotation.Journal
import DiceNotation.Json.Forms
import DiceNotation.Proofs.Streams.Lookahead
import DiceNotation.Proofs.Parsing.Grammar
import DiceNotation.Proofs.Parsing.Steps
import DiceNotation.Proofs.Parsing.Programs
import DiceNotation.Proofs.Parsing.Alike
import DiceNotation.Proofs.Parsing.Sentences
import DiceNotation.Proofs.Notation.Pieces
import DiceNotation.Proofs.Notation.Derivations
import DiceNotation.Proofs.Notation.Recognition
import DiceNotation.Proofs.Meaning.Writable
import DiceNotation.Proofs.Meaning.Denotations
import DiceNotation.Proofs.Meaning.RoundTrip
import DiceNotation.Proofs.Meaning.Separators
import DiceNotation.Proofs.Rolling.Runs
import DiceNotation.Proofs.Rolling.Derived
import DiceNotation.Proofs.Rolling.Reachable
import DiceNotation.Proofs.Lexing.Tiling
import DiceNotation.Proofs.Lexing.Moves
import DiceNotation.Proofs.Errors.Faults
import DiceNotation.Proofs.Rolling.Order
import DiceNotation.Proofs.Rolling.Displays
import DiceNotation.Proofs.Errors.Programs
import DiceNotation.Proofs.Errors.Prefixes
import DiceNotation.Proofs.Notation.Alphabet
import DiceNotation.Proofs.Errors.Positions
import DiceNotation.Proofs.Notation.Boundaries
import DiceNotation.Proofs.Rolling.Limits
import DiceNotation.Proofs.Rolling.Independence
import DiceNotation.Proofs.Rolling.Seeded
import DiceNotation.Proofs.Rolling.Fairness
import DiceNotation.Proofs.Rolling.Explosions
import DiceNotation.Proofs.Rolling.Endings
import DiceNotation.Proofs.Rolling.Totals
import DiceNotation.Proofs.Meaning.Chains
import DiceNotation.Proofs.Meaning.Spacing
import DiceNotation.Proofs.Meaning.Defects
import DiceNotation.Proofs.Rolling.Mirrored
import DiceNotation.Proofs.Rolling.Ranges
import DiceNotation.Proofs.Parsing.Reach
import DiceNotation.Proofs.Parsing.Spent
import DiceNotation.Proofs.Journal.Looked
import DiceNotation.Proofs.Journal.Entries
import DiceNotation.Proofs.Json.Strings
import DiceNotation.Proofs.Json.Values
import DiceNotation.Proofs.Json.RoundTrip
import DiceNotation.Proofs.Settings.Encodings
import DiceNotation.Proofs.Settings.Seeds
