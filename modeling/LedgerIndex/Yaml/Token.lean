/-! # Tokens

A document as a sequence of tokens.  The structure that indentation expresses has tokens of its own:
a block collection begins with a token and ends with `blockEnd`; a key that is recognized by the
colon behind it has its `key` token in front. -/

namespace LedgerIndex.Yaml

inductive Token where
  | version (major minor : Nat)
  | tagHandle (handle expansion : String)
  | documentStart
  | documentEnd
  | blockSequence
  | blockMapping
  | blockEnd
  | flowSequence
  | flowSequenceEnd
  | flowMapping
  | flowMappingEnd
  | entry
  | flowEntry
  | key
  | value
  | alias (name : String)
  | anchor (name : String)
  | tag (handle name : String)
  | scalar (text : String) (plain : Bool)
deriving DecidableEq, Repr

end LedgerIndex.Yaml
