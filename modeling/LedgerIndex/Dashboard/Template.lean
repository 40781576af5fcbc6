import LedgerIndex.Text.Search

/-! # Templates

A template is a text with placeholders.  `Template.render` replaces the placeholders one after the
other, the longest first, so that a placeholder that contains another is replaced as a whole. -/

namespace LedgerIndex.Template

/-- A placeholder and the text that replaces it. -/
structure Substitution where
  placeholder : String
  value : String
deriving DecidableEq, Repr

/-- The order of replacement: by length in UTF-8, the longest first, then by the text. -/
def Substitution.before (s t : Substitution) : Bool :=
  t.placeholder.utf8ByteSize < s.placeholder.utf8ByteSize ||
    (t.placeholder.utf8ByteSize == s.placeholder.utf8ByteSize && s.placeholder ≤ t.placeholder)

/-- The substitutions in the order of replacement, equal placeholders as given, empty ones left
out. -/
def ordered (substitutions : List Substitution) : List Substitution :=
  (substitutions.mergeSort Substitution.before).filter (·.placeholder != "")

def replaceOne (text : List Char) (s : Substitution) : List Char :=
  Search.replace s.placeholder.toList s.value.toList text

/-- A template with its placeholders replaced. -/
def render (template : String) (substitutions : List Substitution) : String :=
  String.ofList ((ordered substitutions).foldl replaceOne template.toList)

end LedgerIndex.Template
