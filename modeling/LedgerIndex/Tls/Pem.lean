import LedgerIndex.Text.Base64
import LedgerIndex.Text.Search
import LedgerIndex.Text.Utf8

/-! # Sections of certificate files

A certificate file is a text with sections between a beginning and an ending line that carry the
same label; the lines between them are the content in base 64.  Text outside of sections is passed
over. -/

namespace LedgerIndex.Pem

/-- A section: its label and its content. -/
structure Section where
  label : String
  content : Bytes
deriving DecidableEq, Repr

def lines (cs : List Char) : List (List Char) :=
  cs.foldr (fun c lines =>
    if c = '\n' ∨ c = '\r' then [] :: lines
    else match lines with
      | line :: rest => (c :: line) :: rest
      | [] => [[c]]) [[]]

/-- The label of a beginning line: what stands before its five final dashes. -/
def labelOf? (rest : List Char) : Option (List Char) :=
  let trimmed := (rest.reverse.dropWhile (· == ' '))
  if trimmed.takeWhile (· == '-') = List.replicate 5 '-' then
    some (trimmed.drop 5).reverse
  else none

/-- Reads the sections among lines; `begun` is the label and the content of the section that has
begun, its lines last first. -/
def readLines (begun : Option (List Char × List (List Char))) (done : List Section) :
    List (List Char) → Option (List Section)
  | [] => if begun.isNone then some done.reverse else none
  | line :: rest =>
    match Search.after? "-----BEGIN ".toList line with
    | some tail =>
      match labelOf? tail with
      | some label => readLines (some (label, [])) done rest
      | none => none
    | none =>
      match begun with
      | none => readLines none done rest
      | some (label, content) =>
        if (Search.after? ("-----END ".toList ++ label ++ "-----".toList) line).isSome then
          let text := (content.reverse.flatMap id).filter fun c => !(c == ' ' || c == '\t')
          match Base64.decode? text with
          | some bytes => readLines none (⟨String.ofList label, bytes⟩ :: done) rest
          | none => none
        else readLines (some (label, line :: content)) done rest

/-- The sections of a certificate file, or `none` where a section is malformed. -/
def sections? (bytes : Bytes) : Option (List Section) :=
  readLines none [] (lines (Utf8.lossyChars bytes))

end LedgerIndex.Pem
