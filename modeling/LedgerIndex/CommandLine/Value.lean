import LedgerIndex.Bytes
import LedgerIndex.Decimal.Basic
import LedgerIndex.Text.Search
import LedgerIndex.Url.Parser

/-! # Values of options

The forms that the value of an option can have, and what it means that a command line is not
usable. -/

namespace LedgerIndex.CommandLine

/-- Why a command line is not usable, a request for help included. -/
inductive UsageError where
  | unknownArgument
  | invalidValue
  | valueValidation
  | argumentConflict
  | missingRequiredArgument
  | tooManyValues
  | displayHelp
deriving DecidableEq, Repr

def UsageError.message : UsageError → String
  | unknownArgument => "an argument is not known"
  | invalidValue => "an option lacks its value or does not allow the one it has"
  | valueValidation => "the value of an option cannot be read"
  | argumentConflict => "an option is given twice"
  | missingRequiredArgument => "an option or a command is missing"
  | tooManyValues => "an option has a value and takes none"
  | displayHelp => "commands: block-hash, config, dashboards, start"

/-- The form of a value: any text, a path that is not empty, a number of sixty-four bits, bytes in
hexadecimal, a URL, or one of some words. -/
inductive ValueForm where
  | text
  | path
  | natural
  | bytes
  | url
  | choice (words : List String)
deriving DecidableEq, Repr

inductive Value where
  | text (text : String)
  | natural (number : Nat)
  | bytes (bytes : Bytes)
  | url (url : Url)
deriving DecidableEq, Repr

/-- A text without any `0x` in front, looking at most `fuel` times. -/
def withoutMarks : Nat → List Char → List Char
  | 0, cs => cs
  | fuel + 1, cs =>
    match Search.after? ['0', 'x'] cs with
    | some rest => withoutMarks fuel rest
    | none => cs

/-- The bytes that hexadecimal digits write, behind any number of marks `0x`. -/
def hexBytes? (text : String) : Option Bytes :=
  Bytes.ofDigits? [] (withoutMarks text.length text.toList)

/-- A value that may be missing, in which case there is an error. -/
def orError {α : Type} (error : UsageError) : Option α → Except UsageError α
  | some a => .ok a
  | none => .error error

def ValueForm.read : ValueForm → String → Except UsageError Value
  | text, t => .ok (.text t)
  | path, t => if t = "" then .error .invalidValue else .ok (.text t)
  | natural, t =>
    (orError .valueValidation (Decimal.natural? (UInt64.size - 1) t.toList)).map .natural
  | bytes, t => (orError .valueValidation (hexBytes? t)).map .bytes
  | url, t => (orError .valueValidation (Url.parse t).toOption).map .url
  | choice words, t => if words.contains t then .ok (.text t) else .error .invalidValue

end LedgerIndex.CommandLine
