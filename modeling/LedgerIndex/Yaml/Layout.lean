import LedgerIndex.Yaml.Scalar.Block
import LedgerIndex.Yaml.Scalar.Plain
import LedgerIndex.Yaml.Scalar.Quoted
import LedgerIndex.Yaml.Tag

/-! # From text to tokens

`Layout` reads a text token by token.  It keeps the columns of the open block collections, and at
every level of nesting the place of a node that a colon may still turn into a key: such a node
stands on one line and is not longer than 1024 characters.  `Token.ofChars?` is the whole sequence
of tokens. -/

namespace LedgerIndex.Yaml

/-- The place of a node that may turn out to be a key: the number of tokens before it, and where it
begins.  A node at the column of its block has to be a key. -/
structure KeyPlace where
  position : Nat
  start : Cursor
  required : Bool
deriving DecidableEq, Repr

/-- The state of reading.  The tokens so far stand last first; `indent` is the column of the
innermost block collection, and `indents` those around it, the outermost being -1. -/
structure Layout where
  cursor : Cursor
  tokens : List Token := []
  indent : Int := -1
  indents : List Int := []
  place : Option KeyPlace := none
  outer : List (Option KeyPlace) := []
  keyAllowed : Bool := true
deriving DecidableEq, Repr

namespace Layout

/-- The cursor is in a flow collection. -/
def inFlow (l : Layout) : Bool :=
  l.outer ≠ []

def column (l : Layout) : Int :=
  l.cursor.column

def push (l : Layout) (token : Token) : Layout :=
  { l with tokens := token :: l.tokens }

/-- One more token, behind which the text goes on at a cursor. -/
def pushAt (l : Layout) (token : Token) (cursor : Cursor) : Layout :=
  { l with tokens := token :: l.tokens, cursor := cursor }

/-- Inserts a token behind the first `position` tokens. -/
def insert (l : Layout) (position : Nat) (token : Token) : Layout :=
  { l with tokens := l.tokens.insertIdx (l.tokens.length - position) token }

/-- Opens a block collection at a column, unless one is open there. -/
def openBlock (l : Layout) (column : Int) (position : Nat) (token : Token) : Layout :=
  if !l.inFlow ∧ l.indent < column then
    { l.insert position token with indent := column, indents := l.indent :: l.indents }
  else l

/-- Closes the block collections right of a column, among those given. -/
def closeBlocksFrom (column : Int) : List Int → Layout → Layout
  | [], l => l
  | next :: rest, l =>
    if column < l.indent then
      closeBlocksFrom column rest { l.push .blockEnd with indent := next, indents := rest }
    else l

/-- Closes the block collections right of a column. -/
def closeBlocks (l : Layout) (column : Int) : Layout :=
  if l.inFlow then l else closeBlocksFrom column l.indents l

/-- The node at a place that is no key after all, if it need not be one. -/
def abandon? (place : Option KeyPlace) : Option (Option KeyPlace) :=
  if (place.map (·.required)).getD false then none else some none

/-- Gives up the place of this level. -/
def dropPlace? (l : Layout) : Option Layout :=
  (abandon? l.place).map fun place => { l with place := place }

/-- Remembers that a key may begin at the cursor. -/
def savePlace? (l : Layout) : Option Layout :=
  if l.keyAllowed then
    l.dropPlace?.map fun l =>
      { l with place := some ⟨l.tokens.length, l.cursor, !l.inFlow && l.indent == l.column⟩ }
  else some l

/-- The place is too far behind a cursor to be that of a key. -/
def isStale (cursor : Cursor) (place : KeyPlace) : Bool :=
  place.start.line < cursor.line || place.start.index + 1024 < cursor.index

def refresh? (cursor : Cursor) (place : Option KeyPlace) : Option (Option KeyPlace) :=
  if (place.map (isStale cursor)).getD false then abandon? place else some place

def dropStale? (l : Layout) : Option Layout := do
  let place ← refresh? l.cursor l.place
  let outer ← l.outer.mapM (refresh? l.cursor)
  return { l with place := place, outer := outer }

/-- Skips at most `fuel` runs of blanks, comments and line ends before a token. -/
def skipToToken : Nat → Layout → Layout
  | 0, l => l
  | fuel + 1, l =>
    let tabs := l.inFlow || !l.keyAllowed
    let cursor := l.cursor.skipWhile fun c => c == ' ' || (tabs && c == '\t')
    let cursor := match cursor.chars with
      | '#' :: _ => cursor.skipWhile fun c => !isBreak c
      | _ => cursor
    match cursor.lineEnd? with
    | some (_, cursor) =>
      skipToToken fuel { l with cursor := cursor, keyAllowed := l.keyAllowed || !l.inFlow }
    | none => { l with cursor := cursor }

/-- A token that belongs to the document as a whole. -/
def readOutermost (l : Layout) (token : Token) (cursor : Cursor) : Option Layout :=
  (l.closeBlocks (-1)).dropPlace?.map fun l => { l.pushAt token cursor with keyAllowed := false }

/-- The beginning of a flow collection. -/
def openFlow (l : Layout) (token : Token) : Option Layout :=
  l.savePlace?.map fun l =>
    { l.pushAt token (l.cursor.skip 1) with
      place := none, outer := l.place :: l.outer, keyAllowed := true }

/-- The end of a flow collection. -/
def closeFlow (l : Layout) (token : Token) : Option Layout :=
  l.dropPlace?.map fun l =>
    let l := { l.pushAt token (l.cursor.skip 1) with keyAllowed := false }
    match l.outer with
    | [] => l
    | place :: outer => { l with place := place, outer := outer }

def readComma (l : Layout) : Option Layout :=
  l.dropPlace?.map fun l => { l.pushAt .flowEntry (l.cursor.skip 1) with keyAllowed := true }

/-- The indicator of an entry of a block sequence. -/
def readEntry (l : Layout) : Option Layout :=
  if l.inFlow || l.keyAllowed then
    (l.openBlock l.column l.tokens.length .blockSequence).dropPlace?.map fun l =>
      { l.pushAt .entry (l.cursor.skip 1) with keyAllowed := true }
  else none

def readKey (l : Layout) : Option Layout :=
  if l.inFlow || l.keyAllowed then
    (l.openBlock l.column l.tokens.length .blockMapping).dropPlace?.map fun l =>
      { l.pushAt .key (l.cursor.skip 1) with keyAllowed := !l.inFlow }
  else none

/-- The indicator of a value, which makes the node at the place of this level a key. -/
def readValue (l : Layout) : Option Layout :=
  match l.place with
  | some place =>
    let l := l.insert place.position .key
    let l := l.openBlock place.start.column place.position .blockMapping
    some { l.pushAt .value (l.cursor.skip 1) with place := none, keyAllowed := false }
  | none =>
    if l.inFlow || l.keyAllowed then
      let l := l.openBlock l.column l.tokens.length .blockMapping
      some { l.pushAt .value (l.cursor.skip 1) with keyAllowed := !l.inFlow }
    else none

/-- A token that belongs to a node, which may be a key. -/
def readNodePart (l : Layout) (read : Layout → Option (Token × Cursor)) : Option Layout := do
  let l ← l.savePlace?
  let (token, cursor) ← read l
  return { l.pushAt token cursor with keyAllowed := false }

def readAnchor (l : Layout) (token : String → Token) : Option Layout :=
  l.readNodePart fun l => (Tag.anchorName? (l.cursor.skip 1)).map fun (name, cursor) =>
    (token name, cursor)

def readQuoted (l : Layout) (mark : Char) : Option Layout :=
  l.readNodePart fun l => (Quoted.read mark (l.cursor.skip 1)).map fun (text, cursor) =>
    (.scalar (String.ofList text) false, cursor)

def readBlock (l : Layout) (folded : Bool) : Option Layout := do
  let l ← l.dropPlace?
  let (text, cursor) ← Block.read folded (l.indent + 1).toNat l.indent.toNat (l.cursor.skip 1)
  return { l.pushAt (.scalar (String.ofList text) false) cursor with keyAllowed := true }

def readPlain (l : Layout) : Option Layout := do
  let l ← l.savePlace?
  let plain ← Plain.read l.inFlow (l.indent + 1).toNat l.cursor
  return { l.pushAt (.scalar (String.ofList plain.text) true) plain.cursor with
    keyAllowed := plain.onNewLine }

/-- The characters with which no plain scalar begins, unless some other character follows. -/
def indicators : List Char :=
  ['-', '?', ':', ',', '[', ']', '{', '}', '#', '&', '*', '!', '|', '>', '\'', '"', '%', '@',
    '\x60']

/-- A plain scalar begins with a character and the ones behind it. -/
def startsPlain (l : Layout) (c : Char) (rest : List Char) : Bool :=
  !(isGap c || indicators.contains c)
    || (c == '-' && !((rest.head?.map isBlank).getD false))
    || (!l.inFlow && (c == '?' || c == ':') && !atGap rest)

/-- Reads the token that begins with a character at the cursor. -/
def readToken (l : Layout) (c : Char) (rest : List Char) : Option Layout :=
  if l.cursor.column = 0 ∧ c = '%' then do
    let l ← (l.closeBlocks (-1)).dropPlace?
    let (token, cursor) ← Tag.readDirective (l.cursor.skip 1)
    return { l.pushAt token cursor with keyAllowed := false }
  else if l.cursor.atDocumentMark then
    l.readOutermost (if c = '-' then .documentStart else .documentEnd) (l.cursor.skip 3)
  else if c = '[' then l.openFlow .flowSequence
  else if c = '{' then l.openFlow .flowMapping
  else if c = ']' then l.closeFlow .flowSequenceEnd
  else if c = '}' then l.closeFlow .flowMappingEnd
  else if c = ',' then l.readComma
  else if c = '-' ∧ atGap rest then l.readEntry
  else if c = '?' ∧ (l.inFlow ∨ atGap rest) then l.readKey
  else if c = ':' ∧ (l.inFlow ∨ atGap rest) then l.readValue
  else if c = '*' then l.readAnchor .alias
  else if c = '&' then l.readAnchor .anchor
  else if c = '!' then l.readNodePart fun l => Tag.read l.inFlow l.cursor
  else if (c = '|' ∨ c = '>') ∧ !l.inFlow then l.readBlock (c == '>')
  else if c = '\'' ∨ c = '"' then l.readQuoted c
  else if l.startsPlain c rest then l.readPlain
  else none

/-- Reads at most `fuel` tokens to the end of the text; every one takes up a character at least, and
so does every line between them. -/
def readTokens : Nat → Layout → Option (List Token)
  | 0, _ => none
  | fuel + 1, l => do
    let l ← (skipToToken (fuel + 1) l).dropStale?
    let l := l.closeBlocks l.column
    match l.cursor.chars with
    | [] =>
      let l ← (l.closeBlocks (-1)).dropPlace?
      return l.tokens.reverse
    | c :: rest => readTokens fuel (← l.readToken c rest)

end Layout

/-- The tokens of a text.  A byte order mark in front of it takes up a column. -/
def Token.ofChars? (chars : List Char) : Option (List Token) :=
  if !chars.all isAllowed then none
  else
    let start : Cursor := ⟨chars, 0, 0, 0⟩
    let cursor := match chars with
      | '\uFEFF' :: _ => start.skip 1
      | _ => start
    Layout.readTokens (chars.length + 1) { cursor := cursor }

end LedgerIndex.Yaml
