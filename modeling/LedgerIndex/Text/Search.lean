/-! # Searching and replacing

Occurrences of one list within another: the first occurrence (`Search.from?`), and the replacement
of all occurrences from the left, none overlapping another (`Search.replace`). -/

namespace LedgerIndex.Search

variable {α : Type} [DecidableEq α]

/-- What follows a given beginning. -/
def after? : List α → List α → Option (List α)
  | [], l => some l
  | _ :: _, [] => none
  | a :: pattern, b :: l => if a = b then after? pattern l else none

/-- The rest of a list from the first occurrence of a pattern on. -/
def from? (pattern : List α) : List α → Option (List α)
  | [] => if pattern = [] then some [] else none
  | a :: l => if (after? pattern (a :: l)).isSome then some (a :: l) else from? pattern l

def occursIn (pattern l : List α) : Bool :=
  (from? pattern l).isSome

/-- Replaces occurrences, reading at most `fuel` elements or occurrences, the result so far last
first. -/
def replaceFrom (pattern value : List α) : Nat → List α → List α → List α
  | 0, done, l => done.reverse ++ l
  | _ + 1, done, [] => done.reverse
  | fuel + 1, done, a :: l =>
    match after? pattern (a :: l) with
    | some rest => replaceFrom pattern value fuel (value.reverse ++ done) rest
    | none => replaceFrom pattern value fuel (a :: done) l

/-- Replaces every occurrence of a non-empty pattern. -/
def replace (pattern value l : List α) : List α :=
  replaceFrom pattern value l.length [] l

end LedgerIndex.Search
