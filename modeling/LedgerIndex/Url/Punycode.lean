/-! # Labels outside ASCII

A label of a domain name with characters outside ASCII is written with ASCII letters, digits and
hyphens: first its ASCII characters, then, in the order of their code points, the other characters,
each as the distance to where it is inserted, in a variable number of digits of base 36. -/

namespace LedgerIndex.Punycode

/-- The digit of a value below thirty-six. -/
def digit (n : Nat) : Char :=
  if n < 26 then Char.ofNat (97 + n) else Char.ofNat (22 + n)

/-- The least value of a digit that another digit follows. -/
def threshold (position bias : Nat) : Nat :=
  if position ≤ bias then 1 else if bias + 26 ≤ position then 26 else position - bias

/-- The digits of a distance, from a position on. -/
def distance (bias : Nat) : Nat → Nat → Nat → List Char
  | 0, _, _ => []
  | fuel + 1, position, n =>
    let t := threshold position bias
    if n < t then [digit n]
    else digit (t + (n - t) % (36 - t)) :: distance bias fuel (position + 36) ((n - t) / (36 - t))

/-- Scales a distance down, counting the steps. -/
def scaleDown : Nat → Nat → Nat → Nat
  | 0, delta, k => k + 36 * delta / (delta + 38)
  | fuel + 1, delta, k =>
    if 455 < delta then scaleDown fuel (delta / 35) (k + 36) else k + 36 * delta / (delta + 38)

/-- The bias after a distance was written. -/
def adapt (delta count : Nat) (first : Bool) : Nat :=
  let delta := if first then delta / 700 else delta / 2
  scaleDown delta (delta + delta / count) 0

/-- The state of the writer: the characters so far, the distance to be written next, the bias, and
how many characters have been written. -/
structure State where
  out : List Char
  delta : Nat
  bias : Nat
  handled : Nat

/-- Passes over one character of the label while `point` is being inserted. -/
def pass (basic point : Nat) (s : State) (c : Char) : State :=
  if c.toNat < point then { s with delta := s.delta + 1 }
  else if c.toNat = point then
    { out := s.out ++ distance s.bias (s.delta + 1) 36 s.delta
      delta := 0
      bias := adapt s.delta (s.handled + 1) (s.handled == basic)
      handled := s.handled + 1 }
  else s

/-- Inserts the characters of increasing code points. -/
def insertPoints (label : List Char) (basic : Nat) : List Nat → Nat → State → State
  | [], _, s => s
  | point :: rest, next, s =>
    let s := { s with delta := s.delta + (point - next) * (s.handled + 1) }
    let s := label.foldl (pass basic point) s
    insertPoints label basic rest (point + 1) { s with delta := s.delta + 1 }

/-- The ASCII form of a label, without the mark in front. -/
def encode (label : List Char) : List Char :=
  let basic := label.filter (fun c => c.toNat < 128)
  let points := ((label.map Char.toNat).filter (128 ≤ ·)).mergeSort.eraseDups
  let start : State := ⟨[], 0, 72, basic.length⟩
  let written := (insertPoints label basic.length points 128 start).out
  if basic = [] then written else basic ++ '-' :: written

end LedgerIndex.Punycode
