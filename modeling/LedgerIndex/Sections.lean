/-! # Cutting a list into consecutive sections

`sections cut l` cuts `l` from the front with `cut` until nothing is left.  `cut` sees the first
element and what follows it, and returns the section together with the rest; when the rest is
never longer than what followed (`Shortens`), `sections_cons` is the equation to reason with.
The byte-level readers of this library (UTF-8, the wire format, message blocks of a digest) are
all of this shape. -/

namespace LedgerIndex

variable {α β : Type}

/-- At most `fuel` sections, the ones found so far in `done` last first. -/
def sections.go (cut : α → List α → β × List α) : Nat → List β → List α → List β
  | 0, done, _ => done.reverse
  | _ + 1, done, [] => done.reverse
  | fuel + 1, done, a :: l =>
    let (piece, rest) := cut a l
    sections.go cut fuel (piece :: done) rest

/-- The sections of a list, in order. -/
def sections (cut : α → List α → β × List α) (l : List α) : List β :=
  sections.go cut l.length [] l

/-- The rest after a cut is never longer than what followed the first element. -/
def Shortens (cut : α → List α → β × List α) : Prop :=
  ∀ a l, (cut a l).2.length ≤ l.length

@[simp] theorem sections_nil (cut : α → List α → β × List α) : sections cut [] = [] := rfl

theorem sections.go_eq (cut : α → List α → β × List α) (h : Shortens cut) :
    ∀ (n : Nat) (l : List α), l.length ≤ n → ∀ (fuel : Nat) (done : List β), l.length ≤ fuel →
      sections.go cut fuel done l = done.reverse ++ sections cut l := by
  intro n
  induction n with
  | zero =>
    intro l hl fuel done _
    have : l = [] := List.length_eq_zero_iff.mp (Nat.le_zero.mp hl)
    subst this
    cases fuel <;> simp [sections.go]
  | succ n ih =>
    intro l hl fuel done hf
    match l, fuel with
    | [], 0 => simp [sections.go]
    | [], fuel + 1 => simp [sections.go]
    | a :: l, fuel + 1 =>
      have hcut := h a l
      have hn : (cut a l).2.length ≤ n := by simp at hl; omega
      have hf' : (cut a l).2.length ≤ fuel := by simp at hf; omega
      simp only [sections.go, sections, List.length_cons]
      rw [ih _ hn fuel _ hf', ih _ hn l.length _ hcut]
      simp

theorem sections_cons (cut : α → List α → β × List α) (h : Shortens cut) (a : α) (l : List α) :
    sections cut (a :: l) = (cut a l).1 :: sections cut (cut a l).2 := by
  show sections.go cut (l.length + 1) [] (a :: l) = _
  simp only [sections.go]
  rw [sections.go_eq cut h _ _ (Nat.le_refl _) _ _ (h a l)]
  simp

theorem mapM_id_map_some (l : List α) : (l.map some).mapM id = some l := by
  induction l with
  | nil => rfl
  | cons a l ih => simp [ih]

theorem eq_map_some_of_mapM_id {l : List (Option α)} {as : List α} (h : l.mapM id = some as) :
    l = as.map some := by
  induction l generalizing as with
  | nil =>
      cases h
      rfl
  | cons a l ih =>
      simp only [List.mapM_cons, Option.bind_eq_bind, Option.bind_eq_some_iff, Option.pure_def,
        Option.some.injEq] at h
      obtain ⟨b, rfl, bs, hbs, rfl⟩ := h
      rw [ih hbs]
      rfl

end LedgerIndex
