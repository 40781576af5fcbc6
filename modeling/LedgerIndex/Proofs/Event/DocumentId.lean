import LedgerIndex.Event.Basic
import LedgerIndex.Proofs.Decimal.Digits

/-! # Document ids tell events apart

A document id joins the peer, the channel and the numbers of an event with underscores, and channels
may hold underscores and digits themselves.  Read from the right it is unambiguous all the same: the
numbers hold no underscore, and events of one kind have equally many of them.  So events of one kind
and one peer have the same document id only when they have the same channel and the same place
(`Event.documentId_inj`). -/

namespace LedgerIndex

theorem append_cons_inj_of_notMem_right {α : Type} {a : α} {x y u v : List α} (hu : a ∉ u)
    (hv : a ∉ v) (h : x ++ a :: u = y ++ a :: v) : x = y ∧ u = v := by
  rcases List.append_eq_append_iff.mp h with ⟨w, hy, hw⟩ | ⟨w, hx, hw⟩
  · cases w with
    | nil => simp_all
    | cons b w =>
        rw [List.cons_append, List.cons.injEq] at hw
        exact absurd (hw.2 ▸ by simp) hu
  · cases w with
    | nil => simp_all
    | cons b w =>
        rw [List.cons_append, List.cons.injEq] at hw
        exact absurd (hw.2 ▸ by simp) hv

namespace Event

/-- The end of a document id: each number behind an underscore. -/
def placeSuffix (numbers : List Nat) : List Char :=
  numbers.flatMap fun n => '_' :: Decimal.digits n

theorem toList_intercalate_place (text : String) (numbers : List Nat) :
    ("_".intercalate (text :: numbers.map Decimal.text)).toList
      = text.toList ++ placeSuffix numbers := by
  induction numbers generalizing text with
  | nil => simp [placeSuffix]
  | cons n numbers ih =>
      rw [List.map_cons, String.intercalate_cons_cons, String.toList_append, String.toList_append,
        ih]
      simp [placeSuffix, Decimal.text]

theorem toList_documentId (e : Event) :
    e.documentId.toList
      = e.origin.peer.toList ++ '_' :: e.channel.toList ++ placeSuffix e.place := by
  rw [documentId, String.intercalate_cons_cons, String.toList_append, String.toList_append,
    toList_intercalate_place]
  simp

theorem placeSuffix_inj {x y : List Char} :
    ∀ {m n : List Nat}, m.length = n.length → x ++ placeSuffix m = y ++ placeSuffix n →
      x = y ∧ m = n
  | [], [], _, h => ⟨by simpa [placeSuffix] using h, rfl⟩
  | k :: m, l :: n, hlength, h => by
      have hshift : ∀ (z : List Char) (i : Nat) (is : List Nat),
          z ++ placeSuffix (i :: is) = (z ++ '_' :: Decimal.digits i) ++ placeSuffix is := by
        intro z i is
        simp [placeSuffix]
      rw [hshift, hshift] at h
      obtain ⟨hhead, rfl⟩ := placeSuffix_inj (by simpa using hlength) h
      obtain ⟨rfl, hdigits⟩ := append_cons_inj_of_notMem_right
        (Decimal.underscore_notMem_digits k) (Decimal.underscore_notMem_digits l) hhead
      exact ⟨rfl, by rw [Decimal.digits_injective hdigits]⟩

theorem length_place_of_kind_eq {e f : Event} (h : e.kind = f.kind) :
    e.place.length = f.place.length := by
  cases e <;> cases f <;> simp_all [kind, place]

/-- **Events of one kind and peer with one document id have one channel and one place.** -/
theorem documentId_inj {e f : Event} (hkind : e.kind = f.kind)
    (hpeer : e.origin.peer = f.origin.peer) (h : e.documentId = f.documentId) :
    e.channel = f.channel ∧ e.place = f.place := by
  have hlist := congrArg String.toList h
  rw [toList_documentId, toList_documentId, hpeer] at hlist
  obtain ⟨hhead, hplace⟩ := placeSuffix_inj (length_place_of_kind_eq hkind) hlist
  refine ⟨String.toList_injective ?_, hplace⟩
  simpa using hhead

theorem documentId_congr {e f : Event} (hpeer : e.origin.peer = f.origin.peer)
    (hchannel : e.channel = f.channel) (hplace : e.place = f.place) :
    e.documentId = f.documentId := by
  rw [documentId, documentId, hpeer, hchannel, hplace]

theorem blockNumber_eq_of_place_eq {e f : Event} (h : e.place = f.place) :
    e.blockNumber = f.blockNumber := by
  cases e <;> cases f <;> simp_all [place, blockNumber]

end Event

theorem IndexNames.injective_indexFor_default :
    Function.Injective ({} : IndexNames).indexFor := by
  intro a b h
  cases a <;> cases b <;> first | rfl | exact absurd h (by decide +kernel)

end LedgerIndex
