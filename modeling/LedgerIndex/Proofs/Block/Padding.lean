import LedgerIndex.Proofs.Block.MessageTypes
import Mathlib.Data.List.Forall2

/-! # Messages with undeclared fields in them

`Encoded.Padded` puts fields of undeclared numbers into the bytes of a message: between its fields,
inside of the messages nested in it, and inside of the messages whose bytes it carries, the lengths
around them adjusted.

Two messages are `MessageType.Alike` if they are equal up to such fields inside of the bytes that
they carry.  One field, taken into messages that are alike, makes messages that are alike
(`MessageType.merge_follows`), and so what padded bytes are read as is alike to what the bytes are
read as (`Encoded.Padded.follows`). -/

namespace LedgerIndex.Encoded

open Wire MessageType

/-! ### Padded bytes -/

/-- The second bytes are the first with fields of undeclared numbers in them, as bytes of a message
of the type. -/
inductive Padded : MessageType → Nat → Bytes → Bytes → Prop
  | same {type : MessageType} {budget : Nat} (bytes : Bytes) : Padded type budget bytes bytes
  | add {type : MessageType} {budget : Nat} {field : Field} {added bytes bytes' : Bytes}
      (hfield : IsField budget field added) (hnumber : type.Undeclared field.number)
      (hrest : Padded type budget bytes bytes') : Padded type budget bytes (added ++ bytes')
  | keep {type : MessageType} {budget : Nat} {field : Field} {first bytes bytes' : Bytes}
      (hfield : IsField budget field first) (hrest : Padded type budget bytes bytes') :
      Padded type budget (first ++ bytes) (first ++ bytes')
  | nested {type inner : MessageType} {budget number : Nat}
      {content content' first first' bytes bytes' : Bytes}
      (hpart : (number, .nested inner) ∈ type.declared)
      (hfield : IsField budget ⟨number, .block content⟩ first)
      (hfield' : IsField budget ⟨number, .block content'⟩ first')
      (hinside : Padded inner (budget - 1) content content')
      (hrest : Padded type budget bytes bytes') :
      Padded type budget (first ++ bytes) (first' ++ bytes')
  | wrapped {type inner : MessageType} {budget number : Nat}
      {content content' first first' bytes bytes' : Bytes}
      (hpart : (number, .wrapped inner) ∈ type.declared)
      (hfield : IsField budget ⟨number, .block content⟩ first)
      (hfield' : IsField budget ⟨number, .block content'⟩ first')
      (hinside : Padded inner levels content content')
      (hrest : Padded type budget bytes bytes') :
      Padded type budget (first ++ bytes) (first' ++ bytes')

/-! ### Values that follow others -/

section Follows

variable {α α' β β' : Type} {R : α → α' → Prop} {Q : β → β' → Prop}

/-- Where there is a first value, there is a related second one. -/
def Follows (R : α → α' → Prop) (x : Option α) (x' : Option α') : Prop :=
  ∀ a, x = some a → ∃ a', x' = some a' ∧ R a a'

theorem Follows.some {a : α} {a' : α'} (h : R a a') : Follows R (some a) (some a') := by
  rintro _ ⟨⟩
  exact ⟨a', rfl, h⟩

theorem Follows.refl (x : Option α) : Follows Eq x x :=
  fun a ha => ⟨a, ha, rfl⟩

theorem Follows.bind {x : Option α} {x' : Option α'} {f : α → Option β} {f' : α' → Option β'}
    (hx : Follows R x x') (hf : ∀ a a', R a a' → Follows Q (f a) (f' a')) :
    Follows Q (x.bind f) (x'.bind f') := by
  intro b hb
  obtain ⟨a, rfl, hb⟩ := Option.bind_eq_some_iff.mp hb
  obtain ⟨a', rfl, ha⟩ := hx a rfl
  exact hf a a' ha b hb

theorem Follows.map {x : Option α} {x' : Option α'} {f : α → β} {f' : α' → β'}
    (hx : Follows R x x') (hf : ∀ a a', R a a' → Q (f a) (f' a')) :
    Follows Q (x.map f) (x'.map f') := by
  intro b hb
  obtain ⟨a, rfl, rfl⟩ := Option.map_eq_some_iff.mp hb
  obtain ⟨a', rfl, ha⟩ := hx a rfl
  exact ⟨f' a', rfl, hf a a' ha⟩

end Follows

/-! ### Messages that are alike

Bytes that carry a message may be padded; everything else is the same. -/

structure BlockData.Alike (m m' : BlockData) : Prop where
  entries : List.Forall₂ (Padded envelope levels) m.entries m'.entries

structure Block.Alike (m m' : Block) : Prop where
  header : m.header = m'.header
  data : Option.Rel BlockData.Alike m.data m'.data
  metadata : m.metadata = m'.metadata

structure Envelope.Alike (m m' : Envelope) : Prop where
  payload : Padded MessageType.payload levels m.payload m'.payload
  signature : m.signature = m'.signature

structure Header.Alike (m m' : Header) : Prop where
  channelHeader : Padded MessageType.channelHeader levels m.channelHeader m'.channelHeader
  signatureHeader : Padded MessageType.signatureHeader levels m.signatureHeader m'.signatureHeader

structure Payload.Alike (m m' : Payload) : Prop where
  header : Option.Rel Header.Alike m.header m'.header
  data : Padded transaction levels m.data m'.data

structure TransactionAction.Alike (m m' : TransactionAction) : Prop where
  header : m.header = m'.header
  payload : Padded chaincodeActionPayload levels m.payload m'.payload

structure Transaction.Alike (m m' : Transaction) : Prop where
  actions : List.Forall₂ TransactionAction.Alike m.actions m'.actions

structure ChaincodeEndorsedAction.Alike (m m' : ChaincodeEndorsedAction) : Prop where
  proposalResponsePayload : Padded MessageType.proposalResponsePayload levels
    m.proposalResponsePayload m'.proposalResponsePayload

structure ChaincodeActionPayload.Alike (m m' : ChaincodeActionPayload) : Prop where
  proposalPayload : m.proposalPayload = m'.proposalPayload
  action : Option.Rel ChaincodeEndorsedAction.Alike m.action m'.action

structure ProposalResponsePayload.Alike (m m' : ProposalResponsePayload) : Prop where
  proposalHash : m.proposalHash = m'.proposalHash
  extension : Padded chaincodeAction levels m.extension m'.extension

structure ChaincodeAction.Alike (m m' : ChaincodeAction) : Prop where
  results : Padded txReadWriteSet levels m.results m'.results
  events : m.events = m'.events
  chaincodeId : m.chaincodeId = m'.chaincodeId

structure NamespaceSet.Alike (m m' : NamespaceSet) : Prop where
  namespaceName : m.namespaceName = m'.namespaceName
  keys : Padded keyReadWriteSet levels m.keys m'.keys

structure TxReadWriteSet.Alike (m m' : TxReadWriteSet) : Prop where
  dataModel : m.dataModel = m'.dataModel
  namespaces : List.Forall₂ NamespaceSet.Alike m.namespaces m'.namespaces

namespace MessageType

/-- Messages that are equal but for undeclared fields inside of the bytes that they carry. -/
def Alike : (type : MessageType) → type.Value → type.Value → Prop
  | blockData => BlockData.Alike
  | block => Block.Alike
  | envelope => Envelope.Alike
  | header => Header.Alike
  | payload => Payload.Alike
  | transactionAction => TransactionAction.Alike
  | transaction => Transaction.Alike
  | chaincodeEndorsedAction => ChaincodeEndorsedAction.Alike
  | chaincodeActionPayload => ChaincodeActionPayload.Alike
  | proposalResponsePayload => ProposalResponsePayload.Alike
  | chaincodeAction => ChaincodeAction.Alike
  | namespaceSet => NamespaceSet.Alike
  | txReadWriteSet => TxReadWriteSet.Alike
  | timestamp | blockHeader | blockMetadata | channelHeader | signatureHeader | serializedIdentity
  | chaincodeId | keyRead | keyWrite | keyReadWriteSet => Eq

theorem rel_of_eq {α : Type} {x x' : Option α} (h : x = x') : Option.Rel Eq x x' := by
  subst h
  cases x with
  | none => exact .none
  | some _ => exact .some rfl

theorem alike_empty (type : MessageType) : type.Alike Message.empty Message.empty := by
  cases type <;> first | rfl | (constructor <;> first | rfl | exact .same _ | constructor)

theorem alike_getD {type : MessageType} {old old' : Option type.Value}
    (h : Option.Rel type.Alike old old') :
    type.Alike (old.getD Message.empty) (old'.getD Message.empty) := by
  cases h with
  | none => exact alike_empty type
  | some h => exact h

variable {type : MessageType} {budget number : Nat}

/-- Two fields that hold the same, up to undeclared fields. -/
def Part.Holds (budget : Nat) (field field' : Field) : Part → Prop
  | .plain => field = field'
  | .nested inner => ∀ old old', Option.Rel inner.Alike old old' →
      Follows inner.Alike (field.message? budget old) (field'.message? budget old')
  | .wrapped inner => Follows (Padded inner levels) field.bytes? field'.bytes?

/-- **A declared field keeps messages alike.** -/
theorem merge_follows {payload payload' : Wire.Payload} {m m' : type.Value} {part : Part}
    (hm : type.Alike m m') (hpart : (number, part) ∈ type.declared)
    (h : part.Holds budget ⟨number, payload⟩ ⟨number, payload'⟩) :
    Follows type.Alike (Message.merge budget m ⟨number, payload⟩)
      (Message.merge budget m' ⟨number, payload'⟩) := by
  cases type <;>
    simp only [declared, List.mem_cons, List.not_mem_nil, or_false, Prod.mk.injEq] at hpart
  case timestamp | blockHeader | blockMetadata | signatureHeader | serializedIdentity
      | chaincodeId | keyRead | keyWrite =>
    obtain rfl : part = .plain := by grind
    cases hm
    cases h
    exact .refl _
  case blockData =>
    obtain ⟨rfl, rfl⟩ := hpart
    exact Follows.map h fun _ _ hv => ⟨List.rel_append hm.entries (.cons hv .nil)⟩
  case block =>
    obtain ⟨rfl, rfl⟩ | ⟨rfl, rfl⟩ | ⟨rfl, rfl⟩ := hpart
    · exact Follows.map (h _ _ (rel_of_eq hm.header)) fun _ _ hv =>
        ⟨congrArg some hv, hm.data, hm.metadata⟩
    · exact Follows.map (h _ _ hm.data) fun _ _ hv => ⟨hm.header, .some hv, hm.metadata⟩
    · exact Follows.map (h _ _ (rel_of_eq hm.metadata)) fun _ _ hv =>
        ⟨hm.header, hm.data, congrArg some hv⟩
  case envelope =>
    obtain ⟨rfl, rfl⟩ | ⟨rfl, rfl⟩ := hpart
    · exact Follows.map h fun _ _ hv => ⟨hv, hm.signature⟩
    · cases h
      exact Follows.map (.refl _) fun _ _ hv => ⟨hm.payload, hv⟩
  case header =>
    obtain ⟨rfl, rfl⟩ | ⟨rfl, rfl⟩ := hpart
    · exact Follows.map h fun _ _ hv => ⟨hv, hm.signatureHeader⟩
    · exact Follows.map h fun _ _ hv => ⟨hm.channelHeader, hv⟩
  case payload =>
    obtain ⟨rfl, rfl⟩ | ⟨rfl, rfl⟩ := hpart
    · exact Follows.map (h _ _ hm.header) fun _ _ hv => ⟨.some hv, hm.data⟩
    · exact Follows.map h fun _ _ hv => ⟨hm.header, hv⟩
  case channelHeader =>
    cases hm
    by_cases htimestamp : number = 3
    · obtain rfl := htimestamp
      obtain rfl : part = .nested timestamp := by grind
      refine Follows.map (h m.timestamp _ (rel_of_eq rfl)) fun v v' hv => ?_
      obtain rfl : v = v' := hv
      rfl
    · obtain rfl : part = .plain := by grind
      cases h
      exact .refl _
  case transactionAction =>
    obtain ⟨rfl, rfl⟩ | ⟨rfl, rfl⟩ := hpart
    · cases h
      exact Follows.map (.refl _) fun _ _ hv => ⟨hv, hm.payload⟩
    · exact Follows.map h fun _ _ hv => ⟨hm.header, hv⟩
  case transaction =>
    obtain ⟨rfl, rfl⟩ := hpart
    exact Follows.map (h _ _ .none) fun _ _ hv => ⟨List.rel_append hm.actions (.cons hv .nil)⟩
  case chaincodeEndorsedAction =>
    obtain ⟨rfl, rfl⟩ := hpart
    exact Follows.map h fun _ _ hv => ⟨hv⟩
  case chaincodeActionPayload =>
    obtain ⟨rfl, rfl⟩ | ⟨rfl, rfl⟩ := hpart
    · cases h
      exact Follows.map (.refl _) fun _ _ hv => ⟨hv, hm.action⟩
    · exact Follows.map (h _ _ hm.action) fun _ _ hv => ⟨hm.proposalPayload, .some hv⟩
  case proposalResponsePayload =>
    obtain ⟨rfl, rfl⟩ | ⟨rfl, rfl⟩ := hpart
    · cases h
      exact Follows.map (.refl _) fun _ _ hv => ⟨hv, hm.extension⟩
    · exact Follows.map h fun _ _ hv => ⟨hm.proposalHash, hv⟩
  case chaincodeAction =>
    obtain ⟨rfl, rfl⟩ | ⟨rfl, rfl⟩ | ⟨rfl, rfl⟩ := hpart
    · exact Follows.map h fun _ _ hv => ⟨hv, hm.events, hm.chaincodeId⟩
    · cases h
      exact Follows.map (.refl _) fun _ _ hv => ⟨hm.results, hv, hm.chaincodeId⟩
    · exact Follows.map (h _ _ (rel_of_eq hm.chaincodeId)) fun _ _ hv =>
        ⟨hm.results, hm.events, congrArg some hv⟩
  case namespaceSet =>
    obtain ⟨rfl, rfl⟩ | ⟨rfl, rfl⟩ := hpart
    · cases h
      exact Follows.map (.refl _) fun _ _ hv => ⟨hv, hm.keys⟩
    · exact Follows.map h fun _ _ hv => ⟨hm.namespaceName, hv⟩
  case txReadWriteSet =>
    obtain ⟨rfl, rfl⟩ | ⟨rfl, rfl⟩ := hpart
    · cases h
      exact Follows.map (.refl _) fun _ _ hv => ⟨hv, hm.namespaces⟩
    · exact Follows.map (h _ _ .none) fun _ _ hv =>
        ⟨hm.dataModel, List.rel_append hm.namespaces (.cons hv .nil)⟩
  case keyReadWriteSet =>
    cases hm
    obtain ⟨rfl, rfl⟩ | ⟨rfl, rfl⟩ := hpart
    all_goals
      refine Follows.map (h none none .none) fun v v' hv => ?_
      obtain rfl : v = v' := hv
      rfl

theorem merge_field_follows {field : Field} {m m' : type.Value} (hm : type.Alike m m')
    (hinside : ∀ {inner : MessageType} {m m' : inner.Value}, inner.Alike m m' → ∀ bytes,
      Follows inner.Alike (mergeBytes? (budget - 1) m bytes) (mergeBytes? (budget - 1) m' bytes)) :
    Follows type.Alike (Message.merge budget m field) (Message.merge budget m' field) := by
  obtain hnumber | ⟨part, hpart⟩ := undeclared_or type field.number
  · rw [merge_undeclared m hnumber, merge_undeclared m' hnumber]
    exact .some hm
  · refine merge_follows hm hpart ?_
    cases part with
    | plain => rfl
    | nested inner =>
        intro old old' hold
        unfold Field.message?
        dsimp only
        split
        · exact hinside (alike_getD hold) _
        · exact nofun
    | wrapped inner => exact fun content hcontent => ⟨content, hcontent, .same content⟩

theorem mergeBytes?_follows {m m' : type.Value} (hm : type.Alike m m') (bytes : Bytes) :
    Follows type.Alike (mergeBytes? budget m bytes) (mergeBytes? budget m' bytes) := by
  induction budget using Nat.strongRecOn generalizing type bytes with
  | ind budget ih =>
      intro result hresult
      obtain ⟨fields, hread⟩ := isFields_of_mergeBytes? hresult
      revert result
      show Follows type.Alike (mergeBytes? budget m bytes) (mergeBytes? budget m' bytes)
      induction hread generalizing m m' with
      | nil => exact .some hm
      | cons hfield _ ih' =>
          rw [mergeBytes?_field m hfield, mergeBytes?_field m' hfield]
          have hless : budget - 1 < budget := Nat.sub_one_lt_of_lt hfield.pos
          exact (merge_field_follows hm (ih _ hless)).bind fun _ _ => ih'

end MessageType

/-- **Padded bytes are read as the bytes are,** up to undeclared fields inside of the bytes that the
message carries. -/
theorem Padded.follows {type : MessageType} {budget : Nat} {bytes bytes' : Bytes}
    (h : Padded type budget bytes bytes') {m m' : type.Value} (hm : type.Alike m m') :
    Follows type.Alike (mergeBytes? budget m bytes) (mergeBytes? budget m' bytes') := by
  induction h with
  | same bytes => exact mergeBytes?_follows hm bytes
  | add hfield hnumber hrest ih =>
      rw [mergeBytes?_field m' hfield, merge_undeclared m' hnumber]
      exact ih hm
  | keep hfield hrest ih =>
      rw [mergeBytes?_field m hfield, mergeBytes?_field m' hfield]
      exact (merge_field_follows hm mergeBytes?_follows).bind fun _ _ => ih
  | nested hpart hfield hfield' hinside hrest ihinside ih =>
      rw [mergeBytes?_field m hfield, mergeBytes?_field m' hfield']
      refine (merge_follows hm hpart ?_).bind fun _ _ => ih
      exact fun old old' hold => ihinside (alike_getD hold)
  | wrapped hpart hfield hfield' hinside hrest _ ih =>
      rw [mergeBytes?_field m hfield, mergeBytes?_field m' hfield']
      refine (merge_follows hm hpart ?_).bind fun _ _ => ih
      exact .some hinside

end LedgerIndex.Encoded
