import LedgerIndex.Block.Record
import LedgerIndex.Proofs.Block.Padding

/-! # Undeclared fields never change what is decoded

Real peers write more fields than are declared here.  Padding the bytes of an envelope with them, at
any level, leaves its transaction as it is (`Transaction.decode_padded`); padding the bytes of a
block leaves the block as it is but for its envelopes, which are padded in their turn
(`Block.decode_padded`).  The bytes of a creator carry no message here, for they are also shown as
text. -/

namespace LedgerIndex

open Wire Encoded

/-! ### Readings that follow others -/

section FollowsOk

variable {ε α α' β β' : Type} {R : α → α' → Prop} {Q : β → β' → Prop}

/-- Where the first reading succeeds, the second one does, with a related result. -/
def FollowsOk (R : α → α' → Prop) (x : Except ε α) (x' : Except ε α') : Prop :=
  ∀ a, x = .ok a → ∃ a', x' = .ok a' ∧ R a a'

theorem FollowsOk.ok {a : α} {a' : α'} (h : R a a') :
    FollowsOk R (.ok a : Except ε α) (.ok a') := by
  rintro _ ⟨⟩
  exact ⟨a', rfl, h⟩

theorem FollowsOk.error {e : ε} {x' : Except ε α'} : FollowsOk R (.error e) x' := nofun

theorem FollowsOk.bind {x : Except ε α} {x' : Except ε α'} {f : α → Except ε β}
    {f' : α' → Except ε β'} (hx : FollowsOk R x x')
    (hf : ∀ a a', R a a' → FollowsOk Q (f a) (f' a')) : FollowsOk Q (x >>= f) (x' >>= f') := by
  intro b hb
  cases x with
  | error e => cases hb
  | ok a =>
      obtain ⟨a', rfl, ha⟩ := hx a rfl
      exact hf a a' ha b hb

theorem FollowsOk.map {x : Except ε α} {x' : Except ε α'} {f : α → β} {f' : α' → β'}
    (hx : FollowsOk R x x') (hf : ∀ a a', R a a' → Q (f a) (f' a')) :
    FollowsOk Q (x.map f) (x'.map f') := by
  intro b hb
  cases x with
  | error e => cases hb
  | ok a =>
      cases hb
      obtain ⟨a', rfl, ha⟩ := hx a rfl
      exact ⟨f' a', rfl, hf a a' ha⟩

theorem FollowsOk.mapM {l : List α} {l' : List α'} {f : α → Except ε β} {f' : α' → Except ε β'}
    (hl : List.Forall₂ R l l') (hf : ∀ a a', R a a' → FollowsOk Q (f a) (f' a')) :
    FollowsOk (List.Forall₂ Q) (l.mapM f) (l'.mapM f') := by
  induction hl with
  | nil => exact .ok .nil
  | cons ha _ ih =>
      rw [List.mapM_cons, List.mapM_cons]
      refine (hf _ _ ha).bind fun _ _ hb => ?_
      exact ih.bind fun _ _ hbs => .ok (.cons hb hbs)

end FollowsOk

theorem required_follows {α : Type} {R : α → α → Prop} {x x' : Option α} (name : String)
    (h : Option.Rel R x x') : FollowsOk R (required name x) (required name x') := by
  cases h with
  | some h => exact .ok h
  | none => exact .error

theorem decodeMessage_follows {type : MessageType} {bytes bytes' : Bytes}
    (h : Padded type levels bytes bytes') :
    FollowsOk type.Alike (decodeMessage type.Value bytes) (decodeMessage type.Value bytes') := by
  intro m hm
  have hdecode : decode? bytes = some m := by
    unfold decodeMessage at hm
    split at hm
    · cases hm
      assumption
    · cases hm
  obtain ⟨m', hm', halike⟩ := h.follows (MessageType.alike_empty type) m hdecode
  have hdecode' : decode? bytes' = some m' := hm'
  exact ⟨m', by rw [decodeMessage, hdecode'], halike⟩

/-! ### Envelopes -/

/-- Opened envelopes that are equal but for undeclared fields inside of the content. -/
structure OpenedEnvelope.Alike (envelope envelope' : OpenedEnvelope) : Prop where
  channelHeader : envelope.channelHeader = envelope'.channelHeader
  signatureHeader : envelope.signatureHeader = envelope'.signatureHeader
  data : Padded .transaction levels envelope.data envelope'.data

theorem OpenedEnvelope.decode_follows {bytes bytes' : Bytes}
    (h : Padded .envelope levels bytes bytes') :
    FollowsOk Alike (decode bytes) (decode bytes') := by
  refine (decodeMessage_follows h).bind fun _ _ henvelope => ?_
  refine (decodeMessage_follows henvelope.payload).bind fun _ _ hpayload => ?_
  refine (required_follows _ hpayload.header).bind fun _ _ hheader => ?_
  refine (decodeMessage_follows hheader.channelHeader).bind fun _ _ hchannel => ?_
  refine (decodeMessage_follows hheader.signatureHeader).bind fun _ _ hsignature => ?_
  exact .ok ⟨hchannel, hsignature, hpayload.data⟩

namespace Endorsement

theorem decodeNamespace_follows {ns ns' : NamespaceSet} (h : ns.Alike ns') :
    FollowsOk Eq (decodeNamespace ns) (decodeNamespace ns') := by
  refine (decodeMessage_follows h.keys).bind fun keys keys' hkeys => .ok ?_
  obtain rfl : keys = keys' := hkeys
  rw [h.namespaceName]

theorem decodeAction_follows {bytes bytes' : Bytes}
    (h : Padded .chaincodeActionPayload levels bytes bytes') :
    FollowsOk Eq (decodeAction bytes) (decodeAction bytes') := by
  refine (decodeMessage_follows h).bind fun _ _ hpayload => ?_
  refine (required_follows _ hpayload.action).bind fun _ _ hendorsed => ?_
  refine (decodeMessage_follows hendorsed.proposalResponsePayload).bind fun _ _ hresponse => ?_
  refine (decodeMessage_follows hresponse.extension).bind fun _ _ haction => ?_
  refine (decodeMessage_follows haction.results).bind fun _ _ hset => ?_
  refine (FollowsOk.mapM hset.namespaces fun _ _ => decodeNamespace_follows).bind
    fun sets sets' hsets => .ok ?_
  obtain rfl : sets = sets' := List.forall₂_eq_eq_eq ▸ hsets
  rw [haction.chaincodeId]

theorem decode_follows {bytes bytes' : Bytes} (h : Padded .transaction levels bytes bytes') :
    FollowsOk Eq (decode bytes) (decode bytes') := by
  refine (decodeMessage_follows h).bind fun ⟨actions⟩ ⟨actions'⟩ htransaction => ?_
  have hactions : List.Forall₂ TransactionAction.Alike actions actions' := htransaction.actions
  cases hactions with
  | nil => exact .error
  | cons haction _ => exact decodeAction_follows haction.payload

end Endorsement

/-- **The transaction of an envelope is what it is without the undeclared fields in it.** -/
theorem Transaction.decode_padded {bytes bytes' : Bytes} {tx : Transaction}
    (h : Padded .envelope levels bytes bytes') (htx : decode bytes = .ok tx) :
    decode bytes' = .ok tx := by
  have hfollows : FollowsOk Eq (decode bytes) (decode bytes') := by
    refine (OpenedEnvelope.decode_follows h).bind fun envelope envelope' henvelope => ?_
    obtain ⟨channelHeader, signatureHeader, data⟩ := envelope
    obtain ⟨_, _, data'⟩ := envelope'
    obtain ⟨rfl, rfl, hdata⟩ := henvelope
    dsimp only
    split
    · refine ((Endorsement.decode_follows hdata).map fun _ _ => congrArg some).bind ?_
      rintro endorsement _ rfl
      exact .ok rfl
    · exact .ok rfl
  obtain ⟨_, htx', rfl⟩ := hfollows tx htx
  exact htx'

/-! ### Blocks -/

/-- **A block is what it is without the undeclared fields in it,** but for the fields inside of its
envelopes. -/
theorem Block.decode_padded {bytes bytes' : Bytes} {block : Block}
    (h : Padded .block levels bytes bytes') (hblock : decode bytes = .ok block) :
    ∃ entries', decode bytes' = .ok { block with entries := entries' } ∧
      List.Forall₂ (Padded .envelope levels) block.entries entries' := by
  have hfollows : FollowsOk (fun block block' : Block => ∃ entries',
      block' = { block with entries := entries' } ∧
        List.Forall₂ (Padded .envelope levels) block.entries entries')
      (decode bytes) (decode bytes') := by
    refine (decodeMessage_follows h).bind fun block block' hblock => ?_
    refine (required_follows (R := Eq) _ (MessageType.rel_of_eq hblock.header)).bind
      fun header header' hheader => ?_
    obtain rfl : header = header' := hheader
    obtain ⟨_, data, metadata⟩ := block
    obtain ⟨_, data', _⟩ := block'
    obtain ⟨-, hdata, rfl⟩ := hblock
    have hentries : List.Forall₂ (Padded .envelope levels) ((data.map (·.entries)).getD [])
        ((data'.map (·.entries)).getD []) := by
      cases hdata with
      | none => exact .nil
      | some hdata => exact hdata.entries
    dsimp only
    generalize (data.map (·.entries)).getD [] = entries at hentries ⊢
    generalize (data'.map (·.entries)).getD [] = entries' at hentries ⊢
    cases hentries with
    | nil => exact .error
    | cons hfirst hrest =>
        refine (OpenedEnvelope.decode_follows hfirst).bind fun first first' hopened => .ok ?_
        refine ⟨_, ?_, .cons hfirst hrest⟩
        obtain ⟨channelHeader, _, _⟩ := first
        obtain ⟨_, _, _⟩ := first'
        obtain rfl : channelHeader = _ := hopened.channelHeader
        rfl
  obtain ⟨_, hblock', entries', rfl, hentries⟩ := hfollows block hblock
  exact ⟨entries', hblock', hentries⟩

/-! ### Every message type, blocks and envelopes -/

/-- **Undeclared fields never change what is decoded.**  One may stand at any boundary between the
fields of any message; and any number of them, at any level, leave a transaction as it is, and a
block as it is but for the bytes of its envelopes. -/
theorem undeclared_fields_ignored :
    (∀ {type : MessageType} {fields : List Field} {field : Field} {before added : Bytes},
      IsFields levels fields before → IsField levels field added →
      type.Undeclared field.number → ∀ behind,
        decode? (M := type.Value) (before ++ added ++ behind)
          = decode? (M := type.Value) (before ++ behind)) ∧
    (∀ {bytes bytes' : Bytes} {block : Block}, Padded .block levels bytes bytes' →
      Block.decode bytes = .ok block →
      ∃ entries', Block.decode bytes' = .ok { block with entries := entries' } ∧
        List.Forall₂ (Padded .envelope levels) block.entries entries') ∧
    ∀ {bytes bytes' : Bytes} {tx : Transaction}, Padded .envelope levels bytes bytes' →
      Transaction.decode bytes = .ok tx → Transaction.decode bytes' = .ok tx := by
  refine ⟨?_, Block.decode_padded, Transaction.decode_padded⟩
  intro type fields field before added hbefore hadded hnumber behind
  exact MessageType.mergeBytes?_insert Message.empty hbefore hadded hnumber behind

/-- A number behind the header of a payload, and a group in front of the block around it. -/
theorem undeclared_fields_ignored_number_group :
    decode? (M := MessageType.payload.Value) ([10, 0] ++ [120, 0] ++ [])
        = decode? (M := MessageType.payload.Value) ([10, 0] ++ []) ∧
      (∃ entries', Block.decode [123, 124, 10, 0, 18, 8, 10, 6, 10, 4, 10, 0, 120, 0]
          = .ok ⟨⟨0, [], []⟩, none, .message, entries', []⟩ ∧
        List.Forall₂ (Padded .envelope levels) [[10, 2, 10, 0]] entries') ∧
      Transaction.decode [10, 4, 10, 0, 120, 0] = .ok ⟨"", "", ⟨"", ""⟩, .message, none, none⟩ := by
  have hheader : IsField levels ⟨1, .block []⟩ [10, 0] := by decide
  have hnumber : IsField levels ⟨15, .varint 0⟩ [120, 0] := by decide
  have hgroup : IsField levels ⟨15, .group⟩ [123, 124] := by decide
  have hbefore : IsFields levels [⟨1, .block []⟩] ([10, 0] ++ []) := .cons hheader .nil
  have hpayload : Padded .payload levels ([10, 0] ++ []) ([10, 0] ++ ([120, 0] ++ [])) :=
    .keep hheader (.add hnumber (by decide) (.same []))
  have henvelope : Padded .envelope levels ([10, 2, 10, 0] ++ [])
      ([10, 4, 10, 0, 120, 0] ++ []) := by
    have hpart : (1, .wrapped .payload) ∈ MessageType.envelope.declared := by decide
    exact .wrapped hpart (by decide) (by decide) hpayload (.same [])
  have hdata : Padded .blockData (levels - 1) ([10, 4, 10, 2, 10, 0] ++ [])
      ([10, 6, 10, 4, 10, 0, 120, 0] ++ []) := by
    have hpart : (1, .wrapped .envelope) ∈ MessageType.blockData.declared := by decide
    exact .wrapped hpart (by decide) (by decide) henvelope (.same [])
  have hblock : Padded .block levels ([10, 0] ++ ([18, 6, 10, 4, 10, 2, 10, 0] ++ []))
      ([123, 124] ++ ([10, 0] ++ ([18, 8, 10, 6, 10, 4, 10, 0, 120, 0] ++ []))) := by
    have hpart : (2, .nested .blockData) ∈ MessageType.block.declared := by decide
    refine .add hgroup (by decide) (.keep hheader ?_)
    exact .nested hpart (by decide) (by decide) hdata (.same [])
  obtain ⟨hboundary, hblocks, henvelopes⟩ := undeclared_fields_ignored
  exact ⟨hboundary hbefore hnumber (by decide) [], hblocks hblock rfl, henvelopes henvelope rfl⟩

end LedgerIndex
