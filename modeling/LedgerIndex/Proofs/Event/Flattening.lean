import LedgerIndex.Event.OfBlock
import Mathlib.Algebra.GroupWithZero.Nat
import Mathlib.Data.List.Basic

/-! # The events of a block, one for one

The events of a block fall into portions, one for each transaction in order: the events of its
writes in order and then its own event.  The event of the block stands behind all of them.
`Agent.Flattening` says what each of these events shows, so that none is lost, none is there twice
and none shows anything of another write or transaction.

A linking key that is no text leaves the linking key of its own write empty and disturbs nothing
else: the events are the same as if the look-up had seen null there (`Agent.eventsSeeing`).  That
`Agent.eventsOf` is such a list of events is `Agent.flattening_eventsOf`. -/

namespace LedgerIndex

/-! ### Linking keys -/

/-- An object with null in the place of one of its fields. -/
def Json.withNull (key : String) : Json → Json
  | .object fields => .object (fields.map fun field =>
      (field.1, if field.1 = key then .null else field.2))
  | json => json

theorem Json.get?_withNull {key : String} {json value : Json} (h : json.get? key = some value) :
    (json.withNull key).get? key = some .null := by
  cases json with
  | object fields =>
      have hlookup : fields.lookup key = some value := h
      show (fields.map fun field => (field.1, if field.1 = key then .null else field.2)).lookup key
        = some .null
      induction fields with
      | nil => simp at hlookup
      | cons field fields ih =>
          obtain ⟨k, v⟩ := field
          by_cases hkey : k = key
          · simp [hkey]
          · have hne : (key == k) = false := by simp [Ne.symm hkey]
            rw [List.lookup_cons, hne] at hlookup
            rw [List.map_cons, List.lookup_cons, hne]
            exact ih hlookup hlookup
  | _ => simp [Json.get?] at h

namespace ChaincodeLink

variable {links : List ChaincodeLink} {chaincode : String} {value : Json} {error : LinkingError}

theorem resolve_withNull (h : resolve links chaincode value = .error error) :
    resolve links chaincode (value.withNull error.key) = .ok "" := by
  unfold resolve at h ⊢
  split at h
  · cases h
  · rename_i link _
    split at h
    · cases h
    · cases h
    · cases h
    · rename_i other _ _ hother
      cases h
      have hnull := Json.get?_withNull hother
      simp only [hnull]

theorem storedKey_of_error (h : resolve links chaincode value = .error error) :
    storedKey links chaincode value = "" := by
  rw [storedKey, h]

theorem storedKey_of_ok {key : String} (h : resolve links chaincode value = .ok key) :
    storedKey links chaincode value = key := by
  rw [storedKey, h]

theorem storedKey_withNull (h : resolve links chaincode value = .error error) :
    storedKey links chaincode (value.withNull error.key) = storedKey links chaincode value := by
  rw [storedKey_of_ok (resolve_withNull h), storedKey_of_error h]

end ChaincodeLink

/-! ### What an event shows -/

/-- The writes of a transaction; without an endorsement there are none. -/
def Transaction.writes (tx : Transaction) : List KeyWrite :=
  (tx.endorsement.map (·.writes)).getD []

/-- The event of a write shows that write, its transaction and its place. -/
structure WriteEvent.Shows (agent : Agent) (channel : String) (block : Block) (tx : Transaction)
    (txPlace : Nat) (e : Endorsement) (write : KeyWrite) (writePlace : Nat)
    (event : WriteEvent) : Prop where
  origin : event.origin = ⟨channel, agent.peer, agent.organization⟩
  blockNumber : event.blockNumber = block.header.number
  txIndex : event.txIndex = txPlace
  writeIndex : event.writeIndex = writePlace
  txId : event.txId = tx.txId
  creator : event.creator = tx.creator
  createdAt : event.createdAt = tx.timestamp
  chaincodeName : event.chaincodeName = e.chaincodeName
  chaincodeVersion : event.chaincodeVersion = e.chaincodeVersion
  entry : event.entry
    = ⟨write.namespaceName, write.key, Json.rendered write.value, write.isDelete⟩
  linkedValues : event.linkedValues
    = ChaincodeLink.linkedValues agent.links e.chaincodeName (Json.rendered write.value)
  linkingKey : ∀ key, ChaincodeLink.resolve agent.links e.chaincodeName (Json.rendered write.value)
    = .ok key → event.linkingKey = key
  violation : ∀ error,
    ChaincodeLink.resolve agent.links e.chaincodeName (Json.rendered write.value) = .error error →
      event.linkingKey = ""

/-- The event of a transaction shows that transaction and its place. -/
structure TransactionEvent.Shows (agent : Agent) (channel : String) (block : Block)
    (tx : Transaction) (txPlace : Nat) (event : TransactionEvent) : Prop where
  origin : event.origin = ⟨channel, agent.peer, agent.organization⟩
  blockNumber : event.blockNumber = block.header.number
  txIndex : event.txIndex = txPlace
  txId : event.txId = tx.txId
  creator : event.creator = tx.creator
  createdAt : event.createdAt = tx.timestamp
  kind : event.kind = tx.kind
  validationCode : event.validationCode = block.validationCodes[txPlace]?
  plain : tx.endorsement = none → event.endorsement = none
  endorsed : ∀ e, tx.endorsement = some e → ∃ entry, event.endorsement = some entry ∧
    entry.chaincodeName = e.chaincodeName ∧ entry.chaincodeVersion = e.chaincodeVersion ∧
    entry.reads = e.reads ∧ entry.writes.length = e.writes.length

/-- What is published for one transaction. -/
structure Portion where
  writes : List WriteEvent
  transaction : TransactionEvent

/-- The events of a portion: those of the writes, then that of the transaction. -/
def Portion.events (portion : Portion) : List Event :=
  portion.writes.map .write ++ [.transaction portion.transaction]

/-- A portion has an event for each write of a transaction, and shows the write there as it does
among the writes of the transaction's own event. -/
structure Portion.Shows (agent : Agent) (channel : String) (block : Block) (tx : Transaction)
    (txIndex : Nat) (portion : Portion) : Prop where
  length : portion.writes.length = tx.writes.length
  transaction : portion.transaction.Shows agent channel block tx txIndex
  write : ∀ e write writeIndex, tx.endorsement = some e → e.writes[writeIndex]? = some write →
    ∃ (event : WriteEvent) (entry : EndorsementEntry), portion.writes[writeIndex]? = some event ∧
      event.Shows agent channel block tx txIndex e write writeIndex ∧
      portion.transaction.endorsement = some entry ∧ entry.writes[writeIndex]? = some event.entry

/-- The event of a block shows its header and the transactions in order. -/
structure BlockEvent.Lists (agent : Agent) (channel : String) (block : Block) (blockHash : String)
    (txs : List Transaction) (event : BlockEvent) : Prop where
  origin : event.origin = ⟨channel, agent.peer, agent.organization⟩
  blockNumber : event.blockNumber = block.header.number
  blockHash : event.blockHash = blockHash
  previousHash : event.previousHash = block.header.previousHash.toHex
  dataHash : event.dataHash = block.header.dataHash.toHex
  createdAt : event.createdAt = block.timestamp
  kind : event.kind = block.kind
  transactions : event.transactions = txs.map (·.txId)

namespace Agent

variable (agent : Agent) (channel : String) (block : Block) (blockHash : String)
  (txs : List Transaction)

/-! ### Looking up other values -/

/-- What the look-up of linking keys sees in the place of each value, by the place of its write. -/
abbrev Sight : Type := (txIndex writeIndex : Nat) → Json → Json

/-- The event of a write whose linking key is looked up in what is seen of its value. -/
def writeEventSeeing (seen : Sight) (tx : Transaction) (txIndex : Nat) (e : EndorsementEntry)
    (entry : WriteEntry) (writeIndex : Nat) : WriteEvent :=
  { agent.writeEvent channel block.header.number txIndex tx e entry writeIndex with
    linkingKey := ChaincodeLink.storedKey agent.links e.chaincodeName
      (seen txIndex writeIndex entry.value) }

/-- The events of one transaction with such look-ups. -/
def transactionEventsSeeing (seen : Sight) (tx : Transaction) (txIndex : Nat) : List Event :=
  (match tx.endorsement.map endorsementEntry with
    | some e => e.writes.zipIdx.map fun (entry, writeIndex) =>
        .write (agent.writeEventSeeing channel block seen tx txIndex e entry writeIndex)
    | none => [])
  ++ [.transaction (agent.transactionEvent channel block tx txIndex)]

/-- The events of a block with such look-ups. -/
def eventsSeeing (seen : Sight) : List Event :=
  (txs.zipIdx.flatMap fun (tx, txIndex) =>
      agent.transactionEventsSeeing channel block seen tx txIndex)
    ++ [.block (agent.blockEvent channel block blockHash txs)]

/-- Values are seen as they are, but for null in the place of some linking keys that are no
texts. -/
def Overlooks (seen : Sight) : Prop :=
  ∀ (txIndex writeIndex : Nat) (tx : Transaction) (e : Endorsement) (write : KeyWrite),
    txs[txIndex]? = some tx → tx.endorsement = some e → e.writes[writeIndex]? = some write →
    let value := Json.rendered write.value
    seen txIndex writeIndex value = value ∨
      ∃ error, ChaincodeLink.resolve agent.links e.chaincodeName value = .error error ∧
        seen txIndex writeIndex value = value.withNull error.key

variable {agent txs} {seen : Sight}

theorem Overlooks.writeEventSeeing (h : agent.Overlooks txs seen) {txIndex writeIndex : Nat}
    {tx : Transaction} {e : Endorsement} {write : KeyWrite} (htx : txs[txIndex]? = some tx)
    (he : tx.endorsement = some e) (hwrite : e.writes[writeIndex]? = some write) :
    agent.writeEventSeeing channel block seen tx txIndex (endorsementEntry e) (writeEntry write)
        writeIndex
      = agent.writeEvent channel block.header.number txIndex tx (endorsementEntry e)
          (writeEntry write) writeIndex := by
  have hkey : ChaincodeLink.storedKey agent.links e.chaincodeName
      (seen txIndex writeIndex (Json.rendered write.value))
      = ChaincodeLink.storedKey agent.links e.chaincodeName (Json.rendered write.value) := by
    rcases h txIndex writeIndex tx e write htx he hwrite with hsame | ⟨error, herror, hnull⟩
    · rw [hsame]
    · rw [hnull, ChaincodeLink.storedKey_withNull herror]
  unfold Agent.writeEventSeeing Agent.writeEvent
  simp only [endorsementEntry, writeEntry, hkey]

theorem Overlooks.transactionEventsSeeing (h : agent.Overlooks txs seen) {txIndex : Nat}
    {tx : Transaction} (htx : txs[txIndex]? = some tx) :
    agent.transactionEventsSeeing channel block seen tx txIndex
      = agent.eventsOfTransaction channel block tx txIndex := by
  unfold Agent.transactionEventsSeeing eventsOfTransaction writeEventsOf
  cases he : tx.endorsement with
  | none => rfl
  | some e =>
      have hwrites : ∀ pair ∈ (endorsementEntry e).writes.zipIdx,
          agent.writeEventSeeing channel block seen tx txIndex (endorsementEntry e) pair.1 pair.2
            = agent.writeEvent channel block.header.number txIndex tx (endorsementEntry e) pair.1
                pair.2 := by
        rintro ⟨entry, writeIndex⟩ hpair
        have hentry := List.mem_zipIdx_iff_getElem?.mp hpair
        have hmapped : (e.writes.map writeEntry)[writeIndex]? = some entry := hentry
        rw [List.getElem?_map, Option.map_eq_some_iff] at hmapped
        obtain ⟨write, hwrite, rfl⟩ := hmapped
        exact h.writeEventSeeing channel block htx he hwrite
      congr 1
      apply List.map_congr_left
      intro pair hpair
      exact congrArg Event.write (hwrites pair hpair)

/-- **Overlooking linking keys that are no texts changes no event.** -/
theorem Overlooks.eventsSeeing (h : agent.Overlooks txs seen) :
    agent.eventsSeeing channel block blockHash txs seen
      = agent.eventsOf channel block blockHash txs := by
  unfold Agent.eventsSeeing eventsOf
  congr 1
  refine List.flatMap_congr fun ⟨tx, txIndex⟩ hpair => ?_
  have htx := List.mem_zipIdx_iff_getElem?.mp hpair
  exact h.transactionEventsSeeing channel block htx

/-! ### Portions -/

variable (agent)

def portionOf (tx : Transaction) (txIndex : Nat) : Portion where
  writes :=
    match tx.endorsement.map endorsementEntry with
    | some e => e.writes.zipIdx.map fun (entry, writeIndex) =>
        agent.writeEvent channel block.header.number txIndex tx e entry writeIndex
    | none => []
  transaction := agent.transactionEvent channel block tx txIndex

theorem events_portionOf (tx : Transaction) (txIndex : Nat) :
    (agent.portionOf channel block tx txIndex).events
      = agent.eventsOfTransaction channel block tx txIndex := by
  unfold Portion.events portionOf eventsOfTransaction writeEventsOf
  cases tx.endorsement with
  | none => rfl
  | some e => simp [List.map_map, Function.comp_def]

theorem shows_writeEvent (tx : Transaction) (txIndex : Nat) (e : Endorsement) (write : KeyWrite)
    (writeIndex : Nat) :
    (agent.writeEvent channel block.header.number txIndex tx (endorsementEntry e) (writeEntry write)
      writeIndex).Shows agent channel block tx txIndex e write writeIndex where
  origin := rfl
  blockNumber := rfl
  txIndex := rfl
  writeIndex := rfl
  txId := rfl
  creator := rfl
  createdAt := rfl
  chaincodeName := rfl
  chaincodeVersion := rfl
  entry := rfl
  linkedValues := rfl
  linkingKey _ h := ChaincodeLink.storedKey_of_ok h
  violation _ h := ChaincodeLink.storedKey_of_error h

theorem shows_transactionEvent (tx : Transaction) (txIndex : Nat) :
    (agent.transactionEvent channel block tx txIndex).Shows agent channel block tx txIndex where
  origin := rfl
  blockNumber := rfl
  txIndex := rfl
  txId := rfl
  creator := rfl
  createdAt := rfl
  kind := rfl
  validationCode := rfl
  plain h := by simp [transactionEvent, h]
  endorsed e h := by
    refine ⟨endorsementEntry e, by simp [transactionEvent, h], rfl, rfl, rfl, ?_⟩
    simp [endorsementEntry]

/-- **The portion of a transaction shows that transaction.** -/
theorem shows_portionOf (tx : Transaction) (txIndex : Nat) :
    (agent.portionOf channel block tx txIndex).Shows agent channel block tx txIndex where
  length := by
    unfold portionOf Transaction.writes
    cases tx.endorsement with
    | none => rfl
    | some e => simp [endorsementEntry]
  transaction := agent.shows_transactionEvent channel block tx txIndex
  write e write writeIndex he hwrite := by
    have hentry : (endorsementEntry e).writes[writeIndex]? = some (writeEntry write) := by
      simp [endorsementEntry, hwrite]
    refine ⟨_, endorsementEntry e, ?_, agent.shows_writeEvent channel block tx txIndex e write
      writeIndex, ?_, hentry⟩
    · simp [portionOf, he, List.getElem?_map, List.getElem?_zipIdx, hentry]
    · simp [portionOf, transactionEvent, he]

/-! ### The whole list -/

/-- The events of a block are a portion for each transaction in order and the event of the block
behind them, and they are the same when linking keys that are no texts are overlooked. -/
structure Flattening (agent : Agent) (channel : String) (block : Block) (blockHash : String)
    (txs : List Transaction) (events : List Event) : Prop where
  portions : ∃ (portions : List Portion) (last : BlockEvent),
    events = portions.flatMap Portion.events ++ [.block last] ∧
      portions.length = txs.length ∧
      (∀ txIndex tx, txs[txIndex]? = some tx → ∃ portion : Portion,
        portions[txIndex]? = some portion ∧ portion.Shows agent channel block tx txIndex) ∧
      last.Lists agent channel block blockHash txs
  length : events.length = 1 + (txs.map fun tx => 1 + tx.writes.length).sum
  overlooked : ∀ seen, agent.Overlooks txs seen →
    agent.eventsSeeing channel block blockHash txs seen = events

theorem length_eventsOfTransaction (tx : Transaction) (txIndex : Nat) :
    (agent.eventsOfTransaction channel block tx txIndex).length = 1 + tx.writes.length := by
  rw [← events_portionOf, Portion.events, List.length_append, List.length_map,
    (agent.shows_portionOf channel block tx txIndex).length]
  simp [Nat.add_comm]

theorem length_eventsOf (txs : List Transaction) :
    (agent.eventsOf channel block blockHash txs).length
      = 1 + (txs.map fun tx => 1 + tx.writes.length).sum := by
  have hlengths : txs.zipIdx.map (fun pair =>
      (agent.eventsOfTransaction channel block pair.1 pair.2).length)
      = txs.map fun tx => 1 + tx.writes.length := by
    simp only [length_eventsOfTransaction]
    rw [← Function.comp_def (fun tx : Transaction => 1 + tx.writes.length) Prod.fst,
      ← List.map_map, List.zipIdx_map_fst]
  rw [eventsOf, List.length_append, List.length_flatMap, hlengths]
  simp [Nat.add_comm]

/-- **Flattening a block into events loses, doubles and mixes up nothing.** -/
theorem flattening_eventsOf (agent : Agent) (channel : String) (block : Block) (blockHash : String)
    (txs : List Transaction) :
    agent.Flattening channel block blockHash txs
      (agent.eventsOf channel block blockHash txs) where
  portions := by
    refine ⟨txs.zipIdx.map fun pair => agent.portionOf channel block pair.1 pair.2,
      agent.blockEvent channel block blockHash txs, ?_, by simp, ?_, ?_⟩
    · rw [List.flatMap_map]
      simp only [events_portionOf]
      rfl
    · intro txIndex tx htx
      refine ⟨agent.portionOf channel block tx txIndex, ?_,
        agent.shows_portionOf channel block tx txIndex⟩
      simp [List.getElem?_map, List.getElem?_zipIdx, htx]
    · exact ⟨rfl, rfl, rfl, rfl, rfl, rfl, rfl, rfl⟩
  length := agent.length_eventsOf channel block blockHash txs
  overlooked _ h := h.eventsSeeing channel block blockHash

end Agent

end LedgerIndex
