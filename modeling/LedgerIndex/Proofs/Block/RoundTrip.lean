import Mathlib.Data.List.Basic
import Mathlib.Data.List.Induction
import Mathlib.Data.List.Perm.Basic
import LedgerIndex.Proofs.Block.Fixture

/-! # Reading undoes the building of samples

`decode_fixtures`: a sample block is read with the number, the hashes, the envelopes and the
validation codes that it was built from, and a sample transaction with its identifier, channel,
creator, kind and time.  What an endorser transaction did is read as `TxFixture.grouped`: its
operations, brought together by namespace.  No operation is lost or made up that way
(`grouped_perm`).  A transaction of the endorser kind that was built without actions is the one that
cannot be read. -/

namespace LedgerIndex

open Wire

/-! ### Operations by namespace -/

namespace KeyOperation

/-- The read that an operation is, under its namespace. -/
def keyRead? : KeyOperation → Option KeyRead
  | read ns key => some ⟨ns, key⟩
  | write .. | delete .. => none

/-- The write that an operation is, under its namespace. -/
def keyWrite? : KeyOperation → Option KeyWrite
  | read .. => none
  | write ns key value => some ⟨ns, key, value, false⟩
  | delete ns key => some ⟨ns, key, [], true⟩

theorem keyRead?_eq (op : KeyOperation) :
    op.keyRead? = op.read?.map fun r => ⟨op.namespaceName, r.key⟩ := by
  cases op <;> rfl

theorem keyWrite?_eq (op : KeyOperation) :
    op.keyWrite? = op.write?.map fun w => ⟨op.namespaceName, w.key, w.value, w.isDelete⟩ := by
  cases op <;> rfl

end KeyOperation

namespace TxFixture

/-- The operations namespace by namespace: the namespaces in the order of their first use, and the
operations on each in the order in which they were made. -/
def grouped (operations : List KeyOperation) : List KeyOperation :=
  (operations.map KeyOperation.namespaceName).eraseDups.flatMap fun name =>
    operations.filter (·.namespaceName == name)

theorem nodup_eraseDups {α : Type} [BEq α] [LawfulBEq α] : ∀ l : List α, l.eraseDups.Nodup
  | [] => List.nodup_nil
  | a :: l => by
      rw [List.eraseDups_cons, List.nodup_cons, List.mem_eraseDups]
      refine ⟨?_, nodup_eraseDups _⟩
      simp
termination_by l => l.length
decreasing_by exact Nat.lt_succ_of_le (List.length_filter_le _ _)

/-- Taking a list apart by a key and putting the parts behind one another only reorders it. -/
theorem flatMap_filter_perm {α κ : Type} [BEq κ] [LawfulBEq κ] (key : α → κ) {keys : List κ}
    (hkeys : keys.Nodup) {l : List α} (hl : ∀ a ∈ l, key a ∈ keys) :
    (keys.flatMap fun k => l.filter (key · == k)).Perm l := by
  induction keys generalizing l with
  | nil =>
      rw [List.eq_nil_iff_forall_not_mem.mpr fun a ha => List.not_mem_nil (hl a ha)]
      exact .refl _
  | cons k keys ih =>
      obtain ⟨hk, hkeys⟩ := List.nodup_cons.mp hkeys
      have hrest : (keys.flatMap fun k' => l.filter (key · == k'))
          = keys.flatMap fun k' => (l.filter (!key · == k)).filter (key · == k') := by
        refine List.flatMap_congr fun k' hk' => ?_
        rw [List.filter_filter]
        refine List.filter_congr fun a _ => ?_
        have hne : key a = k' → key a ≠ k := fun h h' => hk (h' ▸ h ▸ hk')
        rw [Bool.eq_iff_iff]
        simpa using hne
      rw [List.flatMap_cons, hrest]
      refine .trans (.append_left _ (ih hkeys fun a ha => ?_)) (List.filter_append_perm _ l)
      obtain ⟨ha, hne⟩ := List.mem_filter.mp ha
      rcases List.mem_cons.mp (hl a ha) with h | h
      · simp [h] at hne
      · exact h

variable (operations : List KeyOperation)

/-- **Bringing the operations together by namespace only reorders them.** -/
theorem grouped_perm : (grouped operations).Perm operations := by
  refine flatMap_filter_perm _ (nodup_eraseDups _) fun op hop => ?_
  exact List.mem_eraseDups.mpr (List.mem_map_of_mem hop)

theorem eraseDups_concat {α : Type} [BEq α] [LawfulBEq α] [DecidableEq α] (l : List α) (a : α) :
    (l ++ [a]).eraseDups = if a ∈ l.eraseDups then l.eraseDups else l.eraseDups ++ [a] := by
  rw [List.eraseDups_append]
  by_cases h : a ∈ l
  · rw [if_pos (List.mem_eraseDups.mpr h)]
    simp [List.removeAll, h]
  · rw [if_neg fun h' => h (List.mem_eraseDups.mp h')]
    simp [List.removeAll, h, List.eraseDups_cons]

theorem namespaces_eq :
    namespaces operations = (operations.map KeyOperation.namespaceName).eraseDups := by
  induction operations using List.reverseRecOn with
  | nil => rfl
  | append_singleton operations op ih =>
      rw [List.map_append, List.map_singleton, eraseDups_concat, ← ih]
      unfold namespaces
      rw [List.foldl_append]
      rfl

theorem reads_keys (name : String) : (keys operations name).1
    = (operations.filter (·.namespaceName == name)).filterMap KeyOperation.keyRead? := by
  simp only [keys, List.map_filterMap]
  refine List.filterMap_congr fun op hop => ?_
  rw [op.keyRead?_eq, eq_of_beq (List.mem_filter.mp hop).2]

theorem writes_keys (name : String) : (keys operations name).2
    = (operations.filter (·.namespaceName == name)).filterMap KeyOperation.keyWrite? := by
  simp only [keys, List.map_filterMap]
  refine List.filterMap_congr fun op hop => ?_
  rw [op.keyWrite?_eq, eq_of_beq (List.mem_filter.mp hop).2]

theorem endorsement_eq (chaincode version : String) : endorsement chaincode version operations
    = ⟨chaincode, version, (grouped operations).filterMap KeyOperation.keyRead?,
        (grouped operations).filterMap KeyOperation.keyWrite?⟩ := by
  have hreads : ((namespaces operations).map (keys operations)).flatMap Prod.fst
      = (grouped operations).filterMap KeyOperation.keyRead? := by
    rw [List.flatMap_map, namespaces_eq, grouped, List.filterMap_flatMap]
    exact List.flatMap_congr fun name _ => reads_keys operations name
  have hwrites : ((namespaces operations).map (keys operations)).flatMap Prod.snd
      = (grouped operations).filterMap KeyOperation.keyWrite? := by
    rw [List.flatMap_map, namespaces_eq, grouped, List.filterMap_flatMap]
    exact List.flatMap_congr fun name _ => writes_keys operations name
  rw [endorsement, hreads, hwrites]

/-! ### Transactions -/

variable (tx : TxFixture)

/-- The time of a sample transaction, where the calendar has it. -/
def instant? : Option Instant :=
  if Instant.firstSecond ≤ tx.timestamp.toInt ∧ tx.timestamp.toInt ≤ Instant.lastSecond then
    some ⟨tx.timestamp.toInt, 0⟩
  else none

theorem ofUnix?_timestamp : Instant.ofUnix? tx.timestamp.toInt 0 = tx.instant? := by
  unfold Instant.ofUnix? instant?
  simp

/-- What the content of a sample transaction is read as. -/
def endorsed? : Content → Option Endorsement
  | .endorser chaincode version operations =>
    some ⟨chaincode, version, (grouped operations).filterMap KeyOperation.keyRead?,
      (grouped operations).filterMap KeyOperation.keyWrite?⟩
  | .config | .endorserWithoutActions | .ofCode _ => none

theorem endorsement?_eq (content : Content) : endorsement? content = endorsed? content := by
  cases content with
  | endorser chaincode version operations =>
      exact congrArg some (endorsement_eq operations chaincode version)
  | config => rfl
  | endorserWithoutActions => rfl
  | ofCode code => rfl

variable {tx}

/-- **A transaction of the endorser kind without actions cannot be read.** -/
theorem decode_envelope_of_not_proper (h : tx.envelope.length < UInt64.size)
    (hproper : ¬ tx.content.Proper) : Transaction.decode tx.envelope = .error .noActions := by
  refine bind_eq_of_ok (opened h) ?_
  obtain ⟨txId, channel, creator, timestamp, content⟩ := tx
  cases content with
  | config => exact (hproper trivial).elim
  | endorser chaincode version operations => exact (hproper trivial).elim
  | endorserWithoutActions => rfl
  | ofCode code =>
      obtain rfl : code = 3 := Decidable.not_not.mp hproper
      rfl

end TxFixture

/-! ### Blocks -/

namespace BlockFixture

variable (block : BlockFixture)

/-- The validation code that a sample block was given for a transaction, or zero for each
transaction where it was given none. -/
def code? (index : Nat) : Option UInt8 :=
  match block.validationCodes with
  | some codes => codes[index]?
  | none => if index < block.transactions.length then some 0 else none

theorem getElem?_codes (index : Nat) : block.codes[index]? = block.code? index := by
  unfold codes code?
  cases block.validationCodes with
  | some codes => rfl
  | none => simp [entries, List.getElem?_replicate]

variable {block}

theorem decode_encode_nil (h : block.encode.length < UInt64.size)
    (htransactions : block.transactions = []) :
    Block.decode block.encode = .error .emptyBlock := by
  obtain ⟨number, previousHash, transactions, codes⟩ := block
  obtain rfl : transactions = [] := htransactions
  exact bind_eq_of_ok (decodeMessage_encode _ h) (bind_eq_of_ok rfl rfl)

end BlockFixture

/-- **Reading undoes the building of samples**, as long as their lengths are numbers of sixty-four
bits. -/
theorem decode_fixtures :
    (∀ block : BlockFixture, block.encode.length < UInt64.size →
      (block.transactions = [] → Block.decode block.encode = .error .emptyBlock) ∧
      ∀ first rest, block.transactions = first :: rest →
        ∃ decoded, Block.decode block.encode = .ok decoded ∧
          decoded.header = ⟨block.number.toNat, block.previousHash,
            Sha256.digest (block.transactions.map TxFixture.envelope).flatten⟩ ∧
          decoded.entries = block.transactions.map TxFixture.envelope ∧
          decoded.timestamp = first.instant? ∧
          decoded.kind = TxKind.ofCode first.code ∧
          ∀ index, decoded.validationCode? index = block.code? index) ∧
    (∀ tx : TxFixture, tx.envelope.length < UInt64.size →
      (tx.content.Proper → Transaction.decode tx.envelope = .ok
        { txId := tx.txId
          channelId := tx.channel
          creator := Creator.ofBytes tx.creator
          kind := TxKind.ofCode tx.code
          timestamp := tx.instant?
          endorsement := TxFixture.endorsed? tx.content }) ∧
      (¬ tx.content.Proper → Transaction.decode tx.envelope = .error .noActions)) ∧
    ∀ operations, (TxFixture.grouped operations).Perm operations := by
  refine ⟨fun block h => ⟨BlockFixture.decode_encode_nil h, ?_⟩, fun tx h => ⟨?_, ?_⟩,
    TxFixture.grouped_perm⟩
  · intro first rest htransactions
    refine ⟨_, BlockFixture.decode_encode h htransactions, ?_, rfl, ?_, rfl, ?_⟩
    · rw [← List.flatMap_id]
      rfl
    · exact first.ofUnix?_timestamp
    · exact block.getElem?_codes
  · intro hproper
    rw [TxFixture.decode_envelope hproper h, TxFixture.transaction, tx.ofUnix?_timestamp,
      TxFixture.endorsement?_eq]
  · exact TxFixture.decode_envelope_of_not_proper h

namespace BlockFixture.Sample

/-- An endorser transaction that goes back and forth between two namespaces. -/
def endorsing : TxFixture :=
  { txId := "tx-1", channel := "ch", creator := TxFixture.sampleCreator
    timestamp := TxFixture.epoch
    content := .endorser "cc" "1.0"
      [.read "b" "k0", .write "a" "k1" [1, 2], .delete "b" "k2", .write "b" "" []] }

/-- A transaction of no kind at a time before the calendar. -/
def unrecognized : TxFixture :=
  { txId := "", channel := "ch", creator := [255], timestamp := Int64.minValue
    content := .ofCode (-1) }

def both : BlockFixture :=
  ⟨18446744073709551615, [7], [endorsing, unrecognized], some [0, 11, 255]⟩

/-- An endorser transaction without actions. -/
def withoutActions : TxFixture :=
  { endorsing with content := .endorserWithoutActions }

end BlockFixture.Sample

open BlockFixture.Sample in
/-- The samples are read back, the operations of the first transaction by namespace. -/
theorem decode_fixtures_both :
    both.encode.length < UInt64.size ∧
    (∃ decoded, Block.decode both.encode = .ok decoded ∧
      decoded.entries = [endorsing.envelope, unrecognized.envelope] ∧
      decoded.validationCode? 1 = some 11 ∧ decoded.validationCode? 3 = none) ∧
    (∃ tx, Transaction.decode endorsing.envelope = .ok tx ∧ tx.endorsement =
      some ⟨"cc", "1.0", [⟨"b", "k0"⟩],
        [⟨"b", "k2", [], true⟩, ⟨"b", "", [], false⟩, ⟨"a", "k1", [1, 2], false⟩]⟩) ∧
    (∃ tx, Transaction.decode unrecognized.envelope = .ok tx ∧ tx.kind = .unrecognized ∧
      tx.timestamp = none ∧ tx.endorsement = none) ∧
    Transaction.decode withoutActions.envelope = .error .noActions := by
  have hboth : both.encode.length < UInt64.size := by decide +kernel
  refine ⟨hboth, ?_, ?_, ?_, ?_⟩
  · obtain ⟨decoded, hdecoded, -, hentries, -, -, hcodes⟩ :=
      (decode_fixtures.1 both hboth).2 endorsing [unrecognized] rfl
    exact ⟨decoded, hdecoded, hentries, (hcodes 1).trans rfl, (hcodes 3).trans rfl⟩
  · exact ⟨_, (decode_fixtures.2.1 endorsing (by decide +kernel)).1 trivial, by decide +kernel⟩
  · exact ⟨_, (decode_fixtures.2.1 unrecognized (by decide +kernel)).1 (by decide), rfl,
      by decide +kernel, rfl⟩
  · exact (decode_fixtures.2.1 withoutActions (by decide +kernel)).2 id

/-- Not every sample transaction can be read. -/
theorem not_forall_decode_envelope :
    ¬ ∀ tx : TxFixture, ∃ decoded, Transaction.decode tx.envelope = .ok decoded := by
  intro h
  obtain ⟨decoded, hdecoded⟩ := h BlockFixture.Sample.withoutActions
  have herror : Transaction.decode BlockFixture.Sample.withoutActions.envelope
      = .error .noActions := by decide +kernel
  rw [herror] at hdecoded
  cases hdecoded

end LedgerIndex
