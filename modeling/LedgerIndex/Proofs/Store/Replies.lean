import LedgerIndex.Proofs.Store.CheckpointDocuments

/-! # What a document store writes it reads back

A search service answers with the documents it was sent, within objects of its own: a checkpoint as
the `_source` of an object, the blocks that it found as the `_source` of each hit
(`SearchStore.HitsText`).  Other members of these objects hold any texts.  The store reads from such
replies what it wrote (`SearchStore.reads_back`), whatever spelling the service gives the
documents. -/

namespace LedgerIndex.SearchStore

open Json (Spelled ReadAs ObjectWith Listed Whole IsText)

/-! ### Replies -/

/-- An object that shows a document with such a text as its `_source`. -/
def Shown (document : List Char → Prop) : List Char → Prop :=
  ObjectWith "_source" document

/-- A hit with a block document: an object whose `_source` has a text as its `block_hash`. -/
def HitText : List Char → Prop :=
  Shown (ObjectWith "block_hash" fun text => ∃ s, Spelled .plain (.string s) text)

/-- The reply to a search that found these hits. -/
def HitsText (hits : List (List Char)) : List Char → Prop :=
  ObjectWith "hits" (ObjectWith "hits" fun text =>
    ∃ listed, text = '[' :: listed ∧ Listed ']' hits listed)

/-- The answer to a question, over every network where its request is replied to with success and
this body. -/
def Answers (store : SearchStore) (q : Store.Query) (body : String) (answer : q.Answer) : Prop :=
  ∀ (network : Http.Network) (request : Http.Request), store.request? q = some request →
    (network.exchange request).1 = .answered 200 (Utf8.encode body) →
      (store.answer network q).1 = answer

/-! ### Documents -/

variable {sp : Json.Spelling} {text : List Char} {e : BlockEvent}

theorem tidy_blockDocument (h : e.blockNumber < UInt64.size) : Json.Tidy 2 e.document := by
  refine Json.tidy_ofFields ?_
  simp only [Origin.fields, List.cons_append, List.nil_append, List.forall_mem_cons]
  exact ⟨Json.tidy_nat h 1, .string, .string, .string, .string, .string, .string,
    Json.tidy_ofString? _ 1, .string, Json.tidy_ofStrings _ 0, nofun⟩

theorem filter_blockDocument (e : BlockEvent) :
    ∃ fields, e.document = .object fields ∧
      fields.filter (·.1 = "block_hash") = [("block_hash", .string e.blockHash)] := by
  have hkeys : ["block_number", "channel_id", "peer", "organization", "block_hash",
      "previous_hash", "data_hash", "created_at", "block_type", "transactions"].Nodup := by decide
  exact ⟨_, rfl, Json.filter_insertFields hkeys (by simp [Origin.fields])⟩

theorem readAs_blockDocument (hsp : sp.Strict) (h : Spelled sp e.document text) :
    ReadAs (Json.readRecord "block_hash" Json.readText) e.blockHash text := by
  obtain ⟨fields, hdocument, hfields⟩ := filter_blockDocument e
  rw [hdocument] at h
  exact (h.objectWith hsp hfields).readAs (Json.readAs_string hsp)

/-! ### Reading replies -/

theorem exists_url_of_request? {store : SearchStore} {q : Store.Query} {sent : Http.Request}
    (h : store.request? q = some sent) : ∃ url, sent = store.requestAt url q := by
  obtain ⟨url, -, rfl⟩ := Option.map_eq_some_iff.mp h
  exact ⟨url, rfl⟩

theorem answers_of_read {store : SearchStore} {q : Store.Query} {body : String} {answer : q.Answer}
    (h : read q (.answered 200 (Utf8.encode body)) = answer) : Answers store q body answer := by
  intro network request hrequest hreply
  rw [answer_of_request? hrequest, hreply]
  exact h

theorem HitText.readAs (h : HitText text) : ∃ hash, ReadAs readHash hash text := by
  obtain ⟨source, hsource, h⟩ := h.exists_inner
  obtain ⟨hash, ⟨s, hs⟩, hsource⟩ := hsource.exists_inner
  refine ⟨s, h.readAs ?_⟩
  rintro _ rfl
  refine hsource.readAs ?_
  rintro _ rfl
  exact Json.readAs_string Json.strict_plain hs

/-- **The answer to a search is the hash of the first hit.** -/
theorem answers_hits {store : SearchStore} {channel : String} {number : Nat}
    {hits : List (List Char)} {hashes : List String} {body : String}
    (h : Whole (HitsText hits) body.toList) (hread : List.Forall₂ (ReadAs readHash) hashes hits) :
    store.Answers (.blockHash channel number) body (.ok hashes.head?) := by
  have hbody : Json.document? readHits (Utf8.encode body) = some hashes := by
    refine h.document?_encode fun h => h.readAs fun h => h.readAs ?_
    rintro _ ⟨listed, rfl, hlisted⟩
    exact Json.readAs_array hlisted hread
  have hsuccess : Http.isSuccess 200 = true := rfl
  exact answers_of_read (by simp [read, hsuccess, readBody, hbody])

theorem eq_of_isText_body {request : Http.Request} {document other : Json} {depth : Nat}
    (hbody : request.body = document.text) (hdocument : Json.Tidy depth document)
    (h : IsText .exact other request.body.toList) : other = document := by
  rw [hbody] at h
  exact h.unique (hdocument.isText_text Json.compact_exact)

/-- **What the store writes it reads back.**  A checkpoint is read from every object that shows the
document that was put, and the hash of a block from every reply to a search whose first hit shows
the document of the block, in any spelling; where nothing was found there is no hash. -/
theorem reads_back (store : SearchStore) :
    (∀ {channel : String} {number : Nat} {sent : Http.Request} {document : Json} {body : String},
      number < UInt64.size → store.request? (.putCheckpoint channel number) = some sent →
      IsText .exact document sent.body.toList →
      Whole (Shown (Spelled .plain document)) body.toList →
        store.Answers (.checkpoint channel) body (.ok (some number))) ∧
    (∀ {e : BlockEvent} {sent : Http.Request} {document : Json} {channel : String} {number : Nat}
      {first : List Char} {hits : List (List Char)} {body : String},
      e.blockNumber < UInt64.size → store.request? (.putEvent (.block e)) = some sent →
      IsText .exact document sent.body.toList →
      Shown (Spelled .plain document) first → (∀ hit ∈ hits, HitText hit) →
      Whole (HitsText (first :: hits)) body.toList →
        store.Answers (.blockHash channel number) body (.ok (some e.blockHash))) ∧
    ∀ {channel : String} {number : Nat} {body : String}, Whole (HitsText []) body.toList →
      store.Answers (.blockHash channel number) body (.ok none) := by
  refine ⟨?_, ?_, fun h => answers_hits h .nil⟩
  · intro channel number sent document body hnumber hsent hdocument h
    obtain ⟨url, rfl⟩ := exists_url_of_request? hsent
    obtain rfl := eq_of_isText_body rfl (tidy_checkpointDocument hnumber 0) hdocument
    have hbody : Json.document? readCheckpoint (Utf8.encode body) = some number :=
      h.document?_encode fun h => h.readAs fun h =>
        readAs_checkpointDocument Json.strict_plain h hnumber
    have hsuccess : Http.isSuccess 200 = true := rfl
    exact answers_of_read (by simp [read, hsuccess, readBody, hbody])
  · intro e sent document channel number first hits body hnumber hsent hdocument hfirst hhits h
    obtain ⟨url, rfl⟩ := exists_url_of_request? hsent
    obtain rfl := eq_of_isText_body rfl (tidy_blockDocument hnumber) hdocument
    have hhash : ReadAs readHash e.blockHash first :=
      hfirst.readAs (readAs_blockDocument Json.strict_plain)
    have hread : ∀ hit ∈ hits, ∃ hash, ReadAs readHash hash hit := fun hit hhit =>
      (hhits hit hhit).readAs
    choose! hash hhits using hread
    have hall : List.Forall₂ (ReadAs readHash) (hits.map hash) hits := by
      rw [List.forall₂_map_left_iff, List.forall₂_same]
      exact hhits
    exact answers_hits h (.cons hhash hall)

namespace Sample

/-- The event of a block, with a text of its own in quotation marks. -/
def block : BlockEvent where
  origin := ⟨"c", "peer0", "org"⟩
  blockNumber := 7
  blockHash := "\"\u00e9\""
  previousHash := ""
  dataHash := ""
  createdAt := none
  kind := .endorser
  transactions := ["t"]

/-- A reply to a search that found these documents. -/
def found (documents : List Json) : Json :=
  .object [("hits", .object [("hits", .array (documents.map fun document =>
    .object [("_id", .string "x"), ("_source", document)]))]), ("took", .nat 1)]

theorem tidy_found {documents : List Json} (h : ∀ document ∈ documents, Json.Tidy 2 document) :
    Json.Tidy 6 (found documents) := by
  have hid : "_id" < "_source" := by decide
  have hhits : "hits" < "took" := by decide
  have hhit : ∀ document ∈ documents,
      Json.Tidy 3 (.object [("_id", .string "x"), ("_source", document)]) := fun document hmem =>
    .object (List.pairwise_pair.mpr hid)
      (List.forall_mem_cons.mpr ⟨.string, List.forall_mem_singleton.mpr (h document hmem)⟩)
  refine .object (List.pairwise_pair.mpr hhits) (List.forall_mem_cons.mpr ⟨?_,
    List.forall_mem_singleton.mpr (Json.tidy_nat (by decide) 5)⟩)
  refine .object (List.pairwise_singleton _ _) (List.forall_mem_singleton.mpr (.array ?_))
  exact List.forall_mem_map.mpr hhit

theorem hits_found {documents : List Json} (h : ∀ document ∈ documents, Json.Tidy 2 document) :
    ∃ hits, Whole (HitsText hits) (found documents).text.toList ∧
      List.Forall₂ (fun document => Shown (Spelled .plain document)) documents hits := by
  obtain ⟨before, text, after, hbefore, hafter, htext, hwhole⟩ :=
    (tidy_found h).isText_text Json.compact_plain
  have houter : ObjectWith "hits" _ text := htext.objectWith Json.strict_plain rfl
  obtain ⟨outer, hobject, houter⟩ := houter.exists_inner
  have hinner : ObjectWith "hits" _ outer := hobject.objectWith Json.strict_plain rfl
  obtain ⟨inner, harray, hinner⟩ := hinner.exists_inner
  obtain ⟨hits, listed, rfl, hlisted, hpieces⟩ := harray.listed
  refine ⟨hits, ⟨before, text, after, hbefore, hafter, houter.imp ?_, hwhole⟩, ?_⟩
  · rintro _ rfl
    refine hinner.imp ?_
    rintro _ rfl
    exact ⟨listed, rfl, hlisted⟩
  · rw [List.forall₂_map_left_iff] at hpieces
    exact hpieces.imp fun _ _ hhit => hhit.objectWith Json.strict_plain rfl

end Sample

def Sample.store : SearchStore := ⟨Sample.elastic, "peer0", {}⟩

/-- The network of a service that replies with this value. -/
def Sample.replying (reply : Json) : Http.Network :=
  .scripted [.answered 200 (Utf8.encode reply.text)]

/-- A checkpoint among other members, a block found twice, and no block found. -/
theorem reads_back_samples :
    (Sample.store.answer (Sample.replying (.object [("_source", checkpointDocument 7),
      ("found", .bool true)])) (.checkpoint "c")).1 = .ok (some 7) ∧
    (Sample.store.answer (Sample.replying (Sample.found [Sample.block.document,
      Sample.block.document])) (.blockHash "c" 7)).1 = .ok (some "\"\u00e9\"") ∧
    (Sample.store.answer (Sample.replying (Sample.found [])) (.blockHash "c" 7)).1 = .ok none := by
  have hsize : 7 < UInt64.size := by decide
  have hget : Sample.store.request? (.checkpoint "c") = some _ :=
    request?_checkpoint rfl {} "peer0" "c"
  obtain ⟨search, hsearch⟩ : ∃ request, Sample.store.request? (.blockHash "c" 7) = some request :=
    Option.isSome_iff_exists.mp (by decide +kernel)
  refine ⟨?_, ?_, ?_⟩
  · have hdocument : Json.Tidy 1 (checkpointDocument 7) := tidy_checkpointDocument hsize 0
    have hsent : Sample.store.request? (.putCheckpoint "c" 7) = some _ :=
      request?_putCheckpoint rfl {} "peer0" "c" 7
    have hkeys : "_source" < "found" := by decide
    have hreply :
        Json.Tidy 2 (.object [("_source", checkpointDocument 7), ("found", .bool true)]) :=
      .object (List.pairwise_pair.mpr hkeys)
        (List.forall_mem_cons.mpr ⟨hdocument, List.forall_mem_singleton.mpr .bool⟩)
    obtain ⟨before, text, after, hbefore, hafter, htext, hwhole⟩ :=
      hreply.isText_text Json.compact_plain
    exact (reads_back Sample.store).1 hsize hsent (hdocument.isText_text Json.compact_exact)
      ⟨before, text, after, hbefore, hafter, htext.objectWith Json.strict_plain rfl, hwhole⟩
      (Sample.replying _) _ hget rfl
  · have hdocument : Json.Tidy 2 Sample.block.document := tidy_blockDocument hsize
    obtain ⟨sent, hsent⟩ :
        ∃ sent, Sample.store.request? (.putEvent (.block Sample.block)) = some sent :=
      Option.isSome_iff_exists.mp (by decide +kernel)
    obtain ⟨url, rfl⟩ := exists_url_of_request? hsent
    have htwo : ∀ document ∈ [Sample.block.document, Sample.block.document],
        Json.Tidy 2 document :=
      List.forall_mem_cons.mpr ⟨hdocument, List.forall_mem_singleton.mpr hdocument⟩
    obtain ⟨hits, hreply, hhits⟩ := Sample.hits_found htwo
    cases hhits with
    | cons hfirst hhits =>
        cases hhits with
        | cons hsecond hnil =>
            cases hnil
            refine (reads_back Sample.store).2.1 hsize hsent
              (hdocument.isText_text Json.compact_exact) hfirst
              (List.forall_mem_singleton.mpr (hsecond.imp fun hsource => ?_)) hreply
              (Sample.replying _) search hsearch rfl
            obtain ⟨fields, hfields, hhash⟩ := filter_blockDocument Sample.block
            rw [hfields] at hsource
            exact (hsource.objectWith Json.strict_plain hhash).imp fun htext => ⟨_, htext⟩
  · obtain ⟨hits, hreply, hhits⟩ := Sample.hits_found (List.forall_mem_nil _)
    cases hhits
    exact (reads_back Sample.store).2.2 hreply (Sample.replying _) search hsearch rfl

end LedgerIndex.SearchStore
