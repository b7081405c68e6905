import Mathlib.Algebra.Group.Int.Defs
import Mathlib.Algebra.Group.Nat.Defs
import Mathlib.Data.List.Infix
import SorobanExplorer.Enrichment.Columns
import SorobanExplorer.Lib.Interaction
import SorobanExplorer.Parser.AssetSightings
import SorobanExplorer.Persist.NftRows

/-!
# The enrichment services

Three programs fill the enrichment tables.  The indexer publishes a message for each asset
and token of a batch that has no row yet; the worker takes messages from the queue, fetches
what each is about and inserts a row; and an operator drains what the messages missed.  A row
marks its key as tried, whatever was found.

The programs ask ClickHouse and the queue, which they share, and the network, which each asks
for itself.  The tasks of a drain that run at once in the source run one after the other here.
-/

namespace SorobanExplorer.Enrichment

open Interaction

/-! ## Keys and rows -/

structure AssetKey where
  assetType : Int16
  assetCode : String
  issuerId : Int64
  contractId : Int64
  deriving DecidableEq, Inhabited

structure NftKey where
  contractId : Int64
  tokenId : String
  deriving DecidableEq, Inhabited

/-- The two enrichment tables, by the tag their messages carry. -/
inductive Kind
  | sep1Assets
  | nftTokenUri
  deriving DecidableEq

/-- The key of a row: that of the table the row belongs to. -/
def Kind.Key : Kind → Type
  | .sep1Assets => AssetKey
  | .nftTokenUri => NftKey

def Kind.Values : Kind → Type
  | .sep1Assets => AssetValues
  | .nftTokenUri => NftValues

instance (kind : Kind) : DecidableEq kind.Key :=
  match kind with
  | .sep1Assets => inferInstanceAs (DecidableEq AssetKey)
  | .nftTokenUri => inferInstanceAs (DecidableEq NftKey)

instance (kind : Kind) : Inhabited kind.Key :=
  match kind with
  | .sep1Assets => inferInstanceAs (Inhabited AssetKey)
  | .nftTokenUri => inferInstanceAs (Inhabited NftKey)

/-- A unit of work: what a row of an enrichment table is about. -/
structure EnrichmentMessage where
  kind : Kind
  key : kind.Key

/-- A row of `asset_enrichment` or of `nft_enrichment`. -/
structure EnrichmentRow where
  kind : Kind
  key : kind.Key
  values : kind.Values
  /-- Milliseconds since the Unix epoch, by the clock of the writer. -/
  version : ℤ

/-- What a row is about. -/
def EnrichmentRow.message (row : EnrichmentRow) : EnrichmentMessage :=
  ⟨row.kind, row.key⟩

inductive EnrichOutcome
  | real
  | sentinel
  deriving DecidableEq

/-- What is worth a retry. -/
inductive EnrichError
  | database
  | transient
  deriving DecidableEq

/-! ## Requests -/

/-- The account of an issuer, as far as it is looked up. -/
structure IssuerLookup where
  issuerStrkey : Option String
  homeDomain : Option String

/-- Which keys a drain walks: those without a row, those whose row has nothing, all. -/
inductive DrainMode
  | untried
  | sentinels
  | all
  deriving DecidableEq

/-- The body of a queued message: none, a text that is no message, or a message. -/
abbrev Body := Option (Except String EnrichmentMessage)

structure SqsMessage where
  messageId : Option String
  body : Body

/-- What the services ask of ClickHouse and of the queue.  `receive` and `respond` are the
Lambda runtime's: a batch of messages, and either the ids of those to deliver again or a
failed invocation. -/
inductive StoreOp
  | issuer (issuerId : Int64)
  | contractStrkey (contractId : Int64)
  | insert (row : EnrichmentRow)
  | unenriched (kind : Kind) (keys : List kind.Key)
  | candidateTotal (kind : Kind) (mode : DrainMode)
  | selectChunk (kind : Kind) (cursor : Option kind.Key) (chunk : ℤ) (mode : DrainMode)
  | collectionTotal
  | collectionCandidates (limit : ℤ)
  | rewriteCollectionName (contractId : Int64) (collectionName : String) (version : ℤ)
  | sendMessageBatch (entries : List EnrichmentMessage)
  | receive
  | respond (event : List SqsMessage) (failures : Option (List String))

abbrev enrichmentStore : Interface where
  Op := StoreOp
  Ans
    | .issuer _ => Except String (Option IssuerLookup)
    | .contractStrkey _ => Except String (Option (Option String))
    | .insert _ | .rewriteCollectionName _ _ _ => Except String Unit
    | .unenriched kind _ | .selectChunk kind _ _ _ => Except String (List kind.Key)
    | .candidateTotal _ _ | .collectionTotal => Except String ℕ
    | .collectionCandidates _ => Except String (List Int64)
    | .sendMessageBatch _ => Except String Unit
    | .receive => List SqsMessage
    | .respond _ _ => Unit

/-- What a service asks for itself: its clock, the network, and, of a task it waited for,
whether the task panicked.  `simulateName` runs a contract's `name` and decodes the text. -/
inductive FetchOp
  | nowMs
  | fetchToml (homeDomain : String)
  | resolve (contractStrkey tokenId : String)
  | simulateName (contractStrkey : String)
  | joinPanicked

abbrev fetcher : Interface where
  Op := FetchOp
  Ans
    | .nowMs => ℤ
    | .fetchToml _ => Except Sep1Error Sep1TomlParsed
    | .resolve _ _ => Except NftTokenUriError (Option Json)
    | .simulateName _ => Except NftTokenUriError (Option String)
    | .joinPanicked => Bool

abbrev services : Interface := enrichmentStore.sum fetcher

abbrev Enrich (α : Type) : Type := ExceptT EnrichError (Prog services) α

def askStore (op : StoreOp) : Prog services (enrichmentStore.Ans op) :=
  @Prog.perform services (.inl op)

def askFetcher (op : FetchOp) : Prog services (fetcher.Ans op) :=
  @Prog.perform services (.inr op)

/-- A request to ClickHouse; an error of it is a database error. -/
def query {α : Type} (p : Prog services (Except String α)) : Enrich α :=
  .mk do
    match ← p with
    | .ok value => return .ok value
    | .error _ => return .error .database

/-! ## One asset -/

def assetOutcome (iconUrl : String) (name : Option String) : EnrichOutcome :=
  if iconUrl ≠ "" ∨ name.any (· ≠ "") then .real else .sentinel

def assetRow (key : AssetKey) (values : AssetValues) (version : ℤ) : EnrichmentRow where
  kind := .sep1Assets
  key := key
  values := values
  version := version

def insertAsset (key : AssetKey) (iconUrl : String) (name : Option String) :
    Enrich EnrichOutcome := do
  let version ← ExceptT.lift (askFetcher .nowMs)
  let values : AssetValues := ⟨some iconUrl, name⟩
  query (askStore (.insert (assetRow key values version)))
  return assetOutcome iconUrl name

/-- Insert the values of a pair. -/
def insertAssetColumns (key : AssetKey) (columns : String × Option String) :
    Enrich EnrichOutcome :=
  insertAsset key columns.1 columns.2

def enrichAssetFromSep1 (key : AssetKey) : Enrich EnrichOutcome := do
  match ← query (askStore (.issuer key.issuerId)) with
  | none => insertAssetColumns key (permanentFailOutcome key.assetType)
  | some issuer =>
      match nonBlank issuer.homeDomain with
      | none => insertAssetColumns key (permanentFailOutcome key.assetType)
      | some homeDomain =>
          match ← ExceptT.lift (askFetcher (.fetchToml homeDomain)) with
          | .ok parsed =>
              insertAssetColumns key
                (resolveCurrencyOutcome key.assetType (some key.assetCode) issuer.issuerStrkey
                  parsed)
          | .error error =>
              if error.isTransient then throw .transient
              else insertAssetColumns key (permanentFailOutcome key.assetType)

/-! ## One token -/

/-- The name of the collection does not count: it is the contract's. -/
def nftOutcome (name mediaUrl : String) : EnrichOutcome :=
  if name ≠ "" ∨ mediaUrl ≠ "" then .real else .sentinel

def nftRow (key : NftKey) (values : NftValues) (version : ℤ) : EnrichmentRow where
  kind := .nftTokenUri
  key := key
  values := values
  version := version

def insertNft (key : NftKey) (name mediaUrl collectionName : String) : Enrich EnrichOutcome := do
  let version ← ExceptT.lift (askFetcher .nowMs)
  let values : NftValues := ⟨some name, some mediaUrl, some collectionName⟩
  query (askStore (.insert (nftRow key values version)))
  return nftOutcome name mediaUrl

/-- The name a contract gives its collection.  A contract that has none will never have one;
only an error worth a retry is reported. -/
def resolveCollectionName (contractStrkey : String) : Enrich (Option String) := do
  match ← ExceptT.lift (askFetcher (.simulateName contractStrkey)) with
  | .ok decoded => return decoded.bind usableCollectionName
  | .error error => if error.isTransient then throw .transient else return none

/-- The columns from the metadata of a token; an error worth a retry is reported. -/
def resolveColumns [DataUrls] (contractStrkey tokenId : String) :
    Enrich (String × String × String) := do
  match ← ExceptT.lift (askFetcher (.resolve contractStrkey tokenId)) with
  | .ok (some json) => return extractColumns json
  | .ok none => return ("", "", "")
  | .error error => if error.isTransient then throw .transient else return ("", "", "")

def enrichNftTokenUri [DataUrls] (key : NftKey) : Enrich EnrichOutcome := do
  match (← query (askStore (.contractStrkey key.contractId))).bind id with
  | none => insertNft key "" "" ""
  | some contractStrkey => do
      let (name, mediaUrl, collectionName) ← resolveColumns contractStrkey key.tokenId
      if collectionName ≠ "" then insertNft key name mediaUrl collectionName
      else do
        let fetched ← resolveCollectionName contractStrkey
        insertNft key name mediaUrl (fetched.getD "")

/-- The unit of work behind a message. -/
def enrich [DataUrls] : EnrichmentMessage → Enrich EnrichOutcome
  | ⟨.sep1Assets, key⟩ => enrichAssetFromSep1 key
  | ⟨.nftTokenUri, key⟩ => enrichNftTokenUri key

/-! ## The worker -/

inductive RecordError
  | permanent (message : String)
  | transient (error : EnrichError)

/-- The message of a record; a body that is none is the producer's fault. -/
def parseMessage (record : SqsMessage) : Except RecordError EnrichmentMessage :=
  match record.body with
  | none => .error (.permanent "SQS record had no body")
  | some (.error error) => .error (.permanent ("malformed enrichment JSON: " ++ error))
  | some (.ok message) => .ok message

def handleRecord [DataUrls] (record : SqsMessage) : ExceptT RecordError (Prog services) Unit :=
  match parseMessage record with
  | .error error => throw error
  | .ok message => do
      let _ ← ExceptT.adapt RecordError.transient (enrich message)

/-- Only an error worth a retry has the message delivered again. -/
def classifyOutcome (messageId : String) : Except RecordError Unit → Option String
  | .ok () => none
  | .error (.permanent _) => none
  | .error (.transient _) => some messageId

/-- The id that a failure of a record is reported under. -/
def requireMessageId (record : SqsMessage) : Except String String :=
  match record.messageId with
  | some id => .ok id
  | none => .error "SQS record missing message_id"

/-- Handle the records one after the other.  One without an id fails the invocation: a
failure could not be reported for it. -/
def handleRecords [DataUrls] : (failures : List String) → List SqsMessage →
    Prog services (Option (List String))
  | failures, [] => return some failures
  | failures, record :: records =>
      match requireMessageId record with
      | .error _ => return none
      | .ok messageId => do
          let outcome ← (handleRecord record).run
          handleRecords (failures ++ (classifyOutcome messageId outcome).toList) records

/-- One invocation of the worker. -/
def invocation [DataUrls] : Prog services Unit := do
  let event ← askStore .receive
  let failures ← handleRecords [] event
  askStore (.respond event failures)

/-! ## The publisher -/

/-- The keys of the classic credits among the assets of a batch. -/
def sep1CandidateKeys [Crates] (extracted : List ExtractedAsset) : List AssetKey :=
  extracted.filterMap fun asset =>
    if asset.assetType.toI16 ≠ 1 then none
    else some {
      assetType := asset.assetType.toI16
      assetCode := asset.assetCode.getD ""
      issuerId := (asset.issuerAddress.map Ids.accountId).getD 0
      contractId := (asset.contractId.map Ids.contractId).getD 0 }

/-- The keys of the tokens a batch minted. -/
def nftCandidateKeys [Crates] (minted : List ExtractedNft) : List NftKey :=
  minted.map fun nft => { contractId := Ids.contractId nft.contractId, tokenId := nft.tokenId }

/-- The keys without a row, each once. -/
def unenrichedKeys (kind : Kind) (candidates : List kind.Key) :
    Prog services (Except String (List kind.Key)) :=
  if candidates.eraseDups = [] then return .ok []
  else askStore (.unenriched kind candidates.eraseDups)

/-- The keys ten by ten. -/
def chunksOfTen {α : Type} (keys : List α) : List (List α) :=
  (List.range ((keys.length + 9) / 10)).map fun i => (keys.drop (10 * i)).take 10

/-- Send a message for each key; what the queue refuses is only logged. -/
def publishMessages (kind : Kind) (keys : List kind.Key) : Prog services Unit :=
  (chunksOfTen keys).forM fun chunk => do
    let _ ← askStore (.sendMessageBatch (chunk.map fun key => ⟨kind, key⟩))

/-- Publish the candidates without a row, or all of them if that cannot be told. -/
def publish (kind : Kind) (candidates : List kind.Key) : Prog services Unit :=
  if candidates = [] then return ()
  else do
    let missing ← unenrichedKeys kind candidates
    publishMessages kind (missing.toOption.getD candidates)

def publishForExtractedAssets [Crates] (extracted : List ExtractedAsset) : Prog services Unit :=
  publish .sep1Assets (sep1CandidateKeys extracted)

def publishForMintedNfts [Crates] (minted : List ExtractedNft) : Prog services Unit :=
  publish .nftTokenUri (nftCandidateKeys minted)

/-! ## The drain -/

/-- The arguments of a drain, as its command line lets them through. -/
structure DrainArgs where
  chunkSize : ℤ
  chunkSize_pos : 1 ≤ chunkSize
  limit : Option ℕ
  mode : DrainMode

structure BackfillReport where
  processed : ℕ
  enriched : ℕ
  sentinel : ℕ
  unreachable : ℕ
  dbFailed : ℕ

def BackfillReport.new : BackfillReport := ⟨0, 0, 0, 0, 0⟩

/-- A count as an `i64`. -/
def asI64 (n : ℕ) : ℤ := (BitVec.ofNat 64 n).toInt

theorem asI64_le (n : ℕ) : asI64 n ≤ n := by
  unfold asI64
  rw [BitVec.toInt_eq_toNat_cond, BitVec.toNat_ofNat]
  have hmod := Nat.mod_le n (2 ^ 64)
  split_ifs <;> omega

theorem asI64_of_lt {n : ℕ} (h : n < 2 ^ 63) : asI64 n = n := by
  unfold asI64
  rw [BitVec.toInt_eq_toNat_cond, BitVec.toNat_ofNat, Nat.mod_eq_of_lt (by omega)]
  split_ifs <;> omega

/-- The rest of the limit, at most a chunk. -/
def effectiveChunk (chunkSize : ℤ) (limit : Option ℕ) (processed : ℕ) : ℤ :=
  match limit with
  | some cap => min chunkSize (max (asI64 (cap - processed)) 0)
  | none => chunkSize

/-- A chunk stays within the limit. -/
theorem effectiveChunk_le {chunkSize : ℤ} {cap processed : ℕ} (hle : processed ≤ cap) :
    (processed : ℤ) + effectiveChunk chunkSize (some cap) processed ≤ cap := by
  have hrest := asI64_le (cap - processed)
  simp only [effectiveChunk]
  omega

/-- A drain that its limit does not stop asks for a key at least. -/
theorem effectiveChunk_pos {chunkSize : ℤ} (hsize : 1 ≤ chunkSize) {limit : Option ℕ}
    {processed : ℕ} (hlimit : ∀ cap, limit = some cap → processed < cap ∧ cap < 2 ^ 63) :
    1 ≤ effectiveChunk chunkSize limit processed := by
  cases limit with
  | none => exact hsize
  | some cap =>
      obtain ⟨hless, hsmall⟩ := hlimit cap rfl
      have hrest : asI64 (cap - processed) = ((cap - processed : ℕ) : ℤ) :=
        asI64_of_lt (by omega)
      simp only [effectiveChunk, hrest]
      omega

def limitReached (limit : Option ℕ) (processed : ℕ) : Bool :=
  limit.any fun cap => cap ≤ processed

theorem limitReached_iff {limit : Option ℕ} {processed : ℕ} :
    limitReached limit processed = true ↔ ∃ cap, limit = some cap ∧ cap ≤ processed := by
  cases limit <;> simp [limitReached]

def tally (report : BackfillReport) : Except EnrichError EnrichOutcome → BackfillReport
  | .ok .real => { report with processed := report.processed + 1, enriched := report.enriched + 1 }
  | .ok .sentinel =>
      { report with processed := report.processed + 1, sentinel := report.sentinel + 1 }
  | .error .transient =>
      { report with processed := report.processed + 1, unreachable := report.unreachable + 1 }
  | .error .database =>
      { report with processed := report.processed + 1, dbFailed := report.dbFailed + 1 }

/-- A task that panicked is counted as a failure of the database. -/
def collectJoin (report : BackfillReport) (panicked : Bool)
    (result : Except EnrichError EnrichOutcome) : BackfillReport :=
  if panicked then tally report (.error .database) else tally report result

/-- Run one task of a chunk and count what came of it. -/
def drainTask {α : Type} (task : α → Enrich EnrichOutcome) (report : BackfillReport) (key : α) :
    Prog services BackfillReport := do
  let result ← (task key).run
  let panicked ← askFetcher .joinPanicked
  return collectJoin report panicked result

/-- Walk the candidates past the cursor, chunk by chunk.  `fuel` bounds the chunks: nothing
is returned by a drain that is still at work. -/
def drainLoop [DataUrls] (kind : Kind) (args : DrainArgs) :
    (fuel : ℕ) → (cursor : Option kind.Key) → BackfillReport →
    ExceptT String (Prog services) (Option BackfillReport)
  | 0, _, _ => return none
  | fuel + 1, cursor, report => do
      if limitReached args.limit report.processed then return some report
      let chunk := effectiveChunk args.chunkSize args.limit report.processed
      let keys ← ExceptT.mk (askStore (.selectChunk kind cursor chunk args.mode))
      match keys.getLast? with
      | none => return some report
      | some last => do
          let report ← ExceptT.lift (keys.foldlM (drainTask fun key => enrich ⟨kind, key⟩) report)
          drainLoop kind args fuel (some last) report

/-- A drain of one table.  The count of its candidates is for the progress bar alone. -/
def runDrain [DataUrls] (kind : Kind) (args : DrainArgs) (fuel : ℕ) :
    ExceptT String (Prog services) (Option BackfillReport) := do
  let _total ← ExceptT.mk (askStore (.candidateTotal kind args.mode))
  drainLoop kind args fuel none .new

def runSep1Assets [DataUrls] := runDrain .sep1Assets

def runNftMetadata [DataUrls] := runDrain .nftTokenUri

/-- Stamp the name of a collection on its rows. -/
def backfillContractCollectionName (contractId : Int64) : Enrich EnrichOutcome := do
  match (← query (askStore (.contractStrkey contractId))).bind id with
  | none => return .sentinel
  | some contractStrkey => do
      match ← resolveCollectionName contractStrkey with
      | some name => do
          let version ← ExceptT.lift (askFetcher .nowMs)
          query (askStore (.rewriteCollectionName contractId name version))
          return .real
      | none => return .sentinel

/-- The drain of the collections whose rows lack a name. -/
def runNftCollectionName (limit : Option ℕ) :
    ExceptT String (Prog services) BackfillReport := do
  let _total ← ExceptT.mk (askStore .collectionTotal)
  let ids ← ExceptT.mk (askStore (.collectionCandidates ((limit.map asI64).getD (2 ^ 63 - 1))))
  ExceptT.lift (ids.foldlM (drainTask backfillContractCollectionName) .new)

end SorobanExplorer.Enrichment
