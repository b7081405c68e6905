import SorobanExplorer.Crates
import SorobanExplorer.Lib.KeyedFold

/-!
# Transaction envelopes

A transaction set lists its envelopes in hash order, a ledger's results come in
apply order.  `extractEnvelopes` gives every result the envelope with its hash.
`extractEnvelopes_aligned` says which envelope each result gets, and that the
nesting of the set plays no part in it.
-/

namespace SorobanExplorer

open KeyedFold

/-! ## Inner transactions -/

/-- The transaction whose operations run: of a fee bump, the inner one. -/
inductive InnerTxRef
  | v0 (tx : TransactionV0)
  | v1 (tx : Transaction)

def innerTransaction : TransactionEnvelope → InnerTxRef
  | .txV0 tx _ => .v0 tx
  | .tx tx _ => .v1 tx
  | .txFeeBump tx _ => .v1 tx.innerTx

def InnerTxRef.operations : InnerTxRef → List Operation
  | .v0 tx => tx.operations
  | .v1 tx => tx.operations

def InnerTxRef.memo : InnerTxRef → Memo
  | .v0 tx => tx.memo
  | .v1 tx => tx.memo

/-- The id of a sub-account; nothing for a plain account. -/
def muxedId : MuxedAccount → Option UInt64
  | .ed25519 _ => none
  | .muxedEd25519 id _ => some id

def InnerTxRef.sourceMuxedId : InnerTxRef → Option UInt64
  | .v0 _ => none
  | .v1 tx => muxedId tx.sourceAccount

section

variable [Crates]

/-- The account behind an address, without a sub-account id. -/
def muxedToGStrkey : MuxedAccount → String
  | .ed25519 key => Crates.accountStrkey key
  | .muxedEd25519 _ key => Crates.accountStrkey key

def InnerTxRef.sourceAccount : InnerTxRef → String
  | .v0 tx => Crates.accountStrkey tx.sourceAccountEd25519
  | .v1 tx => muxedToGStrkey tx.sourceAccount

def envelopeSource (envelope : TransactionEnvelope) : String :=
  (innerTransaction envelope).sourceAccount

end

/-! ## Collecting a transaction set -/

/-- The envelopes of a phase. -/
def collectPhaseEnvelopes : TransactionPhase → List TransactionEnvelope
  | .v0 components => components.flatMap TxsMaybeDiscountedFee.txs
  | .v1 parallel => parallel.executionStages.flatMap fun stage => stage.flatten

def txSetEnvelopes : LedgerTransactions → List TransactionEnvelope
  | .v0 txSet _ => txSet
  | .v1 txSet _ => txSet.flatMap collectPhaseEnvelopes
  | .v2 txSet _ => txSet.flatMap collectPhaseEnvelopes

def txProcessingHashes : LedgerTransactions → List Hash
  | .v0 _ txProcessing => txProcessing
  | .v1 _ txProcessing => txProcessing
  | .v2 _ txProcessing => txProcessing

/-! ## Hashes -/

/-- A transaction as its hash sees it: the oldest form is promoted first. -/
def taggedTransaction : TransactionEnvelope → TaggedTransaction
  | .txV0 tx _ => .tx
      { sourceAccount := .ed25519 tx.sourceAccountEd25519
        fee := tx.fee
        seqNum := tx.seqNum
        cond := match tx.timeBounds with
          | none => .none
          | some bounds => .time bounds
        memo := tx.memo
        operations := tx.operations
        ext := none }
  | .tx tx _ => .tx tx
  | .txFeeBump tx _ => .txFeeBump tx

section

-- the SHA-256 of the XDR of a network's signature payload for a transaction
variable (hashTaggedTransaction : TaggedTransaction → Hash → Hash)

def txEnvelopeHash (envelope : TransactionEnvelope) (networkId : Hash) : Hash :=
  hashTaggedTransaction (taggedTransaction envelope) networkId

/-- The envelopes in the order of the hashes.  Each is removed as it is handed out. -/
def alignEnvelopes (byHash : Table Hash TransactionEnvelope) :
    List Hash → List (Option TransactionEnvelope)
  | [] => []
  | hash :: targetHashes =>
      byHash.lookup hash :: alignEnvelopes (byHash.erase hash) targetHashes

/-- The envelopes in apply order, one slot for each processed transaction. -/
def extractEnvelopes (transactions : LedgerTransactions) (networkId : Hash) :
    List (Option TransactionEnvelope) :=
  alignEnvelopes
    (collect ((txSetEnvelopes transactions).map fun envelope =>
      (txEnvelopeHash hashTaggedTransaction envelope networkId, envelope)))
    (txProcessingHashes transactions)

/-! ## Slots -/

omit hashTaggedTransaction in
theorem length_alignEnvelopes (byHash : Table Hash TransactionEnvelope) (hashes : List Hash) :
    (alignEnvelopes byHash hashes).length = hashes.length := by
  induction hashes generalizing byHash with
  | nil => rfl
  | cons hash rest ih => rw [alignEnvelopes, List.length_cons, List.length_cons, ih]

/-- A slot holds what the table has for its hash, unless an earlier slot took it. -/
theorem getElem?_alignEnvelopes (byHash : Table Hash TransactionEnvelope) (hashes : List Hash)
    (i : ℕ) :
    (alignEnvelopes byHash hashes)[i]? =
      hashes[i]?.map fun hash => if hash ∈ hashes.take i then none else byHash.lookup hash := by
  induction hashes generalizing byHash i with
  | nil => rfl
  | cons first rest ih =>
      cases i with
      | zero => simp [alignEnvelopes]
      | succ i =>
          rw [alignEnvelopes, List.getElem?_cons_succ, List.getElem?_cons_succ, ih,
            List.take_succ_cons]
          congr 1
          funext hash
          by_cases hfirst : hash = first
          · subst hfirst
            simp
          · simp [hfirst, AList.lookup_erase_ne hfirst]

/-! ## Alignment -/

variable {hashTaggedTransaction} {transactions : LedgerTransactions} {networkId : Hash}

/-- No two envelopes of a transaction set have the same hash. -/
def NoCollision (hashTaggedTransaction : TaggedTransaction → Hash → Hash) (networkId : Hash)
    (transactions : LedgerTransactions) : Prop :=
  ∀ first ∈ txSetEnvelopes transactions, ∀ second ∈ txSetEnvelopes transactions,
    txEnvelopeHash hashTaggedTransaction first networkId =
      txEnvelopeHash hashTaggedTransaction second networkId → first = second

/-- Every slot holds exactly the envelope with its hash, whatever other slots hold. -/
def SlotsHoldOwn (hashTaggedTransaction : TaggedTransaction → Hash → Hash) (networkId : Hash)
    (transactions : LedgerTransactions) : Prop :=
  ∀ (i : ℕ) hash, (txProcessingHashes transactions)[i]? = some hash → ∀ envelope,
    (extractEnvelopes hashTaggedTransaction transactions networkId)[i]? = some (some envelope) ↔
      envelope ∈ txSetEnvelopes transactions ∧
        txEnvelopeHash hashTaggedTransaction envelope networkId = hash

/-- The slots of a ledger's transactions. -/
structure Aligned (hashTaggedTransaction : TaggedTransaction → Hash → Hash) (networkId : Hash)
    (transactions : LedgerTransactions) (slots : List (Option TransactionEnvelope)) : Prop where
  length_eq : slots.length = (txProcessingHashes transactions).length
  /-- A slot holds the envelope with its hash if no earlier slot has that hash. -/
  slot_iff : ∀ (i : ℕ) hash, (txProcessingHashes transactions)[i]? = some hash → ∀ envelope,
    slots[i]? = some (some envelope) ↔ envelope ∈ txSetEnvelopes transactions ∧
      txEnvelopeHash hashTaggedTransaction envelope networkId = hash ∧
      hash ∉ (txProcessingHashes transactions).take i
  /-- No envelope is in two slots. -/
  used_once : ∀ (i j : ℕ) envelope, slots[i]? = some (some envelope) →
    slots[j]? = some (some envelope) → i = j

/-- What the table of a set holds for a hash. -/
theorem lookup_byHash (h : NoCollision hashTaggedTransaction networkId transactions)
    (hash : Hash) (envelope : TransactionEnvelope) :
    (collect ((txSetEnvelopes transactions).map fun envelope =>
      (txEnvelopeHash hashTaggedTransaction envelope networkId, envelope))).lookup hash =
        some envelope ↔
      envelope ∈ txSetEnvelopes transactions ∧
        txEnvelopeHash hashTaggedTransaction envelope networkId = hash := by
  rw [lookup_collect]
  constructor
  · intro hlast
    have hmem := mem_of_lastOf hlast
    obtain ⟨other, hother, heq⟩ := List.mem_map.mp hmem
    obtain ⟨hhash, rfl⟩ := Prod.mk.inj heq
    exact ⟨hother, hhash⟩
  · rintro ⟨hmem, rfl⟩
    have hsome := isSome_lastOf_of_mem (List.mem_map_of_mem
      (f := fun envelope => (txEnvelopeHash hashTaggedTransaction envelope networkId, envelope))
      hmem)
    obtain ⟨last, hlast⟩ := Option.isSome_iff_exists.mp hsome
    obtain ⟨other, hother, heq⟩ := List.mem_map.mp (mem_of_lastOf hlast)
    obtain ⟨hhash, rfl⟩ := Prod.mk.inj heq
    rw [hlast, h other hother envelope hmem hhash]

theorem aligned_extractEnvelopes (h : NoCollision hashTaggedTransaction networkId transactions) :
    Aligned hashTaggedTransaction networkId transactions
      (extractEnvelopes hashTaggedTransaction transactions networkId) := by
  have hslot : ∀ (i : ℕ) hash, (txProcessingHashes transactions)[i]? = some hash → ∀ envelope,
      (extractEnvelopes hashTaggedTransaction transactions networkId)[i]? =
        some (some envelope) ↔ envelope ∈ txSetEnvelopes transactions ∧
          txEnvelopeHash hashTaggedTransaction envelope networkId = hash ∧
          hash ∉ (txProcessingHashes transactions).take i := by
    intro i hash hi envelope
    rw [extractEnvelopes, getElem?_alignEnvelopes, hi, Option.map_some, Option.some_inj]
    by_cases hearlier : hash ∈ (txProcessingHashes transactions).take i
    · simp [hearlier]
    · rw [if_neg hearlier, lookup_byHash h]
      simp [hearlier]
  have hhash : ∀ (i : ℕ) envelope,
      (extractEnvelopes hashTaggedTransaction transactions networkId)[i]? =
        some (some envelope) →
      (txProcessingHashes transactions)[i]? =
        some (txEnvelopeHash hashTaggedTransaction envelope networkId) ∧
      txEnvelopeHash hashTaggedTransaction envelope networkId ∉
        (txProcessingHashes transactions).take i := by
    intro i envelope hi
    cases hget : (txProcessingHashes transactions)[i]? with
    | none => simp [extractEnvelopes, getElem?_alignEnvelopes, hget] at hi
    | some hash =>
        obtain ⟨-, rfl, hearlier⟩ := (hslot i hash hget envelope).mp hi
        exact ⟨rfl, hearlier⟩
  refine ⟨length_alignEnvelopes _ _, hslot, ?_⟩
  intro i j envelope hi hj
  obtain ⟨hi, hiearlier⟩ := hhash i envelope hi
  obtain ⟨hj, hjearlier⟩ := hhash j envelope hj
  -- the earlier of two slots took the envelope
  obtain hlt | rfl | hlt := lt_trichotomy i j
  · exact absurd (List.mem_of_getElem? (by rwa [List.getElem?_take_of_lt hlt])) hjearlier
  · rfl
  · exact absurd (List.mem_of_getElem? (by rwa [List.getElem?_take_of_lt hlt])) hiearlier

/-- Two sets of the same envelopes give the same slots, however they are nested. -/
theorem extractEnvelopes_eq_of_mem_iff {transactions' : LedgerTransactions}
    (h : NoCollision hashTaggedTransaction networkId transactions)
    (hset : ∀ envelope, envelope ∈ txSetEnvelopes transactions ↔
      envelope ∈ txSetEnvelopes transactions')
    (hprocessing : txProcessingHashes transactions = txProcessingHashes transactions') :
    extractEnvelopes hashTaggedTransaction transactions networkId =
      extractEnvelopes hashTaggedTransaction transactions' networkId := by
  have h' : NoCollision hashTaggedTransaction networkId transactions' := by
    intro first hfirst second hsecond
    exact h first ((hset first).mpr hfirst) second ((hset second).mpr hsecond)
  apply List.ext_getElem?
  intro i
  rw [extractEnvelopes, extractEnvelopes, getElem?_alignEnvelopes, getElem?_alignEnvelopes,
    hprocessing]
  congr 1
  funext hash
  congr 1
  ext envelope
  rw [lookup_byHash h, lookup_byHash h', hset]

/-- Every processed transaction gets the envelope with its hash, once, from whatever
nesting of the transaction set. -/
theorem extractEnvelopes_aligned (hashTaggedTransaction : TaggedTransaction → Hash → Hash)
    (networkId : Hash) (transactions : LedgerTransactions)
    (hcollision : NoCollision hashTaggedTransaction networkId transactions) :
    Aligned hashTaggedTransaction networkId transactions
      (extractEnvelopes hashTaggedTransaction transactions networkId) ∧
    ∀ transactions' : LedgerTransactions,
      (∀ envelope, envelope ∈ txSetEnvelopes transactions ↔
        envelope ∈ txSetEnvelopes transactions') →
      txProcessingHashes transactions = txProcessingHashes transactions' →
      extractEnvelopes hashTaggedTransaction transactions networkId =
        extractEnvelopes hashTaggedTransaction transactions' networkId :=
  ⟨aligned_extractEnvelopes hcollision, fun _ => extractEnvelopes_eq_of_mem_iff hcollision⟩

end

/-- A transaction without operations, and its hash on the public network. -/
def emptyTransaction : TransactionEnvelope :=
  .tx
    { sourceAccount := .ed25519 Crates.pinnedAccount, fee := 100, seqNum := 1, cond := .none
      memo := .none, operations := [], ext := none }
    []

def emptyTransactionHash : Hash :=
  0xca11904379dd0b3e3d81584b5ad9ae3df6243c76ca723dba3c53305874243208

/-- The next transaction of the account, for a higher fee, and its hash. -/
def raisedTransaction : TransactionEnvelope :=
  .tx
    { sourceAccount := .ed25519 Crates.pinnedAccount, fee := 200, seqNum := 2, cond := .none
      memo := .none, operations := [], ext := none }
    []

def raisedTransactionHash : Hash :=
  0x842f2050238d30d94dd5c7858efc04542c8ed896eaf8deb88a6408bf18a927fc

/-- The hashes of the two on the public network. -/
def pinnedTransactionHash : TaggedTransaction → Hash → Hash
  | .tx tx, _ => if tx.fee = 100 then emptyTransactionHash else raisedTransactionHash
  | .txFeeBump _, _ => 0

/-- The set lists the second transaction first, by its hash; as stages of a parallel phase the
two give the same slots. -/
theorem extractEnvelopes_aligned_twoTransactions :
    let listed : LedgerTransactions := .v1 [.v0 [⟨none, [raisedTransaction, emptyTransaction]⟩]]
      [emptyTransactionHash, raisedTransactionHash]
    let staged : LedgerTransactions :=
      .v2 [.v0 [], .v1 ⟨some 100, [[[emptyTransaction]], [[], [raisedTransaction]]]⟩]
        [emptyTransactionHash, raisedTransactionHash]
    let slots := extractEnvelopes pinnedTransactionHash listed Crates.pinnedNetwork
    Aligned pinnedTransactionHash Crates.pinnedNetwork listed slots ∧
      slots[0]? = some (some emptyTransaction) ∧ slots[1]? = some (some raisedTransaction) ∧
      extractEnvelopes pinnedTransactionHash staged Crates.pinnedNetwork = slots := by
  intro listed staged slots
  have hne : emptyTransactionHash ≠ raisedTransactionHash := by decide
  have hset : ∀ envelope, envelope ∈ txSetEnvelopes listed ↔
      envelope = raisedTransaction ∨ envelope = emptyTransaction := by
    intro envelope
    exact List.mem_pair
  -- two hashes, so no two envelopes collide
  have hapart : NoCollision pinnedTransactionHash Crates.pinnedNetwork listed := by
    intro first hfirst second hsecond hsame
    rcases (hset first).mp hfirst with rfl | rfl <;> rcases (hset second).mp hsecond with rfl | rfl
    · rfl
    · exact absurd hsame.symm hne
    · exact absurd hsame hne
    · rfl
  obtain ⟨haligned, hnested⟩ := extractEnvelopes_aligned pinnedTransactionHash Crates.pinnedNetwork
    listed hapart
  refine ⟨haligned, ?_, ?_, (hnested staged (fun envelope => ?_) rfl).symm⟩
  · exact (haligned.slot_iff 0 _ rfl _).mpr ⟨(hset _).mpr (.inr rfl), rfl, List.not_mem_nil⟩
  · refine (haligned.slot_iff 1 _ rfl _).mpr ⟨(hset _).mpr (.inl rfl), rfl, ?_⟩
    exact fun hearlier => hne (List.mem_singleton.mp hearlier).symm
  · rw [hset, or_comm]
    exact List.mem_pair.symm

/-- A hash processed twice: the set has its envelope, the second slot does not. -/
theorem not_slotsHoldOwn_repeatedHash :
    ¬ ∀ hashTaggedTransaction networkId transactions,
      NoCollision hashTaggedTransaction networkId transactions →
        SlotsHoldOwn hashTaggedTransaction networkId transactions := by
  intro h
  have hown := h (fun _ _ => emptyTransactionHash) Crates.pinnedNetwork
    (.v0 [emptyTransaction] [emptyTransactionHash, emptyTransactionHash]) (by
      intro first hfirst second hsecond _
      rw [List.mem_singleton.mp hfirst, List.mem_singleton.mp hsecond])
  have hsecond := (hown 1 emptyTransactionHash rfl emptyTransaction).mpr
    ⟨List.mem_singleton.mpr rfl, rfl⟩
  rw [extractEnvelopes, getElem?_alignEnvelopes] at hsecond
  simp [txProcessingHashes] at hsecond

end SorobanExplorer
