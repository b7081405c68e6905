import Mathlib.Data.Int.ConditionallyCompleteOrder
import SorobanExplorer.Indexer.ContractUpgrades
import SorobanExplorer.Lib.Ranked
import SorobanExplorer.Lib.Replacing
import SorobanExplorer.Persist.ExecutableRefs

/-!
# The code of a fleet

A run of ledgers in which owners point their tags at hashes, and what is read of a
contract that borrows an owner's code.  The table replaces rows: a merge may have dropped
what an owner has written over.  The tag travels as text and the owner as a
surrogate, so the reading is the last write under the tag as long as no other tag of
the run shares its text and no other owner its surrogate (`Apart`); a tag that is not
UTF-8 shares its text with every other such tag.
-/

namespace SorobanExplorer

open KeepLast Text KeyedFold Ranked

section

variable [Crates]

/-- The key under which the two tables are joined. -/
def refKey (owner : ScAddress) (tag : Bytes) : Int64 × String :=
  (Ids.contractId (Crates.scAddressStrkey owner), utf8OrInvalid tag)

namespace ContractLedger

variable (ledger : ContractLedger)

def executableRefTargets : List ExtractedExecutableRefTarget :=
  ledger.txs.flatMap fun tx => extractExecutableRefTargets
    (extractLedgerEntryChanges tx.txMeta tx.hash ledger.ledgerSequence ledger.createdAt)

/-- The rows of the owners' tags staged for the ledger. -/
def stageExecutableRefs : List ContractExecutableRefRow :=
  buildExecutableRefRows ledger.executableRefTargets

/-- What the owners write in the ledger, in order. -/
def executableWrites : List ExecutableWrite :=
  ledger.txs.flatMap fun tx => (ledgerChanges tx.txMeta).filterMap LedgerEntryChange.executableWrite

/-- The last write of an owner under exactly a tag. -/
def lastWrite (owner : ScAddress) (tag : Bytes) : Option ExecutableWrite :=
  (ledger.executableWrites.filter fun write => write.owner = owner ∧ write.tag = tag).getLast?

end ContractLedger

/-- What the table holds of the rows a run stages, in any order and any number of times:
merges may have dropped rows, but the newest of an owner's tag is there. -/
def StoredRefs (ledgers : List ContractLedger) (refs : List ContractExecutableRefRow) : Prop :=
  Replacing.Merges (fun row => (row.ownerId, row.tag)) ContractExecutableRefRow.ledger
    (ledgers.flatMap ContractLedger.stageExecutableRefs) refs

/-- The last hash an owner wrote under exactly a tag. -/
def lastWrite (ledgers : List ContractLedger) (owner : ScAddress) (tag : Bytes) : Option Bytes :=
  (((ledgers.flatMap ContractLedger.executableWrites).filter fun write =>
    write.owner = owner ∧ write.tag = tag).getLast?).map (·.hash)

/-- No other tag written in the run, and no tag of another owner, is joined under the
key of this one. -/
def Apart (ledgers : List ContractLedger) (owner : ScAddress) (tag : Bytes) : Prop :=
  ∀ write ∈ ledgers.flatMap ContractLedger.executableWrites,
    refKey write.owner write.tag = refKey owner tag → write.owner = owner ∧ write.tag = tag

/-- The row of a contract whose instance references an owner's tag: the one of its
deployment, or one that an upgrade gave the reference. -/
inductive FleetMember (owner : ScAddress) (tag : Bytes) : SorobanContractRow → Prop
  | deployed {wasmClassification priorWasmVerdicts : Bytes → Option ContractType}
      {txSourceAccount : String} {networkId : Hash} {deployerByContract : Table String String}
      {change : ExtractedLedgerEntryChange} {entry : ContractDataEntry}
      {storage : Option (List (ScVal × ScVal))} {dep : ExtractedContractDeployment}
      {row : SorobanContractRow}
      (hval : entry.val = .contractInstance (.externalRef owner tag) storage)
      (hdata : change.data = some (contractDataData entry))
      (hdep : contractDeployment txSourceAccount networkId deployerByContract change = some dep)
      (hrow : deploymentRow wasmClassification priorWasmVerdicts dep = .ok row) :
      FleetMember owner tag row
  | upgraded {ledgerSequence : ℤ} {topics : Json} {update : ExecutableUpdate}
      {row : SorobanContractRow}
      (hupdate : update = .externalRef (Crates.scAddressStrkey owner) (utf8OrInvalid tag))
      (htopics : extractExecutableUpdate topics = some update) :
      FleetMember owner tag (row.upgrade ledgerSequence update)

/-! ## Members -/

theorem FleetMember.reference {owner : ScAddress} {tag : Bytes} {row : SorobanContractRow}
    (h : FleetMember owner tag row) :
    row.wasmHash = none ∧ row.executableOwnerId = some (refKey owner tag).1 ∧
      row.executableTag = some (refKey owner tag).2 := by
  cases h with
  | upgraded hupdate _ =>
      subst hupdate
      exact ⟨rfl, rfl, rfl⟩
  | @deployed _ _ _ _ _ change entry storage dep row hval hdata hdep hrow =>
      have hexecutable : instanceExecutable (contractDataData entry) =
          some (contractExecutableJson (.externalRef owner tag)) := by
        rw [instanceExecutable_contractDataData, hval]
      have hhash : extractWasmHash (contractDataData entry) = none := by
        rw [extractWasmHash, hexecutable]
        simp [contractExecutableJson]
      have href : externalRefFromInstance (contractDataData entry) =
          some ⟨Crates.scAddressStrkey owner, utf8OrInvalid tag⟩ := by
        rw [externalRefFromInstance, hexecutable]
        simp [contractExecutableJson, guard]
      simp only [contractDeployment, hdata, Option.bind_eq_bind, Option.bind_eq_some_iff,
        Option.guard_eq_some', Option.some.injEq] at hdep
      obtain ⟨_, -, _, rfl, _, -, _, -, rfl⟩ := hdep
      obtain ⟨-, -, hdecoded, howner, htag⟩ := deploymentRow_spec hrow
      simp only [hhash, href] at hdecoded howner htag
      exact ⟨(Except.ok.inj hdecoded).symm, howner, htag⟩

/-! ## One ledger -/

def ExecutableWrite.row (ledgerSequence : UInt32) (write : ExecutableWrite) :
    ContractExecutableRefRow :=
  ⟨(refKey write.owner write.tag).1, (refKey write.owner write.tag).2, write.hash,
    ledgerSequence.toNat⟩

omit [Crates] in
theorem length_hash_of_executableWrite {change : LedgerEntryChange} {write : ExecutableWrite}
    (h : change.executableWrite = some write) : write.hash.length = 32 := by
  have himage : ∀ data : LedgerEntryData, data.executableWrite = some write →
      write.hash.length = 32 := by
    intro data hdata
    cases data with
    | contractData entry =>
        obtain ⟨tag, -, hdata⟩ := Option.bind_eq_some_iff.mp hdata
        obtain ⟨hash, hhash, hwrite⟩ := Option.bind_eq_some_iff.mp hdata
        obtain rfl := Option.some.inj hwrite
        cases hval : entry.val with
        | bytes bytes =>
            rw [hval, ScVal.codeHash?] at hhash
            obtain ⟨hlength, heq⟩ := Option.ite_none_right_eq_some.mp hhash
            obtain rfl := Option.some.inj heq
            exact hlength
        | _ => rw [hval] at hhash; cases hhash
    | _ => cases hdata
  cases change with
  | created entry | updated entry | restored entry => exact himage entry.data h
  | removed key => cases h
  | state entry => cases h

theorem executableRefRow_target {write : ExecutableWrite} (hlength : write.hash.length = 32)
    (ledgerSequence : UInt32) :
    executableRefRow (write.target ledgerSequence) = some (write.row ledgerSequence) := by
  simp [executableRefRow, ExecutableWrite.target, hexDecode_hexEncode, hlength,
    ExecutableWrite.row, refKey]

section

variable (hbase64 : ∀ bytes, Crates.base64Decode (Crates.base64Encode bytes) = some bytes)

include hbase64

/-- What is extracted of a transaction: its writes, one for each tag of an owner. -/
theorem extractExecutableRefTargets_changes (txMeta : TransactionMeta) (transactionHash : String)
    (ledgerSequence : UInt32) (createdAt : ℤ) :
    extractExecutableRefTargets
        (extractLedgerEntryChanges txMeta transactionHash ledgerSequence createdAt) =
      (keepLastByKey (fun write : ExecutableWrite => (Crates.scAddressStrkey write.owner,
          utf8OrInvalid write.tag, ledgerSequence))
        ((ledgerChanges txMeta).filterMap LedgerEntryChange.executableWrite)).map
        (·.target ledgerSequence) := by
  have hread : (extractLedgerEntryChanges txMeta transactionHash ledgerSequence
      createdAt).filterMap executableRefTarget =
      ((ledgerChanges txMeta).filterMap LedgerEntryChange.executableWrite).map
        (·.target ledgerSequence) := by
    rw [List.map_filterMap]
    have hchanges := extractLedgerEntryChanges_forall₂ txMeta transactionHash ledgerSequence createdAt
    have hsame := forall₂_filterMap (P := fun extracted change => ∃ operationIndex index,
        extracted = extractSingleChange change operationIndex transactionHash ledgerSequence
          createdAt index) (R := Eq) (f := executableRefTarget)
      (g := fun change : LedgerEntryChange => change.executableWrite.map (·.target ledgerSequence))
      (by
        rintro extracted change ⟨operationIndex, index, rfl⟩
        rw [executableRefTarget_extractSingleChange hbase64]
        cases change.executableWrite with
        | none => exact .none
        | some write => exact .some rfl) hchanges
    rwa [List.forall₂_eq_eq_eq] at hsame
  rw [extractExecutableRefTargets, hread, keepLastByKey_map]
  rfl

/-- Under the key of a tag that is joined with no other, a ledger stages its last
write. -/
theorem filter_stageExecutableRefs {ledger : ContractLedger} {owner : ScAddress} {tag : Bytes}
    (hapart : Apart [ledger] owner tag) :
    ledger.stageExecutableRefs.filter (fun row =>
        row.ownerId = (refKey owner tag).1 ∧ row.tag = (refKey owner tag).2) =
      ((ledger.lastWrite owner tag).map (·.row ledger.ledgerSequence)).toList := by
  -- each transaction is collapsed first, and then the ledger
  let txKey (write : ExecutableWrite) :=
    (Crates.scAddressStrkey write.owner, utf8OrInvalid write.tag, ledger.ledgerSequence)
  let kept := ledger.txs.flatMap fun tx => keepLastByKey txKey
    ((ledgerChanges tx.txMeta).filterMap LedgerEntryChange.executableWrite)
  have hkept : ∀ write ∈ kept, write ∈ ledger.executableWrites := by
    intro write hwrite
    obtain ⟨tx, htx, hwrite⟩ := List.mem_flatMap.mp hwrite
    exact List.mem_flatMap.mpr ⟨tx, htx, mem_of_mem_keepLastByKey hwrite⟩
  have howned : ∀ write ∈ ledger.executableWrites, (write.owner = owner ∧ write.tag = tag ↔
      refKey write.owner write.tag = refKey owner tag) := by
    intro write hwrite
    constructor
    · rintro ⟨rfl, rfl⟩
      rfl
    · exact hapart write (by simpa using hwrite)
  have hlength : ∀ write ∈ ledger.executableWrites, write.hash.length = 32 := by
    intro write hwrite
    obtain ⟨tx, -, hwrite⟩ := List.mem_flatMap.mp hwrite
    obtain ⟨change, -, hchange⟩ := List.mem_filterMap.mp hwrite
    exact length_hash_of_executableWrite hchange
  have htargets : ledger.executableRefTargets = kept.map (·.target ledger.ledgerSequence) := by
    rw [ContractLedger.executableRefTargets, List.map_flatMap]
    apply List.flatMap_congr
    intro tx _
    exact extractExecutableRefTargets_changes hbase64 tx.txMeta tx.hash ledger.ledgerSequence
      ledger.createdAt
  have hrows : ledger.executableRefTargets.filterMap executableRefRow =
      kept.map (·.row ledger.ledgerSequence) := by
    rw [htargets, List.filterMap_map, ← List.filterMap_eq_map]
    apply List.filterMap_congr
    intro write hwrite
    exact executableRefRow_target (hlength write (hkept write hwrite)) ledger.ledgerSequence
  have hlast : (kept.filter fun write => write.owner = owner ∧ write.tag = tag).getLast? =
      ledger.lastWrite owner tag := by
    apply getLast?_filter_flatMap_keepLastByKey (k := txKey ⟨owner, tag, []⟩)
    intro tx htx write hwrite
    have hmem : write ∈ ledger.executableWrites := List.mem_flatMap.mpr ⟨tx, htx, hwrite⟩
    rw [decide_eq_true_iff]
    constructor
    · rintro ⟨rfl, rfl⟩
      rfl
    · intro hkey
      obtain ⟨hstrkey, htext, -⟩ := Prod.mk.inj hkey |>.imp_right Prod.mk.inj
      exact (howned write hmem).mpr (Prod.ext (congrArg Ids.contractId hstrkey) htext)
  have hkeep : (keepLastByKey (fun write : ExecutableWrite =>
      ((refKey write.owner write.tag).1, (refKey write.owner write.tag).2,
        (ledger.ledgerSequence.toNat : ℤ))) kept).filter
          (fun write => write.owner = owner ∧ write.tag = tag) =
      (kept.filter fun write => write.owner = owner ∧ write.tag = tag).getLast?.toList := by
    apply filter_keepLastByKey_of_iff
      (k := ((refKey owner tag).1, (refKey owner tag).2, (ledger.ledgerSequence.toNat : ℤ)))
    intro write hwrite
    rw [decide_eq_true_iff, howned write (hkept write hwrite), Prod.ext_iff]
    simp
  calc ledger.stageExecutableRefs.filter (fun row =>
        row.ownerId = (refKey owner tag).1 ∧ row.tag = (refKey owner tag).2)
      = ((keepLastByKey (fun write : ExecutableWrite =>
          ((refKey write.owner write.tag).1, (refKey write.owner write.tag).2,
            (ledger.ledgerSequence.toNat : ℤ))) kept).filter
          (fun write => write.owner = owner ∧ write.tag = tag)).map
            (·.row ledger.ledgerSequence) := by
        rw [ContractLedger.stageExecutableRefs, buildExecutableRefRows, hrows, keepLastByKey_map,
          List.filter_map]
        congr 1
        apply List.filter_congr
        intro write hwrite
        have hmem := hkept write (mem_of_mem_keepLastByKey hwrite)
        rw [Bool.eq_iff_iff, decide_eq_true_iff, howned write hmem, Prod.ext_iff]
        simp [ExecutableWrite.row]
    _ = _ := by
        rw [hkeep, hlast, Option.toList_map]

end

/-! ## A run of ledgers -/

omit [Crates] in
theorem lastWrite_append (ledgers : List ContractLedger) (ledger : ContractLedger)
    (owner : ScAddress) (tag : Bytes) :
    lastWrite (ledgers ++ [ledger]) owner tag =
      ((ledger.lastWrite owner tag).map (·.hash)).or (lastWrite ledgers owner tag) := by
  rw [lastWrite, List.flatMap_append, List.flatMap_singleton, List.filter_append,
    List.getLast?_append, Option.map_or]
  rfl

/-- The row of the last write of some ledger of the run. -/
def LastRow (ledgers : List ContractLedger) (owner : ScAddress) (tag : Bytes)
    (row : ContractExecutableRefRow) : Prop :=
  ∃ ledger ∈ ledgers, ∃ write, ledger.lastWrite owner tag = some write ∧
    row = write.row ledger.ledgerSequence

theorem lastRow_append {ledgers : List ContractLedger} {ledger : ContractLedger}
    {owner : ScAddress} {tag : Bytes} {row : ContractExecutableRefRow} :
    LastRow (ledgers ++ [ledger]) owner tag row ↔ LastRow ledgers owner tag row ∨
      ∃ write, ledger.lastWrite owner tag = some write ∧ row = write.row ledger.ledgerSequence := by
  simp [LastRow, or_and_right, exists_or]

/-- A run leaves the last hash in the newest of its rows. -/
theorem newest_lastRow {ledgers : List ContractLedger}
    (hledgers : ledgers.Pairwise (·.ledgerSequence < ·.ledgerSequence)) (owner : ScAddress)
    (tag : Bytes) :
    (lastWrite ledgers owner tag = none ∧ ∀ row, ¬ LastRow ledgers owner tag row) ∨
      ∃ newest, lastWrite ledgers owner tag = some newest.wasmHash ∧
        LastRow ledgers owner tag newest ∧
        ∀ row, LastRow ledgers owner tag row → row = newest ∨ row.ledger < newest.ledger := by
  induction ledgers using List.reverseRecOn with
  | nil => exact .inl ⟨rfl, fun row ⟨_, hmem, _⟩ => List.not_mem_nil hmem⟩
  | append_singleton ledgers ledger ih =>
      obtain ⟨hearlier, -, hlater⟩ := List.pairwise_append.mp hledgers
      have ih := ih hearlier
      rw [lastWrite_append]
      cases hlast : ledger.lastWrite owner tag with
      | none =>
          have hsame : ∀ row, LastRow (ledgers ++ [ledger]) owner tag row ↔
              LastRow ledgers owner tag row := by
            simp [lastRow_append, hlast]
          simpa only [hsame, Option.map_none, Option.none_or] using ih
      | some write =>
          refine .inr ⟨write.row ledger.ledgerSequence, rfl, ?_, ?_⟩
          · exact lastRow_append.mpr (.inr ⟨write, hlast, rfl⟩)
          · intro row hrow
            rcases lastRow_append.mp hrow with ⟨other, hother, otherWrite, -, rfl⟩ | ⟨_, hwrite, rfl⟩
            · have hlt := hlater other hother ledger List.mem_cons_self
              exact .inr (Int.ofNat_lt.mpr (UInt32.lt_iff_toNat_lt.mp hlt))
            · rw [hlast, Option.some.injEq] at hwrite
              exact .inl (by rw [hwrite])

theorem Apart.of_mem {ledgers : List ContractLedger} {owner : ScAddress} {tag : Bytes}
    (hapart : Apart ledgers owner tag) {ledger : ContractLedger} (hledger : ledger ∈ ledgers) :
    Apart [ledger] owner tag := by
  intro write hwrite
  rw [List.flatMap_singleton] at hwrite
  exact hapart write (List.mem_flatMap.mpr ⟨ledger, hledger, hwrite⟩)

section

variable (hbase64 : ∀ bytes, Crates.base64Decode (Crates.base64Encode bytes) = some bytes)

include hbase64

/-- The staged rows of a tag that is joined with no other are the last rows of the
ledgers. -/
theorem mem_stageExecutableRefs_iff {ledgers : List ContractLedger} {owner : ScAddress}
    {tag : Bytes} (hapart : Apart ledgers owner tag) (row : ContractExecutableRefRow) :
    row ∈ ledgers.flatMap ContractLedger.stageExecutableRefs ∧
        row.ownerId = (refKey owner tag).1 ∧ row.tag = (refKey owner tag).2 ↔
      LastRow ledgers owner tag row := by
  have hledger : ∀ ledger ∈ ledgers, (row ∈ ledger.stageExecutableRefs ∧
      row.ownerId = (refKey owner tag).1 ∧ row.tag = (refKey owner tag).2 ↔
      ∃ write, ledger.lastWrite owner tag = some write ∧
        row = write.row ledger.ledgerSequence) := by
    intro ledger hledger
    have hmem : row ∈ ledger.stageExecutableRefs.filter (fun row =>
        row.ownerId = (refKey owner tag).1 ∧ row.tag = (refKey owner tag).2) ↔ _ :=
      iff_of_eq (congrArg (row ∈ ·) (filter_stageExecutableRefs hbase64 (hapart.of_mem hledger)))
    rw [List.mem_filter, decide_eq_true_iff, Option.mem_toList] at hmem
    rw [hmem, Option.map_eq_some_iff]
    exact exists_congr fun write => and_congr_right fun _ => eq_comm
  rw [List.mem_flatMap, LastRow]
  constructor
  · rintro ⟨⟨ledger, hmem, hrow⟩, hkey⟩
    exact ⟨ledger, hmem, (hledger ledger hmem).mp ⟨hrow, hkey⟩⟩
  · rintro ⟨ledger, hmem, hwrite⟩
    obtain ⟨hrow, hkey⟩ := (hledger ledger hmem).mpr hwrite
    exact ⟨⟨ledger, hmem, hrow⟩, hkey⟩

/-- The stored rows of such a tag are last rows of ledgers, and one that is no older than
any of them is stored. -/
theorem StoredRefs.lastRow {ledgers : List ContractLedger} {refs : List ContractExecutableRefRow}
    (hrefs : StoredRefs ledgers refs) {owner : ScAddress} {tag : Bytes}
    (hapart : Apart ledgers owner tag) :
    (∀ row ∈ refs.filter fun row =>
        row.ownerId = (refKey owner tag).1 ∧ row.tag = (refKey owner tag).2,
      LastRow ledgers owner tag row) ∧
    ∀ row, LastRow ledgers owner tag row → ∃ held ∈ refs.filter fun row =>
        row.ownerId = (refKey owner tag).1 ∧ row.tag = (refKey owner tag).2,
      row.ledger ≤ held.ledger := by
  constructor
  · intro row hrow
    obtain ⟨hmem, hkey⟩ := List.mem_filter.mp hrow
    exact (mem_stageExecutableRefs_iff hbase64 hapart row).mp
      ⟨hrefs.mem row hmem, of_decide_eq_true hkey⟩
  · intro row hrow
    obtain ⟨hmem, howner, htag⟩ := (mem_stageExecutableRefs_iff hbase64 hapart row).mpr hrow
    obtain ⟨held, hheld, hkey, hle⟩ := hrefs.held row hmem
    obtain ⟨howner', htag'⟩ := Prod.mk.inj hkey
    exact ⟨held, List.mem_filter.mpr
      ⟨hheld, decide_eq_true ⟨howner'.trans howner, htag'.trans htag⟩⟩, hle⟩

/-- What is read under a tag that is joined with no other is the last hash written. -/
theorem referencedWasmHash_eq {ledgers : List ContractLedger}
    (hledgers : ledgers.Pairwise (·.ledgerSequence < ·.ledgerSequence))
    {refs : List ContractExecutableRefRow} (hrefs : StoredRefs ledgers refs) {owner : ScAddress}
    {tag : Bytes} (hapart : Apart ledgers owner tag) :
    referencedWasmHash refs (refKey owner tag).1 (refKey owner tag).2 =
      lastWrite ledgers owner tag := by
  obtain ⟨hstored, hheld⟩ := hrefs.lastRow hbase64 hapart
  rw [referencedWasmHash]
  rcases newest_lastRow hledgers owner tag with ⟨hnone, hrows⟩ | ⟨newest, hsome, hnewest, hold⟩
  · have hempty : refs.filter (fun row =>
        row.ownerId = (refKey owner tag).1 ∧ row.tag = (refKey owner tag).2) = [] :=
      List.eq_nil_iff_forall_not_mem.mpr fun row hrow => hrows row (hstored row hrow)
    rw [hempty, hnone]
    rfl
  · -- no stored row is newer than the newest, so the one that stands for it is it
    obtain ⟨held, hmem, hle⟩ := hheld newest hnewest
    obtain rfl : held = newest := (hold held (hstored held hmem)).resolve_right (not_lt.mpr hle)
    have hread : argmaxInt (·.ledger) (refs.filter fun row =>
        row.ownerId = (refKey owner tag).1 ∧ row.tag = (refKey owner tag).2) = some held :=
      argmaxInt_eq_of_dominates hmem fun row hrow => hold row (hstored row hrow)
    rw [hread, hsome, Option.map_some]

/-- A contract that references an owner's tag runs the last hash the owner wrote under
it, in every run that writes no other tag joined with it. -/
theorem fleetMember_runs_lastWrite {ledgers : List ContractLedger}
    (hledgers : ledgers.Pairwise (·.ledgerSequence < ·.ledgerSequence))
    {refs : List ContractExecutableRefRow} (hrefs : StoredRefs ledgers refs) {owner : ScAddress}
    {tag : Bytes} (hapart : Apart ledgers owner tag) {row : SorobanContractRow}
    (hrow : FleetMember owner tag row) :
    runsWasmHash refs row = lastWrite ledgers owner tag := by
  obtain ⟨hhash, howner, htag⟩ := hrow.reference
  rw [runsWasmHash, hhash, howner, htag, Option.none_or]
  exact referencedWasmHash_eq hbase64 hledgers hrefs hapart

end

/-- Tags that are valid texts are told apart, one owner's from another's by the
surrogates. -/
theorem apart_of_validText {ledgers : List ContractLedger} {owner : ScAddress} {tag : Bytes}
    (htag : ValidText tag)
    (hvalid : ∀ write ∈ ledgers.flatMap ContractLedger.executableWrites, ValidText write.tag)
    (howner : ∀ write ∈ ledgers.flatMap ContractLedger.executableWrites,
      Ids.contractId (Crates.scAddressStrkey write.owner) =
        Ids.contractId (Crates.scAddressStrkey owner) → write.owner = owner) :
    Apart ledgers owner tag := by
  intro write hwrite hkey
  obtain ⟨hid, htext⟩ := Prod.mk.inj hkey
  exact ⟨howner write hwrite hid, utf8OrInvalid_inj (hvalid write hwrite) htag htext⟩

end

/-! ## One owner, two tags -/

/-- The pinned contract points a tag at a hash. -/
def writesTag (tag hash : Bytes) : LedgerEntryChange :=
  .updated
    { lastModifiedLedgerSeq := 60000000
      data := .contractData
        { contract := .contract Crates.pinnedContract
          key := .executableTag tag
          durability := .persistent
          val := .bytes hash } }

/-- A ledger in which it points a first tag at a first hash, and then a second tag at
a second. -/
def writesTags (first second : Bytes) : ContractLedger :=
  contractLedger [⟨"aa", "", .v4 [] [⟨[writesTag first (List.replicate 32 1),
    writesTag second (List.replicate 32 2)], []⟩] [] none [] [], []⟩]

/-- The topics of an upgrade to what the pinned contract keeps under the tag of a text. -/
def refersTo (owner tag : String) : Json :=
  .arr [typedJson "sym" (.str "executable_update"), typedJson "vec" (.arr []),
    typedJson "vec" (.arr [typedJson "sym" (.str "ExternalRef"), typedJson "map" (.arr [
      .obj [("key", typedJson "sym" (.str "owner")), ("value", typedJson "address" (.str owner))],
      .obj [("key", typedJson "sym" (.str "tag")),
        ("value", typedJson "executable_tag" (.str tag))]])])]

theorem fleetMember_refersTo (tag : Bytes) :
    @FleetMember Crates.spelled (.contract Crates.pinnedContract) tag
      (@SorobanContractRow.upgrade Crates.spelled 60000001
        (.externalRef (ScAddress.spelled (.contract Crates.pinnedContract)) (utf8OrInvalid tag))
        storedContract) := by
  let _ : Crates := Crates.spelled
  have htopics : extractExecutableUpdate (refersTo
      (ScAddress.spelled (.contract Crates.pinnedContract)) (utf8OrInvalid tag)) =
      some (.externalRef (ScAddress.spelled (.contract Crates.pinnedContract))
        (utf8OrInvalid tag)) := by
    simp [extractExecutableUpdate, refersTo, valueStr, valueArray, externalRefUpdate, mapText,
      typedJson, guard]
  exact .upgraded rfl htopics

/-- Two tags that are no texts: the first is read as the second. -/
theorem runsWasmHash_invalidTags :
    let _ : Crates := Crates.spelled
    ¬ ∀ (ledgers : List ContractLedger) (refs : List ContractExecutableRefRow)
        (owner : ScAddress) (tag : Bytes) (row : SorobanContractRow),
      ledgers.Pairwise (·.ledgerSequence < ·.ledgerSequence) → StoredRefs ledgers refs →
        FleetMember owner tag row → runsWasmHash refs row = lastWrite ledgers owner tag := by
  intro _ hreads
  have hread := hreads [writesTags [0xFF] [0xFE]] (writesTags [0xFF] [0xFE]).stageExecutableRefs
    (.contract Crates.pinnedContract) [0xFF] _ (List.pairwise_singleton _ _)
    (by rw [StoredRefs, List.flatMap_singleton]; exact Replacing.merges_refl _)
    (fleetMember_refersTo [0xFF])
  revert hread
  decide

/-- Two tags that are texts; a later ledger points the first at a third hash, and a merge
has dropped its first row. -/
theorem runsWasmHash_validTags :
    let _ : Crates := Crates.spelled
    let ledgers := [writesTags [0x61] [0x62],
      { contractLedger [⟨"bb", "", .v4 [] [⟨[writesTag [0x61] (List.replicate 32 3)], []⟩] []
          none [] [], []⟩] with ledgerSequence := 60000001 }]
    let merged := (ledgers.flatMap ContractLedger.stageExecutableRefs).tail
    runsWasmHash merged (storedContract.upgrade 60000001
        (.externalRef (ScAddress.spelled (.contract Crates.pinnedContract))
          (utf8OrInvalid [0x61]))) =
      lastWrite ledgers (.contract Crates.pinnedContract) [0x61] := by
  intro _ ledgers merged
  have hmerged : StoredRefs ledgers merged := by
    refine ⟨fun row hrow => List.mem_of_mem_tail hrow, ?_⟩
    show ∀ row ∈ ledgers.flatMap ContractLedger.stageExecutableRefs, _
    decide
  have hwrites : ∀ write ∈ ledgers.flatMap ContractLedger.executableWrites,
      ValidText write.tag ∧ write.owner = .contract Crates.pinnedContract := by
    decide
  have hapart : Apart ledgers (.contract Crates.pinnedContract) [0x61] :=
    apart_of_validText (by decide) (fun write hwrite => (hwrites write hwrite).1)
      fun write hwrite _ => (hwrites write hwrite).2
  exact fleetMember_runs_lastWrite hexDecode_hexEncode (by decide) hmerged hapart
    (fleetMember_refersTo [0x61])

end SorobanExplorer
