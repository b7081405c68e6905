import SorobanExplorer.Persist.PoolState
import SorobanExplorer.Persist.SorobanPoolsSpec

/-!
# A router's pool at the close of a ledger

A write that left the reserves as they were is skipped, by the image before it in its
transaction.  So the last write that is not skipped still shows what the last write of the
ledger shows (`getLast?_stateRows`): every write after it was skipped, and a skipped write
shows the reserves of the one before it (`Linked`).
-/

namespace SorobanExplorer

namespace PoolState

open KeepLast KeyedFold Text

/-! ## The instance in a ledger -/

/-- How a change shows an instance: as it was, or as one of the writes. -/
inductive Shown
  | state
  | created
  | restored
  | updated
  deriving DecidableEq

structure InstanceChange where
  shown : Shown
  image : PoolInstanceState
  deriving DecidableEq

def shownOf (changeType : String) : Option Shown :=
  match changeType with
  | "state" => some .state
  | "created" => some .created
  | "restored" => some .restored
  | "updated" => some .updated
  | _ => none

/-- What a change shows of a pool's instance. -/
def instanceChange (pool : String) (change : ExtractedLedgerEntryChange) : Option InstanceChange :=
  match shownOf change.changeType, poolInstanceImage change with
  | some shown, some image => if image.pool = pool then some ⟨shown, image⟩ else none
  | _, _ => none

/-- What a transaction shows of a pool's instance, in order. -/
def txImages (pool : String) (changes : List ExtractedLedgerEntryChange) : List InstanceChange :=
  changes.filterMap (instanceChange pool)

/-- What is known of the instance after some changes. -/
def heldAfter (held : Option PoolInstanceState) (images : List InstanceChange) :
    Option PoolInstanceState :=
  (images.getLast?.map (·.image)).or held

/-- Whether a transaction may show these changes of an instance that was last seen as
`held`: a `state` image shows it as it was, an instance that is there is not created or
restored, and an update comes after an image of this transaction or a restore. -/
def ChainedTx : (held : Option PoolInstanceState) → (ready : Bool) → List InstanceChange → Prop
  | _, _, [] => True
  | held, ready, ⟨shown, image⟩ :: rest =>
      match shown with
      | .state => (∀ before ∈ held, image = before) ∧ ChainedTx (some image) true rest
      | .created => held = none ∧ ChainedTx (some image) false rest
      | .restored => held = none ∧ ChainedTx (some image) true rest
      | .updated => ready = true ∧ ChainedTx (some image) false rest

/-- The same for the transactions of a ledger. -/
def Chained : (held : Option PoolInstanceState) → List (List InstanceChange) → Prop
  | _, [] => True
  | held, images :: rest => ChainedTx held false images ∧ Chained (heldAfter held images) rest

/-- A write, with what was known of the instance before it. -/
structure Write where
  before : Option PoolInstanceState
  shown : Shown
  image : PoolInstanceState

/-- The write created or restored the instance, or changed its reserves. -/
def Write.Moves (write : Write) : Prop :=
  write.shown ≠ .updated ∨
    write.before.map PoolInstanceState.reserves ≠ some write.image.reserves

/-- The writes of a transaction. -/
def writesTx : (held : Option PoolInstanceState) → List InstanceChange → List Write
  | _, [] => []
  | held, ⟨shown, image⟩ :: rest =>
      if shown = .state then writesTx (some image) rest
      else ⟨held, shown, image⟩ :: writesTx (some image) rest

/-- The writes of a ledger, in order. -/
def writesFrom : (held : Option PoolInstanceState) → List (List InstanceChange) → List Write
  | _, [] => []
  | held, images :: rest => writesTx held images ++ writesFrom (heldAfter held images) rest

/-- The writes of a ledger to a pool's instance. -/
def writesOf (ledger : PoolLedger) (pool : String) : List Write :=
  writesFrom none (ledger.changes.map (txImages pool))

/-- Each write finds what the write before it left. -/
def Linked : (held : Option PoolInstanceState) → List Write → Prop
  | _, [] => True
  | held, write :: rest => (∀ before ∈ held, write.before = some before) ∧
      Linked (some write.image) rest

/-! ## Links -/

theorem linked_append {held : Option PoolInstanceState} {first second : List Write} :
    Linked held (first ++ second) ↔
      Linked held first ∧ Linked ((first.getLast?.map Write.image).or held) second := by
  induction first generalizing held with
  | nil => simp [Linked]
  | cons write rest ih =>
      rw [List.cons_append, Linked, Linked, ih, and_assoc]
      cases rest with
      | nil => rfl
      | cons next rest =>
          rw [List.getLast?_cons_cons, List.getLast?_cons, Option.map_some, Option.some_or,
            Option.some_or]

/-- A later start that knows no more. -/
theorem Linked.of_none {writes : List Write} {held : Option PoolInstanceState}
    (h : Linked held writes) : Linked none writes := by
  cases writes with
  | nil => trivial
  | cons write rest => exact ⟨nofun, h.2⟩

theorem linked_writesTx {held : Option PoolInstanceState} {ready : Bool}
    {images : List InstanceChange} (h : ChainedTx held ready images) :
    Linked held (writesTx held images) := by
  induction images generalizing held ready with
  | nil => trivial
  | cons change rest ih =>
      obtain ⟨shown, image⟩ := change
      cases shown with
      | state =>
          obtain ⟨hsame, hrest⟩ := h
          have ih := ih hrest
          show Linked held (writesTx (some image) rest)
          cases held with
          | none => exact ih.of_none
          | some before =>
              rw [hsame before rfl] at ih ⊢
              exact ih
      | created | restored | updated => exact ⟨fun before hbefore => hbefore, ih h.2⟩

theorem heldAfter_cons (held : Option PoolInstanceState) (change : InstanceChange)
    (rest : List InstanceChange) :
    heldAfter held (change :: rest) = heldAfter (some change.image) rest := by
  cases rest with
  | nil => rfl
  | cons next rest =>
      rw [heldAfter, heldAfter, List.getLast?_cons_cons, List.getLast?_cons, Option.map_some,
        Option.some_or, Option.some_or]

/-- What is known after a transaction is what its last write left, or what was known before. -/
theorem heldAfter_eq {held : Option PoolInstanceState} {ready : Bool}
    {images : List InstanceChange} (h : ChainedTx held ready images) :
    ∀ left ∈ ((writesTx held images).getLast?.map Write.image).or held,
      heldAfter held images = some left := by
  induction images generalizing held ready with
  | nil => exact fun left hleft => hleft
  | cons change rest ih =>
      obtain ⟨shown, image⟩ := change
      rw [heldAfter_cons]
      cases shown with
      | state =>
          -- a state image shows what was held
          obtain ⟨hsame, hrest⟩ := h
          intro left hleft
          refine ih hrest left ?_
          show left ∈ ((writesTx (some image) rest).getLast?.map Write.image).or (some image)
          change left ∈ ((writesTx (some image) rest).getLast?.map Write.image).or held at hleft
          cases hlast : (writesTx (some image) rest).getLast? with
          | none =>
              rw [hlast] at hleft
              rw [hsame left hleft]
              rfl
          | some write =>
              rw [hlast] at hleft
              exact hleft
      | created | restored | updated =>
          intro left hleft
          refine ih h.2 left ?_
          change left ∈ ((Write.mk held _ image :: writesTx (some image) rest).getLast?.map
            Write.image).or held at hleft
          rw [List.getLast?_cons] at hleft
          cases hlast : (writesTx (some image) rest).getLast? with
          | none =>
              rw [hlast] at hleft
              exact hleft
          | some write =>
              rw [hlast] at hleft
              exact hleft

theorem linked_writesFrom {held : Option PoolInstanceState} {txs : List (List InstanceChange)}
    (h : Chained held txs) : Linked held (writesFrom held txs) := by
  induction txs generalizing held with
  | nil => trivial
  | cons images rest ih =>
      obtain ⟨hhere, hrest⟩ := h
      refine linked_append.mpr ⟨linked_writesTx hhere, ?_⟩
      have hknown := heldAfter_eq hhere
      cases hleft : ((writesTx held images).getLast?.map Write.image).or held with
      | none => exact (ih hrest).of_none
      | some left =>
          rw [hleft] at hknown
          have ih := ih hrest
          rw [hknown left rfl] at ih ⊢
          exact ih

/-! ## Which writes the parser marks -/

/-- The writes of a transaction as the parser sees them: whether the reserves differ from
those of the image that waits for its write. -/
def markedTx : (held : Option PoolInstanceState) → (waiting : Option (List String)) →
    List InstanceChange → List (Write × Bool)
  | _, _, [] => []
  | held, waiting, ⟨shown, image⟩ :: rest =>
      if shown = .state then markedTx (some image) (some image.reserves) rest
      else (⟨held, shown, image⟩, waiting ≠ some image.reserves) ::
        markedTx (some image) none rest

def markedFrom : (held : Option PoolInstanceState) → List (List InstanceChange) →
    List (Write × Bool)
  | _, [] => []
  | held, images :: rest => markedTx held none images ++ markedFrom (heldAfter held images) rest

theorem map_fst_markedTx (held : Option PoolInstanceState) (waiting : Option (List String))
    (images : List InstanceChange) :
    (markedTx held waiting images).map Prod.fst = writesTx held images := by
  induction images generalizing held waiting with
  | nil => rfl
  | cons change rest ih =>
      obtain ⟨shown, image⟩ := change
      rw [markedTx, writesTx]
      split_ifs with hstate
      · exact ih _ _
      · rw [List.map_cons, ih]

theorem map_fst_markedFrom (held : Option PoolInstanceState) (txs : List (List InstanceChange)) :
    (markedFrom held txs).map Prod.fst = writesFrom held txs := by
  induction txs generalizing held with
  | nil => rfl
  | cons images rest ih => rw [markedFrom, writesFrom, List.map_append, map_fst_markedTx, ih]

theorem exists_moves_cons {held : Option PoolInstanceState} {shown : Shown}
    {image : PoolInstanceState} {rest : List InstanceChange} (hshown : shown ≠ .state)
    (hmoves : Write.Moves ⟨held, shown, image⟩) :
    ∃ write ∈ writesTx held (⟨shown, image⟩ :: rest), write.Moves := by
  rw [writesTx, if_neg hshown]
  exact ⟨_, List.mem_cons_self, hmoves⟩

/-- A write that is not marked moves nothing; one that is marked moves something, or comes
after a write of its transaction that does. -/
theorem marked_iff {held : Option PoolInstanceState} {ready : Bool}
    {waiting : Option (List String)} {images : List InstanceChange} {earlier : Prop}
    (h : ChainedTx held ready images)
    (hwaiting : waiting = none ∨ waiting = held.map PoolInstanceState.reserves)
    (hready : ready = true → waiting = held.map PoolInstanceState.reserves ∨ earlier) :
    ∀ mark ∈ markedTx held waiting images, (mark.2 = false → ¬ mark.1.Moves) ∧
      (mark.2 = true → earlier ∨ ∃ write ∈ writesTx held images, write.Moves) := by
  induction images generalizing held ready waiting earlier with
  | nil => exact fun mark hmark => absurd hmark List.not_mem_nil
  | cons change rest ih =>
      obtain ⟨shown, image⟩ := change
      cases shown with
      | state =>
          obtain ⟨-, hrest⟩ := h
          exact ih hrest (Or.inr rfl) fun _ => Or.inl rfl
      | created | restored =>
          obtain ⟨rfl, hrest⟩ := h
          have hnone : waiting = none := by simpa using hwaiting
          -- a creation or a restore moves by itself
          have hmoves : ∀ shown : Shown, shown ≠ .state → shown ≠ .updated →
              ∃ write ∈ writesTx none (⟨shown, image⟩ :: rest), write.Moves :=
            fun shown hwrite hfresh => exists_moves_cons hwrite (Or.inl hfresh)
          intro mark hmark
          rcases List.mem_cons.mp hmark with rfl | hlater
          · refine ⟨fun hfalse => ?_, fun _ => Or.inr (hmoves _ (by decide) (by decide))⟩
            simp [hnone] at hfalse
          · have hlater := @ih _ _ _ True hrest (Or.inl rfl) (fun _ => Or.inr trivial) mark hlater
            exact ⟨hlater.1, fun _ => Or.inr (hmoves _ (by decide) (by decide))⟩
      | updated =>
          obtain ⟨hisReady, hrest⟩ := h
          intro mark hmark
          rcases List.mem_cons.mp hmark with rfl | hlater
          · constructor
            · intro hfalse hmoves
              have hsame : waiting = some image.reserves := by simpa using hfalse
              rcases hmoves with hshown | hchanged
              · exact hshown rfl
              · -- what is waited for is what the writes before left
                rcases hwaiting with hnone | hheld
                · rw [hnone] at hsame
                  cases hsame
                · exact hchanged (hheld.symm.trans hsame)
            · intro htrue
              have hdiffers : waiting ≠ some image.reserves := by simpa using htrue
              rcases hready hisReady with hheld | hearlier
              · exact Or.inr (exists_moves_cons (by decide) (Or.inr (hheld ▸ hdiffers)))
              · exact Or.inl hearlier
          · have hlater := @ih _ _ _ earlier hrest (Or.inl rfl) nofun mark hlater
            refine ⟨hlater.1, fun htrue => (hlater.2 htrue).imp_right ?_⟩
            rintro ⟨write, hwrite, hmoves⟩
            exact ⟨write, List.mem_cons_of_mem _ hwrite, hmoves⟩

theorem Write.before_of_not_moves {write : Write} (h : ¬ write.Moves) :
    write.before.map PoolInstanceState.reserves = some write.image.reserves :=
  not_not.mp fun hchanged => h (Or.inr hchanged)

theorem marked_ledger {held : Option PoolInstanceState} {txs : List (List InstanceChange)}
    (h : Chained held txs) :
    ∀ mark ∈ markedFrom held txs, (mark.2 = false → ¬ mark.1.Moves) ∧
      (mark.2 = true → ∃ write ∈ writesFrom held txs, write.Moves) := by
  induction txs generalizing held with
  | nil => exact fun mark hmark => absurd hmark List.not_mem_nil
  | cons images rest ih =>
      obtain ⟨hhere, hrest⟩ := h
      intro mark hmark
      rcases List.mem_append.mp hmark with hmark | hmark
      · have hmarked := @marked_iff held false none images False hhere (Or.inl rfl) nofun mark hmark
        refine ⟨hmarked.1, fun htrue => ?_⟩
        obtain ⟨write, hwrite, hmoves⟩ := (hmarked.2 htrue).resolve_left id
        exact ⟨write, List.mem_append_left _ hwrite, hmoves⟩
      · have hmarked := ih hrest mark hmark
        refine ⟨hmarked.1, fun htrue => ?_⟩
        obtain ⟨write, hwrite, hmoves⟩ := hmarked.2 htrue
        exact ⟨write, List.mem_append_right _ hwrite, hmoves⟩

/-! ## The last write -/

/-- The last marked write shows the reserves of the last write. -/
theorem getLast?_marked {marks : List (Write × Bool)} (hlinked : Linked none (marks.map Prod.fst))
    (hskipped : ∀ mark ∈ marks, mark.2 = false →
      mark.1.before.map PoolInstanceState.reserves = some mark.1.image.reserves)
    (hmarked : ∃ mark ∈ marks, mark.2 = true) :
    (marks.filter (·.2)).getLast?.map (·.1.image.reserves) =
      marks.getLast?.map (·.1.image.reserves) := by
  induction marks using List.reverseRecOn with
  | nil => rfl
  | append_singleton marks mark ih =>
      rw [List.map_append, linked_append] at hlinked
      rw [List.getLast?_append, List.getLast?_singleton, Option.some_or, List.filter_append]
      cases hmark : mark.2 with
      | true =>
          rw [List.filter_cons_of_pos hmark, List.filter_nil, List.getLast?_append,
            List.getLast?_singleton, Option.some_or]
      | false =>
          -- The mark is on an earlier write, and the reserves are those of the one just before.
          have hearlier : ∃ mark ∈ marks, mark.2 = true := by
            obtain ⟨other, hother, htrue⟩ := hmarked
            rcases List.mem_append.mp hother with hother | hother
            · exact ⟨other, hother, htrue⟩
            · rw [List.mem_singleton.mp hother, hmark] at htrue
              cases htrue
          have ih := ih hlinked.1
            (fun other hother => hskipped other (List.mem_append_left _ hother)) hearlier
          have hbefore := hskipped mark (List.mem_append_right _ List.mem_cons_self) hmark
          rw [List.filter_cons_of_neg (by simp [hmark]), List.filter_nil, List.append_nil, ih]
          cases hlast : marks.getLast? with
          | none =>
              rw [List.getLast?_eq_none_iff.mp hlast] at hearlier
              obtain ⟨_, hnil, -⟩ := hearlier
              cases hnil
          | some last =>
              have hlink := hlinked.2.1
              rw [List.getLast?_map, hlast] at hlink
              rw [hlink last.1.image rfl] at hbefore
              exact hbefore

/-! ## What the parser extracts -/

theorem shownOf_of_image {change : ExtractedLedgerEntryChange} {image : PoolInstanceState}
    (h : poolInstanceImage change = some image) :
    ∃ shown, shownOf change.changeType = some shown ∧
      (shown = .state ↔ change.changeType = "state") ∧
      (shown ≠ .state → hasPostImage change = true) := by
  simp only [poolInstanceImage, Option.bind_eq_bind, Option.bind_eq_some_iff,
    Option.guard_eq_some', Prod.exists] at h
  obtain ⟨-, hkind, -⟩ := h
  rcases hkind with hwritten | hstate
  · have hpost := hwritten
    simp only [hasPostImage, Bool.or_eq_true, decide_eq_true_eq] at hwritten
    rcases hwritten with (hkind | hkind) | hkind
    · exact ⟨.created, by rw [hkind]; rfl, by rw [hkind]; decide, fun _ => hpost⟩
    · exact ⟨.updated, by rw [hkind]; rfl, by rw [hkind]; decide, fun _ => hpost⟩
    · exact ⟨.restored, by rw [hkind]; rfl, by rw [hkind]; decide, fun _ => hpost⟩
  · exact ⟨.state, by rw [hstate]; rfl, by rw [hstate]; decide, fun h => absurd rfl h⟩

/-- One pool's instances, whatever other pools the transaction shows. -/
theorem extractPoolInstancesFrom_marked (pool : String) (held : Option PoolInstanceState)
    (waiting : Table String (List String)) (changes : List ExtractedLedgerEntryChange) :
    ((extractPoolInstancesFrom waiting changes).filter (·.state.pool = pool)).map
        (fun inst => (inst.state, inst.reservesChanged)) =
      (markedTx held (waiting.lookup pool) (txImages pool changes)).map
        fun mark => (mark.1.image, mark.2) := by
  induction changes generalizing held waiting with
  | nil => rfl
  | cons change rest ih =>
      rw [extractPoolInstancesFrom]
      cases himage : poolInstanceImage change with
      | none =>
          have hskip : instanceChange pool change = none := by
            rw [instanceChange, himage]
            cases shownOf change.changeType <;> rfl
          rw [txImages, List.filterMap_cons_none hskip]
          exact ih held waiting
      | some image =>
          obtain ⟨shown, hshown, hstate, -⟩ := shownOf_of_image himage
          dsimp only
          by_cases hpool : image.pool = pool
          · have hread : instanceChange pool change = some ⟨shown, image⟩ := by
              rw [instanceChange, hshown, himage]
              exact if_pos hpool
            rw [txImages, List.filterMap_cons_some hread, markedTx]
            by_cases his : shown = .state
            · rw [if_pos (hstate.mp his), if_pos his, ih (some image), hpool, AList.lookup_insert]
              rfl
            · rw [if_neg fun hkind => his (hstate.mpr hkind), if_neg his,
                List.filter_cons_of_pos (by simpa using hpool), List.map_cons, List.map_cons,
                ih (some image), hpool, AList.lookup_erase]
              rfl
          · -- another pool's instance has a place of its own in the table
            have hskip : instanceChange pool change = none := by
              rw [instanceChange, hshown, himage]
              exact if_neg hpool
            rw [txImages, List.filterMap_cons_none hskip]
            split_ifs with hkind
            · rw [ih held, AList.lookup_insert_ne (Ne.symm hpool)]
              rfl
            · rw [List.filter_cons_of_neg (by simpa using hpool), ih held,
                AList.lookup_erase_ne (Ne.symm hpool)]
              rfl

/-- The same over the transactions of a ledger. -/
theorem poolInstances_marked (ledger : PoolLedger) (pool : String)
    (held : Option PoolInstanceState) :
    (ledger.poolInstances.filter (·.state.pool = pool)).map
        (fun inst => (inst.state, inst.reservesChanged)) =
      (markedFrom held (ledger.changes.map (txImages pool))).map
        fun mark => (mark.1.image, mark.2) := by
  rw [PoolLedger.poolInstances_eq]
  induction ledger.changes generalizing held with
  | nil => rfl
  | cons changes rest ih =>
      rw [List.flatMap_cons, List.filter_append, List.map_append, List.map_cons, markedFrom,
        List.map_append, ← ih]
      congr 1
      exact extractPoolInstancesFrom_marked pool held _ _

theorem mem_extractPoolInstancesFrom_image {waiting : Table String (List String)}
    {changes : List ExtractedLedgerEntryChange} {inst : ExtractedPoolInstance}
    (h : inst ∈ extractPoolInstancesFrom waiting changes) :
    ∃ change ∈ changes, poolInstanceImage change = some inst.state ∧
      inst.ledgerSequence = change.ledgerSequence := by
  induction changes generalizing waiting with
  | nil => exact absurd h List.not_mem_nil
  | cons change rest ih =>
      rw [extractPoolInstancesFrom] at h
      cases himage : poolInstanceImage change with
      | none =>
          rw [himage] at h
          exact (ih h).imp fun _ => And.imp_left (List.mem_cons_of_mem _)
      | some image =>
          rw [himage] at h
          dsimp only at h
          split_ifs at h with hstate
          · exact (ih h).imp fun _ => And.imp_left (List.mem_cons_of_mem _)
          · rcases List.mem_cons.mp h with rfl | h
            · exact ⟨change, List.mem_cons_self, himage, rfl⟩
            · exact (ih h).imp fun _ => And.imp_left (List.mem_cons_of_mem _)

/-! ## Rows -/

/-- The reserves an image shows, where they can be read. -/
def readReserves (image : PoolInstanceState) : Option (List ℤ) :=
  if image.reserves = [] then none else parseReserves image.reserves

section

variable [Crates]

/-- A contract that is a router's pool all through a ledger: its instance keeps declaring
one plane, and each transaction shows the instance as it found it. -/
structure RouterPool (ledger : PoolLedger) (pool plane : String) (poolId : Hash) : Prop where
  address : Ids.contractPayload pool = some poolId
  owners : ∀ change ∈ ledger.allChanges, ∀ owner ∈ changeOwner change,
    Ids.contractPayload owner = some poolId → owner = pool
  stamped : ∀ change ∈ ledger.allChanges, change.ledgerSequence = ledger.ledgerSequence
  plane : ∀ change ∈ ledger.allChanges, ∀ image ∈ poolInstanceImage change, image.pool = pool →
    image.plane = some plane
  chained : Chained none (ledger.changes.map (txImages pool))

/-- The contract has no entries in the layout of another family. -/
structure NoOtherFamily (ledger : PoolLedger) (poolId : Hash) : Prop where
  pair : ∀ write ∈ ledger.factoryPairs, Ids.contractPayload write.state.pair ≠ some poolId
  config : ∀ write ∈ ledger.configPools, Ids.contractPayload write.state.pool ≠ some poolId

/-- The row with the reserves of an image. -/
def reservesRow (ledger : PoolLedger) (plane : String) (poolId : Hash) (reserves : List ℤ) :
    PoolStateChangeRow :=
  ⟨poolId, ledger.ledgerSequence.toNat, reserves, Ids.contractId plane⟩

/-- The row that mirrors an image. -/
def instanceRow (ledger : PoolLedger) (plane : String) (poolId : Hash) (image : PoolInstanceState)
    (totalShares : ℤ) : PoolInstanceStateRow :=
  ⟨poolId, Ids.contractId plane, (image.tokenShare.map Ids.contractId).getD 0, totalShares,
    ledger.ledgerSequence.toNat⟩

variable {ledger : PoolLedger} {pool plane : String} {poolId : Hash}

namespace RouterPool

variable (h : RouterPool ledger pool plane poolId)

include h

/-- Every instance with the pool's id is the pool's. -/
theorem instance_of_payload {inst : ExtractedPoolInstance} (hinst : inst ∈ ledger.poolInstances)
    (hpayload : Ids.contractPayload inst.state.pool = some poolId) :
    inst.state.pool = pool ∧ inst.state.plane = some plane ∧
      inst.ledgerSequence = ledger.ledgerSequence := by
  rw [PoolLedger.poolInstances_eq] at hinst
  obtain ⟨changes, hchanges, hinst⟩ := List.mem_flatMap.mp hinst
  obtain ⟨change, hchange, himage, hsequence⟩ := mem_extractPoolInstancesFrom_image hinst
  have hall : change ∈ ledger.allChanges := PoolLedger.mem_allChanges hchanges hchange
  have howner : changeOwner change = some inst.state.pool := by
    have hread := himage
    simp only [poolInstanceImage, instanceStorage, Option.bind_eq_bind, Option.bind_eq_some_iff,
      Option.guard_eq_some', Option.pure_def, Option.some.injEq, Prod.exists,
      Prod.mk.injEq] at hread
    obtain ⟨-, -, owner, storage, ⟨-, -, -, -, _, howner, _, -, _, -, rfl, rfl⟩, hparse⟩ := hread
    rw [parsePoolInstance_pool hparse]
    exact howner
  have hpool := h.owners change hall _ howner hpayload
  exact ⟨hpool, h.plane change hall _ himage hpool, hsequence.trans (h.stamped change hall)⟩

theorem routerStateRow_eq {inst : ExtractedPoolInstance} (hinst : inst ∈ ledger.poolInstances)
    (hpool : inst.state.pool = pool) :
    routerStateRow inst = if inst.reservesChanged then
      (readReserves inst.state).map (reservesRow ledger plane poolId) else none := by
  obtain ⟨-, hplane, hsequence⟩ := h.instance_of_payload hinst (by rw [hpool, h.address])
  unfold routerStateRow readReserves
  rw [hpool, h.address, hplane, hsequence]
  by_cases hchanged : inst.reservesChanged = true
  · by_cases hempty : inst.state.reserves = []
    · simp [hempty]
    · simp only [hchanged, hempty, ne_eq, not_false_iff, and_self, guard_true, if_true, if_false]
      cases parseReserves inst.state.reserves <;> rfl
  · simp [hchanged]

theorem routerInstanceRow_eq {inst : ExtractedPoolInstance} (hinst : inst ∈ ledger.poolInstances)
    (hpool : inst.state.pool = pool) :
    routerInstanceRow inst =
      (parseSupply inst.state.totalShares).map (instanceRow ledger plane poolId inst.state) := by
  obtain ⟨-, hplane, hsequence⟩ := h.instance_of_payload hinst (by rw [hpool, h.address])
  unfold routerInstanceRow
  rw [hpool, h.address, hplane, hsequence]
  cases parseSupply inst.state.totalShares <;> rfl

end RouterPool

omit [Crates] in
/-- Of rows collapsed to the last of each key, those of one pool: the last of its own
writes, when all of them have one key and no other write has the pool's id. -/
theorem filter_keepLast_append {ρ κ α β γ : Type} [DecidableEq κ] {key : ρ → κ} {idOf : ρ → Hash}
    {k : κ} {routers : List α} {pairs : List β} {configs : List γ} {own : α → Bool}
    {routerRow : α → Option ρ} {pairRow : β → Option ρ} {configRow : γ → Option ρ}
    (hkey : ∀ row, key row = k → idOf row = poolId)
    (hrouters : ∀ inst ∈ routers, ∀ row ∈ routerRow inst,
      (idOf row = poolId ↔ own inst = true) ∧ (idOf row = poolId → key row = k))
    (hpairs : ∀ write ∈ pairs, ∀ row ∈ pairRow write, idOf row ≠ poolId)
    (hconfigs : ∀ write ∈ configs, ∀ row ∈ configRow write, idOf row ≠ poolId) :
    (keepLastByKey key (routers.filterMap routerRow ++ pairs.filterMap pairRow ++
        configs.filterMap configRow)).filter (idOf · = poolId) =
      ((routers.filter own).filterMap routerRow).getLast?.toList := by
  -- of rows with other ids nothing is left
  have hothers : ∀ {δ : Type} {writes : List δ} {row : δ → Option ρ},
      (∀ write ∈ writes, ∀ r ∈ row write, idOf r ≠ poolId) →
      (writes.filterMap row).filter (idOf · = poolId) = [] := by
    intro δ writes row hne
    rw [List.filter_eq_nil_iff]
    intro r hr
    obtain ⟨write, hwrite, hrow⟩ := List.mem_filterMap.mp hr
    simpa using hne write hwrite r hrow
  have hown : (routers.filterMap routerRow).filter (idOf · = poolId) =
      (routers.filter own).filterMap routerRow := by
    rw [List.filter_filterMap, List.filterMap_filter]
    apply List.filterMap_congr
    intro inst hinst
    cases hrow : routerRow inst with
    | none => simp
    | some row =>
        have hiff := (hrouters inst hinst row hrow).1
        by_cases hid : idOf row = poolId
        · simp [hid, hiff.mp hid]
        · have hnot : own inst = false := by
            rw [← Bool.not_eq_true]
            exact fun htrue => hid (hiff.mpr htrue)
          simp [hid, hnot]
  rw [filter_keepLastByKey_of_iff (k := k), List.filter_append, List.filter_append, hown,
    hothers hpairs, hothers hconfigs, List.append_nil, List.append_nil]
  intro row hrow
  rw [decide_eq_true_iff]
  refine ⟨fun hid => ?_, hkey row⟩
  rcases List.mem_append.mp hrow with hrow | hrow
  · rcases List.mem_append.mp hrow with hrow | hrow
    · obtain ⟨inst, hinst, hrow⟩ := List.mem_filterMap.mp hrow
      exact (hrouters inst hinst row hrow).2 hid
    · obtain ⟨write, hwrite, hrow⟩ := List.mem_filterMap.mp hrow
      exact absurd hid (hpairs write hwrite row hrow)
  · obtain ⟨write, hwrite, hrow⟩ := List.mem_filterMap.mp hrow
    exact absurd hid (hconfigs write hwrite row hrow)

namespace RouterPool

variable (h : RouterPool ledger pool plane poolId)

include h

theorem filter_poolStateChangeRows (hfamily : NoOtherFamily ledger poolId) :
    ledger.poolStateChangeRows.filter (·.poolId = poolId) =
      ((ledger.poolInstances.filter (·.state.pool = pool)).filterMap
        routerStateRow).getLast?.toList := by
  refine filter_keepLast_append (k := (poolId, Ids.contractId plane,
    (ledger.ledgerSequence.toNat : ℤ))) ?_ ?_ ?_ ?_
  · intro row hrow
    exact congrArg Prod.fst hrow
  · intro inst hinst row hrow
    have hpayload : Ids.contractPayload inst.state.pool = some row.poolId := by
      simp only [routerStateRow, Option.bind_eq_bind, Option.mem_def, Option.bind_eq_some_iff,
        Option.pure_def, Option.some.injEq] at hrow
      obtain ⟨_, -, id, hid, _, -, _, -, rfl⟩ := hrow
      exact hid
    constructor
    · rw [decide_eq_true_iff]
      constructor
      · intro hid
        exact (h.instance_of_payload hinst (hpayload.trans (congrArg some hid))).1
      · intro hpool
        rw [hpool, h.address] at hpayload
        exact (Option.some.inj hpayload).symm
    · intro hid
      -- two pools of one payload are one pool
      have hpool := (h.instance_of_payload hinst (hpayload.trans (congrArg some hid))).1
      rw [Option.mem_def, h.routerStateRow_eq hinst hpool, Option.ite_none_right_eq_some] at hrow
      obtain ⟨-, hrow⟩ := hrow
      obtain ⟨reserves, -, rfl⟩ := Option.map_eq_some_iff.mp hrow
      rfl
  · intro write hwrite row hrow hid
    refine hfamily.pair write hwrite ?_
    simp only [pairStateRow, Option.bind_eq_bind, Option.mem_def, Option.bind_eq_some_iff,
      Option.pure_def, Option.some.injEq, Prod.exists] at hrow
    obtain ⟨id, hpayload, _, _, -, _, -, rfl⟩ := hrow
    rw [hpayload, ← hid]
  · intro write hwrite row hrow hid
    refine hfamily.config write hwrite ?_
    simp only [configStateRow, Option.bind_eq_bind, Option.mem_def, Option.bind_eq_some_iff,
      Option.pure_def, Option.some.injEq, Prod.exists] at hrow
    obtain ⟨id, hpayload, _, _, -, _, -, rfl⟩ := hrow
    rw [hpayload, ← hid]

theorem filter_poolInstanceStateRows (hfamily : NoOtherFamily ledger poolId) :
    ledger.poolInstanceStateRows.filter (·.poolId = poolId) =
      ((ledger.poolInstances.filter (·.state.pool = pool)).filterMap
        routerInstanceRow).getLast?.toList := by
  refine filter_keepLast_append (k := (poolId, (ledger.ledgerSequence.toNat : ℤ))) ?_ ?_ ?_ ?_
  · intro row hrow
    exact congrArg Prod.fst hrow
  · intro inst hinst row hrow
    have hpayload : Ids.contractPayload inst.state.pool = some row.poolId := by
      simp only [routerInstanceRow, Option.bind_eq_bind, Option.mem_def, Option.bind_eq_some_iff,
        Option.pure_def, Option.some.injEq] at hrow
      obtain ⟨id, hid, _, -, _, -, rfl⟩ := hrow
      exact hid
    constructor
    · rw [decide_eq_true_iff]
      constructor
      · intro hid
        exact (h.instance_of_payload hinst (hpayload.trans (congrArg some hid))).1
      · intro hpool
        rw [hpool, h.address] at hpayload
        exact (Option.some.inj hpayload).symm
    · intro hid
      -- two pools of one payload are one pool
      have hpool := (h.instance_of_payload hinst (hpayload.trans (congrArg some hid))).1
      rw [Option.mem_def, h.routerInstanceRow_eq hinst hpool] at hrow
      obtain ⟨shares, -, rfl⟩ := Option.map_eq_some_iff.mp hrow
      rfl
  · intro write hwrite row hrow hid
    refine hfamily.pair write hwrite ?_
    simp only [pairInstanceRow, Option.bind_eq_bind, Option.mem_def, Option.bind_eq_some_iff,
      Option.pure_def, Option.some.injEq] at hrow
    obtain ⟨id, hpayload, _, -, rfl⟩ := hrow
    rw [hpayload, ← hid]
  · intro write hwrite row hrow hid
    refine hfamily.config write hwrite ?_
    simp only [configInstanceRow, Option.bind_eq_bind, Option.mem_def, Option.bind_eq_some_iff,
      Option.pure_def, Option.some.injEq] at hrow
    obtain ⟨id, hpayload, _, -, _, -, rfl⟩ := hrow
    rw [hpayload, ← hid]

end RouterPool

omit [Crates] in
theorem getLast?_filterMap {α β : Type} {f : α → Option β} {l : List α} {a : α} {b : β}
    (hlast : l.getLast? = some a) (hread : f a = some b) : (l.filterMap f).getLast? = some b := by
  obtain ⟨before, rfl⟩ := List.getLast?_eq_some_iff.mp hlast
  rw [List.filterMap_append, List.filterMap_cons_some hread, List.filterMap_nil,
    List.getLast?_append, List.getLast?_singleton, Option.some_or]

section

variable (h : RouterPool ledger pool plane poolId)

include h

/-- The reserve rows, before they are collapsed, by the marks on the pool's writes. -/
theorem stateRows_marked : (ledger.poolInstances.filter (·.state.pool = pool)).filterMap
      routerStateRow =
    (((markedFrom none (ledger.changes.map (txImages pool))).filter (·.2)).map
      (·.1.image)).filterMap fun image => (readReserves image).map (reservesRow ledger plane poolId) := by
  have hrows : (ledger.poolInstances.filter (·.state.pool = pool)).filterMap routerStateRow =
      ((ledger.poolInstances.filter (·.state.pool = pool)).map
        (fun inst => (inst.state, inst.reservesChanged))).filterMap fun read =>
          if read.2 then (readReserves read.1).map (reservesRow ledger plane poolId) else none := by
    rw [List.filterMap_map]
    apply List.filterMap_congr
    intro inst hinst
    obtain ⟨hinst, hpool⟩ := List.mem_filter.mp hinst
    exact h.routerStateRow_eq hinst (of_decide_eq_true hpool)
  rw [hrows, poolInstances_marked ledger pool none, List.filterMap_map, List.filterMap_map,
    List.filterMap_filter]
  apply List.filterMap_congr
  intro mark _
  rfl

/-- The mirror rows, before they are collapsed, by the pool's writes. -/
theorem instanceRows_written : (ledger.poolInstances.filter (·.state.pool = pool)).filterMap
      routerInstanceRow =
    (writesOf ledger pool).filterMap fun write =>
      (parseSupply write.image.totalShares).map (instanceRow ledger plane poolId write.image) := by
  have hrows : (ledger.poolInstances.filter (·.state.pool = pool)).filterMap routerInstanceRow =
      ((ledger.poolInstances.filter (·.state.pool = pool)).map
        (fun inst => (inst.state, inst.reservesChanged))).filterMap fun read =>
          (parseSupply read.1.totalShares).map (instanceRow ledger plane poolId read.1) := by
    rw [List.filterMap_map]
    apply List.filterMap_congr
    intro inst hinst
    obtain ⟨hinst, hpool⟩ := List.mem_filter.mp hinst
    exact h.routerInstanceRow_eq hinst (of_decide_eq_true hpool)
  rw [hrows, poolInstances_marked ledger pool none, List.filterMap_map, writesOf,
    ← map_fst_markedFrom, List.filterMap_map]
  rfl

end

/-! ## The close of a ledger -/

/-- The rows of a pool at the close of a ledger: its reserves after the last write, if some
write of the ledger was a `move`, and what its instance says after the last write. -/
structure AtClose (move : Write → Prop) (ledger : PoolLedger) (pool plane : String)
    (poolId : Hash) : Prop where
  moved : ∀ last ∈ (writesOf ledger pool).getLast?, ∀ reserves ∈ readReserves last.image,
    (∃ write ∈ writesOf ledger pool, move write) →
      ledger.poolStateChangeRows.filter (·.poolId = poolId) =
        [reservesRow ledger plane poolId reserves]
  unmoved : (∀ write ∈ writesOf ledger pool, ¬ move write) →
    ledger.poolStateChangeRows.filter (·.poolId = poolId) = []
  mirrored : ∀ last ∈ (writesOf ledger pool).getLast?,
    ∀ shares ∈ parseSupply last.image.totalShares,
      ledger.poolInstanceStateRows.filter (·.poolId = poolId) =
        [instanceRow ledger plane poolId last.image shares]
  unwritten : writesOf ledger pool = [] →
    ledger.poolInstanceStateRows.filter (·.poolId = poolId) = []
  stateOfWrite : ∀ row ∈ ledger.poolStateChangeRows.filter (·.poolId = poolId),
    ∃ write ∈ writesOf ledger pool, readReserves write.image = some row.reserves
  instanceOfWrite : ∀ row ∈ ledger.poolInstanceStateRows.filter (·.poolId = poolId),
    ∃ write ∈ writesOf ledger pool, ∃ shares ∈ parseSupply write.image.totalShares,
      row = instanceRow ledger plane poolId write.image shares

/-- **The rows of a router's pool at ledger close.** -/
theorem poolState_atClose (h : RouterPool ledger pool plane poolId)
    (hfamily : NoOtherFamily ledger poolId) :
    AtClose Write.Moves ledger pool plane poolId := by
  set marks := markedFrom none (ledger.changes.map (txImages pool)) with hmarks
  have hwrites : marks.map Prod.fst = writesOf ledger pool := map_fst_markedFrom _ _
  have hledger := marked_ledger h.chained
  have hstate := h.filter_poolStateChangeRows hfamily
  have hinstance := h.filter_poolInstanceStateRows hfamily
  rw [stateRows_marked h, ← hmarks] at hstate
  rw [instanceRows_written h] at hinstance
  constructor
  case moved =>
    intro last hlast reserves hreserves hmoves
    have hmarked : ∃ mark ∈ marks, mark.2 = true := by
      obtain ⟨write, hwrite, hmoves⟩ := hmoves
      rw [← hwrites] at hwrite
      obtain ⟨mark, hmark, rfl⟩ := List.mem_map.mp hwrite
      refine ⟨mark, hmark, ?_⟩
      by_contra hfalse
      exact (hledger mark hmark).1 (Bool.not_eq_true _ ▸ hfalse) hmoves
    have hlinked : Linked none (marks.map Prod.fst) := by
      rw [hwrites]
      exact linked_writesFrom h.chained
    -- Past the last marked write nothing moved, so its reserves are those of the last write.
    have hsame := getLast?_marked hlinked (fun mark hmark hfalse =>
      Write.before_of_not_moves ((hledger mark hmark).1 hfalse)) hmarked
    have hlastMark : marks.getLast?.map (·.1.image.reserves) = some last.image.reserves := by
      rw [← hwrites, List.getLast?_map] at hlast
      obtain ⟨mark, hmark, rfl⟩ := Option.map_eq_some_iff.mp hlast
      rw [hmark]
      rfl
    rw [hlastMark] at hsame
    obtain ⟨shown, hshown, heq⟩ := Option.map_eq_some_iff.mp hsame
    have hread : readReserves shown.1.image = some reserves := by
      rw [readReserves, heq]
      exact hreserves
    rw [hstate, getLast?_filterMap (a := shown.1.image) (b := reservesRow ledger plane poolId reserves)]
    · rfl
    · rw [List.getLast?_map, hshown]
      rfl
    · rw [hread]
      rfl
  case unmoved =>
    intro hnone
    have hnoMark : marks.filter (·.2) = [] := by
      rw [List.filter_eq_nil_iff]
      intro mark hmark htrue
      obtain ⟨write, hwrite, hmoves⟩ := (hledger mark hmark).2 htrue
      exact hnone write hwrite hmoves
    rw [hstate, hnoMark]
    rfl
  case mirrored =>
    intro last hlast shares hshares
    rw [hinstance, getLast?_filterMap (b := instanceRow ledger plane poolId last.image shares) hlast]
    · rfl
    · rw [hshares]
      rfl
  case unwritten =>
    intro hnil
    rw [hinstance, hnil]
    rfl
  case stateOfWrite =>
    intro row hrow
    rw [hstate, Option.mem_toList] at hrow
    obtain ⟨image, himage, hread⟩ := List.mem_filterMap.mp (List.mem_of_getLast? hrow)
    obtain ⟨mark, hmark, rfl⟩ := List.mem_map.mp himage
    obtain ⟨reserves, hreserves, rfl⟩ := Option.map_eq_some_iff.mp hread
    refine ⟨mark.1, ?_, hreserves⟩
    rw [← hwrites]
    exact List.mem_map_of_mem (List.mem_filter.mp hmark).1
  case instanceOfWrite =>
    intro row hrow
    rw [hinstance, Option.mem_toList] at hrow
    obtain ⟨write, hwrite, hread⟩ := List.mem_filterMap.mp (List.mem_of_getLast? hrow)
    obtain ⟨shares, hshares, rfl⟩ := Option.map_eq_some_iff.mp hread
    exact ⟨write, hwrite, shares, hshares, rfl⟩

end

/-! ## Ledgers with one pool -/

private def poolEntry (name : String) (value : Json) : Json :=
  entryJson (typedJson "vec" (.arr [symJson name])) value

/-- An instance of the pool with two reserves and a count of shares. -/
private def poolStorage (reserveA reserveB totalShares : String) : List Json :=
  [poolEntry "Plane" (addressJson pinnedFactory),
    poolEntry "ReserveA" (typedJson "u128" (.str reserveA)),
    poolEntry "ReserveB" (typedJson "u128" (.str reserveB)),
    poolEntry "TotalShares" (typedJson "u128" (.str totalShares))]

private def poolChange (changeType : String) (entries : List Json) : ExtractedLedgerEntryChange :=
  { createdInstance pinnedPool (.arr entries) with changeType }

private def poolLedger (changes : List (List ExtractedLedgerEntryChange)) : PoolLedger where
  ledgerSequence := 64030567
  events := []
  changes
  sacMap := ∅

private def imageOf (reserveA reserveB totalShares : String) : PoolInstanceState where
  pool := pinnedPool
  tokenShare := none
  totalShares := some totalShares
  plane := some pinnedFactory
  router := none
  reserves := [reserveA, reserveB]

/-- A trade, and a call that leaves the reserves alone. -/
private def tradedLedger : PoolLedger := poolLedger
  [[poolChange "state" (poolStorage "5" "5" "9"), poolChange "updated" (poolStorage "7" "4" "9")],
    [poolChange "state" (poolStorage "7" "4" "9"), poolChange "updated" (poolStorage "7" "4" "8")]]

private theorem txImages_tradedLedger : tradedLedger.changes.map (txImages pinnedPool) =
    [[⟨.state, imageOf "5" "5" "9"⟩, ⟨.updated, imageOf "7" "4" "9"⟩],
      [⟨.state, imageOf "7" "4" "9"⟩, ⟨.updated, imageOf "7" "4" "8"⟩]] := by
  decide

private theorem routerPool_tradedLedger :
    let _ : Crates := Crates.pinned
    RouterPool tradedLedger pinnedPool pinnedFactory Crates.pinnedUsdc := by
  intro _
  refine ⟨by decide, by decide, by decide, by decide, ?_⟩
  rw [txImages_tradedLedger]
  refine ⟨⟨nofun, rfl, trivial⟩, ⟨?_, rfl, trivial⟩, trivial⟩
  exact fun before hbefore => Option.some.inj hbefore

theorem configPools_eq_nil {ledger : PoolLedger}
    (h : ∀ changes ∈ ledger.changes, changes.filterMap configPoolUpdate = []) :
    ledger.configPools = [] := by
  rw [PoolLedger.configPools_eq, List.flatMap_eq_nil_iff]
  intro changes hchanges
  rw [extractConfigPools, h changes hchanges]
  show ((pairs ∅).mergeSort _).filterMap _ = []
  simp [pairs]

private theorem noOtherFamily_tradedLedger :
    let _ : Crates := Crates.pinned
    NoOtherFamily tradedLedger Crates.pinnedUsdc := by
  intro _
  have hnone : tradedLedger.configPools = [] := configPools_eq_nil (by decide)
  constructor
  · rw [PoolLedger.factoryPairs_eq]
    decide
  · rw [hnone]
    exact nofun

/-- The reserves of the trade, and the shares of the call after it. -/
theorem poolState_atClose_traded :
    let _ : Crates := Crates.pinned
    tradedLedger.poolStateChangeRows.filter (·.poolId = Crates.pinnedUsdc) =
        [reservesRow tradedLedger pinnedFactory Crates.pinnedUsdc [7, 4]] ∧
      tradedLedger.poolInstanceStateRows.filter (·.poolId = Crates.pinnedUsdc) =
        [instanceRow tradedLedger pinnedFactory Crates.pinnedUsdc (imageOf "7" "4" "8") 8] := by
  intro _
  have hclose := poolState_atClose routerPool_tradedLedger noOtherFamily_tradedLedger
  have hwrites : writesOf tradedLedger pinnedPool =
      [⟨some (imageOf "5" "5" "9"), .updated, imageOf "7" "4" "9"⟩,
        ⟨some (imageOf "7" "4" "9"), .updated, imageOf "7" "4" "8"⟩] := by
    rw [writesOf, txImages_tradedLedger]
    rfl
  constructor
  · refine hclose.moved ⟨some (imageOf "7" "4" "9"), .updated, imageOf "7" "4" "8"⟩ ?_ [7, 4] ?_ ?_
    · rw [hwrites]
      rfl
    · decide
    · rw [hwrites]
      exact ⟨_, List.mem_cons_self, Or.inr (by decide)⟩
  · refine hclose.mirrored ⟨some (imageOf "7" "4" "9"), .updated, imageOf "7" "4" "8"⟩ ?_ 8 ?_
    · rw [hwrites]
      rfl
    · decide

/-- The write created the instance, or changed its reserves. -/
def Write.Changes (write : Write) : Prop :=
  write.shown = .created ∨ ∃ before ∈ write.before, before.reserves ≠ write.image.reserves

/-- A pool that was archived is restored as it was. -/
private def restoredLedger : PoolLedger := poolLedger
  [[poolChange "restored" (poolStorage "7" "4" "9")]]

private theorem txImages_restoredLedger : restoredLedger.changes.map (txImages pinnedPool) =
    [[⟨.restored, imageOf "7" "4" "9"⟩]] := by
  decide

/-- A call writes more shares than the row's column holds. -/
private def overflowLedger : PoolLedger := poolLedger
  [[poolChange "state" (poolStorage "5" "5" "9"), poolChange "updated" (poolStorage "7" "4" "9")],
    [poolChange "state" (poolStorage "7" "4" "9"),
      poolChange "updated" (poolStorage "7" "4" "170141183460469231731687303715884105728")]]

private theorem txImages_overflowLedger : overflowLedger.changes.map (txImages pinnedPool) =
    [[⟨.state, imageOf "5" "5" "9"⟩, ⟨.updated, imageOf "7" "4" "9"⟩],
      [⟨.state, imageOf "7" "4" "9"⟩,
        ⟨.updated, imageOf "7" "4" "170141183460469231731687303715884105728"⟩]] := by
  decide

/-- An instance in the layouts of two families. -/
private def pairStorage (reserveA reserveB : String) : List Json :=
  poolStorage reserveA reserveB "9" ++
    [entryJson (typedJson "u32" (.num 0)) (addressJson pinnedFactory),
      entryJson (typedJson "u32" (.num 1)) (addressJson pinnedPool),
      entryJson (typedJson "u32" (.num 2)) (typedJson "i128" (.str reserveA)),
      entryJson (typedJson "u32" (.num 3)) (typedJson "i128" (.str reserveB)),
      entryJson (typedJson "u32" (.num 4)) (addressJson pinnedFactory)]

private def twoFamiliesLedger : PoolLedger := poolLedger
  [[poolChange "state" (pairStorage "5" "5"), poolChange "updated" (pairStorage "7" "4")]]

private theorem txImages_twoFamiliesLedger : twoFamiliesLedger.changes.map (txImages pinnedPool) =
    [[⟨.state, imageOf "5" "5" "9"⟩, ⟨.updated, imageOf "7" "4" "9"⟩]] := by
  decide

/-- A restore stages a row although it changes no reserves; shares that cannot be read leave
the row of an earlier write; a pool in the layouts of two families has two rows. -/
theorem not_atClose_restored :
    let _ : Crates := Crates.pinned
    (RouterPool restoredLedger pinnedPool pinnedFactory Crates.pinnedUsdc ∧
      NoOtherFamily restoredLedger Crates.pinnedUsdc ∧
      ¬ AtClose Write.Changes restoredLedger pinnedPool pinnedFactory Crates.pinnedUsdc) ∧
    (RouterPool overflowLedger pinnedPool pinnedFactory Crates.pinnedUsdc ∧
      NoOtherFamily overflowLedger Crates.pinnedUsdc ∧
      (writesOf overflowLedger pinnedPool).getLast?.bind (·.image.totalShares) =
        some "170141183460469231731687303715884105728" ∧
      overflowLedger.poolInstanceStateRows.map (·.totalShares) = [9]) ∧
    (RouterPool twoFamiliesLedger pinnedPool pinnedFactory Crates.pinnedUsdc ∧
      (twoFamiliesLedger.poolStateChangeRows.filter (·.poolId = Crates.pinnedUsdc)).length = 2) := by
  intro _
  have hrestored : restoredLedger.configPools = [] := configPools_eq_nil (by decide)
  have hoverflow : overflowLedger.configPools = [] := configPools_eq_nil (by decide)
  have htwo : twoFamiliesLedger.configPools = [] := configPools_eq_nil (by decide)
  refine ⟨⟨?_, ?_, fun hclose => ?_⟩, ⟨?_, ?_, ?_, ?_⟩, ?_, ?_⟩
  · refine ⟨by decide, by decide, by decide, by decide, ?_⟩
    rw [txImages_restoredLedger]
    exact ⟨⟨rfl, trivial⟩, trivial⟩
  · constructor
    · rw [PoolLedger.factoryPairs_eq]
      decide
    · rw [hrestored]
      exact nofun
  · -- no write of the restored pool changes its reserves
    have hnone := hclose.unmoved (by
      rw [writesOf, txImages_restoredLedger]
      intro write hwrite hchanges
      obtain rfl := List.mem_singleton.mp hwrite
      rcases hchanges with hcreated | ⟨before, hbefore, -⟩
      · cases hcreated
      · cases hbefore)
    rw [PoolLedger.poolStateChangeRows, PoolLedger.poolInstances_eq, PoolLedger.factoryPairs_eq,
      hrestored] at hnone
    revert hnone
    decide
  · refine ⟨by decide, by decide, by decide, by decide, ?_⟩
    rw [txImages_overflowLedger]
    exact ⟨⟨nofun, rfl, trivial⟩, ⟨fun before hbefore => Option.some.inj hbefore, rfl, trivial⟩,
      trivial⟩
  · constructor
    · rw [PoolLedger.factoryPairs_eq]
      decide
    · rw [hoverflow]
      exact nofun
  · rw [writesOf, txImages_overflowLedger]
    rfl
  · rw [PoolLedger.poolInstanceStateRows, PoolLedger.poolInstances_eq, PoolLedger.factoryPairs_eq,
      hoverflow]
    decide
  · refine ⟨by decide, by decide, by decide, by decide, ?_⟩
    rw [txImages_twoFamiliesLedger]
    exact ⟨⟨nofun, rfl, trivial⟩, trivial⟩
  · rw [PoolLedger.poolStateChangeRows, PoolLedger.poolInstances_eq, PoolLedger.factoryPairs_eq,
      htwo]
    decide

end PoolState

end SorobanExplorer
