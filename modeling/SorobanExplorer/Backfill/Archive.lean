import SorobanExplorer.Api.ArchiveKey
import SorobanExplorer.Backfill.Run

/-!
# Partitions of the archive

A run cuts its range into the archive's partitions, and three programs name the file of
a ledger: the backfill by the folder it syncs, the api and the indexer by a key they
build.  The last partition of the `u32` space is shorter than the others.  The backfill
computes where it would end and overflows, the api lets the sum saturate, and the
indexer computes in 64 bits; up to it the partitions tile every range (`tiles_iff`) and
the three names agree (`namesOneObject_iff`).
-/

namespace SorobanExplorer.Backfill

open Indexer
open StellarArchive (buildS3Key fetchLedgerKey buildS3Key_lt)

/-- The first ledger of the partition that the `u32` space cuts short. -/
def shortPartition : ℤ := 4294912000

namespace Partition

/-- `fromLedger` in 32 bits: the sum that finds the end overflows. -/
def tryFromLedger (seq : ℤ) : Option Partition :=
  if U32_MAX < (fromLedger seq).start + PARTITION_SIZE then none
  else some (fromLedger seq)

def hex (p : Partition) : String := hex8Upper (U32_MAX - p.start).toNat

/-- The folder of a partition, under the archive's prefix. -/
def folderKey (archivePrefix : String) (p : Partition) : String :=
  archivePrefix ++ "/" ++ p.hex ++ "--" ++ toString p.start ++ "-" ++ toString p.last

/-- The name of a ledger's file in its folder, in the archive as on the disk. -/
def ledgerFile (seq : ℤ) : String :=
  hex8Upper (U32_MAX - seq).toNat ++ "--" ++ toString seq ++ ".xdr.zst"

theorem start_fromLedger (seq : ℤ) : (fromLedger seq).start = seq - seq % 64000 := rfl

theorem last_fromLedger (seq : ℤ) :
    (fromLedger seq).last = seq - seq % 64000 + 64000 - 1 := rfl

/-- A partition has an end unless it is the short one. -/
theorem tryFromLedger_eq {seq : ℤ} (h : seq ≤ U32_MAX) : tryFromLedger seq =
    if seq < shortPartition then some (fromLedger seq) else none := by
  rw [U32_MAX] at h
  by_cases hseq : seq < shortPartition
  · rw [if_pos hseq, tryFromLedger, if_neg]
    rw [shortPartition] at hseq
    rw [start_fromLedger, U32_MAX, PARTITION_SIZE]
    omega
  · rw [if_neg hseq, tryFromLedger, if_pos]
    rw [shortPartition] at hseq
    rw [start_fromLedger, U32_MAX, PARTITION_SIZE]
    omega

end Partition

/-! ## Tiling -/

/-- The partitions of a range, each cut to it, hold its closed ledgers, in order and each
once. -/
def Tiles (start last : UInt32) : Prop :=
  ∃ partitions, partitionsForRange start.toNat last.toNat = some partitions ∧
    (partitions.flatMap fun p =>
      ledgersBetween (p.clamped start.toNat last.toNat).1 (p.clamped start.toNat last.toNat).2) =
    ledgersBetween (max start.toNat FIRST_CLOSED_LEDGER) last.toNat

/-- Neighbouring stretches of ledgers make one, of which the range may end in the first. -/
theorem ledgersBetween_append {first middle last : ℤ} (h : first ≤ middle + 1) :
    ledgersBetween first (min last middle) ++ ledgersBetween (middle + 1) last =
      ledgersBetween first last := by
  rcases le_total last middle with hle | hle
  · have hnone : (last + 1 - (middle + 1)).toNat = 0 := by omega
    rw [min_eq_left hle, ledgersBetween, ledgersBetween, hnone]
    simp
  · have hlen : (last + 1 - first).toNat =
        (middle + 1 - first).toNat + (last + 1 - (middle + 1)).toNat := by omega
    rw [min_eq_right hle, ledgersBetween, ledgersBetween, ledgersBetween, hlen, List.range_add,
      List.map_append, List.map_map]
    congr 1
    apply List.map_congr_left
    intro i _
    simp only [Function.comp_apply]
    omega

theorem ledgersBetween_eq_nil {first last : ℤ} (h : last < first) :
    ledgersBetween first last = [] := by
  have hnone : (last + 1 - first).toNat = 0 := by omega
  rw [ledgersBetween, hnone]
  rfl

/-- The loop overflows exactly when the range reaches the short partition. -/
theorem isSome_partitionsFrom_iff {cursor last : ℤ} (hcursor : cursor ≤ last)
    (hlast : last ≤ U32_MAX) :
    (partitionsFrom cursor last).isSome ↔ last < shortPartition := by
  rw [U32_MAX] at hlast
  induction cursor using partitionsFrom.induct last with
  | case1 cursor hle hoverflow =>
      rw [partitionsFrom, dif_pos hle, if_pos hoverflow]
      rw [Partition.last_fromLedger, U32_MAX] at hoverflow
      rw [shortPartition]
      simp
      omega
  | case2 cursor hle hoverflow ih =>
      rw [partitionsFrom, dif_pos hle, if_neg hoverflow, Option.isSome_map]
      rw [Partition.last_fromLedger, U32_MAX] at hoverflow
      rw [Partition.last_fromLedger] at ih ⊢
      by_cases hnext : cursor - cursor % 64000 + 64000 - 1 + 1 ≤ last
      · exact ih hnext
      · -- The range ends in this partition, which is not the short one.
        rw [partitionsFrom, dif_neg hnext, shortPartition]
        simp
        omega
  | case3 cursor hle => exact absurd hcursor hle

/-- From the range's start, or from the beginning of a partition, the loop's partitions hold
what is left of the range. -/
theorem flatMap_partitionsFrom {start cursor last : ℤ} {partitions : List Partition}
    (h : partitionsFrom cursor last = some partitions)
    (hcursor : cursor = start ∨ start ≤ cursor ∧ cursor % 64000 = 0) (hstart : 0 ≤ start) :
    (partitions.flatMap fun p =>
      ledgersBetween (p.clamped start last).1 (p.clamped start last).2) =
    ledgersBetween (max cursor FIRST_CLOSED_LEDGER) last := by
  induction cursor using partitionsFrom.induct last generalizing partitions with
  | case1 cursor hle hoverflow =>
      rw [partitionsFrom, dif_pos hle, if_pos hoverflow] at h
      cases h
  | case2 cursor hle hoverflow ih =>
      rw [partitionsFrom, dif_pos hle, if_neg hoverflow] at h
      obtain ⟨rest, hrest, rfl⟩ := Option.map_eq_some_iff.mp h
      have hlast := Partition.last_fromLedger cursor
      -- a cursor inside a partition stands at the range's start, else at its own
      have hfirst : (Partition.fromLedger cursor).clamped start last =
          (max cursor FIRST_CLOSED_LEDGER, min last (Partition.fromLedger cursor).last) := by
        rw [Partition.clamped, Partition.firstLedger, Partition.start_fromLedger,
          FIRST_CLOSED_LEDGER]
        congr 1
        omega
      have hnext : max ((Partition.fromLedger cursor).last + 1) FIRST_CLOSED_LEDGER =
          (Partition.fromLedger cursor).last + 1 := by
        rw [FIRST_CLOSED_LEDGER]
        omega
      rw [List.flatMap_cons, hfirst, ih hrest (.inr (by omega)), hnext]
      exact ledgersBetween_append (by rw [FIRST_CLOSED_LEDGER]; omega)
  | case3 cursor hle =>
      rw [partitionsFrom, dif_neg hle] at h
      cases h
      rw [ledgersBetween_eq_nil (lt_max_of_lt_left (not_le.mp hle))]
      rfl

theorem tiles_iff {start last : UInt32} (h : start ≤ last) :
    Tiles start last ↔ (last.toNat : ℤ) < shortPartition := by
  have hle : (start.toNat : ℤ) ≤ last.toNat := Int.ofNat_le.mpr (UInt32.le_iff_toNat_le.mp h)
  have hmax : (last.toNat : ℤ) ≤ U32_MAX := by
    have := last.toNat_lt
    rw [U32_MAX]
    omega
  rw [← isSome_partitionsFrom_iff hle hmax, Option.isSome_iff_exists]
  constructor
  · rintro ⟨partitions, hpartitions, -⟩
    exact ⟨partitions, hpartitions⟩
  · rintro ⟨partitions, hpartitions⟩
    exact ⟨partitions, hpartitions,
      flatMap_partitionsFrom hpartitions (.inl rfl) (Int.natCast_nonneg _)⟩

/-! ## One object under three names -/

/-- The key of a ledger's file in the folder the backfill syncs. -/
def backfillKey (archivePrefix : String) (seq : UInt32) : Option String :=
  (Partition.tryFromLedger seq.toNat).map fun p =>
    p.folderKey archivePrefix ++ "/" ++ Partition.ledgerFile seq.toNat

/-- The backfill and the api ask the archive for one object, and the indexer asks for the
object of that name in the store it reads. -/
def NamesOneObject (archivePrefix keyPrefix : String) (seq : UInt32) : Prop :=
  backfillKey archivePrefix seq = some (fetchLedgerKey archivePrefix seq) ∧
    ledgerS3Key keyPrefix seq.toNat = keyPrefix ++ buildS3Key seq

/-- What holds between the keys of two ledgers, under each of the names. -/
def KeysRelate (relation : String → String → Prop) (archivePrefix keyPrefix : String)
    (a b : UInt32) : Prop :=
  (∃ key key', backfillKey archivePrefix a = some key ∧ backfillKey archivePrefix b = some key' ∧
      relation key key') ∧
    relation (fetchLedgerKey archivePrefix a) (fetchLedgerKey archivePrefix b) ∧
    relation (ledgerS3Key keyPrefix a.toNat) (ledgerS3Key keyPrefix b.toNat)

theorem backfillKey_eq (archivePrefix : String) (seq : UInt32) : backfillKey archivePrefix seq =
    if (seq.toNat : ℤ) < shortPartition then
      some (archivePrefix ++ "/" ++ archiveKey (· + 63999) seq.toNat)
    else none := by
  have hmax : (seq.toNat : ℤ) ≤ U32_MAX := by
    have := seq.toNat_lt
    rw [U32_MAX]
    omega
  rw [backfillKey, Partition.tryFromLedger_eq hmax]
  split_ifs with hseq
  · have hstart : (Partition.fromLedger seq.toNat).start = (seq.toNat - seq.toNat % 64000 : ℕ) := by
      rw [Partition.start_fromLedger]
      omega
    have hlast : (Partition.fromLedger seq.toNat).last =
        (seq.toNat - seq.toNat % 64000 + 63999 : ℕ) := by
      rw [Partition.last_fromLedger]
      omega
    have hcomplement : ∀ n : ℕ, (U32_MAX - (n : ℤ)).toNat = 0xFFFFFFFF - n := by
      intro n
      rw [U32_MAX]
      omega
    have htext : ∀ n : ℕ, toString (n : ℤ) = toString n := fun n => rfl
    simp only [Option.map_some, Partition.folderKey, Partition.hex, Partition.ledgerFile, hstart,
      hlast, hcomplement, htext, archiveKey, String.append_assoc]
  · rfl

/-- Up to the short partition nothing saturates; in it the two keys differ. -/
theorem archiveKey_eq_buildS3Key_iff (seq : UInt32) :
    archiveKey (· + 63999) seq.toNat = buildS3Key seq ↔ (seq.toNat : ℤ) < shortPartition := by
  have hmax := seq.toNat_lt
  rw [StellarArchive.buildS3Key_eq, archiveKey_inj, StellarArchive.U32_MAX, shortPartition]
  omega

theorem namesOneObject_iff (archivePrefix keyPrefix : String) (seq : UInt32) :
    NamesOneObject archivePrefix keyPrefix seq ↔ (seq.toNat : ℤ) < shortPartition := by
  rw [NamesOneObject, backfillKey_eq]
  constructor
  · rintro ⟨hbackfill, -⟩
    by_contra hseq
    rw [if_neg hseq] at hbackfill
    cases hbackfill
  · intro hseq
    have hkey := (archiveKey_eq_buildS3Key_iff seq).mpr hseq
    rw [if_pos hseq, ledgerS3Key_eq keyPrefix seq.toNat_lt, hkey]
    exact ⟨rfl, rfl⟩

/-- A relation that the keys of each scheme are in holds between two ledgers' keys exactly
when the backfill can name both. -/
theorem keysRelate_iff {relation : String → String → Prop} {a b : UInt32}
    (happend : ∀ first key key' : String, relation key key' →
      relation (first ++ key) (first ++ key'))
    (hkeys : ∀ partEnd : ℕ → ℕ,
      relation (archiveKey partEnd a.toNat) (archiveKey partEnd b.toNat))
    (archivePrefix keyPrefix : String) : KeysRelate relation archivePrefix keyPrefix a b ↔
      (a.toNat : ℤ) < shortPartition ∧ (b.toNat : ℤ) < shortPartition := by
  rw [KeysRelate, backfillKey_eq, backfillKey_eq]
  constructor
  · rintro ⟨⟨key, key', ha, hb, -⟩, -⟩
    by_contra hshort
    rcases not_and_or.mp hshort with h | h
    · rw [if_neg h] at ha
      cases ha
    · rw [if_neg h] at hb
      cases hb
  · rintro ⟨ha, hb⟩
    rw [if_pos ha, if_pos hb, fetchLedgerKey, fetchLedgerKey, StellarArchive.buildS3Key_eq,
      StellarArchive.buildS3Key_eq, ledgerS3Key_eq keyPrefix a.toNat_lt,
      ledgerS3Key_eq keyPrefix b.toNat_lt]
    exact ⟨⟨_, _, rfl, rfl, happend _ _ _ (hkeys _)⟩, happend _ _ _ (hkeys _),
      happend _ _ _ (hkeys _)⟩

theorem append_lt_append_left (first : String) {key key' : String} (h : key < key') :
    first ++ key < first ++ key' := by
  rw [String.lt_iff_toList_lt, String.toList_append, String.toList_append,
    Text.append_lt_append_iff rfl]
  exact .inr ⟨rfl, String.lt_iff_toList_lt.mp h⟩

/-- **The archive's partitions and keys.**  Everything holds up to the partition that the
`u32` space cuts short, and nothing that the backfill takes part in holds beyond; there the
keys of the api and of the indexer still list newest first. -/
theorem archive_iff (archivePrefix keyPrefix : String) :
    (∀ start last : UInt32, start ≤ last →
      (Tiles start last ↔ (last.toNat : ℤ) < shortPartition)) ∧
    (∀ seq : UInt32,
      NamesOneObject archivePrefix keyPrefix seq ↔ (seq.toNat : ℤ) < shortPartition) ∧
    (∀ a b : UInt32, a ≠ b → (KeysRelate (· ≠ ·) archivePrefix keyPrefix a b ↔
      (a.toNat : ℤ) < shortPartition ∧ (b.toNat : ℤ) < shortPartition)) ∧
    (∀ newer older : UInt32, older < newer →
      (KeysRelate (· < ·) archivePrefix keyPrefix newer older ↔
        (newer.toNat : ℤ) < shortPartition) ∧
      fetchLedgerKey archivePrefix newer < fetchLedgerKey archivePrefix older ∧
      ledgerS3Key keyPrefix newer.toNat < ledgerS3Key keyPrefix older.toNat) := by
  refine ⟨fun _ _ => tiles_iff, namesOneObject_iff archivePrefix keyPrefix, ?distinct, ?order⟩
  case distinct =>
    intro a b hne
    refine keysRelate_iff (fun first key key' h heq => h ((String.append_right_inj _).mp heq))
      (fun partEnd heq => ?_) archivePrefix keyPrefix
    -- Of two ledgers one is the later, whose key comes first.
    rcases Nat.lt_or_gt_of_ne (mt UInt32.toNat_inj.mp hne) with hlt | hgt
    · exact absurd heq (archiveKey_lt partEnd hlt b.toNat_lt).ne'
    · exact absurd heq (archiveKey_lt partEnd hgt a.toNat_lt).ne
  case order =>
    intro newer older hlater
    have hlt := UInt32.lt_iff_toNat_lt.mp hlater
    have holder : (newer.toNat : ℤ) < shortPartition → (older.toNat : ℤ) < shortPartition := by
      omega
    rw [keysRelate_iff (fun first _ _ => append_lt_append_left first)
      fun partEnd => archiveKey_lt partEnd hlt newer.toNat_lt]
    exact ⟨and_iff_left_of_imp holder, append_lt_append_left _ (buildS3Key_lt hlater),
      ledgerS3Key_lt keyPrefix hlt newer.toNat_lt⟩

/-- The range and the keys of ledgers the network has closed. -/
theorem archive_iff_pubnet : Tiles 62016000 62528059 ∧
    NamesOneObject "v1.1/stellar/ledgers/pubnet" "" 62528059 ∧
    KeysRelate (· ≠ ·) "v1.1/stellar/ledgers/pubnet" "" 2 62528059 ∧
    KeysRelate (· < ·) "v1.1/stellar/ledgers/pubnet" "" 62528059 2 := by
  obtain ⟨htiles, hnames, hdistinct, horder⟩ := archive_iff "v1.1/stellar/ledgers/pubnet" ""
  exact ⟨(htiles _ _ (by decide)).mpr (by decide), (hnames _).mpr (by decide),
    (hdistinct _ _ (by decide)).mpr (by decide), (horder _ _ (by decide)).1.mpr (by decide)⟩

/-- In the short partition the loop overflows, and each of the three programs has an end of
its own for the folder. -/
theorem not_archive_shortPartition :
    partitionsForRange 4294912000 4294912000 = none ∧ ¬ Tiles 4294912000 4294912000 ∧
      backfillKey "v1.1/stellar/ledgers/pubnet" 4294912000 = none ∧
      buildS3Key 4294912000 =
        "0000D7FF--4294912000-4294967295/0000D7FF--4294912000.xdr.zst" ∧
      ledgerS3Key "" 4294912000 =
        "0000D7FF--4294912000-4294975999/0000D7FF--4294912000.xdr.zst" := by
  have hnone : partitionsForRange 4294912000 4294912000 = none := by
    rw [partitionsForRange, partitionsFrom, dif_pos (by decide), if_pos (by decide)]
  refine ⟨hnone, ?_, by decide, by decide, by decide⟩
  rintro ⟨partitions, hpartitions, -⟩
  exact absurd (hnone.symm.trans hpartitions) (by simp)

end SorobanExplorer.Backfill
