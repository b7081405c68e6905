import SorobanExplorer.Indexer.LedgerKey

/-!
# The api's archive keys

Heavy fields of a transaction are read from its ledger's file in the public archive.
The key of the file is built with 32-bit arithmetic; the last partition of the `u32`
space ends where the space does.
-/

namespace SorobanExplorer.StellarArchive

open Indexer

def PARTITION_SIZE : ℕ := 64000

def U32_MAX : ℕ := 4294967295

/-- Under the archive's prefix, the key of a ledger's file. -/
def buildS3Key (ledgerSeq : UInt32) : String :=
  let seq := ledgerSeq.toNat
  let partitionStart := seq - seq % PARTITION_SIZE
  -- The sum saturates.
  let partitionEnd := min (partitionStart + (PARTITION_SIZE - 1)) U32_MAX
  let partitionHex := hex8Upper (U32_MAX - partitionStart)
  let fileHex := hex8Upper (U32_MAX - seq)
  partitionHex ++ "--" ++ toString partitionStart ++ "-" ++ toString partitionEnd ++ "/" ++
    (fileHex ++ "--" ++ toString seq ++ ".xdr.zst")

/-- The key a ledger is fetched under. -/
def fetchLedgerKey (archivePrefix : String) (seq : UInt32) : String :=
  archivePrefix ++ "/" ++ buildS3Key seq

example : buildS3Key 62026937 = "FC4DB5FF--62016000-62079999/FC4D8B46--62026937.xdr.zst" := by
  decide

theorem buildS3Key_eq (seq : UInt32) :
    buildS3Key seq = archiveKey (fun start => min (start + 63999) U32_MAX) seq.toNat := by
  simp only [buildS3Key, archiveKey, PARTITION_SIZE, U32_MAX, Nat.reduceSub]

/-- The archive lists the files the api asks for newest first. -/
theorem buildS3Key_lt {a b : UInt32} (hab : a < b) : buildS3Key b < buildS3Key a := by
  rw [buildS3Key_eq, buildS3Key_eq]
  exact archiveKey_lt _ (UInt32.lt_iff_toNat_lt.mp hab) b.toNat_lt

end SorobanExplorer.StellarArchive
