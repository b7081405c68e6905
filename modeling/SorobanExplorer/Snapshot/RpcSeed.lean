import SorobanExplorer.Parser.BalanceReaders

/-!
# Balances seeded from a node

The seed asks a node for token balance entries and reads them as XDR; the live path reads
the tagged rendering of the changes.  Only the struct of an asset contract is read by one
decoder in both.  `decodeBalanceEntry_agrees`: they read every entry alike.
-/

namespace SorobanExplorer

open Text

section

variable [Crates]

/-- The token, the holder and the amount of a balance entry. -/
def decodeBalanceEntry : LedgerEntryData → Option HeldBalance
  | .contractData entry =>
      match entry.contract, entry.durability, entry.key with
      | .contract _, .persistent, .vec (some [.symbol sym, .address holder]) =>
          if sym ≠ asBytes "Balance" then none
          else
            let balance : Option ℤ :=
              match entry.val with
              | .i128 hi lo => some (i128OfParts hi lo)
              | .map _ =>
                  (decodeSacBalanceValue (.obj [("val", scvalToTypedJson entry.val)])).map (·.amount)
              | _ => none
            balance.map fun amount =>
              ⟨Crates.scAddressStrkey holder, Crates.scAddressStrkey entry.contract, amount⟩
      | _, _, _ => none
  | _ => none

theorem decodeSacBalanceValue_val (entry : ContractDataEntry) :
    decodeSacBalanceValue (.obj [("val", scvalToTypedJson entry.val)]) =
      decodeSacBalanceValue (contractDataData entry) := by
  simp [decodeSacBalanceValue, contractDataData]

/-- The amount the seed takes from a value. -/
theorem seedAmount_eq (entry : ContractDataEntry) :
    (match entry.val with
      | .i128 hi lo => some (i128OfParts hi lo)
      | .map _ =>
          (decodeSacBalanceValue (.obj [("val", scvalToTypedJson entry.val)])).map (·.amount)
      | _ => none) = taggedAmount entry := by
  rw [decodeSacBalanceValue_val, taggedAmount, decodeScvalI128_contractDataData]
  cases hval : entry.val with
  | i128 hi lo => rfl
  | map entries => rfl
  | _ =>
      -- neither an integer nor a struct
      rw [decodeSacBalanceValue_other fun entries h => by rw [hval] at h; cases h]
      rfl

/-- The seed takes the holder the live path takes, of a persistent entry. -/
theorem decodeBalanceEntry_eq {entry : ContractDataEntry} {id : ContractId}
    (hcontract : entry.contract = .contract id) :
    decodeBalanceEntry (.contractData entry) =
      if entry.durability = .persistent then
        (balanceKeyHolder entry.key).bind fun holder => (taggedAmount entry).map fun amount =>
          ⟨holder, Crates.scAddressStrkey entry.contract, amount⟩
      else none := by
  rw [decodeBalanceEntry, ← seedAmount_eq, hcontract]
  cases hdurability : entry.durability with
  | temporary => rw [if_neg nofun]
  | persistent =>
      rw [if_pos rfl]
      by_cases hkey : ∃ sym holder, entry.key = .vec (some [.symbol sym, .address holder])
      · obtain ⟨sym, holder, hkey⟩ := hkey
        rw [hkey, balanceKeyHolder]
        by_cases hsym : sym = asBytes "Balance"
        · simp only [hsym, ne_eq, not_true_eq_false, if_false, if_true, Option.bind_some]
        · simp only [hsym, ne_eq, not_false_eq_true, if_true, if_false, Option.bind_none]
      · have hnone : balanceKeyHolder entry.key = none := by
          rw [balanceKeyHolder]
          exact fun sym holder h => hkey ⟨sym, holder, h⟩
        rw [hnone, Option.bind_none]
        split
        · rename_i h
          exact absurd ⟨_, _, h⟩ hkey
        · rfl

/-- Both readers report the same of an entry a change wrote. -/
theorem decodeBalanceEntry_agrees {change : LedgerEntryChange} {entry : ContractDataEntry}
    (himage : change.contractDataImage = some (entry, true)) {id : ContractId}
    (hcontract : entry.contract = .contract id)
    (hshown : Crates.scAddressStrkey entry.contract ≠ "") (operationIndex : Option ℕ)
    (transactionHash : String) (ledgerSequence : UInt32) (createdAt : ℤ) (changeIndex : ℕ) :
    (extractSorobanTokenBalances [extractSingleChange change operationIndex transactionHash
        ledgerSequence createdAt changeIndex]).map ExtractedSorobanBalance.held =
      (decodeBalanceEntry (.contractData entry)).toList := by
  have hread := sorobanTokenBalance_image himage hshown operationIndex transactionHash
    ledgerSequence createdAt changeIndex
  rw [decodeBalanceEntry_eq hcontract]
  simp only [true_and] at hread
  rw [← hread, extractSorobanTokenBalances]
  cases hbalance : sorobanTokenBalance (extractSingleChange change operationIndex transactionHash
    ledgerSequence createdAt changeIndex) <;> simp [hbalance]

end

theorem decodeBalanceEntry_agrees_tokenBalance :
    let _ : Crates := Crates.pinned
    (extractSorobanTokenBalances [extractSingleChange (createsTokenBalance .persistent) (some 0)
        "aa" 60000000 0 0]).map ExtractedSorobanBalance.held =
      (decodeBalanceEntry (.contractData (pinnedTokenBalance .persistent))).toList :=
  let _ : Crates := Crates.pinned
  decodeBalanceEntry_agrees rfl rfl (by decide) (some 0) "aa" 60000000 0 0

end SorobanExplorer
