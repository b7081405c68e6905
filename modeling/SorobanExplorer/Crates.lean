import SorobanExplorer.Xdr

/-!
# Third-party code

What the indexer takes from crates whose source is not part of the repository:
address rendering and parsing, hashing, and base64.  The class holds the
functions only; a result that relies on a property of one of them says so in a
hypothesis.
-/

namespace SorobanExplorer

open Text

/-- A parsed address.  The kinds the indexer does not tell apart are `other`. -/
inductive Strkey
  | publicKeyEd25519 (key : AccountId)
  | contract (id : ContractId)
  | muxedAccountEd25519 (key : AccountId) (id : UInt64)
  | muxedContract (contract : ContractId) (id : UInt64)
  | other

class Crates where
  /-- `AccountId`'s `Display`: the `G…` address. -/
  accountStrkey : AccountId → String
  /-- `ScAddress`'s `Display`. -/
  scAddressStrkey : ScAddress → String
  /-- `SignerKey`'s `Display`. -/
  signerKeyStrkey : SignerKey → String
  /-- `AccountId::from_str`. -/
  accountFromStr : String → Option AccountId
  /-- `Strkey::from_string`. -/
  strkeyFromString : String → Option Strkey
  /-- The SHA-256 of the XDR of a contract's id preimage on a network. -/
  contractIdHash : (networkId : Hash) → ContractIdPreimage → Hash
  /-- The standard base64 alphabet, padded. -/
  base64Encode : Bytes → String
  base64Decode : String → Option Bytes
  /-- What the hex reader says of a text it refuses. -/
  hexError : String → String
  /-- `cityhash_102_128` of the UTF-8 bytes of a text. -/
  cityhash128 : String → BitVec 128

namespace Crates

/-- An account and a contract whose ids the repository's tests pin. -/
def pinnedAccount : AccountId :=
  0x2ce53fcd482cd8be03271db6e7032a4e462e887efc017f87684eb98366a4701e

def pinnedContract : ContractId :=
  0xa4d2e7b1068879c98ad03b91de22040380d4a07a4adb3fa14904b42f89ed02b5

/-- The public network. -/
def pinnedNetwork : Hash :=
  0x7ac33997544e3175d266bd022439b22cdb16508c01163f26e5cb2a3e1045a979

/-- The contracts of the assets `USDC` and `EVIL` of the pinned account on the
public network. -/
def pinnedUsdc : ContractId :=
  0x3904095caa6d3010af0ae88395df7e10f3dff113fbbc474e4dd2717e50ff0bed

def pinnedEvil : ContractId :=
  0xc4df1b65b586ffa3fdc5e02a352bcef967685acb677ef734be696c27d7afc6c6

def pinnedAccountStrkey : String :=
  "GAWOKP6NJAWNRPQDE4O3NZYDFJHEMLUIP36AC74HNBHLTA3GURYB4PYJ"

def pinnedContractStrkeys : List (ContractId × String) :=
  [(pinnedContract, "CCSNFZ5RA2EHTSMK2A5ZDXRCAQBYBVFAPJFNWP5BJECLIL4J5UBLLUQG"),
    (pinnedUsdc, "CA4QICK4VJWTAEFPBLUIHFO7PYIPHX7RCP53YR2OJXJHC7SQ74F62IF6"),
    (pinnedEvil, "CDCN6G3FWWDP7I75YXQCUNJLZ34WO2C2ZNTX55ZUXZUWYJ6XV7DMMP7M")]

theorem length_pinnedCode : ([0x55, 0x53, 0x44, 0x43] : List UInt8).length = 4 := rfl

/-- Thirty-two bytes 2 in base64. -/
def pinnedBase64 : String := "AgICAgICAgICAgICAgICAgICAgICAgICAgICAgICAgI="

/-- The functions on the pinned inputs, to evaluate results on; elsewhere they
answer nothing. -/
@[reducible] def pinned : Crates where
  accountStrkey id := if id = pinnedAccount then pinnedAccountStrkey else ""
  scAddressStrkey
    | .account id => if id = pinnedAccount then pinnedAccountStrkey else ""
    | .contract id => (pinnedContractStrkeys.lookup id).getD ""
    | _ => ""
  signerKeyStrkey _ := ""
  accountFromStr strkey := if strkey = pinnedAccountStrkey then some pinnedAccount else none
  strkeyFromString strkey :=
    if strkey = pinnedAccountStrkey then some (.publicKeyEd25519 pinnedAccount)
    else (pinnedContractStrkeys.find? (·.2 = strkey)).map fun entry => .contract entry.1
  contractIdHash networkId preimage :=
    if networkId = pinnedNetwork then
      if preimage = .asset (.creditAlphanum4 ⟨[0x55, 0x53, 0x44, 0x43], rfl⟩ pinnedAccount) then
        pinnedUsdc
      else if preimage = .asset (.creditAlphanum4 ⟨[0x45, 0x56, 0x49, 0x4C], rfl⟩ pinnedAccount)
      then pinnedEvil
      else 0
    else 0
  base64Encode bytes := if bytes = List.replicate 32 2 then pinnedBase64 else ""
  base64Decode text := if text = pinnedBase64 then some (List.replicate 32 2) else none
  hexError _ := ""
  cityhash128 text := (([
      ("native", -6959166271784855184), (pinnedAccountStrkey, 4204727763610853148),
      ("CCSNFZ5RA2EHTSMK2A5ZDXRCAQBYBVFAPJFNWP5BJECLIL4J5UBLLUQG", -8283827203770785938),
      ("USDC:4204727763610853148", -5142557507226545233)].lookup text).getD 0 :
        Int64).toBitVec.setWidth 128

end Crates

end SorobanExplorer
