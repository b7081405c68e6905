import SorobanExplorer.Lib.Text

/-!
# What a token URI lets be fetched

The text that a contract returns for a token is checked, and then fetched as it is, or, if it
names content, from every gateway in turn.
-/

namespace SorobanExplorer

namespace TokenUri

inductive NftTokenUriError
  | unsafeScheme (uri : List Char)
  | malformedUri (uri : List Char)
  deriving DecidableEq

/-- The text after a beginning it must have. -/
def strip (start s : List Char) : Option (List Char) :=
  if start.isPrefixOf s then some (s.drop start.length) else none

/-! ## Content ids -/

section

-- The decoder of the `data_encoding` crate.
variable (base32Nopad : List Char → Option (List UInt8))

/-- The bits of the number so far, and the index of the next byte. -/
def readVarintFrom (value : UInt64) (i : ℕ) : List UInt8 → Option (UInt64 × List UInt8)
  | [] => none
  | byte :: rest =>
      if 9 ≤ i then none
      else
        let value := value ||| ((byte &&& 0x7F).toUInt64 <<< UInt64.ofNat (7 * i))
        if byte &&& 0x80 = 0 then some (value, rest) else readVarintFrom value (i + 1) rest

/-- A number and what is left; what is not read stays. -/
def readVarint (rest : List UInt8) : Option UInt64 × List UInt8 :=
  match readVarintFrom 0 0 rest with
  | some (value, rest) => (some value, rest)
  | none => (none, rest)

def isCidV1 (bytes : List UInt8) : Bool :=
  let (version, rest) := readVarint bytes
  let (codec, rest) := readVarint rest
  let (hashCode, rest) := readVarint rest
  let (digestLen, rest) := readVarint rest
  version = some 1 && codec.isSome && hashCode.isSome &&
    digestLen = some (UInt64.ofNat rest.length)

def base58 : List Char :=
  "123456789ABCDEFGHJKLMNPQRSTUVWXYZabcdefghijkmnopqrstuvwxyz".toList

/-- Encodings that are not looked into pass. -/
def cidDecodes (cid : List Char) : Bool :=
  match cid with
  | 'Q' :: _ =>
      (String.ofList cid).utf8ByteSize = 46 && "Qm".toList.isPrefixOf cid && cid.all base58.contains
  | 'b' :: base32 | 'B' :: base32 =>
      match base32Nopad (base32.map Char.toUpper) with
      | some bytes => isCidV1 bytes
      | none => false
  | _ => true

/-! ## The check -/

/-- `%2e` decoded, in a text of lower case. -/
def decodeDots : List Char → List Char
  | '%' :: '2' :: 'e' :: rest => '.' :: decodeDots rest
  | c :: rest => c :: decodeDots rest
  | [] => []

/-- A segment between slashes is a dot segment. -/
def hasDotSegment (rest : List Char) : Bool :=
  ((decodeDots (rest.map Char.toLower)).splitOnP (· = '/')).any fun seg =>
    seg = ['.', '.'] ∨ seg = ['.']

def isDelimiter (c : Char) : Bool := ['/', '?', '#'].contains c

/-- The content id of an `ipfs` text; some contracts write the path form of a gateway. -/
def cidOf (rest : List Char) : List Char :=
  ((strip "ipfs/".toList rest).getD rest).takeWhile fun c => !(isDelimiter c || c = '%')

def ipfsOk (rest : List Char) : Bool :=
  rest ≠ [] && !hasDotSegment rest && cidDecodes base32Nopad (cidOf rest)

def authorityOf (host : List Char) : List Char :=
  host.takeWhile (!isDelimiter ·)

def hostOnly (host : List Char) : List Char :=
  (authorityOf host).takeWhile (· ≠ ':')

/-- A decimal octet without a zero before it. -/
def isOctet (part : List Char) : Bool :=
  part ≠ [] && part.length ≤ 3 && part.all Char.isDigit &&
    (part.length = 1 || part.head? ≠ some '0') &&
    part.foldl (fun n c => n * 10 + (c.toNat - '0'.toNat)) 0 ≤ 255

/-- `parse::<IpAddr>` on a text without a colon, which no IPv6 address is. -/
def parsesAsIpAddr (host : List Char) : Bool :=
  let parts := host.splitOnP (· = '.')
  parts.length = 4 && parts.all isOctet

def isHostChar (c : Char) : Bool :=
  c.isAlphanum || c = '.' || c = '-'

def httpsOk (host : List Char) : Bool :=
  !(authorityOf host).contains '@' && hostOnly host ≠ [] && (hostOnly host).all isHostChar &&
    !parsesAsIpAddr (hostOnly host) && (hostOnly host).contains '.'

/-- Only names reached over `https`, and content. -/
def validateUri (uri : List Char) : Except NftTokenUriError Unit :=
  let uri := Text.trim uri
  if uri = [] then .error (.malformedUri uri)
  else
    match strip "https://".toList uri with
    | some host => if httpsOk host then .ok () else .error (.malformedUri uri)
    | none =>
        match strip "ipfs://".toList uri with
        | some rest => if ipfsOk base32Nopad rest then .ok () else .error (.malformedUri uri)
        | none => .error (.unsafeScheme uri)

/-! ## The URLs -/

/-- One URL a gateway, or the text itself. -/
def ipfsCandidateUrls (uri : List Char) (gateways : List (List Char)) : List (List Char) :=
  match strip "ipfs://".toList uri with
  | some rest => if gateways = [] then [uri] else gateways.map (· ++ rest)
  | none => [uri]

/-- The URLs tried for the text of a contract, in order; inline metadata needs none. -/
def fetchUncached (uri : List Char) (gateways : List (List Char)) :
    Except NftTokenUriError (List (List Char)) :=
  if "data:".toList.isPrefixOf ((uri.dropWhile Text.isWhitespace).map Char.toLower) then .ok []
  else do
    validateUri base32Nopad uri
    .ok (ipfsCandidateUrls uri gateways)

end

end TokenUri

end SorobanExplorer
