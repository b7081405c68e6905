import Mathlib.Data.List.Infix
import SorobanExplorer.Lib.Text
import SorobanExplorer.Parser.Json

/-!
# What an enrichment row may hold

The columns of the two enrichment tables come from a file of the asset's issuer and from the
metadata of a token.  Both are written by strangers, and a page shows them: an address that
a page would load is kept only if it is `https`, or an image in the value itself, and an
overlong text is dropped.  A column with nothing in it is the empty text.
-/

namespace SorobanExplorer.Enrichment

/-- `str::trim`. -/
def trim (s : String) : String := String.ofList (Text.trim s.toList)

/-- `to_ascii_lowercase`. -/
def toAsciiLowercase (s : String) : List Char := s.toList.map Char.toLower

/-- A page loads such an address without mixing content, and runs nothing. -/
def isSafeHttpsUrl (url : String) : Bool :=
  "https://".toList.isPrefixOf (toAsciiLowercase (trim url))

/-! ## Fetching -/

/-- A `reqwest::Error`, as far as it is looked into. -/
structure TransportError where
  isRedirect : Bool
  status : Option ℕ
  isConnect : Bool
  deriving DecidableEq

/-- A retry may succeed: the server is at fault, or the connection broke once it stood. -/
def isTransientReqwest (err : TransportError) : Bool :=
  !err.isRedirect &&
    match err.status with
    | some status => (500 ≤ status ∧ status < 600) || status = 429
    | none => !err.isConnect

inductive Sep1Error
  | missingHomeDomain
  | malformedHomeDomain (host : String)
  | http (host : String) (source : TransportError)
  | timeout (host : String)
  | redirectBlocked (host location : String)
  | bodyTooLarge (limit : ℕ)
  | nonUtf8Body
  | malformedToml

def Sep1Error.isTransient : Sep1Error → Bool
  | .timeout _ => true
  | .http _ source => isTransientReqwest source
  | .missingHomeDomain | .malformedHomeDomain _ | .bodyTooLarge _ | .nonUtf8Body
  | .redirectBlocked _ _ | .malformedToml => false

/-- What a node says in so many words when it is overloaded. -/
def transientRpcPatterns : List String :=
  ["-32603", "-32000", "rate limit", "try again", "overloaded", "unavailable", "bad gateway",
    "gateway timeout", "timeout", "deadline"]

def isTransientSorobanRpcPattern (msg : String) : Bool :=
  transientRpcPatterns.any fun pattern => decide (pattern.toList <:+: toAsciiLowercase msg)

inductive NftTokenUriError
  | sorobanRpc (message : String)
  | http (host : String) (source : TransportError)
  | httpStatus (host : String) (status : ℕ)
  | bodyTooLarge (limit : ℕ)
  | malformedJson
  | unsupportedContentType (contentType : String)
  | unsafeScheme (uri : String)
  | malformedUri (uri : String)
  | malformedInput (field value : String)
  | malformedRpcResponse (message : String)
  | xdr

def NftTokenUriError.isTransient : NftTokenUriError → Bool
  | .http _ source => isTransientReqwest source
  | .httpStatus _ status => status = 429 || (500 ≤ status ∧ status < 600)
  | .sorobanRpc message => isTransientSorobanRpcPattern message
  | _ => false

/-! ## The file of an issuer -/

/-- A `CURRENCIES` entry, as far as it is read here. -/
structure Sep1Currency where
  code : Option String
  issuer : Option String
  image : Option String
  name : Option String

structure Sep1TomlParsed where
  currencies : List Sep1Currency

/-- The values of an `asset_enrichment` row. -/
structure AssetValues where
  iconUrl : Option String
  name : Option String
  deriving DecidableEq

def MAX_ICON_URL_BYTES : ℕ := 8192

def MAX_NAME_BYTES : ℕ := 4096

def findCurrency (parsed : Sep1TomlParsed) (code issuer : Option String) : Option Sep1Currency := do
  let code ← code
  let issuer ← issuer
  parsed.currencies.find? fun c => c.code = some code ∧ c.issuer = some issuer

/-- A text of the file, trimmed; nothing for a blank one. -/
def nonBlank (value : Option String) : Option String :=
  (value.map trim).filter (· ≠ "")

def resolveIcon (entry : Option Sep1Currency) : String :=
  match nonBlank (entry.bind (·.image)) with
  | none => ""
  | some url =>
      if !isSafeHttpsUrl url then ""
      else if MAX_ICON_URL_BYTES < url.utf8ByteSize then ""
      else url

/-- Only classic credits, and the retired asset contracts, have their name there. -/
def resolveName (assetType : Int16) (entry : Option Sep1Currency) : Option String :=
  if !(assetType = 1 ∨ assetType = 2) then none
  else
    match nonBlank (entry.bind (·.name)) with
    | none => some ""
    | some name => if MAX_NAME_BYTES < name.utf8ByteSize then some "" else some name

def sentinelName (assetType : Int16) : Option String :=
  if assetType = 1 ∨ assetType = 2 then some "" else none

def resolveCurrencyOutcome (assetType : Int16) (assetCode issuerStrkey : Option String)
    (parsed : Sep1TomlParsed) : String × Option String :=
  let entry := findCurrency parsed assetCode issuerStrkey
  (resolveIcon entry, resolveName assetType entry)

/-- The sentinels of an issuer without a usable file. -/
def permanentFailOutcome (assetType : Int16) : String × Option String :=
  ("", sentinelName assetType)

/-! ## The metadata of a token -/

/-- The `data_url` crate: the type and the subtype of a data URL, if the text is one. -/
class DataUrls where
  mimeType : String → Option (String × String)

/-- The values of an `nft_enrichment` row. -/
structure NftValues where
  name : Option String
  mediaUrl : Option String
  collectionName : Option String
  deriving DecidableEq

def MAX_NAME_CHARS : ℕ := 4096

def MAX_COLLECTION_CHARS : ℕ := 4096

def MAX_COLLECTION_NAME_CHARS : ℕ := 4096

def MAX_MEDIA_URL_BYTES : ℕ := 8192

/-- The first of the default gateways. -/
def primaryIpfsGateway : String := "https://ipfs.filebase.io/ipfs/"

def resolveIpfsToHttps (uri : String) : String :=
  if "ipfs://".toList.isPrefixOf uri.toList then
    primaryIpfsGateway ++ String.ofList (uri.toList.drop 7)
  else uri

def inlineImageSubtypes : List String := ["png", "jpeg", "gif", "webp", "svg+xml"]

/-- An image carried in the value itself, of a type that cannot run scripts in a page. -/
def isInlineImage [DataUrls] (url : String) : Bool :=
  match DataUrls.mimeType url with
  | some (type, subtype) => type = "image" && inlineImageSubtypes.contains subtype
  | none => false

/-- A text of the metadata, trimmed; nothing for another value and for one over the cap. -/
def trimmedString (size : String → ℕ) (value : Option Json) (cap : ℕ) : String :=
  match (value.bind Json.asStr).map trim with
  | none => ""
  | some text => if cap < size text then "" else text

def trimmedStringChars (value : Option Json) (maxChars : ℕ) : String :=
  trimmedString String.length value maxChars

def trimmedStringBytes (value : Option Json) (maxBytes : ℕ) : String :=
  trimmedString String.utf8ByteSize value maxBytes

/-- The image of a token: `image`, or `url` where that says nothing. -/
def imageOf (json : Json) : String :=
  let image := trimmedStringBytes (json.get? "image") MAX_MEDIA_URL_BYTES
  if image = "" then trimmedStringBytes (json.get? "url") MAX_MEDIA_URL_BYTES else image

def mediaOf [DataUrls] (image : String) : String :=
  let resolved := resolveIpfsToHttps image
  if resolved = "" ∨ isSafeHttpsUrl resolved ∨ isInlineImage resolved then resolved else ""

def extractColumns [DataUrls] (json : Json) : String × String × String :=
  (trimmedStringChars (json.get? "name") MAX_NAME_CHARS, mediaOf (imageOf json),
    trimmedStringChars (json.get? "collection") MAX_COLLECTION_CHARS)

/-- The name a contract gives itself, if it is of use. -/
def usableCollectionName (raw : String) : Option String :=
  if trim raw ≠ "" ∧ (trim raw).length ≤ MAX_COLLECTION_NAME_CHARS then some (trim raw) else none

/-! ## What is safe to show -/

/-- The icon column: nothing, or an `https` address of bounded length. -/
def SafeIcon (url : String) : Prop :=
  url = "" ∨ isSafeHttpsUrl url = true ∧ url.utf8ByteSize ≤ MAX_ICON_URL_BYTES

/-- The media column: nothing, an `https` address, or an image in the value itself. -/
def SafeMedia [DataUrls] (url : String) : Prop :=
  url = "" ∨ isSafeHttpsUrl url = true ∨ isInlineImage url = true

theorem safeIcon_resolveIcon (entry : Option Sep1Currency) : SafeIcon (resolveIcon entry) := by
  unfold resolveIcon
  cases nonBlank (entry.bind (·.image)) with
  | none => exact .inl rfl
  | some url =>
      dsimp only
      split_ifs with hunsafe hlong
      · exact .inl rfl
      · exact .inl rfl
      · exact .inr ⟨by simpa using hunsafe, by omega⟩

/-- The name column: none where no file has it, and bounded elsewhere. -/
theorem resolveName_bounded {assetType : Int16} {entry : Option Sep1Currency} {name : String}
    (h : resolveName assetType entry = some name) : name.utf8ByteSize ≤ MAX_NAME_BYTES := by
  have hempty : ("" : String).utf8ByteSize ≤ MAX_NAME_BYTES := by decide
  unfold resolveName at h
  split_ifs at h
  cases hname : nonBlank (entry.bind (·.name)) with
  | none =>
      rw [hname] at h
      cases h
      exact hempty
  | some text =>
      rw [hname] at h
      dsimp only at h
      split_ifs at h with hlong
      · cases h
        exact hempty
      · cases h
        omega

theorem isSome_resolveName (assetType : Int16) (entry : Option Sep1Currency) :
    (resolveName assetType entry).isSome = (sentinelName assetType).isSome := by
  unfold resolveName sentinelName
  by_cases htype : assetType = 1 ∨ assetType = 2
  · simp only [htype, decide_true, Bool.not_true, Bool.false_eq_true, if_false, if_true]
    cases nonBlank (entry.bind (·.name)) with
    | none => rfl
    | some name => dsimp only; split_ifs <;> rfl
  · simp [htype]

theorem safeMedia_mediaOf [DataUrls] (image : String) : SafeMedia (mediaOf image) := by
  unfold mediaOf
  dsimp only
  split_ifs with hsafe
  · exact hsafe
  · exact .inl rfl

theorem trimmedString_bounded {size : String → ℕ} (hempty : size "" = 0) (value : Option Json)
    (cap : ℕ) : size (trimmedString size value cap) ≤ cap := by
  unfold trimmedString
  cases (value.bind Json.asStr).map trim with
  | none => simp [hempty]
  | some text =>
      dsimp only
      split_ifs with hlong
      · simp [hempty]
      · omega

theorem usableCollectionName_bounded {raw name : String}
    (h : usableCollectionName raw = some name) :
    name.length ≤ MAX_COLLECTION_NAME_CHARS := by
  unfold usableCollectionName at h
  split_ifs at h with husable
  cases h
  exact husable.2

end SorobanExplorer.Enrichment
