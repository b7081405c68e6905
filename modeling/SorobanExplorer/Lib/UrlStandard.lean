import Mathlib.Algebra.Ring.Nat
import Mathlib.Data.List.DropRight
import SorobanExplorer.Lib.Text
import SorobanExplorer.Lib.Traverse

/-!
# The URL standard, as far as `https` goes

The basic parser on a text without a base: what it strips, the scheme, the authority of an
`https` URL with its host and port, and the path with its dot segments.  Domains outside plain
ASCII, addresses in brackets and other schemes are parameters (`Standard`).

* `ipv4` reads an address in every spelling: shortened, octal, hexadecimal, with a last dot;
* `pathValues` are the values the path takes as its pieces are read, and `resolve` the last;
* `pathValues_stay_iff`: they keep a beginning exactly if no dot segment climbs above it.
-/

namespace UrlStandard

/-! ## Stripping -/

def isC0OrSpace (c : Char) : Bool := c.toNat ≤ 0x20

def isTabOrNewline (c : Char) : Bool := c.toNat = 0x09 ∨ c.toNat = 0x0A ∨ c.toNat = 0x0D

/-- Without the controls and spaces at the end, and without tabs and newlines. -/
def tidy (s : List Char) : List Char :=
  (s.rdropWhile isC0OrSpace).filter (!isTabOrNewline ·)

def clean (s : List Char) : List Char :=
  tidy (s.dropWhile isC0OrSpace)

/-! ## Schemes -/

def isSchemeChar (c : Char) : Bool :=
  c.isAlphanum || c = '+' || c = '-' || c = '.'

def takeScheme (scheme : List Char) : List Char → Option (List Char × List Char)
  | [] => none
  | c :: rest =>
      if isSchemeChar c then takeScheme (scheme ++ [c.toLower]) rest
      else if c = ':' then some (scheme, rest)
      else none

/-- The scheme in lower case, and what comes after its colon. -/
def splitScheme : List Char → Option (List Char × List Char)
  | [] => none
  | c :: rest => if c.isAlpha then takeScheme [c.toLower] rest else none

/-! ## Hosts -/

inductive Host
  | domain (name : List Char)
  | ipv4 (address : ℕ)
  | ipv6
  deriving DecidableEq

/-- A digit of a radix. -/
def digitOf (radix : ℕ) (c : Char) : Option ℕ :=
  (Text.hexValue c).filter (· < radix)

def numberOf (radix : ℕ) (digits : List Char) : Option ℕ :=
  digits.foldlM (fun n c => (digitOf radix c).map (n * radix + ·)) 0

/-- A part of an address: hexadecimal after `0x`, octal after `0`, otherwise decimal. -/
def ipv4Number : List Char → Option ℕ
  | [] => none
  | '0' :: 'x' :: digits | '0' :: 'X' :: digits => numberOf 16 digits
  | '0' :: c :: digits => numberOf 8 (c :: digits)
  | digits => numberOf 10 digits

/-- The parts between the dots; a last dot ends the last part. -/
def dotParts (host : List Char) : List (List Char) :=
  let parts := host.splitOnP (· = '.')
  if parts.getLast? = some [] ∧ 1 < parts.length then parts.dropLast else parts

/-- The address of up to four numbers, the last of which fills what the others leave. -/
def addressOf (numbers : List ℕ) : Option ℕ :=
  if 4 < numbers.length ∨ numbers.dropLast.any (255 < ·) ∨
      256 ^ (5 - numbers.length) ≤ numbers.getLastD 0 then none
  else some ((numbers.dropLast.zipIdx.map fun (n, i) => n * 256 ^ (3 - i)).sum +
    numbers.getLastD 0)

/-- The IPv4 parser. -/
def ipv4 (host : List Char) : Option ℕ :=
  ((dotParts host).mapM ipv4Number).bind addressOf

/-- The ends-in-a-number checker. -/
def endsInNumber (host : List Char) : Bool :=
  match (dotParts host).getLast? with
  | some last => (last ≠ [] && last.all Char.isDigit) || (ipv4Number last).isSome
  | none => false

def isForbiddenInDomain (c : Char) : Bool :=
  c.toNat ≤ 0x20 || c.toNat = 0x7F ||
    ['#', '/', ':', '<', '>', '?', '@', '[', '\\', ']', '^', '|', '%'].contains c

/-- Letters, digits, hyphens and dots. -/
def isPlain (c : Char) : Bool :=
  c.isAlphanum || c = '-' || c = '.'

theorem bounds_of_isAlpha {c : Char} (h : c.isAlpha = true) :
    0x41 ≤ c.toNat ∧ c.toNat ≤ 0x5A ∨ 0x61 ≤ c.toNat ∧ c.toNat ≤ 0x7A := by
  change (decide ('A'.val ≤ c.val ∧ c.val ≤ 'Z'.val) ||
    (decide ('a'.val ≤ c.val) && decide (c.val ≤ 'z'.val))) = true at h
  simp only [Bool.or_eq_true, Bool.and_eq_true, decide_eq_true_eq] at h
  exact h

theorem bounds_of_isDigit {c : Char} (h : c.isDigit = true) : 0x30 ≤ c.toNat ∧ c.toNat ≤ 0x39 := by
  change (decide ('0'.val ≤ c.val) && decide (c.val ≤ '9'.val)) = true at h
  simp only [Bool.and_eq_true, decide_eq_true_eq] at h
  exact h

theorem bounds_of_isPlain {c : Char} (h : isPlain c = true) : 0x2D ≤ c.toNat ∧ c.toNat < 0x7F := by
  simp only [isPlain, Char.isAlphanum, Bool.or_eq_true, decide_eq_true_eq] at h
  rcases h with ((halpha | hdigit) | rfl) | rfl
  · have hbounds := bounds_of_isAlpha halpha
    omega
  · have hbounds := bounds_of_isDigit hdigit
    omega
  · decide
  · decide

/-- What a text needs beyond this file. -/
structure Standard where
  /-- Percent-decoding and the domain to ASCII. -/
  asciiDomain : List Char → Option (List Char)
  /-- A plain domain is lower-cased, or refused for a label that is no Punycode. -/
  plain : ∀ {domain ascii : List Char}, (∀ c ∈ domain, isPlain c = true) →
    asciiDomain domain = some ascii → ascii = domain.map Char.toLower
  /-- White space outside ASCII is refused, or mapped to a space. -/
  space : ∀ {domain ascii : List Char}, (∃ c ∈ domain, Text.isWhitespace c ∧ 0x7F < c.toNat) →
    asciiDomain domain = some ascii → ' ' ∈ ascii
  ipv6 : List Char → Bool
  /-- Whether the rest of a URL of another scheme parses. -/
  other : (scheme rest : List Char) → Bool

/-- A standard that knows only plain domains. -/
def asciiOnly : Standard where
  asciiDomain domain := if domain.all isPlain then some (domain.map Char.toLower) else none
  plain {domain ascii} hplain hascii := by
    rw [if_pos (List.all_eq_true.mpr hplain)] at hascii
    exact (Option.some.inj hascii).symm
  space {domain ascii} hspace hascii := by
    obtain ⟨c, hc, -, hc'⟩ := hspace
    split_ifs at hascii with hplain
    have hbound := (bounds_of_isPlain (List.all_eq_true.mp hplain c hc)).2
    omega
  ipv6 _ := false
  other _ _ := true

/-- The host parser for `https`. -/
def parseHost (std : Standard) : List Char → Option Host
  | '[' :: rest =>
      if rest.getLast? = some ']' ∧ std.ipv6 rest.dropLast then some .ipv6 else none
  | host => do
      let name ← std.asciiDomain host
      if name = [] ∨ name.any isForbiddenInDomain then none
      else if endsInNumber name then (ipv4 name).map .ipv4
      else some (.domain name)

/-! ## Authorities -/

def isSlash (c : Char) : Bool := c = '/' ∨ c = '\\'

def endsAuthority (c : Char) : Bool := isSlash c || c = '?' || c = '#'

/-- What is after the last `@`, if there is one. -/
def afterUserinfo (authority : List Char) : Option (List Char) :=
  if '@' ∈ authority then
    let rest := authority.rtakeWhile (· ≠ '@')
    if rest = [] then none else some rest
  else some authority

/-- The host, and the port after the first colon outside brackets. -/
def splitPort (inside : Bool) : List Char → List Char × Option (List Char)
  | [] => ([], none)
  | c :: rest =>
      if c = ':' ∧ inside = false then ([], some rest)
      else
        let inside := if c = '[' then true else if c = ']' then false else inside
        let (host, port) := splitPort inside rest
        (c :: host, port)

def portOk (port : Option (List Char)) : Bool :=
  port.all fun digits => digits.all Char.isDigit && (numberOf 10 digits).all (· ≤ 65535)

/-! ## Paths -/

def inPathSet (c : Char) : Bool :=
  c.toNat ≤ 0x20 || 0x7E < c.toNat ||
    [0x22, 0x23, 0x3C, 0x3E, 0x3F, 0x5E, 0x60, 0x7B, 0x7D].contains c.toNat

def percentEncode (c : Char) : List Char :=
  if inPathSet c then
    (Text.asBytes (String.singleton c)).flatMap fun byte =>
      ['%', (Text.hexDigit (byte.toNat / 16)).toUpper, (Text.hexDigit (byte.toNat % 16)).toUpper]
  else [c]

/-- What a piece of a path becomes. -/
def segmentOf (piece : List Char) : List Char := piece.flatMap percentEncode

def isSingleDot (segment : List Char) : Bool :=
  [".", "%2e"].contains (String.ofList (segment.map Char.toLower))

def isDoubleDot (segment : List Char) : Bool :=
  ["..", ".%2e", "%2e.", "%2e%2e"].contains (String.ofList (segment.map Char.toLower))

abbrev Path := List (List Char)

/-- A segment with another one behind it. -/
def enter (path : Path) (segment : List Char) : Path :=
  if isDoubleDot segment then path.dropLast
  else if isSingleDot segment then path
  else path ++ [segment]

/-- The values the path takes as its segments are read; the last is the path.  A dot segment at
the end leaves an empty one. -/
def pathValues (path : Path) : List (List Char) → List Path
  | [] => []
  | [segment] =>
      if isDoubleDot segment then [path.dropLast, path.dropLast ++ [[]]]
      else if isSingleDot segment then [path ++ [[]]]
      else [path ++ [segment]]
  | segment :: segments => enter path segment :: pathValues (enter path segment) segments

/-- The segments of a text, before its query or fragment. -/
def segmentsOf (text : List Char) : List (List Char) :=
  ((text.takeWhile fun c => c ≠ '?' ∧ c ≠ '#').splitOnP isSlash).map segmentOf

/-- One slash begins a path. -/
def dropSlash : List Char → List Char
  | [] => []
  | c :: rest => if isSlash c then rest else c :: rest

/-! ## URLs -/

inductive Url
  | https (host : Host) (paths : List Path)
  | other (scheme : List Char)
  deriving DecidableEq

def Url.scheme : Url → List Char
  | .https .. => "https".toList
  | .other scheme => scheme

/-- The path that is asked for. -/
def Url.path : Url → Path
  | .https _ paths => paths.getLastD []
  | .other _ => []

/-- The host of an authority whose parts are well formed. -/
def hostOf (std : Standard) (authority : List Char) : Option Host := do
  let authority ← afterUserinfo authority
  let (host, port) := splitPort false authority
  if host = [] ∨ portOk port = false then none else parseHost std host

def parseHttps (std : Standard) (rest : List Char) : Option Url := do
  let rest := rest.dropWhile isSlash
  let host ← hostOf std (rest.takeWhile (!endsAuthority ·))
  some (.https host (pathValues [] (segmentsOf (dropSlash (rest.dropWhile (!endsAuthority ·))))))

/-- The basic URL parser. -/
def parse (std : Standard) (s : List Char) : Option Url := do
  let (scheme, rest) ← splitScheme (clean s)
  if scheme = "https".toList then parseHttps std rest
  else if std.other scheme rest then some (.other scheme)
  else none

/-! ## Paths that stay below a beginning -/

/-- No double-dot segment climbs above a path with so many segments. -/
def Within (depth : ℕ) : List (List Char) → Prop
  | [] => True
  | segment :: segments =>
      if isDoubleDot segment then 0 < depth ∧ Within (depth - 1) segments
      else if isSingleDot segment then Within depth segments
      else Within (depth + 1) segments

instance decidableWithin : ∀ depth segments, Decidable (Within depth segments)
  | _, [] => isTrue trivial
  | depth, segment :: segments =>
      have := decidableWithin (depth - 1) segments
      have := decidableWithin depth segments
      have := decidableWithin (depth + 1) segments
      inferInstanceAs (Decidable (
        if isDoubleDot segment then 0 < depth ∧ Within (depth - 1) segments
        else if isSingleDot segment then Within depth segments
        else Within (depth + 1) segments))

/-- The first segment is entered and begins with `start`, and none of the others leaves it.  A
last single dot stands for an empty segment. -/
def StaysBelow (start : List Char) : List (List Char) → Prop
  | [] => True
  | segment :: segments =>
      if isDoubleDot segment then False
      else if isSingleDot segment then start = [] ∧ segments = []
      else start <+: segment ∧ Within 0 segments

instance decidableStaysBelow (start : List Char) :
    ∀ segments, Decidable (StaysBelow start segments)
  | [] => isTrue trivial
  | segment :: segments =>
      inferInstanceAs (Decidable (if isDoubleDot segment then False
        else if isSingleDot segment then start = [] ∧ segments = []
        else start <+: segment ∧ Within 0 segments))

/-- A path that goes on from `base` with a segment that begins with `start`. -/
def GoesOn (base : Path) (start : List Char) (path : Path) : Prop :=
  ∃ segment, start <+: segment ∧ base ++ [segment] <+: path

theorem goesOn_append {base : Path} {start segment : List Char} (h : start <+: segment)
    (above : Path) : GoesOn base start (base ++ segment :: above) :=
  ⟨segment, h, above, by simp⟩

theorem not_goesOn_self (base : Path) (start : List Char) : ¬ GoesOn base start base := by
  rintro ⟨segment, -, hle⟩
  have hlen := hle.length_le
  rw [List.length_append, List.length_singleton] at hlen
  omega

theorem pathValues_cons {path : Path} (segment : List Char) {segments : List (List Char)}
    (h : segments ≠ []) : pathValues path (segment :: segments) =
      enter path segment :: pathValues (enter path segment) segments := by
  cases segments with
  | nil => exact absurd rfl h
  | cons next segments => rfl

theorem pathValues_ne_nil (path : Path) {segments : List (List Char)} (h : segments ≠ []) :
    pathValues path segments ≠ [] := by
  obtain ⟨segment, segments, rfl⟩ := List.exists_cons_of_ne_nil h
  cases segments with
  | nil =>
      rw [pathValues]
      split_ifs <;> simp
  | cons next segments => simp [pathValues]

/-- What is entered first plays no part in what follows but for the path it leads to. -/
theorem drop_pathValues_append (path : Path) (entered : List (List Char))
    {segments : List (List Char)} (h : segments ≠ []) :
    (pathValues path (entered ++ segments)).drop entered.length =
      pathValues (entered.foldl enter path) segments := by
  induction entered generalizing path with
  | nil => rfl
  | cons segment entered ih =>
      rw [List.cons_append, pathValues_cons segment (by simp [h]), List.length_cons,
        List.drop_succ_cons, ih, List.foldl_cons]

/-- The path that segments lead to. -/
def resolve (path : Path) : List (List Char) → Path
  | [] => path
  | [segment] =>
      if isDoubleDot segment || isSingleDot segment then enter path segment ++ [[]]
      else enter path segment
  | segment :: segments => resolve (enter path segment) segments

theorem resolve_cons {path : Path} (segment : List Char) {segments : List (List Char)}
    (h : segments ≠ []) :
    resolve path (segment :: segments) = resolve (enter path segment) segments := by
  cases segments with
  | nil => exact absurd rfl h
  | cons next segments => rfl

/-- The last of the values is the path. -/
theorem getLastD_pathValues (path : Path) {segments : List (List Char)} (h : segments ≠ []) :
    (pathValues path segments).getLastD [] = resolve path segments := by
  induction segments generalizing path with
  | nil => exact absurd rfl h
  | cons segment segments ih =>
      cases segments with
      | nil =>
          rw [pathValues, resolve, enter]
          by_cases hdouble : isDoubleDot segment = true
          · simp [hdouble]
          · by_cases hsingle : isSingleDot segment = true <;> simp [hdouble, hsingle]
      | cons next segments =>
          have hmore : next :: segments ≠ [] := List.cons_ne_nil next segments
          rw [pathValues_cons segment hmore, resolve_cons segment hmore, ← ih _ hmore,
            List.getLastD_cons, List.getLastD_eq_getLast?, List.getLastD_eq_getLast?,
            List.getLast?_eq_some_getLast (pathValues_ne_nil _ hmore), Option.getD_some,
            Option.getD_some]

theorem resolve_append (path : Path) (entered : List (List Char)) {segments : List (List Char)}
    (h : segments ≠ []) :
    resolve path (entered ++ segments) = resolve (entered.foldl enter path) segments := by
  induction entered generalizing path with
  | nil => rfl
  | cons segment entered ih =>
      rw [List.cons_append, resolve_cons segment (by simp [h]), ih, List.foldl_cons]

/-- From a path that has gone on by `above.length` more segments. -/
theorem goesOn_pathValues_iff {base : Path} {start segment : List Char} (h : start <+: segment)
    (above : Path) (segments : List (List Char)) :
    (∀ path ∈ pathValues (base ++ segment :: above) segments, GoesOn base start path) ↔
      Within above.length segments := by
  have hon : ∀ above, GoesOn base start (base ++ segment :: above) := goesOn_append h
  induction segments generalizing above with
  | nil => simp [pathValues, Within]
  | cons next segments ih =>
      by_cases hdouble : isDoubleDot next = true
      · rw [Within, if_pos hdouble]
        rcases List.eq_nil_or_concat above with rfl | ⟨above, top, rfl⟩
        · -- The path is left.
          have hleft : base ∈ pathValues (base ++ [segment]) (next :: segments) := by
            cases segments with
            | nil => simp [pathValues, hdouble]
            | cons after segments => simp [pathValues, enter, hdouble]
          refine iff_of_false (fun hall => not_goesOn_self base start (hall _ hleft)) ?_
          simp
        · have hdrop : (base ++ segment :: (above ++ [top])).dropLast =
              base ++ segment :: above := by
            rw [← List.cons_append, ← List.append_assoc, List.dropLast_concat]
          cases segments with
          | nil => simp [pathValues, hdouble, hdrop, hon, Within]
          | cons after segments =>
              rw [pathValues_cons next (by simp), enter, if_pos hdouble, List.concat_eq_append,
                hdrop, List.forall_mem_cons]
              have hrest := ih above
              simpa [hon] using hrest
      · by_cases hsingle : isSingleDot next = true
        · rw [Within, if_neg hdouble, if_pos hsingle]
          cases segments with
          | nil =>
              have hempty : base ++ segment :: above ++ [[]] =
                  base ++ segment :: (above ++ [[]]) := by simp
              simp only [pathValues, if_neg hdouble, if_pos hsingle, hempty, Within,
                List.mem_singleton, forall_eq, hon]
          | cons after segments =>
              rw [pathValues_cons next (by simp), enter, if_neg hdouble, if_pos hsingle,
                List.forall_mem_cons]
              exact (and_iff_right (hon above)).trans (ih above)
        · have hnext : base ++ segment :: above ++ [next] =
              base ++ segment :: (above ++ [next]) := by simp
          rw [Within, if_neg hdouble, if_neg hsingle]
          cases segments with
          | nil =>
              simp only [pathValues, if_neg hdouble, if_neg hsingle, hnext, Within,
                List.mem_singleton, forall_eq, hon]
          | cons after segments =>
              rw [pathValues_cons next (by simp), enter, if_neg hdouble, if_neg hsingle, hnext,
                List.forall_mem_cons]
              refine (and_iff_right (hon _)).trans ((ih _).trans ?_)
              rw [List.length_append, List.length_singleton]

/-- **What the path takes stays below its beginning** exactly when no dot segment leaves the
first segment. -/
theorem pathValues_stay_iff (base : Path) (start : List Char) {segments : List (List Char)}
    (h : segments ≠ []) : (∀ path ∈ pathValues base segments, GoesOn base start path) ↔
      StaysBelow start segments := by
  obtain ⟨first, segments, rfl⟩ := List.exists_cons_of_ne_nil h
  have hleft : ∀ {path : Path}, path.length ≤ base.length → ¬ GoesOn base start path := by
    rintro path hlen ⟨segment, -, hle⟩
    have := hle.length_le
    rw [List.length_append, List.length_singleton] at this
    omega
  rw [StaysBelow]
  by_cases hdouble : isDoubleDot first = true
  · rw [if_pos hdouble]
    have hmem : base.dropLast ∈ pathValues base (first :: segments) := by
      cases segments with
      | nil => simp [pathValues, hdouble]
      | cons after segments => simp [pathValues, enter, hdouble]
    refine iff_of_false (fun hall => hleft ?_ (hall _ hmem)) id
    rw [List.length_dropLast]
    omega
  · rw [if_neg hdouble]
    by_cases hsingle : isSingleDot first = true
    · rw [if_pos hsingle]
      cases segments with
      | nil =>
          -- An empty segment takes the place of the dot.
          simp only [pathValues, if_neg hdouble, if_pos hsingle, List.mem_singleton, forall_eq,
            and_true]
          constructor
          · rintro ⟨segment, hstart, hle⟩
            have heq := hle.eq_of_length (by simp)
            rw [List.append_cancel_left_eq, List.cons.injEq] at heq
            rw [heq.1] at hstart
            exact List.prefix_nil.mp hstart
          · rintro rfl
            exact ⟨[], List.nil_prefix, List.prefix_rfl⟩
      | cons after segments =>
          rw [pathValues_cons first (by simp), enter, if_neg hdouble, if_pos hsingle]
          refine iff_of_false (fun hall => hleft le_rfl (hall _ List.mem_cons_self)) ?_
          simp
    · rw [if_neg hsingle]
      by_cases hstart : start <+: first
      · cases segments with
        | nil =>
            have hon := @goesOn_append base _ _ hstart []
            simp only [pathValues, if_neg hdouble, if_neg hsingle, List.mem_singleton, forall_eq,
              hon, hstart, Within, and_self]
        | cons after segments =>
            rw [pathValues_cons first (by simp), enter, if_neg hdouble, if_neg hsingle,
              List.forall_mem_cons, goesOn_pathValues_iff hstart []]
            simp [hstart, goesOn_append hstart]
      · have hmem : base ++ [first] ∈ pathValues base (first :: segments) := by
          cases segments with
          | nil => simp [pathValues, hdouble, hsingle]
          | cons after segments => simp [pathValues, enter, hdouble, hsingle]
        refine iff_of_false (fun hall => ?_) fun h => hstart h.1
        obtain ⟨segment, hsegment, hle⟩ := hall _ hmem
        have heq := hle.eq_of_length (by simp)
        rw [List.append_cancel_left_eq, List.cons.injEq] at heq
        exact hstart (heq.1 ▸ hsegment)

/-! ## Reading a text in parts -/

theorem rdropWhile_append {p : Char → Bool} {c : Char} (hc : p c = false) (s t : List Char) :
    (s ++ c :: t).rdropWhile p = s ++ c :: t.rdropWhile p := by
  induction t using List.reverseRecOn with
  | nil =>
      rw [List.rdropWhile_nil, List.rdropWhile_concat_neg]
      simp [hc]
  | append_singleton t x ih =>
      rw [← List.cons_append, ← List.append_assoc]
      by_cases hx : p x = true
      · rw [List.rdropWhile_concat_pos _ _ _ hx, ih, List.rdropWhile_concat_pos _ _ _ hx]
      · rw [List.rdropWhile_concat_neg _ _ _ hx, List.rdropWhile_concat_neg _ _ _ hx,
          List.append_assoc, List.cons_append]

/-- Nothing is stripped from a text before the last character that stays, but for tabs and
newlines. -/
theorem tidy_append {c : Char} (hc : isC0OrSpace c = false) (s t : List Char) :
    tidy (s ++ c :: t) = (s ++ [c]).filter (!isTabOrNewline ·) ++ tidy t := by
  rw [tidy, tidy, rdropWhile_append hc, ← List.filter_append, List.append_assoc,
    List.singleton_append]

theorem clean_cons {c : Char} (hc : isC0OrSpace c = false) (s : List Char) :
    clean (c :: s) = tidy (c :: s) := by
  rw [clean, List.dropWhile_cons_of_neg (by simp [hc])]

theorem splitScheme_https (rest : List Char) :
    splitScheme ("https:".toList ++ rest) = some ("https".toList, rest) := rfl

/-- An authority is read up to what ends it. -/
theorem parseHttps_append (std : Standard) {authority : List Char} (hne : authority ≠ [])
    (hall : ∀ c ∈ authority, endsAuthority c = false) (rest : List Char) :
    parseHttps std ("//".toList ++ (authority ++ rest)) =
      (hostOf std (authority ++ rest.takeWhile (!endsAuthority ·))).map fun host =>
        .https host
          (pathValues [] (segmentsOf (dropSlash (rest.dropWhile (!endsAuthority ·))))) := by
  have hslash : ∀ c, endsAuthority c = false → isSlash c = false := by
    intro c hc
    by_contra hslash
    simp [endsAuthority, hslash] at hc
  have hdrop : ("//".toList ++ (authority ++ rest)).dropWhile isSlash = authority ++ rest := by
    obtain ⟨c, authority, rfl⟩ := List.exists_cons_of_ne_nil hne
    have hc := hslash c (hall c List.mem_cons_self)
    have htext : "//".toList ++ (c :: authority ++ rest) = '/' :: '/' :: c :: (authority ++ rest) :=
      rfl
    rw [htext, List.dropWhile_cons_of_pos (by decide), List.dropWhile_cons_of_pos (by decide),
      List.dropWhile_cons_of_neg (by simp [hc]), List.cons_append]
  have htake : (authority ++ rest).takeWhile (!endsAuthority ·) =
      authority ++ rest.takeWhile (!endsAuthority ·) :=
    List.takeWhile_append_of_pos fun c hc => by simp [hall c hc]
  have hrest : (authority ++ rest).dropWhile (!endsAuthority ·) =
      rest.dropWhile (!endsAuthority ·) :=
    List.dropWhile_append_of_pos fun c hc => by simp [hall c hc]
  rw [parseHttps]
  simp only [hdrop, htake, hrest]
  cases hostOf std (authority ++ rest.takeWhile (!endsAuthority ·)) <;> rfl

/-- Segments before a slash are segments of their own. -/
theorem segmentsOf_append {dir : List Char} (hdir : ∀ c ∈ dir, c ≠ '?' ∧ c ≠ '#')
    (rest : List Char) : segmentsOf (dir ++ '/' :: rest) =
      (dir.splitOnP isSlash).map segmentOf ++ segmentsOf rest := by
  have htake : (dir ++ '/' :: rest).takeWhile (fun c => c ≠ '?' ∧ c ≠ '#') =
      dir ++ '/' :: rest.takeWhile (fun c => c ≠ '?' ∧ c ≠ '#') := by
    rw [List.takeWhile_append_of_pos fun c hc => by simpa using hdir c hc,
      List.takeWhile_cons_of_pos (by decide)]
  rw [segmentsOf, htake, List.splitOnP_append_cons _ _ (by decide), List.map_append, segmentsOf]

theorem segmentsOf_ne_nil (text : List Char) : segmentsOf text ≠ [] := by
  simp [segmentsOf]

/-! ## Plain hosts -/

theorem splitPort_append {host : List Char}
    (hall : ∀ c ∈ host, c ≠ ':' ∧ c ≠ '[' ∧ c ≠ ']') (rest : List Char) :
    splitPort false (host ++ rest) =
      (host ++ (splitPort false rest).1, (splitPort false rest).2) := by
  induction host with
  | nil => rfl
  | cons c host ih =>
      obtain ⟨hcolon, hopen, hclose⟩ := hall c List.mem_cons_self
      have hrest := ih fun c hc => hall c (List.mem_cons_of_mem _ hc)
      simp [splitPort, hcolon, hopen, hclose, hrest]

theorem dotParts_ne_nil (host : List Char) : dotParts host ≠ [] := by
  rw [dotParts]
  split_ifs with h
  · intro hnil
    have hlen := congrArg List.length hnil
    rw [List.length_dropLast, List.length_nil] at hlen
    omega
  · exact List.splitOnP_ne_nil _ _

/-- A text in the spelling of an address ends in a number. -/
theorem endsInNumber_of_ipv4 {host : List Char} {address : ℕ} (h : ipv4 host = some address) :
    endsInNumber host = true := by
  obtain ⟨numbers, hnumbers, -⟩ := Option.bind_eq_some_iff.mp h
  have hlen := (Traverse.mapM_eq_some_iff.mp hnumbers).length_eq
  have hread := Traverse.getElem?_of_mapM_eq_some hnumbers ((dotParts host).length - 1)
  have hpos := List.length_pos_of_ne_nil (dotParts_ne_nil host)
  rw [← List.getLast?_eq_getElem?, List.getElem?_eq_getElem (by omega)] at hread
  rw [endsInNumber]
  cases hlast : (dotParts host).getLast? with
  | none => exact absurd (List.getLast?_eq_none_iff.mp hlast) (dotParts_ne_nil host)
  | some last =>
      rw [hlast, Option.bind_some] at hread
      simp only [← hread, Option.isSome_some, Bool.or_true]

/-- The host parser on letters, digits, hyphens and dots. -/
theorem parseHost_plain (std : Standard) {text : List Char}
    (hplain : ∀ c ∈ text, isPlain c = true) {host : Host} (h : parseHost std text = some host) :
    host = .domain (text.map Char.toLower) ∧ ipv4 (text.map Char.toLower) = none ∨
      ∃ address, host = .ipv4 address ∧ ipv4 (text.map Char.toLower) = some address := by
  rw [parseHost] at h
  case x_1 =>
    rintro rest rfl
    exact absurd (hplain _ List.mem_cons_self) (by decide)
  obtain ⟨name, hname, h⟩ := Option.bind_eq_some_iff.mp h
  rw [std.plain hplain hname] at h
  split_ifs at h with hforbidden hnumber
  · obtain ⟨address, haddress, rfl⟩ := Option.map_eq_some_iff.mp h
    exact .inr ⟨address, rfl, haddress⟩
  · refine .inl ⟨(Option.some.inj h).symm, ?_⟩
    by_contra haddress
    obtain ⟨address, haddress⟩ := Option.ne_none_iff_exists'.mp haddress
    exact hnumber (endsInNumber_of_ipv4 haddress)

/-- The host parser refuses white space outside ASCII. -/
theorem parseHost_of_space (std : Standard) {text : List Char} (hopen : text.head? ≠ some '[')
    (h : ∃ c ∈ text, Text.isWhitespace c ∧ 0x7F < c.toNat) : parseHost std text = none := by
  rw [parseHost]
  case x_1 =>
    rintro rest rfl
    exact hopen rfl
  cases hname : std.asciiDomain text with
  | none => rfl
  | some name =>
      have hspace : name.any isForbiddenInDomain = true :=
        List.any_eq_true.mpr ⟨' ', std.space h hname, by decide⟩
      exact if_pos (.inr hspace)

end UrlStandard
