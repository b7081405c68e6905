import SorobanExplorer.Lib.UrlStandard
import SorobanExplorer.Enrichment.TokenUri

/-!
# What the check of a token URI is worth

The check and the HTTP client read one text by different rules.

* `splitScheme_clean`: white space around the text hides its scheme or leaves it alone;
* `parseHost_of_hostOf`: the client's host is the one the check looked at, or none;
* `parse_https`: an accepted `https` text names a domain, or an address that the check does not
  read as one;
* `parse_gateway`: behind a gateway the client's path goes on from the gateway's;
* `guarded_iff` assembles them.
-/

namespace SorobanExplorer

namespace TokenUri

open Text UrlStandard

/-! ## White space around a text -/

theorem exists_trim (s : List Char) : ∃ lead trail, s = lead ++ trim s ++ trail ∧
    (∀ c ∈ lead, isWhitespace c = true) ∧ ∀ c ∈ trail, isWhitespace c = true := by
  refine ⟨s.takeWhile isWhitespace,
    ((s.dropWhile isWhitespace).reverse.takeWhile isWhitespace).reverse, ?_, ?_, ?_⟩
  · rw [trim, List.append_assoc, ← List.reverse_append, List.takeWhile_append_dropWhile,
      List.reverse_reverse, List.takeWhile_append_dropWhile]
  · exact fun c hc => List.mem_takeWhile_imp hc
  · exact fun c hc => List.mem_takeWhile_imp (List.mem_reverse.mp hc)

theorem not_isAlpha_of_isWhitespace {c : Char} (h : isWhitespace c = true) :
    c.isAlpha = false := by
  by_contra halpha
  have hbounds := bounds_of_isAlpha (eq_true_of_ne_false halpha)
  simp [isWhitespace] at h
  omega

theorem lt_of_isWhitespace {c : Char} (h : isWhitespace c = true)
    (hc : isC0OrSpace c = false) : 0x7F < c.toNat := by
  simp [isWhitespace] at h
  simp [isC0OrSpace] at hc
  omega

theorem not_endsAuthority_of_isWhitespace {c : Char} (h : isWhitespace c = true) :
    endsAuthority c = false := by
  by_contra hends
  have hends := eq_true_of_ne_false hends
  simp only [endsAuthority, isSlash, Bool.or_eq_true, decide_eq_true_eq] at hends
  rcases hends with ((rfl | rfl) | rfl) | rfl <;> exact absurd h (by decide)

/-- In front of a text, white space is stripped, or there is no scheme. -/
theorem splitScheme_clean {uri less rest : List Char} {first last : Char}
    (h : trim uri = first :: (less ++ [last]) ++ rest) (hfirst : isC0OrSpace first = false)
    (hlast : isC0OrSpace last = false)
    (htabs : (first :: (less ++ [last])).all (!isTabOrNewline ·) = true) :
    splitScheme (clean uri) = none ∨
      ∃ trail, (∀ c ∈ trail, isWhitespace c = true) ∧
        clean uri = first :: (less ++ [last]) ++ tidy (rest ++ trail) := by
  obtain ⟨lead, trail, huri, hlead, htrail⟩ := exists_trim uri
  -- what is dropped ends before the first character of the scheme
  have hdropped : uri.dropWhile isC0OrSpace =
      lead.dropWhile isC0OrSpace ++ (first :: less ++ last :: (rest ++ trail)) := by
    have hsplit : first :: (less ++ [last]) ++ rest ++ trail =
        first :: less ++ last :: (rest ++ trail) := by simp
    rw [huri, h, List.append_assoc, hsplit, List.dropWhile_append]
    split_ifs with hempty
    · rw [List.isEmpty_iff.mp hempty, List.nil_append, List.cons_append,
        List.dropWhile_cons_of_neg (by simp [hfirst])]
    · rfl
  cases hdrop : lead.dropWhile isC0OrSpace with
  | nil =>
      refine .inr ⟨trail, htrail, ?_⟩
      calc clean uri = tidy (first :: less ++ last :: (rest ++ trail)) := by
            rw [clean, hdropped, hdrop, List.nil_append]
        _ = (first :: less ++ [last]).filter (!isTabOrNewline ·) ++ tidy (rest ++ trail) :=
            tidy_append hlast _ _
        _ = first :: (less ++ [last]) ++ tidy (rest ++ trail) := by
            rw [List.cons_append, List.filter_eq_self.mpr (List.all_eq_true.mp htabs)]
  | cons c more =>
      -- What stays in front is no letter.
      have hmem : c ∈ lead := (List.dropWhile_suffix _).subset (hdrop ▸ List.mem_cons_self)
      have hcontrol : isC0OrSpace c = false := by
        have hhead := List.head?_dropWhile_not isC0OrSpace lead
        rw [hdrop] at hhead
        simpa using hhead
      have htab : isTabOrNewline c = false := by
        simp [isC0OrSpace] at hcontrol
        simp [isTabOrNewline]
        omega
      have hstays : clean uri = c :: tidy (more ++ (first :: less ++ last :: (rest ++ trail))) :=
        calc clean uri
            = tidy ([] ++ c :: (more ++ (first :: less ++ last :: (rest ++ trail)))) := by
              rw [clean, hdropped, hdrop, List.cons_append, List.nil_append]
          _ = [c].filter (!isTabOrNewline ·) ++
                tidy (more ++ (first :: less ++ last :: (rest ++ trail))) :=
              tidy_append hcontrol _ _
          _ = _ := by
              rw [List.filter_cons_of_pos (by simp [htab]), List.filter_nil, List.singleton_append]
      refine .inl ?_
      rw [hstays, splitScheme, if_neg (by simp [not_isAlpha_of_isWhitespace (hlead c hmem)])]

/-! ## One host under two readings -/

theorem isDelimiter_cases {c : Char} (h : isDelimiter c = true) : c = '/' ∨ c = '?' ∨ c = '#' := by
  simpa [isDelimiter] using h

/-- What follows the host that the check looks at, and the authority in which it looks. -/
theorem exists_after (host : List Char) : ∃ after, host = hostOnly host ++ after ∧
    authorityOf host = hostOnly host ++ after.takeWhile (!isDelimiter ·) ∧
    (after = [] ∨ ∃ c rest, after = c :: rest ∧ c ∈ [':', '/', '?', '#']) := by
  have honly : hostOnly host =
      host.takeWhile fun c => isDelimiter c = false ∧ c ≠ ':' := by
    rw [hostOnly, authorityOf, List.takeWhile_takeWhile]
    congr 1
    funext c
    simp [and_comm]
  have hsplit : hostOnly host ++
      (host.dropWhile fun c => isDelimiter c = false ∧ c ≠ ':') = host := by
    rw [honly, List.takeWhile_append_dropWhile]
  refine ⟨_, hsplit.symm, ?_, ?_⟩
  · -- the host has no delimiter, so it lies inside the authority
    have hall : ∀ c ∈ hostOnly host, (!isDelimiter c) = true := by
      intro c hc
      rw [honly] at hc
      have hboth := List.mem_takeWhile_imp hc
      rw [decide_eq_true_eq] at hboth
      rw [hboth.1]
      rfl
    rw [← List.takeWhile_append_of_pos hall, hsplit, authorityOf]
  · cases hafter : host.dropWhile fun c => isDelimiter c = false ∧ c ≠ ':' with
    | nil => exact .inl rfl
    | cons c rest =>
        refine .inr ⟨c, rest, rfl, ?_⟩
        have hhead := List.head?_dropWhile_not
          (fun c => decide (isDelimiter c = false ∧ c ≠ ':')) host
        rw [hafter, List.head?_cons] at hhead
        have hends : isDelimiter c = true ∨ c = ':' := by
          by_contra hc
          simp_all
        rw [List.mem_cons]
        rcases hends with hends | rfl
        · exact .inr (by simpa using isDelimiter_cases hends)
        · exact .inl rfl

theorem mem_takeWhile_filter {p q r : Char → Bool} (hr : ∀ c, r c = true → p c = true)
    (hq : ∀ c, q c = false → p c = true) {l : List Char} {c : Char}
    (h : c ∈ (l.filter q).takeWhile r) : c ∈ l.takeWhile p := by
  induction l with
  | nil => exact h
  | cons x l ih =>
      by_cases hx : q x = true
      · rw [List.filter_cons_of_pos hx] at h
        by_cases hrx : r x = true
        · rw [List.takeWhile_cons_of_pos hrx] at h
          rw [List.takeWhile_cons_of_pos (hr x hrx)]
          rcases List.mem_cons.mp h with rfl | h
          · exact List.mem_cons_self
          · exact List.mem_cons_of_mem _ (ih h)
        · rw [List.takeWhile_cons_of_neg hrx] at h
          cases h
      · rw [List.filter_cons_of_neg hx] at h
        rw [List.takeWhile_cons_of_pos (hq x (eq_false_of_ne_true hx))]
        exact List.mem_cons_of_mem _ (ih h)

/-- The client's authority is no longer than the check's. -/
theorem mem_takeWhile_tidy {s : List Char} {c : Char}
    (h : c ∈ (tidy s).takeWhile (!endsAuthority ·)) :
    c ∈ s.takeWhile (!isDelimiter ·) := by
  have hmem : c ∈ (s.rdropWhile isC0OrSpace).takeWhile (!isDelimiter ·) := by
    refine mem_takeWhile_filter (fun x hx => ?_) (fun x hx => ?_) h
    · by_contra hends
      simp only [Bool.not_eq_true', Bool.not_eq_false] at hends
      rcases isDelimiter_cases hends with rfl | rfl | rfl <;> exact absurd hx (by decide)
    · by_contra hends
      simp only [Bool.not_eq_true', Bool.not_eq_false] at hends
      rcases isDelimiter_cases hends with rfl | rfl | rfl <;> exact absurd hx (by decide)
  obtain ⟨rest, hrest⟩ := List.rdropWhile_prefix isC0OrSpace s
  rw [← hrest, List.takeWhile_append]
  split_ifs
  · exact List.mem_append_left _ ((List.takeWhile_prefix _).subset hmem)
  · exact hmem

/-- White space behind the host is stripped, or some of it is outside ASCII. -/
theorem tidy_trail {trail : List Char} (h : ∀ c ∈ trail, isWhitespace c = true) :
    tidy trail = [] ∨ ∃ c ∈ tidy trail, isWhitespace c = true ∧ 0x7F < c.toNat := by
  by_cases hnil : trail.rdropWhile isC0OrSpace = []
  · exact .inl (by rw [tidy, hnil, List.filter_nil])
  · have hmem := List.getLast_mem hnil
    have hspace := h _ ((List.rdropWhile_prefix isC0OrSpace trail).subset hmem)
    have hlast := List.rdropWhile_last_not isC0OrSpace trail hnil
    have hascii := lt_of_isWhitespace hspace (eq_false_of_ne_true hlast)
    refine .inr ⟨_, List.mem_filter.mpr ⟨hmem, ?_⟩, hspace, hascii⟩
    simp [isTabOrNewline]
    omega

theorem isPlain_of_httpsOk {host : List Char} (h : httpsOk host = true) :
    hostOnly host ≠ [] ∧ (∀ c ∈ hostOnly host, isPlain c = true) ∧ '@' ∉ authorityOf host := by
  simp only [httpsOk, Bool.and_eq_true, Bool.not_eq_true', List.all_eq_true,
    decide_eq_true_eq] at h
  obtain ⟨⟨⟨⟨huserinfo, hne⟩, hall⟩, -⟩, -⟩ := h
  refine ⟨hne, fun c hc => ?_, fun hmem => ?_⟩
  · have hplain := hall c hc
    simp only [isHostChar, Bool.or_eq_true] at hplain
    simp only [isPlain, Bool.or_eq_true]
    tauto
  · rw [List.contains_iff_mem.mpr hmem] at huserinfo
    cases huserinfo

theorem ne_of_isPlain {c d : Char} (h : isPlain c = true) (hd : isPlain d = false) : c ≠ d := by
  rintro rfl
  rw [h] at hd
  cases hd

theorem stays_of_isPlain {c : Char} (h : isPlain c = true) :
    isC0OrSpace c = false ∧ isTabOrNewline c = false ∧ endsAuthority c = false := by
  have hle := (bounds_of_isPlain h).1
  refine ⟨?_, ?_, ?_⟩
  · simp [isC0OrSpace]
    omega
  · simp [isTabOrNewline]
    omega
  · simp only [endsAuthority, isSlash, Bool.or_eq_false_iff, decide_eq_false_iff_not, not_or]
    exact ⟨⟨⟨ne_of_isPlain h (by decide), ne_of_isPlain h (by decide)⟩,
      ne_of_isPlain h (by decide)⟩, ne_of_isPlain h (by decide)⟩

/-- White space after the text brings no user before its host. -/
theorem notMem_userinfo {host after trail : List Char} (huserinfo : '@' ∉ authorityOf host)
    (hauthority : authorityOf host = hostOnly host ++ after.takeWhile (!isDelimiter ·))
    (htrail : ∀ c ∈ trail, isWhitespace c = true) :
    '@' ∉ hostOnly host ++ (tidy (after ++ trail)).takeWhile (!endsAuthority ·) := by
  rw [hauthority, List.mem_append, not_or] at huserinfo
  intro hmem
  rcases List.mem_append.mp hmem with hmem | hmem
  · exact huserinfo.1 hmem
  · have hmem := mem_takeWhile_tidy hmem
    rw [List.takeWhile_append] at hmem
    split_ifs at hmem with hlen
    · have hwhole := (List.takeWhile_prefix _).eq_of_length hlen
      rw [hwhole] at huserinfo
      rcases List.mem_append.mp hmem with hmem | hmem
      · exact huserinfo.2 hmem
      · exact absurd (htrail _ ((List.takeWhile_prefix _).subset hmem)) (by decide)
    · exact huserinfo.2 hmem

/-- What is left of white space after a host is read as part of the host. -/
theorem splitPort_trail {trail : List Char} (htrail : ∀ c ∈ trail, isWhitespace c = true) :
    splitPort false ((tidy trail).takeWhile (!endsAuthority ·)) = (tidy trail, none) := by
  have hall : ∀ x ∈ tidy trail, isWhitespace x = true := fun x hx =>
    htrail x ((List.rdropWhile_prefix isC0OrSpace trail).subset (List.mem_filter.mp hx).1)
  have htake : (tidy trail).takeWhile (!endsAuthority ·) = tidy trail := by
    rw [List.takeWhile_eq_self_iff]
    intro x hx
    rw [not_endsAuthority_of_isWhitespace (hall x hx)]
    rfl
  have hcolon : ∀ x ∈ tidy trail, x ≠ ':' ∧ x ≠ '[' ∧ x ≠ ']' := by
    intro x hx
    refine ⟨?_, ?_, ?_⟩ <;> rintro rfl <;> exact absurd (hall _ hx) (by decide)
  rw [htake]
  simpa [splitPort] using splitPort_append hcolon []

/-- A port, a path, a query or a fragment ends the host, whatever follows. -/
theorem splitPort_delimited {c : Char} {rest trail : List Char} (hc : c ∈ [':', '/', '?', '#']) :
    (splitPort false ((tidy (c :: rest ++ trail)).takeWhile (!endsAuthority ·))).1 = [] := by
  have hkept : isC0OrSpace c = false ∧ isTabOrNewline c = false := by
    simp only [List.mem_cons, List.not_mem_nil, or_false] at hc
    rcases hc with rfl | rfl | rfl | rfl <;> decide
  have htidy : tidy (c :: rest ++ trail) = c :: tidy (rest ++ trail) := by
    rw [List.cons_append, ← List.nil_append (c :: _), tidy_append hkept.1, List.nil_append,
      List.filter_cons_of_pos (by simp [hkept.2])]
    rfl
  rw [htidy]
  simp only [List.mem_cons, List.not_mem_nil, or_false] at hc
  rcases hc with rfl | rfl | rfl | rfl
  · rw [List.takeWhile_cons_of_pos (by decide)]
    simp [splitPort]
  · rw [List.takeWhile_cons_of_neg (by decide)]
    rfl
  · rw [List.takeWhile_cons_of_neg (by decide)]
    rfl
  · rw [List.takeWhile_cons_of_neg (by decide)]
    rfl

/-- The client reads the host that the check looked at, or refuses the text. -/
theorem parseHost_of_hostOf (std : Standard) {host after trail : List Char} {h : Host}
    (hok : httpsOk host = true) (hauthority : authorityOf host =
      hostOnly host ++ after.takeWhile (!isDelimiter ·))
    (hafter : after = [] ∨ ∃ c rest, after = c :: rest ∧ c ∈ [':', '/', '?', '#'])
    (htrail : ∀ c ∈ trail, isWhitespace c = true)
    (hread : hostOf std (hostOnly host ++
      (tidy (after ++ trail)).takeWhile (!endsAuthority ·)) = some h) :
    parseHost std (hostOnly host) = some h := by
  obtain ⟨hne, hplain, huserinfo⟩ := isPlain_of_httpsOk hok
  have hnoPort : ∀ c ∈ hostOnly host, c ≠ ':' ∧ c ≠ '[' ∧ c ≠ ']' := fun c hc =>
    ⟨ne_of_isPlain (hplain c hc) (by decide), ne_of_isPlain (hplain c hc) (by decide),
      ne_of_isPlain (hplain c hc) (by decide)⟩
  rw [hostOf, afterUserinfo, if_neg (notMem_userinfo huserinfo hauthority htrail),
    Option.bind_eq_bind, Option.bind_some, splitPort_append hnoPort] at hread
  dsimp only at hread
  split_ifs at hread with hport
  have hsame : (splitPort false ((tidy (after ++ trail)).takeWhile (!endsAuthority ·))).1 = [] →
      parseHost std (hostOnly host) = some h := by
    intro hnil
    rwa [hnil, List.append_nil] at hread
  rcases hafter with rfl | ⟨c, rest, rfl, hc⟩
  · rw [List.nil_append] at hread hsame
    rcases tidy_trail htrail with hnil | ⟨c, hc, hspace⟩
    · rw [hnil] at hsame
      exact hsame rfl
    · -- White space outside ASCII is left in the host, which is then no host.
      rw [splitPort_trail htrail,
        parseHost_of_space std ?_ ⟨c, List.mem_append_right _ hc, hspace⟩] at hread
      · cases hread
      · obtain ⟨first, more, hcons⟩ := List.exists_cons_of_ne_nil hne
        have hfirst := hplain first (hcons ▸ List.mem_cons_self)
        rw [hcons, List.cons_append, List.head?_cons, ne_eq, Option.some.injEq]
        exact ne_of_isPlain hfirst (by decide)
  · exact hsame (splitPort_delimited hc)

theorem strip_eq_some_iff {start s rest : List Char} :
    strip start s = some rest ↔ s = start ++ rest := by
  rw [strip]
  split_ifs with h
  · obtain ⟨after, rfl⟩ := List.isPrefixOf_iff_prefix.mp h
    rw [List.drop_left, Option.some.injEq, List.append_cancel_left_eq]
  · refine iff_of_false (by simp) ?_
    rintro rfl
    exact h (List.isPrefixOf_iff_prefix.mpr (List.prefix_append _ _))

/-- An accepted `https` text that parses names a domain, or an address that the check does not
read as one. -/
theorem parse_https (std : Standard) {uri host : List Char} {parsed : Url}
    (huri : trim uri = "https://".toList ++ host) (hok : httpsOk host = true)
    (hparse : parse std uri = some parsed) : ∃ named paths, parsed = .https named paths ∧
      (named = .domain ((hostOnly host).map Char.toLower) ∧
          ipv4 ((hostOnly host).map Char.toLower) = none ∨
        ∃ address, named = .ipv4 address ∧
          ipv4 ((hostOnly host).map Char.toLower) = some address) := by
  obtain ⟨hne, hplain, -⟩ := isPlain_of_httpsOk hok
  obtain ⟨after, hhost, hauthority, hafter⟩ := exists_after host
  obtain ⟨scheme, hscheme, hparse⟩ := Option.bind_eq_some_iff.mp hparse
  have hstart : "https://".toList = 'h' :: ("ttps:/".toList ++ ['/']) := rfl
  rw [hstart] at huri
  rcases splitScheme_clean huri (by decide) (by decide) (by decide) with
    hnone | ⟨trail, htrail, hclean⟩
  · rw [hnone] at hscheme
    cases hscheme
  · obtain ⟨less, last, hlast⟩ : ∃ less last, hostOnly host = less ++ [last] :=
      ⟨_, _, (List.dropLast_append_getLast hne).symm⟩
    have hmem : last ∈ hostOnly host := hlast ▸ List.mem_append_right _ List.mem_cons_self
    -- no tab or newline, and no space at its end, is in the host
    have htext : tidy (host ++ trail) = hostOnly host ++ tidy (after ++ trail) := by
      have hparts : host ++ trail = less ++ last :: (after ++ trail) := by
        conv_lhs => rw [hhost, hlast]
        simp
      rw [hparts, tidy_append (stays_of_isPlain (hplain last hmem)).1, ← hlast,
        List.filter_eq_self.mpr fun c hc => by simp [(stays_of_isPlain (hplain c hc)).2.1]]
    -- so the client sees the same host
    have hsplit : splitScheme (clean uri) = some ("https".toList,
        "//".toList ++ (hostOnly host ++ tidy (after ++ trail))) := by
      rw [hclean, htext]
      exact splitScheme_https _
    rw [hsplit, Option.some.injEq] at hscheme
    subst hscheme
    simp only [if_true] at hparse
    rw [parseHttps_append std hne fun c hc => (stays_of_isPlain (hplain c hc)).2.2] at hparse
    obtain ⟨named, hnamed, rfl⟩ := Option.map_eq_some_iff.mp hparse
    exact ⟨named, _, rfl, parseHost_plain std hplain
      (parseHost_of_hostOf std hok hauthority hafter htrail hnamed)⟩

/-! ## Behind a gateway -/

/-- A text that names content has a scheme that the client does not speak. -/
theorem scheme_of_ipfs (std : Standard) {uri rest : List Char} {parsed : Url}
    (huri : trim uri = "ipfs://".toList ++ rest) (hparse : parse std uri = some parsed) :
    parsed = .other "ipfs".toList := by
  obtain ⟨scheme, hscheme, hparse⟩ := Option.bind_eq_some_iff.mp hparse
  have hstart : "ipfs://".toList = 'i' :: ("pfs:/".toList ++ ['/']) := rfl
  rw [hstart] at huri
  rcases splitScheme_clean huri (by decide) (by decide) (by decide) with hnone | ⟨trail, -, hclean⟩
  · rw [hnone] at hscheme
    cases hscheme
  · have hsplit : splitScheme (clean uri) = some ("ipfs".toList,
        "//".toList ++ tidy (rest ++ trail)) := by
      rw [hclean]
      rfl
    rw [hsplit, Option.some.injEq] at hscheme
    subst hscheme
    have hparse : (if std.other "ipfs".toList ("//".toList ++ tidy (rest ++ trail)) then
        some (Url.other "ipfs".toList) else none) = some parsed := hparse
    split_ifs at hparse
    exact (Option.some.inj hparse).symm

/-- A gateway: an `https` URL of a domain that ends in a slash, before any query. -/
structure HttpsBase (std : Standard) (base : List Char) : Prop where
  shape : ∃ authority dir, base = "https://".toList ++ (authority ++ '/' :: dir) ∧
    authority ≠ [] ∧ (∀ c ∈ authority, endsAuthority c = false) ∧
    ∀ c ∈ dir, c ≠ '?' ∧ c ≠ '#'
  slash : base.getLast? = some '/'
  noTabs : ∀ c ∈ base, isTabOrNewline c = false
  domain : ∃ name paths, parse std base = some (.https (.domain name) paths)

theorem clean_append {base : List Char} {std : Standard} (h : HttpsBase std base)
    (rest : List Char) : clean (base ++ rest) = base ++ tidy rest := by
  obtain ⟨authority, dir, hbase, -⟩ := h.shape
  obtain ⟨less, rfl⟩ := List.getLast?_eq_some_iff.mp h.slash
  have hfirst : ∃ more, less ++ ['/'] ++ rest = 'h' :: more := ⟨_, by rw [hbase]; rfl⟩
  obtain ⟨more, hmore⟩ := hfirst
  rw [hmore, clean_cons (by decide), ← hmore, List.append_assoc, List.singleton_append,
    tidy_append (by decide), List.filter_eq_self.mpr fun c hc => by simp [h.noTabs c hc]]

/-- Where a folder's text ends, a new segment begins. -/
theorem exists_entered {dir : List Char} (hdir : ∀ c ∈ dir, c ≠ '?' ∧ c ≠ '#')
    (hslash : ('/' :: dir).getLast? = some '/') : ∃ entered : Path,
      ∀ rest, segmentsOf (dir ++ rest) = entered ++ segmentsOf rest := by
  rcases List.eq_nil_or_concat dir with rfl | ⟨less, last, rfl⟩
  · exact ⟨[], fun rest => rfl⟩
  · rw [List.concat_eq_append] at hdir hslash ⊢
    rw [← List.cons_append, List.getLast?_concat, Option.some.injEq] at hslash
    subst hslash
    refine ⟨(less.splitOnP isSlash).map segmentOf, fun rest => ?_⟩
    rw [List.append_assoc, List.singleton_append,
      segmentsOf_append fun c hc => hdir c (List.mem_append_left _ hc)]

theorem parse_append {std : Standard} {authority dir : List Char} {rest : List Char}
    (h : HttpsBase std ("https://".toList ++ (authority ++ '/' :: dir))) (hne : authority ≠ [])
    (hall : ∀ c ∈ authority, endsAuthority c = false) :
    parse std ("https://".toList ++ (authority ++ '/' :: dir) ++ rest) =
      (hostOf std authority).map fun host =>
        .https host (pathValues [] (segmentsOf (dir ++ tidy rest))) := by
  have hsplit : splitScheme (clean ("https://".toList ++ (authority ++ '/' :: dir) ++ rest)) =
      some ("https".toList, "//".toList ++ (authority ++ '/' :: (dir ++ tidy rest))) := by
    rw [clean_append h]
    have hparts : "https://".toList ++ (authority ++ '/' :: dir) ++ tidy rest =
        "https:".toList ++ ("//".toList ++ (authority ++ '/' :: (dir ++ tidy rest))) := by
      simp
    rw [hparts, splitScheme_https]
  have hparse := parseHttps_append std hne hall ('/' :: (dir ++ tidy rest))
  rw [List.takeWhile_cons_of_neg (by decide), List.dropWhile_cons_of_neg (by decide),
    List.append_nil] at hparse
  rw [parse, hsplit]
  exact hparse

/-- Behind a gateway, the host is the gateway's, and the path goes on from its folder. -/
theorem parse_gateway {std : Standard} {base : List Char} (h : HttpsBase std base) :
    ∃ name entered basePaths, parse std base = some (.https (.domain name) basePaths) ∧
      basePaths.length = entered.length + 1 ∧
      (basePaths.getLastD []).dropLast = entered.foldl enter [] ∧
      ∀ rest, parse std (base ++ rest) =
        some (.https (.domain name) (pathValues [] (entered ++ segmentsOf (tidy rest)))) := by
  obtain ⟨authority, dir, rfl, hne, hall, hdir⟩ := h.shape
  obtain ⟨name, basePaths, hbase⟩ := h.domain
  have hslash : ('/' :: dir).getLast? = some '/' := by
    have hslash := h.slash
    rwa [List.getLast?_append_of_ne_nil _ (by simp), List.getLast?_append_of_ne_nil _ (by simp)]
      at hslash
  -- the base ends in a slash: its folder is entered whole
  obtain ⟨entered, hentered⟩ := exists_entered hdir hslash
  have hown := @parse_append std authority dir [] h hne hall
  rw [List.append_nil, hbase] at hown
  obtain ⟨host, hhost, hown⟩ := Option.map_eq_some_iff.mp hown.symm
  rw [Url.https.injEq] at hown
  obtain ⟨rfl, rfl⟩ := hown
  have hdrop : (pathValues [] (segmentsOf (dir ++ tidy []))).drop entered.length =
      [entered.foldl enter [] ++ [[]]] := by
    rw [hentered, drop_pathValues_append [] entered (segmentsOf_ne_nil _)]
    rfl
  refine ⟨name, entered, _, hbase, ?_, ?_, fun rest => ?_⟩
  · have hlen := congrArg List.length hdrop
    rw [List.length_drop, List.length_singleton] at hlen
    omega
  · have hlast := congrArg List.getLast? hdrop
    rw [List.getLast?_drop] at hlast
    split_ifs at hlast
    · simp at hlast
    · rw [List.getLastD_eq_getLast?, hlast, List.getLast?_singleton, Option.getD_some,
        List.dropLast_concat]
  · rw [parse_append h hne hall, hhost, hentered]
    rfl

/-! ## What may be fetched -/

/-- A URL that the HTTP client fetches: one it can read, whose scheme it speaks. -/
def Fetches (std : Standard) (url : List Char) (parsed : Url) : Prop :=
  parse std url = some parsed ∧
    (parsed.scheme = "https".toList ∨ parsed.scheme = "http".toList)

/-- The content id of a text as the check reads it. -/
def validatedCid (uri : List Char) : List Char :=
  cidOf ((strip "ipfs://".toList (trim uri)).getD [])

/-- The segment that the path form of a gateway puts before the content. -/
def leadOf (rest : List Char) : Path :=
  if (strip "ipfs/".toList rest).isSome then ["ipfs".toList] else []

def contentOf (rest : List Char) : List Char :=
  (strip "ipfs/".toList rest).getD rest

/-- From the gateway's folder on, all the values that the path takes are in that folder, in a
segment that begins with the content id. -/
def BelowContent (paths basePaths : List Path) (lead : Path) (cid : List Char) : Prop :=
  basePaths.length - 1 + lead.length < paths.length ∧
    ∀ path ∈ paths.drop (basePaths.length - 1 + lead.length),
      GoesOn ((basePaths.getLastD []).dropLast ++ lead) (segmentOf cid) path

/-- The path that is asked for is one of these values. -/
theorem BelowContent.last {paths basePaths : List Path} {lead : Path} {cid : List Char}
    (h : BelowContent paths basePaths lead cid) (host : Host) :
    GoesOn ((basePaths.getLastD []).dropLast ++ lead) (segmentOf cid)
      (Url.https host paths).path := by
  obtain ⟨hmore, hall⟩ := h
  apply hall
  have hne : paths.drop (basePaths.length - 1 + lead.length) ≠ [] := by
    simpa [List.drop_eq_nil_iff] using hmore
  have hlast := List.getLast_mem hne
  rw [List.getLast_drop] at hlast
  rw [Url.path, List.getLastD_eq_getLast?, List.getLast?_eq_some_getLast, Option.getD_some]
  exact hlast

/-- What is fetched for a text is asked of a domain over `https`, and for content below the
gateway's folder and the content id, in the end and on the way there. -/
structure Guarded (std : Standard) (base32Nopad : List Char → Option (List UInt8))
    (uri : List Char) (gateways : List (List Char)) : Prop where
  domain : ∀ urls, fetchUncached base32Nopad uri gateways = .ok urls → ∀ url ∈ urls,
    ∀ parsed, Fetches std url parsed → ∃ name paths, parsed = .https (.domain name) paths
  content : ∀ rest, uri = "ipfs://".toList ++ rest → ∀ base ∈ gateways,
    ∀ host paths host' basePaths, parse std base = some (.https host' basePaths) →
      parse std (base ++ rest) = some (.https host paths) →
      BelowContent paths basePaths (leadOf rest) (validatedCid uri) ∧
        GoesOn ((basePaths.getLastD []).dropLast ++ leadOf rest) (segmentOf (validatedCid uri))
          (Url.https host paths).path

/-- The inputs that the check guards. -/
def HoldsWhen (std : Standard) (uri : List Char) (gateways : List (List Char)) : Prop :=
  (∀ host, trim uri = "https://".toList ++ host →
    parse std uri = none ∨ ipv4 ((hostOnly host).map Char.toLower) = none) ∧
  ∀ rest, uri = "ipfs://".toList ++ rest → gateways = [] ∨
    StaysBelow (segmentOf (validatedCid uri)) (segmentsOf (tidy (contentOf rest)))

/-- The lead and the content have segments of their own. -/
theorem segmentsOf_rest (rest : List Char) :
    segmentsOf (tidy rest) = leadOf rest ++ segmentsOf (tidy (contentOf rest)) := by
  rw [leadOf, contentOf]
  cases hstrip : strip "ipfs/".toList rest with
  | none => rfl
  | some content =>
      obtain rfl := strip_eq_some_iff.mp hstrip
      have hparts : "ipfs/".toList ++ content = "ipfs".toList ++ '/' :: content := by simp
      have htidy : tidy ("ipfs/".toList ++ content) = "ipfs".toList ++ '/' :: tidy content := by
        have htabs : ("ipfs".toList ++ ['/']).all (!isTabOrNewline ·) = true := by decide
        rw [hparts, tidy_append (by decide), List.filter_eq_self.mpr (List.all_eq_true.mp htabs),
          List.append_assoc, List.singleton_append]
      have hquery : "ipfs".toList.all (fun c => c ≠ '?' ∧ c ≠ '#') = true := by decide
      rw [htidy, segmentsOf_append fun c hc => of_decide_eq_true (List.all_eq_true.mp hquery c hc),
        Option.isSome_some, if_pos rfl, Option.getD_some]
      congr 1

theorem foldl_enter_leadOf (base : Path) (rest : List Char) :
    (leadOf rest).foldl enter base = base ++ leadOf rest := by
  rw [leadOf]
  split_ifs
  · have hdot : isDoubleDot "ipfs".toList = false ∧ isSingleDot "ipfs".toList = false := by decide
    rw [List.foldl_cons, List.foldl_nil, enter, hdot.1, hdot.2]
    rfl
  · exact (List.append_nil base).symm

/-- The path behind a gateway stays below the content exactly when its segments do. -/
theorem belowContent_iff {entered : Path} {basePaths : List Path}
    (hlen : basePaths.length = entered.length + 1)
    (hlast : (basePaths.getLastD []).dropLast = entered.foldl enter []) (rest cid : List Char) :
    BelowContent (pathValues [] (entered ++ segmentsOf (tidy rest))) basePaths (leadOf rest) cid ↔
      StaysBelow (segmentOf cid) (segmentsOf (tidy (contentOf rest))) := by
  have hne := segmentsOf_ne_nil (tidy (contentOf rest))
  have hcount : basePaths.length - 1 + (leadOf rest).length = (entered ++ leadOf rest).length := by
    rw [List.length_append]
    omega
  have hdrop : (pathValues [] (entered ++ segmentsOf (tidy rest))).drop
        (basePaths.length - 1 + (leadOf rest).length) =
      pathValues (entered.foldl enter [] ++ leadOf rest)
        (segmentsOf (tidy (contentOf rest))) := by
    rw [segmentsOf_rest, ← List.append_assoc, hcount, drop_pathValues_append [] _ hne,
      List.foldl_append, foldl_enter_leadOf]
  have hmore : basePaths.length - 1 + (leadOf rest).length <
      (pathValues [] (entered ++ segmentsOf (tidy rest))).length := by
    by_contra hle
    rw [List.drop_eq_nil_of_le (not_lt.mp hle)] at hdrop
    exact pathValues_ne_nil _ hne hdrop.symm
  rw [BelowContent, and_iff_right hmore, hdrop, hlast]
  exact pathValues_stay_iff _ _ hne

/-- Behind a gateway, the path is what the segments of the content lead to from its folder. -/
theorem path_gateway {std : Standard} {base : List Char} (h : HttpsBase std base)
    (rest : List Char) :
    ∃ own url, parse std base = some own ∧ parse std (base ++ rest) = some url ∧
      url.path = resolve (own.path.dropLast ++ leadOf rest)
        (segmentsOf (tidy (contentOf rest))) := by
  obtain ⟨name, entered, basePaths, hparse, hlen, hlast, hbehind⟩ := parse_gateway h
  refine ⟨_, _, hparse, hbehind rest, ?_⟩
  have hne := segmentsOf_ne_nil (tidy (contentOf rest))
  calc (Url.https (.domain name) (pathValues [] (entered ++ segmentsOf (tidy rest)))).path
      = resolve [] (entered ++ segmentsOf (tidy rest)) :=
        getLastD_pathValues [] (by simp [segmentsOf_ne_nil])
    _ = resolve ((entered ++ leadOf rest).foldl enter []) (segmentsOf (tidy (contentOf rest))) := by
        rw [segmentsOf_rest, ← List.append_assoc, resolve_append [] _ hne]
    _ = resolve ((basePaths.getLastD []).dropLast ++ leadOf rest)
          (segmentsOf (tidy (contentOf rest))) := by
        rw [List.foldl_append, foldl_enter_leadOf, hlast]

theorem validateUri_cases {base32Nopad : List Char → Option (List UInt8)} {uri : List Char}
    (h : validateUri base32Nopad uri = .ok ()) :
    (∃ host, trim uri = "https://".toList ++ host ∧ httpsOk host = true) ∨
      ∃ rest, trim uri = "ipfs://".toList ++ rest ∧ ipfsOk base32Nopad rest = true := by
  rw [validateUri] at h
  split_ifs at h with hempty
  cases hhttps : strip "https://".toList (trim uri) with
  | some host =>
      simp only [hhttps] at h
      split_ifs at h with hok
      exact .inl ⟨host, strip_eq_some_iff.mp hhttps, hok⟩
  | none =>
      simp only [hhttps] at h
      cases hipfs : strip "ipfs://".toList (trim uri) with
      | some rest =>
          simp only [hipfs] at h
          split_ifs at h with hok
          exact .inr ⟨rest, strip_eq_some_iff.mp hipfs, hok⟩
      | none =>
          simp only [hipfs] at h
          cases h

theorem trim_prefix (s : List Char) : trim s <+: s.dropWhile isWhitespace :=
  List.rdropWhile_prefix isWhitespace (s.dropWhile isWhitespace)

/-- What the check accepts is fetched as it is, or from every gateway. -/
theorem fetchUncached_of_validateUri {base32Nopad : List Char → Option (List UInt8)}
    {uri : List Char} (h : validateUri base32Nopad uri = .ok ()) (gateways : List (List Char)) :
    fetchUncached base32Nopad uri gateways = .ok (ipfsCandidateUrls uri gateways) := by
  have hinline : "data:".toList.isPrefixOf
      ((uri.dropWhile isWhitespace).map Char.toLower) = false := by
    obtain ⟨trail, htrail⟩ := trim_prefix uri
    rcases validateUri_cases h with ⟨rest, huri, -⟩ | ⟨rest, huri, -⟩
    · rw [← htrail, huri]
      rfl
    · rw [← htrail, huri]
      rfl
  rw [fetchUncached, hinline, h]
  rfl

theorem not_fetches_of_ipfs {std : Standard} {uri rest : List Char} {parsed : Url}
    (huri : trim uri = "ipfs://".toList ++ rest) : ¬ Fetches std uri parsed := by
  rintro ⟨hparse, hscheme⟩
  rw [scheme_of_ipfs std huri hparse] at hscheme
  revert hscheme
  decide

/-- An `https` text is guarded unless its host is an address to the client. -/
theorem domain_iff_of_https {std : Standard} {uri host : List Char}
    (huri : trim uri = "https://".toList ++ host) (hok : httpsOk host = true) :
    (∀ parsed, Fetches std uri parsed → ∃ name paths, parsed = .https (.domain name) paths) ↔
      (parse std uri = none ∨ ipv4 ((hostOnly host).map Char.toLower) = none) := by
  cases hparse : parse std uri with
  | none => exact iff_of_true (fun parsed h => by rw [Fetches, hparse] at h; cases h.1) (.inl rfl)
  | some parsed =>
      obtain ⟨named, paths, rfl, hnamed⟩ := parse_https std huri hok hparse
      have hfetches : Fetches std uri (.https named paths) := ⟨hparse, .inl rfl⟩
      rcases hnamed with ⟨rfl, hnone⟩ | ⟨address, rfl, hsome⟩
      · refine iff_of_true (fun parsed h => ?_) (.inr hnone)
        rw [Fetches, hparse, Option.some.injEq] at h
        exact ⟨_, _, h.1.symm⟩
      · -- The client would ask an address.
        refine iff_of_false (fun h => ?_) (by simp [hsome])
        obtain ⟨name, paths, heq⟩ := h _ hfetches
        cases heq

/-- A text that is asked of nobody is guarded. -/
theorem guarded_of_ipfs {std : Standard} {base32Nopad : List Char → Option (List UInt8)}
    {uri content : List Char} {gateways : List (List Char)}
    (huri : trim uri = "ipfs://".toList ++ content)
    (hfetch : fetchUncached base32Nopad uri gateways = .ok [uri])
    (hnone : ∀ rest, uri = "ipfs://".toList ++ rest → gateways = []) :
    Guarded std base32Nopad uri gateways where
  domain urls hurls url hurl parsed hparsed := by
    rw [hfetch, Except.ok.injEq] at hurls
    rw [← hurls, List.mem_singleton] at hurl
    exact absurd (hurl ▸ hparsed) (not_fetches_of_ipfs huri)
  content rest hrest base hbase := by
    rw [hnone rest hrest] at hbase
    cases hbase

/-- Behind gateways, a text is guarded exactly when its content is not left. -/
theorem guarded_iff_of_gateways {std : Standard}
    {base32Nopad : List Char → Option (List UInt8)} {uri rest : List Char}
    {gateways : List (List Char)} (huri : uri = "ipfs://".toList ++ rest)
    (hfetch : fetchUncached base32Nopad uri gateways = .ok (gateways.map (· ++ rest)))
    (hgateways : ∀ base ∈ gateways, HttpsBase std base) (hne : gateways ≠ []) :
    Guarded std base32Nopad uri gateways ↔
      StaysBelow (segmentOf (validatedCid uri)) (segmentsOf (tidy (contentOf rest))) := by
  constructor
  · intro hguarded
    -- one gateway decides for all
    obtain ⟨base, hbase⟩ := List.exists_mem_of_ne_nil gateways hne
    obtain ⟨name, entered, basePaths, hparse, hlen, hlast, hbehind⟩ :=
      parse_gateway (hgateways base hbase)
    exact (belowContent_iff hlen hlast rest _).mp
      (hguarded.content rest huri base hbase _ _ _ _ hparse (hbehind rest)).1
  · intro hstays
    refine ⟨fun urls hurls url hurl parsed hparsed => ?_,
      fun rest' huri' base hbase host paths host' basePaths' hparse' hown => ?_⟩
    · rw [hfetch, Except.ok.injEq] at hurls
      rw [← hurls, List.mem_map] at hurl
      obtain ⟨base, hbase, rfl⟩ := hurl
      obtain ⟨name, entered, basePaths, -, -, -, hbehind⟩ := parse_gateway (hgateways base hbase)
      rw [Fetches, hbehind, Option.some.injEq] at hparsed
      exact ⟨name, _, hparsed.1.symm⟩
    · obtain rfl : rest = rest' := List.append_cancel_left (huri.symm.trans huri')
      obtain ⟨name, entered, basePaths, hparse, hlen, hlast, hbehind⟩ :=
        parse_gateway (hgateways base hbase)
      rw [hparse, Option.some.injEq, Url.https.injEq] at hparse'
      rw [hbehind, Option.some.injEq, Url.https.injEq] at hown
      have hbelow : BelowContent paths basePaths' (leadOf rest) (validatedCid uri) := by
        rw [← hparse'.2, ← hown.2, belowContent_iff hlen hlast]
        exact hstays
      exact ⟨hbelow, hbelow.last host⟩

/-- **What the check of a token URI is worth.**  Of the texts it accepts, those are guarded
that the client reads as the check does: no address in the place of a name, and no dot segment
that leads away from the content. -/
theorem guarded_iff (std : Standard) {base32Nopad : List Char → Option (List UInt8)}
    {uri : List Char} {gateways : List (List Char)}
    (haccept : validateUri base32Nopad uri = .ok ())
    (hgateways : ∀ base ∈ gateways, HttpsBase std base) :
    Guarded std base32Nopad uri gateways ↔ HoldsWhen std uri gateways := by
  have hfetch := fetchUncached_of_validateUri haccept gateways
  rw [ipfsCandidateUrls] at hfetch
  rcases validateUri_cases haccept with ⟨host, huri, hok⟩ | ⟨content, huri, -⟩
  · -- The text itself is fetched.
    have hnotIpfs : ∀ rest, uri ≠ "ipfs://".toList ++ rest := by
      rintro rest rfl
      have hle := trim_prefix ("ipfs://".toList ++ rest)
      rw [huri] at hle
      obtain ⟨more, hmore⟩ := hle
      cases hmore
    have hstrip : strip "ipfs://".toList uri = none := by
      rw [Option.eq_none_iff_forall_ne_some]
      exact fun rest hrest => hnotIpfs rest (strip_eq_some_iff.mp hrest)
    rw [hstrip] at hfetch
    have hdomain := @domain_iff_of_https std uri host huri hok
    constructor
    · intro hguarded
      refine ⟨fun host' huri' => ?_, fun rest huri' => absurd huri' (hnotIpfs rest)⟩
      obtain rfl : host = host' := List.append_cancel_left (huri.symm.trans huri')
      exact hdomain.mp (hguarded.domain _ hfetch uri List.mem_cons_self)
    · rintro ⟨hhost, -⟩
      refine ⟨fun urls hurls url hurl => ?_, fun rest huri' => absurd huri' (hnotIpfs rest)⟩
      rw [hfetch, Except.ok.injEq] at hurls
      rw [← hurls, List.mem_singleton] at hurl
      rw [hurl]
      exact hdomain.mpr (hhost host huri)
  · have hhost : ∀ host, trim uri = "https://".toList ++ host → parse std uri = none ∨
        ipv4 ((hostOnly host).map Char.toLower) = none := by
      intro host huri'
      rw [huri] at huri'
      cases huri'
    cases hstrip : strip "ipfs://".toList uri with
    | none =>
        -- White space in front keeps the gateways out.
        have hnotIpfs : ∀ rest, uri ≠ "ipfs://".toList ++ rest := by
          intro rest huri'
          rw [strip_eq_some_iff.mpr huri'] at hstrip
          cases hstrip
        rw [hstrip] at hfetch
        exact iff_of_true
          (guarded_of_ipfs huri hfetch fun rest huri' => absurd huri' (hnotIpfs rest))
          ⟨hhost, fun rest huri' => absurd huri' (hnotIpfs rest)⟩
    | some rest =>
        have hrest := strip_eq_some_iff.mp hstrip
        rw [hstrip] at hfetch
        by_cases hempty : gateways = []
        · simp only [if_pos hempty] at hfetch
          exact iff_of_true (guarded_of_ipfs huri hfetch fun _ _ => hempty)
            ⟨hhost, fun _ _ => .inl hempty⟩
        · simp only [if_neg hempty] at hfetch
          rw [guarded_iff_of_gateways hrest hfetch hgateways hempty]
          constructor
          · intro hstays
            refine ⟨hhost, fun rest' huri' => .inr ?_⟩
            obtain rfl : rest = rest' := List.append_cancel_left (hrest.symm.trans huri')
            exact hstays
          · rintro ⟨-, hstays⟩
            exact (hstays rest hrest).resolve_left hempty

/-- A text in three parts is a gateway if its parts pass, which can be evaluated. -/
theorem httpsBase_of {std : Standard} {authority dir name : List Char} {paths : List Path}
    (hne : authority ≠ []) (hall : authority.all (!endsAuthority ·) = true)
    (hdir : dir.all (fun c => c ≠ '?' ∧ c ≠ '#') = true)
    (hslash : ("https://".toList ++ (authority ++ '/' :: dir)).getLast? = some '/')
    (htabs : ("https://".toList ++ (authority ++ '/' :: dir)).all (!isTabOrNewline ·) = true)
    (hparse : parse std ("https://".toList ++ (authority ++ '/' :: dir)) =
      some (.https (.domain name) paths)) :
    HttpsBase std ("https://".toList ++ (authority ++ '/' :: dir)) where
  shape := by
    refine ⟨authority, dir, rfl, hne, fun c hc => ?_, fun c hc => ?_⟩
    · simpa using List.all_eq_true.mp hall c hc
    · exact of_decide_eq_true (List.all_eq_true.mp hdir c hc)
  slash := hslash
  noTabs c hc := by simpa using List.all_eq_true.mp htabs c hc
  domain := ⟨name, paths, hparse⟩

theorem httpsBase_filebase : HttpsBase asciiOnly "https://ipfs.filebase.io/ipfs/".toList :=
  @httpsBase_of asciiOnly "ipfs.filebase.io".toList "ipfs/".toList "ipfs.filebase.io".toList
    [["ipfs".toList], ["ipfs".toList, []]] (by decide) (by decide) (by decide) (by decide)
    (by decide) (by decide)

/-- A file of a content id, at a gateway. -/
theorem guarded_iff_content : Guarded asciiOnly (fun _ => none)
    "ipfs://QmYwAPJzv5CZsnA625s3Xf2nemtYgPpHdWEz79ojWnPbdG/1.json".toList
    ["https://ipfs.filebase.io/ipfs/".toList] := by
  refine (guarded_iff asciiOnly (by decide) ?_).mpr ⟨?_, ?_⟩
  · intro base hbase
    rw [List.mem_singleton.mp hbase]
    exact httpsBase_filebase
  · intro host huri
    have hfirst :
        (trim "ipfs://QmYwAPJzv5CZsnA625s3Xf2nemtYgPpHdWEz79ojWnPbdG/1.json".toList).head? =
          some 'i' := by decide
    rw [huri] at hfirst
    cases hfirst
  · intro rest huri
    have hrest : rest = "QmYwAPJzv5CZsnA625s3Xf2nemtYgPpHdWEz79ojWnPbdG/1.json".toList :=
      List.append_cancel_left (huri.symm.trans rfl)
    rw [hrest]
    exact .inr (by decide)

/-- The check takes a shortened address for a name. -/
theorem not_guarded_shortened :
    validateUri (fun _ => none) "https://127.1/1.json".toList = .ok () ∧
      parse asciiOnly "https://127.1/1.json".toList =
        some (.https (.ipv4 0x7F000001) [["1.json".toList]]) ∧
      ¬ Guarded asciiOnly (fun _ => none) "https://127.1/1.json".toList [] := by
  have haccept : validateUri (fun _ => none) "https://127.1/1.json".toList = .ok () := by decide
  have hparse : parse asciiOnly "https://127.1/1.json".toList =
      some (.https (.ipv4 0x7F000001) [["1.json".toList]]) := by decide
  refine ⟨haccept, hparse, fun hguarded => ?_⟩
  obtain ⟨name, paths, heq⟩ := hguarded.domain ["https://127.1/1.json".toList]
    (fetchUncached_of_validateUri haccept []) _ List.mem_cons_self _ ⟨hparse, .inl rfl⟩
  cases heq

/-- In front of a query, dot segments lead out of the gateway's folder. -/
example :
    validateUri (fun _ => none) "ipfs://k2k4r8oe/..\\..?x".toList = .ok () ∧
      parse asciiOnly ("https://ipfs.filebase.io/ipfs/".toList ++ "k2k4r8oe/..\\..?x".toList) =
        some (.https (.domain "ipfs.filebase.io".toList) [["ipfs".toList],
          ["ipfs".toList, "k2k4r8oe".toList], ["ipfs".toList], [], [[]]]) ∧
      resolve ["ipfs".toList] (segmentsOf (tidy "k2k4r8oe/..\\..?x".toList)) = [[]] := by decide

end TokenUri

end SorobanExplorer
