import ShadowMount.PkgServer.Request

/-!
# Package server - URLs

Whether the limits of the encoder, of the scanner and of the decoder compose: for which names of
packages the URL of an installation gets the package, and nothing else does.

The scanner reads 1023 characters of a target.  A longer path is cut and no longer the one of the
package; and the other way round a target that is longer may be cut to the path of the package,
which takes a name that can be spelled in just that length.

Main results:

- Theorem {lit}`package_url_codec`: both, for every source that is offered.
-/

namespace ShadowMount.PkgServer

open Foundation PercentCode PackageSource

/-- The checks of `handle_package_install` on the name of a streamed package. -/
def streamedNameAccepted (name : Text) : Bool :=
  '/' ∉ name && '\\' ∉ name && decide (name.length < maxTitleName) && decide (5 ≤ name.length) &&
    sameNoCase (name.drop (name.length - 4)) ".pkg".toList

/-- The sources that are installed through the server: the source of the job, the path the server
is started with, whether it is streamed and whether a browser may connect. -/
inductive Offered (v : View) : Text → Text → Bool → Bool → Prop where
  | streamed {name : Text} (browser : Bool) :
      streamedNameAccepted name = true → Offered v name name true browser
  | resolved {path source resolved : Text} :
      resolvePackagePath v path false = .ok source →
      resolvePackagePath v source false = .ok resolved → Offered v source resolved false false

/-- What a client appends to a URL. -/
def IsQuery (query : Text) : Prop := query = [] ∨ (query.head? = some '?' ∧ Solid query)

/-- The URL is there, and its target gets the package, whatever is appended to it. -/
def ServesUrl (server : Server) (regular : Text → Bool) (uri : Option Text) : Prop :=
  ∃ u, uri = some u ∧ ∀ method query version headers, IsMethod method → IsQuery query →
    version ≠ [] → Solid version →
    (answer server regular
      (requestText method (requestTarget u ++ query) version headers)).isPackage = true

/-- The path of a package. -/
def packagePath (token name : Text) : Text := '/' :: token ++ '/' :: name

/-- The package is the answer only to targets that are codes of its path. -/
def ServesOnly (server : Server) (regular : Text → Bool) (token name : Text) : Prop :=
  ∀ method target version headers, IsMethod method → target ≠ [] → Solid target →
    version ≠ [] → Solid version →
    (answer server regular (requestText method target version headers)).isPackage = true →
    decode target = some (packagePath token name)

/-- The characters of a path that stand for themselves. -/
def isPathPlain (c : Char) : Bool := isUrlPlain c || c = '/'

theorem plain_isPathPlain : Unescaped isPathPlain := by
  intro c hc
  refine ⟨?_, ?_, ?_⟩
  all_goals
    rintro rfl
    exact absurd hc (by decide)

theorem not_isSpace_of_code {c : Char}
    (h : isPathPlain c = true ∨ c = '%' ∨ (hexDigit c).isSome) : isSpace c = false := by
  by_contra hspace
  rw [Bool.not_eq_false] at hspace
  simp only [isSpace, Bool.or_eq_true, decide_eq_true_eq] at hspace
  rcases hspace with ((((rfl | rfl) | rfl) | rfl) | rfl) | rfl
  all_goals exact absurd h (by decide)

theorem solid_of_isCode {t : Text} (h : IsCode isPathPlain t) : Solid t :=
  fun c hc => not_isSpace_of_code (h c hc)

theorem streamToken_spec {random : List UInt8} (h : random.length = 16) :
    (streamToken random).length = 32 ∧ ∀ c ∈ streamToken random, isUrlPlain c = true := by
  constructor
  · unfold streamToken
    rw [List.length_flatMap]
    simp [h]
  · intro c hc
    unfold streamToken at hc
    obtain ⟨b, -, hmem⟩ := List.mem_flatMap.mp hc
    have hdigit : ∀ n : Fin 16,
        isUrlPlain (("0123456789abcdef".toList)[n.val]?.getD '0') = true := by decide
    have hbyte := b.toNat_lt
    simp only [List.mem_cons, List.not_mem_nil, or_false] at hmem
    rcases hmem with rfl | rfl
    · exact hdigit ⟨b.toNat / 16, by omega⟩
    · exact hdigit ⟨b.toNat % 16, by omega⟩

/-- The path of a package, encoded. -/
theorem encode_packagePath {token name : Text} (htoken : ∀ c ∈ token, isUrlPlain c = true)
    (hname : '/' ∉ name) :
    encode isPathPlain (packagePath token name) =
      '/' :: token ++ '/' :: encode isUrlPlain name := by
  have hself : ∀ l : Text, (∀ c ∈ l, isUrlPlain c = true) → encode isPathPlain l = l := by
    intro l hl
    induction l with
    | nil => rfl
    | cons c l ih =>
      rw [encode_cons, ih fun x hx => hl x (List.mem_cons_of_mem _ hx),
        if_pos (by simp [isPathPlain, hl c (List.mem_cons_self ..)])]
      rfl
  have hsame : encode isPathPlain name = encode isUrlPlain name := by
    induction name with
    | nil => rfl
    | cons c name ih =>
      simp only [List.mem_cons, not_or] at hname
      have hc : isPathPlain c = isUrlPlain c := by
        simp [isPathPlain, Ne.symm hname.1]
      rw [encode_cons, encode_cons, ih hname.2, hc]
  have hslash : ∀ l, encode isPathPlain ('/' :: l) = '/' :: encode isPathPlain l := by
    intro l
    rw [encode_cons, if_pos (by decide)]
    rfl
  unfold packagePath
  rw [List.cons_append, hslash, encode_append, hslash, hself token htoken, hsame]
  rfl

theorem length_hostText_le (a b c d : UInt8) : (hostText a b c d).length ≤ 15 := by
  have hdigits : ∀ x : UInt8, (Nat.toDigits 10 x.toNat).length ≤ 3 := by
    intro x
    rw [Nat.length_toDigits_le_iff (by omega) (by omega)]
    have hx := x.toNat_lt
    omega
  have ha := hdigits a
  have hb := hdigits b
  have hc := hdigits c
  have hd := hdigits d
  simp only [hostText, List.length_append, List.length_cons]
  omega

theorem slash_not_mem_toDigits (n : Nat) : '/' ∉ Nat.toDigits 10 n := by
  intro hmem
  exact absurd (Nat.isDigit_of_mem_toDigits (by omega) (by omega) hmem) (by decide)

theorem packageUri_spec {token source : Text} (a b c d : UInt8) (port : UInt16) {u : Text}
    (h : packageUri (hostText a b c d) port token source = some u) :
    requestTarget u = '/' :: token ++ '/' :: encode isUrlPlain (Config.afterLast '/' source) := by
  unfold packageUri at h
  dsimp only at h
  split at h
  next =>
    cases h
    have hauthority : ∀ x ∈ hostText a b c d ++ ':' :: Nat.toDigits 10 port.toNat, x ≠ '/' := by
      intro x hx hslash
      subst hslash
      simp [hostText, slash_not_mem_toDigits] at hx
    unfold requestTarget
    have hsplit : ("http://".toList ++ hostText a b c d ++ ':' :: Nat.toDigits 10 port.toNat ++
        '/' :: token ++ '/' :: encode isUrlPlain (Config.afterLast '/' source)).drop 7 =
        (hostText a b c d ++ ':' :: Nat.toDigits 10 port.toNat) ++
          ('/' :: token ++ '/' :: encode isUrlPlain (Config.afterLast '/' source)) := by
      simp
    rw [hsplit, List.dropWhile_append_of_pos (by simpa using hauthority)]
    rfl
  next => cases h

theorem packageUri_isSome {token : Text} (source : Text) (a b c d : UInt8) (port : UInt16)
    (htoken : token.length = 32)
    (hshort : (encode isUrlPlain (Config.afterLast '/' source)).length ≤ 989) :
    ∃ u, packageUri (hostText a b c d) port token source = some u := by
  have hhost := length_hostText_le a b c d
  have hport : (Nat.toDigits 10 port.toNat).length ≤ 5 := by
    rw [Nat.length_toDigits_le_iff (by omega) (by omega)]
    have hlt := port.toNat_lt
    omega
  refine ⟨_, if_pos ?_⟩
  simp only [List.length_append, List.length_cons, uriSize]
  have hscheme : ("http://".toList).length = 7 := rfl
  omega

section Codec

variable {server : Server} {regular : Text → Bool} {token name : Text}

/-- A server for a package of the name. -/
structure Serves (server : Server) (token name : Text) : Prop where
  expected : server.expected = packagePath token name
  attempt : server.attempt = token
  token : token.length = 32 ∧ ∀ c ∈ token, isUrlPlain c = true
  browser : server.browser = true → 5 ≤ name.length
  name : '/' ∉ name ∧ Codable name

theorem Serves.codable (h : Serves server token name) : Codable (packagePath token name) := by
  intro c hc
  have hplain : ∀ x, isPathPlain x = true → x.toNat < 256 ∧ x ≠ '\x00' := by
    intro x hx
    constructor
    · by_contra hlarge
      have hle : ∀ y : Char, y.toNat < 256 → x ≤ y → False := by
        intro y hy hxy
        have : x.toNat ≤ y.toNat := hxy
        omega
      simp only [isPathPlain, isUrlPlain, Pkg.isAlnum, Bool.or_eq_true, Bool.and_eq_true,
        decide_eq_true_eq] at hx
      rcases hx with (((((⟨-, h⟩ | ⟨-, h⟩) | ⟨-, h⟩) | rfl) | rfl) | rfl) | rfl
      · exact hle _ (by decide) h
      · exact hle _ (by decide) h
      · exact hle _ (by decide) h
      all_goals exact hlarge (by decide)
    · exact (plain_isPathPlain x hx).2.2
  simp only [packagePath, List.cons_append, List.mem_cons, List.mem_append] at hc
  rcases hc with rfl | hc | rfl | hc
  · exact hplain _ (by decide)
  · exact hplain c (by simp [isPathPlain, h.token.2 c hc])
  · exact hplain _ (by decide)
  · exact h.name.2 c hc

theorem Serves.length_path (h : Serves server token name) :
    (packagePath token name).length = 34 + name.length := by
  simp only [packagePath, List.cons_append, List.length_cons, List.length_append, h.token.1]
  omega

theorem Serves.length_code (h : Serves server token name) :
    (encode isPathPlain (packagePath token name)).length =
      34 + (encode isUrlPlain name).length := by
  rw [encode_packagePath h.token.2 h.name.1]
  simp only [List.cons_append, List.length_cons, List.length_append, h.token.1]
  omega

theorem Serves.endpoint (h : Serves server token name) :
    strlcpy 80 ('/' :: server.attempt ++ "/ws".toList) = '/' :: token ++ "/ws".toList := by
  rw [h.attempt]
  apply strlcpy_of_lt
  simp [h.token.1]

theorem decodePath_expected_iff (h : Serves server token name) (target : Text) :
    decodePath maxPath 0 (target.take 1023) = some server.expected ↔
      decode (target.take 1023) = some (packagePath token name) := by
  rw [h.expected, decodePath_eq]
  constructor
  · intro heq
    cases hd : decode (target.take 1023) with
    | none =>
      rw [hd] at heq
      cases heq
    | some d =>
      rw [hd, Option.bind_some] at heq
      split at heq
      next => exact heq
      next => cases heq
  · intro heq
    obtain ⟨front, hquery, hfront, hcut⟩ := decode_split heq
    have hle := (length_of_decode hfront hquery).1
    have hshort : front.length ≤ 1023 := by
      have htake : (target.take 1023).length ≤ 1023 := by simp
      rcases hcut with rfl | hcut
      · exact htake
      · have hbegins := hcut.length_le
        simp only [List.length_append, List.length_cons, List.length_nil] at hbegins
        omega
    rw [heq, Option.bind_some, if_pos (.inr (by unfold maxPath; omega))]

/-- The URL gets the package exactly when its path fits the scanner. -/
theorem servesUrl_iff (h : Serves server token name) {source : Text}
    (hname : Config.afterLast '/' source = name) (a b c d : UInt8) (port : UInt16) :
    ServesUrl server regular (packageUri (hostText a b c d) port token source) ↔
      (encode isUrlPlain name).length ≤ 989 := by
  have hcode := h.length_code
  have hpath := encode_packagePath h.token.2 h.name.1
  have hread := decode_encode plain_isPathPlain h.codable
  have hisCode : IsCode isPathPlain _ := isCode_encode h.codable
  have hquery := hisCode.not_query plain_isPathPlain
  have hsolid := solid_of_isCode hisCode
  generalize hcoded : encode isPathPlain (packagePath token name) = code at *
  have hendpoint : ∀ query : Text, server.browser = true →
      (code ++ query).take 1023 ≠ strlcpy 80 ('/' :: server.attempt ++ "/ws".toList) := by
    intro query hbrowser heq
    rw [h.endpoint] at heq
    have hlength := congrArg List.length heq
    have hlong : 5 ≤ (encode isUrlPlain name).length :=
      (h.browser hbrowser).trans (length_le_encode name)
    simp only [List.length_take, List.length_append, List.length_cons, h.token.1] at hlength
    have hws : ("/ws".toList).length = 3 := rfl
    omega
  constructor
  · rintro ⟨u, hu, hall⟩
    by_contra hlong
    have htarget := packageUri_spec a b c d port hu
    rw [hname, ← hpath] at htarget
    have hanswer := hall "GET".toList [] "HTTP/1.1".toList [] (.inl rfl) (.inl rfl) (by decide)
      (by simp [Solid, isSpace])
    rw [htarget] at hanswer
    rw [answer_package_iff server regular (.inl rfl) (by
        intro hnil
        rw [List.append_nil] at hnil
        rw [hnil] at hcode
        simp only [List.length_nil] at hcode
        omega) (by rw [List.append_nil]; exact hsolid) (by decide)
      (by simp [Solid, isSpace]) [] (hendpoint []), List.append_nil,
      decodePath_expected_iff h] at hanswer
    -- the path is the cut one and something behind it, which would stand for nothing
    have hquery' : '?' ∉ code.take 1023 := fun hmem => hquery (List.mem_of_mem_take hmem)
    have happend := decode_append hanswer hquery' (code.drop 1023)
    rw [List.take_append_drop, hread] at happend
    cases hbehind : decode (code.drop 1023) with
    | none =>
      rw [hbehind] at happend
      cases happend
    | some e =>
      rw [hbehind] at happend
      simp only [Option.map_some, Option.some.injEq, List.self_eq_append_right] at happend
      subst happend
      have hnone := (length_of_decode hbehind fun hmem => hquery (List.mem_of_mem_drop hmem)).2.1
      rw [List.length_drop] at hnone
      simp only [List.length_nil] at hnone
      omega
  · intro hshort
    obtain ⟨u, hu⟩ := packageUri_isSome source a b c d port h.token.1
      (by rw [hname]; exact hshort)
    refine ⟨u, hu, fun method query version headers hmethod hisQuery hversion hversionSolid => ?_⟩
    have htarget := packageUri_spec a b c d port hu
    rw [hname, ← hpath] at htarget
    have hlength : code.length ≤ 1023 := by omega
    have hquerySolid : Solid query := by
      rcases hisQuery with rfl | ⟨-, hq⟩
      · simp [Solid]
      · exact hq
    rw [htarget, answer_package_iff server regular hmethod (by
        intro hnil
        rw [List.append_eq_nil_iff] at hnil
        rw [hnil.1] at hcode
        simp only [List.length_nil] at hcode
        omega) (by
        intro x hx
        rcases List.mem_append.mp hx with hx | hx
        · exact hsolid x hx
        · exact hquerySolid x hx) hversion hversionSolid headers (hendpoint query),
      decodePath_expected_iff h, List.take_append, List.take_of_length_le hlength,
      decode_append hread hquery]
    -- what is appended is not read
    have hstop : decode (query.take (1023 - code.length)) = some [] := by
      rcases hisQuery with rfl | ⟨hhead, -⟩
      · simp [decode]
      · obtain ⟨rest, rfl⟩ := List.head?_eq_some_iff.mp hhead
        cases 1023 - code.length with
        | zero => rfl
        | succ n =>
          rw [List.take_succ_cons]
          exact decode_query _
    rw [hstop]
    simp

/-- A long name of odd length is also reached by another text. -/
theorem not_servesOnly (h : Serves server token name)
    (hfits : (encode isUrlPlain name).length ≤ 989) (hlong : 307 ≤ name.length)
    (hodd : name.length % 2 = 1) : ¬ ServesOnly server regular token name := by
  intro honly
  have hpath := h.length_path
  have hcode := h.length_code
  obtain ⟨t, hread, hisCode, hlength⟩ := exists_code_of_length plain_isPathPlain h.codable
    (n := 1023) (by omega) (by omega) (by omega)
  have hsolid : Solid (t ++ ['x']) := by
    intro c hc
    rcases List.mem_append.mp hc with hc | hc
    · exact solid_of_isCode hisCode c hc
    · rw [List.mem_singleton] at hc
      subst hc
      decide
  have htake : (t ++ ['x']).take 1023 = t := by
    rw [← hlength, List.take_left]
  have hserved : (answer server regular
      (requestText "GET".toList (t ++ ['x']) "HTTP/1.1".toList [])).isPackage = true := by
    rw [answer_package_iff server regular (.inl rfl) (by simp) hsolid (by decide)
      (by simp [Solid, isSpace]) [] (by
        intro _ heq
        rw [htake, h.endpoint] at heq
        have hlengths := congrArg List.length heq
        have hws : ("/ws".toList).length = 3 := rfl
        simp only [List.length_append, List.length_cons, h.token.1] at hlengths
        omega), decodePath_expected_iff h, htake]
    exact hread
  have hdecoded := honly _ _ _ _ (.inl rfl) (by simp) hsolid (by decide)
    (by simp [Solid, isSpace]) hserved
  have hread' := decode_append hread (hisCode.not_query plain_isPathPlain) ['x']
  rw [hdecoded] at hread'
  have hx : decode ['x'] = some ['x'] := by decide
  rw [hx] at hread'
  simp at hread'

/-- Nothing but the path gets the package when no code of it has just that width. -/
theorem servesOnly (h : Serves server token name)
    (hname : ¬ (307 ≤ name.length ∧ name.length % 2 = 1)) :
    ServesOnly server regular token name := by
  have hpath := h.length_path
  intro method target version headers hmethod htarget hsolid hversion hversionSolid hserved
  obtain ⟨parsed, hparsed, hcut⟩ :=
    parseRequest_requestText hmethod htarget hsolid hversion hversionSolid headers
  have hdecoded := decodePath_of_answer hparsed hserved
  rw [hcut, decodePath_expected_iff h] at hdecoded
  by_cases hshort : target.length ≤ 1023
  · rw [List.take_of_length_le hshort] at hdecoded
    exact hdecoded
  · obtain ⟨front, hquery, hread, hfront⟩ := decode_split hdecoded
    rcases hfront with rfl | hbegins
    · have hlengths := length_of_decode hread hquery
      rw [List.length_take, Nat.min_eq_left (by omega), hpath] at hlengths
      omega
    · exact decode_of_prefix hread hquery (hbegins.trans (List.take_prefix _ _))

end Codec

theorem slash_not_mem_afterLast (path : Text) : '/' ∉ Config.afterLast '/' path := by
  intro hmem
  have h := List.mem_rtakeWhile_imp hmem
  simp at h

theorem afterLast_suffix (path : Text) : Config.afterLast '/' path <:+ path :=
  List.rtakeWhile_suffix _ _

theorem afterLast_eq_self {path : Text} (h : '/' ∉ path) : Config.afterLast '/' path = path := by
  unfold Config.afterLast
  rw [List.rtakeWhile_eq_self_iff]
  intro c hc
  simp only [ne_eq, decide_not, Bool.not_eq_eq_eq_not, Bool.not_true, decide_eq_false_iff_not]
  rintro rfl
  exact h hc

/-- The URL that is offered serves the source. -/
theorem Offered.serves {v : View} (hcanonical : v.Canonical) {source path : Text}
    {streaming browser : Bool} (h : Offered v source path streaming browser)
    (hbytes : Codable source) {random : List UInt8} (hrandom : random.length = 16) (total : Nat) :
    Serves (startServer path (streamToken random) total streaming browser) (streamToken random)
      (Config.afterLast '/' source) := by
  obtain ⟨hlength, hplain⟩ := streamToken_spec hrandom
  have hpath : path = source ∧ source.length < maxPath ∧
      (browser = true → 5 ≤ (Config.afterLast '/' source).length) := by
    cases h with
    | streamed browser hname =>
      simp only [streamedNameAccepted, Bool.and_eq_true, decide_eq_true_eq] at hname
      obtain ⟨⟨⟨⟨hslash, -⟩, hshort⟩, hlong⟩, -⟩ := hname
      refine ⟨rfl, ?_, fun _ => ?_⟩
      · exact Nat.lt_trans hshort (by decide)
      · rw [afterLast_eq_self hslash]
        exact hlong
    | resolved hfirst hsecond =>
      obtain ⟨-, hresolved, -⟩ := resolvePackagePath_ok hfirst
      exact ⟨resolvePackagePath_again hcanonical hfirst hsecond,
        (canonicalPath_self hcanonical hresolved).1, nofun⟩
  obtain ⟨rfl, hshort, hbrowser⟩ := hpath
  have hname := (afterLast_suffix path).length_le
  have hbasename : strlcpy maxPath (Config.afterLast '/' path) = Config.afterLast '/' path :=
    strlcpy_of_lt (by omega)
  have hattempt : strlcpy 64 (streamToken random) = streamToken random :=
    strlcpy_of_lt (by omega)
  refine ⟨?_, hattempt, ⟨hlength, hplain⟩, hbrowser, slash_not_mem_afterLast path, ?_⟩
  · unfold Server.expected startServer
    dsimp only
    rw [hbasename, hattempt]
    apply strlcpy_of_lt
    simp only [List.cons_append, List.length_cons, List.length_append, hlength]
    omega
  · exact fun c hc => hbytes c ((afterLast_suffix path).subset hc)

/-- The URL of a source that is offered gets the package, and nothing else does, exactly when the
encoded name fits the scanner and the name has an even length or is short; the URL gets it exactly
when the encoded name fits; and whatever the name, the package is the answer only where the target
that was scanned is a code of its path. -/
theorem package_url_codec {v : View} (hcanonical : v.Canonical) {source path : Text}
    {streaming browser : Bool} (hoffered : Offered v source path streaming browser)
    (hbytes : Codable source) {random : List UInt8} (hrandom : random.length = 16)
    (a b c d : UInt8) (port : UInt16) (total : Nat) (regular : Text → Bool) :
    let name := Config.afterLast '/' source
    let token := streamToken random
    let server := startServer path token total streaming browser
    let uri := packageUri (hostText a b c d) port token source
    (ServesUrl server regular uri ∧ ServesOnly server regular token name ↔
      (encode isUrlPlain name).length ≤ 989 ∧ (name.length ≤ 306 ∨ name.length % 2 = 0)) ∧
    (ServesUrl server regular uri ↔ (encode isUrlPlain name).length ≤ 989) ∧
    (∀ request parsed, parseRequest request = some parsed →
      (answer server regular request).isPackage = true →
      decode parsed.target = some (packagePath token name)) := by
  intro name token server uri
  have hserves : Serves server token name := hoffered.serves hcanonical hbytes hrandom total
  have hurl : ServesUrl server regular uri ↔ (encode isUrlPlain name).length ≤ 989 :=
    servesUrl_iff hserves rfl a b c d port
  refine ⟨⟨?_, ?_⟩, hurl, ?_⟩
  · rintro ⟨hserved, honly⟩
    have hfits := hurl.mp hserved
    refine ⟨hfits, ?_⟩
    by_contra hnot
    exact not_servesOnly hserves hfits (by omega) (by omega) honly
  · rintro ⟨hfits, hname⟩
    exact ⟨hurl.mpr hfits, servesOnly hserves (by omega)⟩
  · intro request parsed hparsed hanswer
    have hdecoded := decodePath_of_answer hparsed hanswer
    rw [decodePath_eq, hserves.expected] at hdecoded
    cases hd : decode parsed.target with
    | none =>
      rw [hd] at hdecoded
      cases hdecoded
    | some decoded =>
      rw [hd, Option.bind_some] at hdecoded
      split at hdecoded
      next => exact hdecoded
      next => cases hdecoded

/-- A system on which every absolute path is a canonical one, and a regular file. -/
def plainView : View where
  config := Smb.twoNasState
  realpath := fun path => if path.head? = some '/' then some path else none
  lstat := fun _ => some ⟨false, true, 1, 1, 0, 0, 0, 0⟩
  mounted := fun _ => true

theorem plainView_canonical : plainView.Canonical := by
  intro path resolved h
  simp only [plainView] at h ⊢
  split at h
  next hslash =>
    cases h
    exact ⟨hslash, if_pos hslash⟩
  next => cases h

/-- A job token. -/
def plainToken : List UInt8 := List.replicate 16 7

theorem package_url_codec_update :
    Offered plainView "/data/an update.pkg".toList "/data/an update.pkg".toList false false ∧
    ServesUrl (startServer "/data/an update.pkg".toList (streamToken plainToken) 1 false false)
      (fun _ => false)
      (packageUri (hostText 127 0 0 1) 9090 (streamToken plainToken)
        "/data/an update.pkg".toList) := by
  have hoffered : Offered plainView "/data/an update.pkg".toList "/data/an update.pkg".toList
      false false := by
    have hresolved : resolvePackagePath plainView "/data/an update.pkg".toList false =
        .ok "/data/an update.pkg".toList := by
      decide +kernel
    exact .resolved hresolved hresolved
  refine ⟨hoffered, ?_⟩
  have hcodec := package_url_codec plainView_canonical hoffered (by decide +kernel)
    (rfl : plainToken.length = 16) 127 0 0 1 9090 1 (fun _ => false)
  exact hcodec.2.1.mpr (by decide +kernel)

/-- A package on a server whose name is 165 letters of two bytes and the extension. -/
def longSource : Text :=
  "smb://a/".toList ++ (List.replicate 165 [Char.ofNat 0xd0, Char.ofNat 0x96]).flatten ++
    ".pkg".toList

/-- The limits do not compose: that source is accepted, and its URL does not get the package. -/
theorem long_name_not_served :
    Offered plainView longSource longSource false false ∧
    ¬ ServesUrl (startServer longSource (streamToken plainToken) 1 false false) (fun _ => false)
      (packageUri (hostText 127 0 0 1) 9090 (streamToken plainToken) longSource) := by
  have hoffered : Offered plainView longSource longSource false false := by
    have hresolved : resolvePackagePath plainView longSource false = .ok longSource := by
      decide +kernel
    exact .resolved hresolved hresolved
  refine ⟨hoffered, ?_⟩
  have hserves := hoffered.serves plainView_canonical (by decide +kernel)
    (rfl : plainToken.length = 16) 1
  rw [servesUrl_iff hserves rfl 127 0 0 1 9090]
  decide +kernel

end ShadowMount.PkgServer
