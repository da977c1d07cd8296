import ShadowMount.Foundation.PercentCode
import ShadowMount.PackageSource.Paths
import ShadowMount.Pkg.Package
import ShadowMount.PkgServer.Range

/-!
# Package server - Requests

From the URL that {lit}`package_install_thread` hands to the system to what the server answers: the
encoder of the file name, the scanner of the request line with its fixed widths, the decoder with
its buffer, and the comparison with the name of the package.
-/

namespace ShadowMount.PkgServer

open Foundation PercentCode PackageSource

/-- The fields of `struct sm_pkg_server` that a request is compared with. -/
structure Server where
  directory : Text
  attempt : Text
  basename : Text
  total : Nat
  /-- The package is read through a callback. -/
  streaming : Bool
  /-- A browser may connect. -/
  browser : Bool
deriving DecidableEq

/-- The part of `start_server` that sets the names. -/
def startServer (pkgPath attempt : Text) (total : Nat) (streaming browser : Bool) : Server where
  directory :=
    if '/' ∈ strlcpy maxPath pkgPath then
      ((strlcpy maxPath pkgPath).rdropWhile fun c => c ≠ '/').dropLast
    else ".".toList
  attempt := strlcpy 64 attempt
  basename := strlcpy maxPath (Config.afterLast '/' pkgPath)
  total := total
  streaming := streaming
  browser := browser

/-- The token of a job: `%02x` of its random bytes. -/
def streamToken (random : List UInt8) : Text :=
  random.flatMap fun b =>
    [("0123456789abcdef".toList)[b.toNat / 16]?.getD '0',
      ("0123456789abcdef".toList)[b.toNat % 16]?.getD '0']

/-- The characters that the encoder leaves as they are. -/
def isUrlPlain (c : Char) : Bool := Pkg.isAlnum c || c = '.' || c = '-' || c = '_'

/-- `inet_ntop` of an address of version 4. -/
def hostText (a b c d : UInt8) : Text :=
  Nat.toDigits 10 a.toNat ++ '.' :: Nat.toDigits 10 b.toNat ++ '.' :: Nat.toDigits 10 c.toNat ++
    '.' :: Nat.toDigits 10 d.toNat

/-- Size of the buffer for the URL. -/
def uriSize : Nat := 3072

/-- The URL that `package_install_thread` builds for a source that is served; none when it
does not fit. -/
def packageUri (host : Text) (port : UInt16) (token source : Text) : Option Text :=
  let encoded := encode isUrlPlain (Config.afterLast '/' source)
  let uri := "http://".toList ++ host ++ ':' :: Nat.toDigits 10 port.toNat ++
    '/' :: token ++ '/' :: encoded
  if uri.length < uriSize then some uri else none

/-- The request target of a URL: what stands behind the authority. -/
def requestTarget (uri : Text) : Text := (uri.drop 7).dropWhile fun c => c ≠ '/'

/-- One `%s` of `sscanf` with its width: the field and what is left. -/
def scanField (width : Nat) (text : Text) : Option (Text × Text) :=
  let body := text.dropWhile isSpace
  let field := (body.takeWhile fun c => !isSpace c).take width
  if field = [] then none else some (field, body.drop field.length)

/-- The lines of a text that are separated by carriage return and line feed. -/
def crlfLines : Text → List Text
  | [] => [[]]
  | '\r' :: '\n' :: rest => [] :: crlfLines rest
  | c :: rest => (crlfLines rest).modifyHead (c :: ·)

def isHeaderBlank (c : Char) : Bool := c = ' ' || c = '\t'

/-- `header_value`: the value of the first header of the name, cut to the buffer. -/
def headerValue (request name : Text) (size : Nat) : Option Text :=
  ((crlfLines request).find? fun line =>
    decide (name.length < line.length) && sameNoCase (line.take name.length) name &&
      (line.drop name.length).head? = some ':').map fun line =>
        strlcpy size (trim isHeaderBlank (line.drop (name.length + 1)))

/-- `contains_ci`. -/
def containsCi (value needle : Text) : Bool :=
  value.tails.any fun rest => rest ≠ [] && sameNoCase (rest.take needle.length) needle

/-- `sm_pkg_http_request_t`. -/
structure Request where
  get : Bool
  head : Bool
  keepAlive : Bool
  target : Text
  range : Option Text
deriving DecidableEq

/-- `parse_request`. -/
def parseRequest (request : Text) : Option Request :=
  match scanField 15 request with
  | none => none
  | some (method, rest) =>
    match scanField 1023 rest with
    | none => none
    | some (target, rest) =>
      match scanField 15 rest with
      | none => none
      | some (version, _) =>
        let get := sameNoCase method "GET".toList
        let head := sameNoCase method "HEAD".toList
        if !get && !head then none
        else
          let keepAlive := !sameNoCase version "HTTP/1.0".toList
          some
            { get := get
              head := head
              keepAlive :=
                match headerValue request "Connection".toList 64 with
                | none => keepAlive
                | some connection =>
                  if containsCi connection "close".toList then false
                  else if containsCi connection "keep-alive".toList then true
                  else keepAlive
              target := target
              range := headerValue request "Range".toList 128 }

/-- The store of `decode_path`: a zero is refused, and so is a character that leaves no room
for the terminator. -/
def store (size used : Nat) (c : Char) (rest : Option Text) : Option Text :=
  if c = '\x00' || decide (size ≤ used + 1) then none else rest.map (c :: ·)

/-- `decode_path` with `used` characters in a buffer of `size`. -/
def decodePath (size : Nat) : Nat → Text → Option Text
  | _, [] => some []
  | used, c :: rest =>
    if c = '?' then some []
    else if c = '%' then
      match rest with
      | high :: low :: rest =>
        match hexDigit high, hexDigit low with
        | some h, some l =>
          store size used (Char.ofNat (16 * h + l)) (decodePath size (used + 1) rest)
        | _, _ => none
      | _ => none
    else store size used c (decodePath size (used + 1) rest)

/-- What the server answers to a request. -/
inductive Answer where
  | notFound
  /-- The connection becomes the one of the browser, or is refused. -/
  | upgrade
  /-- Another file of the directory, with its path. -/
  | sidecar (path : Text)
  | package (reply : Reply)
deriving DecidableEq

def Answer.isPackage : Answer → Bool
  | .package _ => true
  | _ => false

/-- The path of the package below the server. -/
def Server.expected (server : Server) : Text :=
  strlcpy (maxPath + 80) ('/' :: server.attempt ++ '/' :: server.basename)

/-- `serve_file`; `regular` says which paths are regular files. -/
def serveFile (server : Server) (regular : Text → Bool) (request : Request) : Answer :=
  match decodePath maxPath 0 request.target with
  | none => .notFound
  | some decoded =>
    let front := strlcpy 80 ('/' :: server.attempt ++ ['/'])
    if decoded = server.expected then .package (rangeReply request.range server.total)
    else if !front.isPrefixOf decoded then .notFound
    else
      let name := decoded.drop front.length
      if '/' ∈ name || decide (name.length ≤ 4) ||
          !sameNoCase (name.drop (name.length - 4)) ".crc".toList then .notFound
      else
        let sidecar := server.directory ++ '/' :: name
        if decide (maxPath ≤ sidecar.length) || server.streaming || !regular sidecar then
          .notFound
        else .sidecar sidecar

/-- The part of `worker` that answers one request. -/
def answer (server : Server) (regular : Text → Bool) (request : Text) : Answer :=
  match parseRequest request with
  | none => .notFound
  | some parsed =>
    let endpoint := strlcpy 80 ('/' :: server.attempt ++ "/ws".toList)
    if server.browser && parsed.get && decide (parsed.target = endpoint) then .upgrade
    else serveFile server regular parsed

theorem decodePath_query (size used : Nat) (rest : Text) :
    decodePath size used ('?' :: rest) = some [] := by
  match rest with
  | [] => simp [decodePath]
  | [_] => simp [decodePath]
  | _ :: _ :: _ => rw [decodePath, if_pos rfl]

theorem decodePath_plain {c : Char} (hquery : c ≠ '?') (hpercent : c ≠ '%') (size used : Nat)
    (rest : Text) :
    decodePath size used (c :: rest) = store size used c (decodePath size (used + 1) rest) := by
  match rest with
  | [] => simp [decodePath, hquery, hpercent]
  | [_] => simp [decodePath, hquery, hpercent]
  | _ :: _ :: _ => rw [decodePath, if_neg hquery, if_neg hpercent]

/-- The decoder reads percent codes, as far as its buffer goes. -/
theorem decodePath_eq (size used : Nat) (t : Text) :
    decodePath size used t =
      (decode t).bind fun d => if d = [] ∨ used + d.length < size then some d else none := by
  have hstore : ∀ used c (rest : Text), decodePath size (used + 1) rest =
      ((decode rest).bind fun d => if d = [] ∨ used + 1 + d.length < size then some d else none) →
      store size used c (decodePath size (used + 1) rest) =
        (push c (decode rest)).bind fun d =>
          if d = [] ∨ used + d.length < size then some d else none := by
    intro used c rest hrest
    rw [hrest]
    unfold store push
    by_cases hzero : c = '\x00'
    · simp [hzero]
    · cases decode rest with
      | none => simp [hzero]
      | some d =>
        simp only [hzero, decide_false, Bool.false_or, decide_eq_true_eq, Option.bind_some,
          if_false, Option.map_some, List.cons_ne_nil, List.length_cons, false_or]
        by_cases hnil : d = []
        · subst hnil
          by_cases hfull : size ≤ used + 1
          · rw [if_pos hfull, if_neg (by simp; omega)]
          · rw [if_neg hfull, if_pos (.inl rfl), if_pos (by simp; omega)]
            rfl
        · by_cases hfits : used + 1 + d.length < size
          · rw [if_neg (by omega), if_pos (.inr hfits), if_pos (by omega)]
            rfl
          · rw [if_neg (c := d = [] ∨ used + 1 + d.length < size) (by simp [hnil]; omega),
              if_neg (c := used + (d.length + 1) < size) (by omega)]
            split <;> rfl
  induction hn : t.length using Nat.strong_induction_on generalizing t used with
  | _ n ih =>
  cases t with
  | nil => simp [decodePath, decode]
  | cons c rest =>
    by_cases hquery : c = '?'
    · subst hquery
      rw [decodePath_query, decode_query]
      simp
    by_cases hpercent : c = '%'
    · subst hpercent
      rcases rest with _ | ⟨high, _ | ⟨low, rest⟩⟩
      · simp [decodePath, decode]
      · simp [decodePath, decode]
      · cases hhigh : hexDigit high with
        | none => simp [decodePath, decode, hhigh]
        | some v =>
          cases hlow : hexDigit low with
          | none => simp [decodePath, decode, hhigh, hlow]
          | some w =>
            rw [decode_escaped hhigh hlow, ← hstore used _ rest
              (ih rest.length (by simp [← hn]; omega) (used + 1) rest rfl)]
            simp [decodePath, hhigh, hlow]
    · rw [decodePath_plain hquery hpercent, decode_plain hquery hpercent]
      exact hstore used c rest (ih rest.length (by simp [← hn]) (used + 1) rest rfl)

/-- A text without blanks. -/
def Solid (text : Text) : Prop := ∀ c ∈ text, isSpace c = false

instance (text : Text) : Decidable (Solid text) :=
  List.decidableBAll (fun c : Char => isSpace c = false) text

/-- A field without blanks is scanned up to the width. -/
theorem scanField_solid (width : Nat) (hwidth : 0 < width) {field : Text} (hne : field ≠ [])
    (hsolid : Solid field) (blank : Char) (hblank : isSpace blank = true) (front rest : Text)
    (hfront : ∀ c ∈ front, isSpace c = true) :
    scanField width (front ++ field ++ blank :: rest) =
      some (field.take width, field.drop width ++ blank :: rest) := by
  have hstrip : (front ++ field ++ blank :: rest).dropWhile isSpace = field ++ blank :: rest := by
    rw [List.append_assoc, List.dropWhile_append_of_pos hfront]
    cases field with
    | nil => exact absurd rfl hne
    | cons c field =>
      rw [List.cons_append, List.dropWhile_cons_of_neg]
      simp [hsolid c (List.mem_cons_self ..)]
  have htake : (field ++ blank :: rest).takeWhile (fun c => !isSpace c) = field := by
    rw [List.takeWhile_append_of_pos (by
      intro c hc
      simp [hsolid c hc])]
    simp [hblank]
  have hfield : field.take width ≠ [] := by
    simp [hne]
    omega
  unfold scanField
  simp only [hstrip, htake, if_neg hfield]
  congr 2
  rw [List.length_take, List.drop_append]
  by_cases hshort : field.length ≤ width
  · rw [Nat.min_eq_right hshort, List.drop_of_length_le (Nat.le_refl _),
      List.drop_of_length_le hshort]
    simp
  · rw [Nat.min_eq_left (by omega), Nat.sub_eq_zero_of_le (by omega)]
    rfl

/-- A request as a client sends it. -/
def requestText (method target version headers : Text) : Text :=
  method ++ ' ' :: target ++ ' ' :: version ++ '\r' :: '\n' :: headers

/-- The method of a request for a file. -/
def IsMethod (method : Text) : Prop := method = "GET".toList ∨ method = "HEAD".toList

/-- What the scanner makes of a request: the target is cut to its width. -/
theorem parseRequest_requestText {method target version : Text} (hmethod : IsMethod method)
    (htarget : target ≠ []) (hsolid : Solid target) (hversion : version ≠ [])
    (hversionSolid : Solid version) (headers : Text) :
    ∃ parsed, parseRequest (requestText method target version headers) = some parsed ∧
      parsed.target = target.take 1023 := by
  have hmethod' : method ≠ [] ∧ Solid method ∧ method.length ≤ 15 ∧
      (sameNoCase method "GET".toList || sameNoCase method "HEAD".toList) = true := by
    rcases hmethod with rfl | rfl
    · exact ⟨by decide, by simp [Solid, isSpace], by decide, by decide +kernel⟩
    · exact ⟨by decide, by simp [Solid, isSpace], by decide, by decide +kernel⟩
  have hfirst := scanField_solid 15 (by omega) hmethod'.1 hmethod'.2.1
    ' ' rfl [] (target ++ ' ' :: version ++ '\r' :: '\n' :: headers) (by simp)
  rw [List.take_of_length_le hmethod'.2.2.1, List.drop_of_length_le hmethod'.2.2.1] at hfirst
  have hsecond := scanField_solid 1023 (by omega) htarget hsolid ' ' rfl [' ']
    (version ++ '\r' :: '\n' :: headers) (by simp [isSpace])
  have hthird : (scanField 15
      (target.drop 1023 ++ ' ' :: (version ++ '\r' :: '\n' :: headers))).isSome := by
    by_cases hcut : target.drop 1023 = []
    · have hscan := scanField_solid 15 (by omega) hversion hversionSolid '\r' rfl [' ']
        ('\n' :: headers) (by simp [isSpace])
      rw [hcut]
      rw [show [] ++ ' ' :: (version ++ '\r' :: '\n' :: headers) =
        [' '] ++ version ++ '\r' :: '\n' :: headers by simp, hscan]
      rfl
    · have hscan := scanField_solid 15 (by omega) hcut
        (fun c hc => hsolid c (List.mem_of_mem_drop hc)) ' ' rfl []
        (version ++ '\r' :: '\n' :: headers) (by simp)
      rw [List.nil_append] at hscan
      rw [hscan]
      rfl
  obtain ⟨⟨version', rest⟩, hthird⟩ := Option.isSome_iff_exists.mp hthird
  unfold parseRequest
  have htext : requestText method target version headers =
      [] ++ method ++ ' ' :: (target ++ ' ' :: version ++ '\r' :: '\n' :: headers) := by
    simp [requestText]
  have hrest : [] ++ ' ' :: (target ++ ' ' :: version ++ '\r' :: '\n' :: headers) =
      [' '] ++ target ++ ' ' :: (version ++ '\r' :: '\n' :: headers) := by
    simp
  rw [← htext, hrest] at hfirst
  rw [hfirst]
  dsimp only
  rw [hsecond]
  dsimp only
  rw [hthird]
  dsimp only
  rw [← Bool.not_or, hmethod'.2.2.2, Bool.not_true, if_neg Bool.false_ne_true]
  exact ⟨_, rfl, rfl⟩

/-- When the comparison of `serve_file` finds the package. -/
theorem serveFile_package_iff (server : Server) (regular : Text → Bool) (request : Request) :
    (serveFile server regular request).isPackage = true ↔
      decodePath maxPath 0 request.target = some server.expected := by
  unfold serveFile
  cases hdecoded : decodePath maxPath 0 request.target with
  | none => simp [Answer.isPackage]
  | some decoded =>
    simp only [Option.some.injEq]
    constructor
    · intro h
      by_contra hne
      revert h
      rw [if_neg hne]
      repeat' split
      all_goals simp [Answer.isPackage]
    · intro h
      rw [if_pos h]
      rfl

/-- When a request is answered by the package. -/
theorem answer_package_iff (server : Server) (regular : Text → Bool) {method target version : Text}
    (hmethod : IsMethod method) (htarget : target ≠ []) (hsolid : Solid target)
    (hversion : version ≠ []) (hversionSolid : Solid version) (headers : Text)
    (hendpoint : server.browser = true →
      target.take 1023 ≠ strlcpy 80 ('/' :: server.attempt ++ "/ws".toList)) :
    (answer server regular (requestText method target version headers)).isPackage = true ↔
      decodePath maxPath 0 (target.take 1023) = some server.expected := by
  obtain ⟨parsed, hparsed, hcut⟩ :=
    parseRequest_requestText hmethod htarget hsolid hversion hversionSolid headers
  unfold answer
  rw [hparsed]
  dsimp only
  rw [if_neg (by
    intro h
    simp only [Bool.and_eq_true, decide_eq_true_eq] at h
    exact hendpoint h.1.1 (hcut ▸ h.2)), serveFile_package_iff, hcut]

/-- A request that is answered by the package has a target whose beginning is the path of the
package. -/
theorem decodePath_of_answer {server : Server} {regular : Text → Bool} {request : Text}
    {parsed : Request} (hparsed : parseRequest request = some parsed)
    (h : (answer server regular request).isPackage = true) :
    decodePath maxPath 0 parsed.target = some server.expected := by
  unfold answer at h
  rw [hparsed] at h
  dsimp only at h
  split at h
  next => cases h
  next => exact (serveFile_package_iff server regular parsed).mp h

end ShadowMount.PkgServer
