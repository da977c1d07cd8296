import ShadowMount.Config.Keys

/-!
# Configuration - parsing of single values

The value parsers of {lit}`sm_config_mount.c`, and the functions of the C library
they use, on the text of one value.
-/

namespace ShadowMount.Config

open Foundation

/-- `parse_bool_ini`. -/
def parseBoolIni (value : Text) : Option Bool :=
  if value = "1".toList || ["true", "yes", "on", "ro"].any (fun w => sameNoCase value w.toList) then
    some true
  else if value = "0".toList ||
      ["false", "no", "off", "rw"].any (fun w => sameNoCase value w.toList) then
    some false
  else none

/-- `attach_backend_t` as `parse_backend_ini` reads it. -/
def parseBackendIni (value : Text) : Option AttachBackend :=
  if sameNoCase value "lvd".toList then some .lvd
  else if sameNoCase value "md".toList || sameNoCase value "mdctl".toList then some .md
  else none

/-- The value of a digit in a base of at most 16. -/
def digitValue (c : Char) : Option Nat :=
  if '0' ≤ c ∧ c ≤ '9' then some (c.toNat - 48)
  else if 'a' ≤ c ∧ c ≤ 'f' then some (c.toNat - 87)
  else if 'A' ≤ c ∧ c ≤ 'F' then some (c.toNat - 55)
  else none

/-- The number that a non-empty sequence of digits of the base stands for. -/
def digitsValue (base : Nat) (digits : Text) : Option Nat :=
  if digits = [] then none
  else digits.foldl (fun total c =>
    match total, digitValue c with
    | some total, some d => if d < base then some (total * base + d) else none
    | _, _ => none) (some 0)

/-- Digits with the base prefix of C. -/
def prefixedValue (digits : Text) : Option Nat :=
  match digits with
  | '0' :: 'x' :: rest => digitsValue 16 rest
  | '0' :: 'X' :: rest => digitsValue 16 rest
  | '0' :: rest => if rest = [] then some 0 else digitsValue 8 rest
  | _ => digitsValue 10 digits

/-- `strtoul` with base 0 on a text it consumes as a whole; a negative number
wraps, and a number that does not fit is an error. -/
def strtoulWhole (value : Text) : Option Nat :=
  let wrap (n : Option Nat) (negative : Bool) : Option Nat :=
    match n with
    | none => none
    | some n => if 2 ^ 64 ≤ n then none
      else some (if negative then (2 ^ 64 - n) % 2 ^ 64 else n)
  match value.dropWhile isSpace with
  | '-' :: rest => wrap (prefixedValue rest) true
  | '+' :: rest => wrap (prefixedValue rest) false
  | rest => wrap (prefixedValue rest) false

/-- `parse_u32_ini`. -/
def parseU32Ini (value : Text) : Option Nat :=
  match strtoulWhole value with
  | some n => if n < 2 ^ 32 then some n else none
  | none => none

/-- A number within bounds. -/
def parseBounded (low high : Nat) (value : Text) : Option Nat :=
  match parseU32Ini value with
  | some n => if low ≤ n && n ≤ high then some n else none
  | none => none

/-- `is_valid_sector_size`: a power of two between 512 and a mebibyte. -/
def isValidSectorSize (size : Nat) : Bool :=
  decide (512 ≤ size) && decide (size ≤ 1024 * 1024) && size &&& (size - 1) = 0

/-- A sector size. -/
def parseSectorSize (value : Text) : Option Nat :=
  match parseU32Ini value with
  | some n => if isValidSectorSize n then some n else none
  | none => none

/-- One field of a dotted address: up to three digits without a leading zero. -/
def isOctet (field : Text) : Bool :=
  match digitsValue 10 field with
  | some n => decide (n ≤ 255) && decide (field.length ≤ 3) &&
      (field.length = 1 || field.head? ≠ some '0')
  | none => false

/-- `inet_pton` accepts the text as an IPv4 address. -/
def isIpv4Address (value : Text) : Bool :=
  (value.splitOn '.').length = 4 && (value.splitOn '.').all isOctet

/-- Size of the buffer of the bind address, its terminator included. -/
def maxApiBindAddress : Nat := 16

/-- Strip trailing slashes but not the last character. -/
def stripTrailingSlashes (path : Text) : Text :=
  match path with
  | [] => []
  | c :: rest => c :: rest.rdropWhile (· = '/')

/-- `normalize_absolute_path_value`. -/
def normalizeAbsolutePathValue (value : Text) : Option Text :=
  if maxPath ≤ value.length then none
  else if (trimAscii value).head? ≠ some '/' then none
  else if (trimAscii value).any (fun c => isControl c || c = '#') then none
  else some (stripTrailingSlashes (trimAscii value))

/-- What follows the scheme of an HTTP address. -/
def httpAuthority (url : Text) : Option Text :=
  if sameNoCase (url.take 8) "https://".toList then some (url.drop 8)
  else if sameNoCase (url.take 7) "http://".toList then some (url.drop 7)
  else none

/-- `normalize_http_url_value`. -/
def normalizeHttpUrlValue (value : Text) : Option Text :=
  if maxPath ≤ value.length then none
  else match httpAuthority (trimAscii value) with
    | none => none
    | some authority =>
      if authority.head?.all (fun c => c ∈ ['/', '?', '#']) then none
      else if (trimAscii value).any (fun c => isControl c || isSpace c) then none
      else some (trimAscii value)

/-- The locales of `g_regions`, in order: country, language and locale. -/
def regions : List (String × String × String) :=
  [ ("jp", "ja", "ja-JP"), ("us", "en", "en-US"), ("fr", "fr", "fr-FR"), ("es", "es", "es-ES"),
    ("de", "de", "de-DE"), ("it", "it", "it-IT"), ("nl", "nl", "nl-NL"), ("pt", "pt", "pt-PT"),
    ("ru", "ru", "ru-RU"), ("kr", "ko", "ko-KR"), ("tw", "zh", "zh-TW"), ("cn", "zh", "zh-CN"),
    ("fi", "fi", "fi-FI"), ("se", "sv", "sv-SE"), ("dk", "da", "da-DK"), ("no", "no", "no-NO"),
    ("pl", "pl", "pl-PL"), ("br", "pt", "pt-BR"), ("gb", "en", "en-GB"), ("tr", "tr", "tr-TR"),
    ("mx", "es", "es-MX"), ("sa", "ar", "ar-SA"), ("ca", "fr", "fr-CA"), ("cz", "cs", "cs-CZ"),
    ("hu", "hu", "hu-HU"), ("gr", "el", "el-GR"), ("ro", "ro", "ro-RO"), ("th", "th", "th-TH"),
    ("vn", "vi", "vi-VN"), ("id", "id", "id-ID"), ("ua", "uk", "uk-UA") ]

/-- `language_code_matches`. -/
def languageCodeMatches (value code : Text) : Bool :=
  sameNoCase value code || sameNoCase value (code.map fun c => if c = '-' then '_' else c)

/-- `sm_l10n_parse_language_id`; none inside stands for the automatic choice. -/
def parseLanguageId (value : Text) : Option (Option Nat) :=
  if ["auto", "system", "default"].any (fun w => sameNoCase value w.toList) then some none
  else (regions.findIdx? fun (country, lang, locale) =>
    languageCodeMatches value locale.toList || sameNoCase value country.toList ||
      sameNoCase value lang.toList).map some

/-- `sm_fakelib_mode_t`. -/
inductive FakelibMode where
  | full | emulators | disabled | default
deriving DecidableEq

/-- `sm_config_parse_fakelib_mode`. -/
def parseFakelibMode (value : Text) : Option FakelibMode :=
  if sameNoCase value "full".toList then some .full
  else if sameNoCase value "emulators".toList then some .emulators
  else if sameNoCase value "disabled".toList then some .disabled
  else if sameNoCase value "default".toList then some .default
  else none

end ShadowMount.Config
