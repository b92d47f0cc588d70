import AtlasMcp.PyText

/-!
# The host of a URL

`urlparse(url).hostname`, on lists of characters.  The scheme and the network
location are split off; a network location with brackets has to hold an IP literal,
and one that is not ASCII has to keep its shape under normalisation.  `none` stands
for the `ValueError` of a malformed URL.
-/

namespace UrlHost

open PyText

/-- `s.partition(sep)[0]`. -/
def before (sep : Char) (s : List Char) : List Char := s.takeWhile (· ≠ sep)

/-- `s.partition(sep)[2]`. -/
def after (sep : Char) (s : List Char) : List Char := (s.dropWhile (· ≠ sep)).tail

/-- `s.rpartition(sep)[2]`. -/
def afterLast (sep : Char) (s : List Char) : List Char := s.rtakeWhile (· ≠ sep)

/-- The ASCII letters and digits, `+`, `-` and `.`. -/
def isSchemeChar (c : Char) : Bool := c.isAlphanum || c ∈ ['+', '-', '.']

/-- The URL after its scheme, if it has one. -/
def dropScheme (url : List Char) : List Char :=
  let scheme := before ':' url
  if ':' ∈ url ∧ (scheme.head?.any Char.isAlpha) ∧ scheme.all isSchemeChar then
    after ':' url
  else url

/-- An octet of an IPv4 address. -/
def isOctet (s : List Char) : Bool :=
  s ≠ [] ∧ s.all Char.isDigit ∧ s.length ≤ 3 ∧ (s = ['0'] ∨ s.head? ≠ some '0') ∧
    s.foldl (fun n c => n * 10 + (c.toNat - '0'.toNat)) 0 ≤ 255

/-- An address of four numbers with points in between. -/
def isIPv4Address (s : List Char) : Bool :=
  (s.splitOn '.').length = 4 ∧ (s.splitOn '.').all isOctet

/-- A hexadecimal digit, in either case of its letters. -/
def isHexDigit (c : Char) : Bool :=
  c.isDigit || ('a' ≤ c && c ≤ 'f') || ('A' ≤ c && c ≤ 'F')

/-- A group of an IPv6 address. -/
def isHextet (s : List Char) : Bool := s ≠ [] ∧ s.all isHexDigit ∧ s.length ≤ 4

/-- The groups of an IPv6 address, in which an IPv4 address at the end counts
for two. -/
def groups (parts : List (List Char)) : Option (List (List Char)) :=
  let last := parts.getLastD []
  if '.' ∈ last then
    if isIPv4Address last then some (parts.dropLast ++ [['0'], ['0']]) else none
  else some parts

/-- The places of the empty groups other than the first and the last one. -/
def skips (parts : List (List Char)) : List ℕ :=
  (List.range parts.length).filter fun i =>
    1 ≤ i ∧ i + 1 < parts.length ∧ parts.getD i [] = []

/-- The groups stand for eight, with at most one run of them left out. -/
def wellGrouped (parts : List (List Char)) : Bool :=
  match skips parts with
  | [] => parts.length = 8 ∧ parts.all isHextet
  | [i] =>
      -- an empty end is allowed only as part of `::`
      let high := if parts.headD [] = [] then (parts.take i).tail else parts.take i
      let low := if parts.getLastD [] = [] then (parts.drop (i + 1)).dropLast
        else parts.drop (i + 1)
      (parts.headD [] = [] → high = []) ∧ (parts.getLastD [] = [] → low = []) ∧
        high.length + low.length ≤ 7 ∧ high.all isHextet ∧ low.all isHextet
  | _ => false

/-- An address in the notation with colons, perhaps with a zone behind it. -/
def isIPv6Address (s : List Char) : Bool :=
  let addr := before '%' s
  let parts := addr.splitOn ':'
  '/' ∉ s ∧ ('%' ∈ s → after '%' s ≠ [] ∧ '%' ∉ after '%' s) ∧ 3 ≤ parts.length ∧
    (groups parts).any fun parts => parts.length ≤ 9 ∧ wellGrouped parts

/-- `v[a-fA-F0-9]+\..+` -/
def isIPvFuture (s : List Char) : Bool :=
  let digits := s.tail.takeWhile isHexDigit
  let rest := s.tail.dropWhile isHexDigit
  digits ≠ [] ∧ rest.head? = some '.' ∧ rest.tail ≠ [] ∧ '\n' ∉ rest

/-- `_check_bracketed_host` passes. -/
def bracketedHostOk (host : List Char) : Bool :=
  if host.head? = some 'v' then isIPvFuture host else isIPv6Address host

/-- `_checknetloc` passes: no character of a network location becomes a
delimiter under normalisation. -/
def netlocOk [UnicodeDb] (netloc : List Char) : Bool :=
  let n := netloc.filter fun c => c ∉ ['@', ':', '#', '?']
  netloc.all (fun c => c.toNat < 128) ∨ UnicodeDb.nfkc n = n ∨
    ['/', '?', '#', '@', ':'].all fun c => c ∉ UnicodeDb.nfkc n

/-- `urlsplit(url).netloc`. -/
def netloc [UnicodeDb] (url : List Char) : Option (List Char) :=
  let url := (url.dropWhile fun c => c.toNat ≤ 0x20).filter fun c =>
    c ∉ ['\t', '\r', '\n']
  let rest := dropScheme url
  let loc := if ['/', '/'].isPrefixOf rest then
    (rest.drop 2).takeWhile fun c => c ∉ ['/', '?', '#'] else []
  if ('[' ∈ loc ∧ ']' ∉ loc) ∨ (']' ∈ loc ∧ '[' ∉ loc) then none
  else if '[' ∈ loc ∧ ']' ∈ loc ∧ ¬ bracketedHostOk (before ']' (after '[' loc)) then
    none
  else if netlocOk loc then some loc
  else none

/-- The host of a network location: after the user information, inside the
brackets or before the port, in lower case up to a zone. -/
def hostOfNetloc [UnicodeDb] (netloc : List Char) : Option (List Char) :=
  let hostinfo := afterLast '@' netloc
  let host := if '[' ∈ hostinfo then before ']' (after '[' hostinfo)
    else before ':' hostinfo
  if host = [] then none
  else some (UnicodeDb.lower (before '%' host) ++ host.dropWhile (· ≠ '%'))

/-- `urlparse(url).hostname`, or the `ValueError` of a URL that does not
parse. -/
def hostname [UnicodeDb] (url : String) : Except String (Option String) :=
  match netloc url.toList with
  | none => .error "ValueError"
  | some loc => .ok ((hostOfNetloc loc).map String.ofList)

example : (hostname "https://user@API.example.com:8443/a?b#c").toOption =
    some (some "api.example.com") := by decide +kernel

example : (hostname "https://[fe80::1%eTh0]:80/").toOption =
    some (some "fe80::1%eTh0") := by decide +kernel

end UrlHost
