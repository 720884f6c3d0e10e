import Memmy.Lib.IpAddress
import Memmy.Lib.Result
import Memmy.Lib.Text

/-! # The network guard

The guard reads an address into a big integer and compares its prefix with that of each blocked network. A
URL is let through when every address of its host is outside the blocked networks or inside the whitelist.
The parser of URLs and the resolver are parameters. -/

namespace Memmy.Security.Network

open Lib.IpAddress Lib.Text

/-! ### Reading addresses -/

structure Parsed where
  value : ℤ
  version : Version
  deriving DecidableEq

structure Cidr where
  base : ℤ
  bits : ℕ
  version : Version
  deriving DecidableEq

/-- `net.isIP(ip)` -/
def isIP (ip : List Char) : Option Version :=
  if isIPv4 ip then some .v4 else if isIPv6 ip then some .v6 else none

/-- Whether a sign is negative, and what follows it. -/
def splitSign : List Char → Bool × List Char
  | '-' :: rest => (true, rest)
  | '+' :: rest => (false, rest)
  | text => (false, text)

/-- What follows the prefix of a hexadecimal number. -/
def dropPrefix : List Char → List Char
  | '0' :: 'x' :: rest => rest
  | '0' :: 'X' :: rest => rest
  | text => text

/-- `parseInt(text, 16)`, `none` where it is `NaN`. -/
def parseHex (text : List Char) : Option ℤ :=
  let signed := splitSign (text.dropWhile isJsSpace)
  let digits := (dropPrefix signed.2).takeWhile isHex
  if digits = [] then none
  else some (if signed.1 then -(ofDigits 16 digits : ℤ) else ofDigits 16 digits)

def ipv4ToBigint (ip : List Char) : ℤ :=
  (ip.splitOn '.').foldl (fun acc part => acc * 2 ^ 8 + (ofDigits 10 part : ℤ)) 0

/-- The parts of the two sections, with those filled in that the double colon leaves out. -/
def fullParts (ip : List Char) : Except String (List (List Char)) :=
  let sections := splitPairs ip
  let left := partsOf (sections[0]?.getD [])
  let right := partsOf (sections[1]?.getD [])
  if left.length + right.length ≤ 8 then
    .ok (left ++ List.replicate (8 - left.length - right.length) ['0'] ++ right)
  else .error "Invalid array length"

/-- `BigInt(parseInt(part || "0", 16))` -/
def readPart (part : List Char) : Except String ℤ :=
  match parseHex (if part = [] then ['0'] else part) with
  | some value => .ok value
  | none => .error "The number NaN cannot be converted to a BigInt"

def ipv6ToBigint (ip : List Char) : Except String ℤ :=
  if ip = [':', ':', '1'] then .ok 1
  else do
    let full ← fullParts ip
    full.foldlM (fun acc part => do
      let value ← readPart part
      return acc * 2 ^ 16 + value) 0

def parseIp (ip : List Char) : Except String (Option Parsed) :=
  match isIP ip with
  | some .v4 => .ok (some ⟨ipv4ToBigint ip, .v4⟩)
  | some .v6 => do
    let value ← ipv6ToBigint ip
    return some ⟨value, .v6⟩
  | none => .ok none

/-! ### Networks -/

def inCidr (ip : List Char) (cidr : Cidr) : Except String Bool := do
  match ← parseIp ip with
  | none => return false
  | some parsed =>
    if parsed.version ≠ cidr.version then return false
    else
      let shift := cidr.version.bits - cidr.bits
      return parsed.value / 2 ^ shift = cidr.base / 2 ^ shift

/-- `parseCidr` of the text before the slash and the number behind it. -/
def parseCidr (ip : String) (bits : ℕ) : Option Cidr :=
  match parseIp ip.toList with
  | .ok (some parsed) => if bits ≤ parsed.version.bits then some ⟨parsed.value, bits, parsed.version⟩ else none
  | _ => none

def blockedNetworks : List Cidr := [
  parseCidr "0.0.0.0" 8,
  parseCidr "10.0.0.0" 8,
  parseCidr "100.64.0.0" 10,
  parseCidr "127.0.0.0" 8,
  parseCidr "169.254.0.0" 16,
  parseCidr "172.16.0.0" 12,
  parseCidr "192.168.0.0" 16,
  parseCidr "::1" 128,
  parseCidr "fc00::" 7,
  parseCidr "fe80::" 10].reduceOption

/-- `networks.some((cidr) => inCidr(ip, cidr))` -/
def inSome (ip : List Char) (networks : List Cidr) : Except String Bool := networks.anyM (inCidr ip)

def isPrivateIp (whitelist : List Cidr) (ip : List Char) : Except String Bool := do
  if ← inSome ip whitelist then return false
  match ← parseIp ip with
  | none => return true
  | some _ => inSome ip blockedNetworks

/-! ### URLs -/

structure Url where
  protocol : String
  hostname : List Char

/-- The parser of URLs and the answers of the resolver, which has none for a host that it cannot resolve. -/
structure Env where
  parseUrl : List Char → Option Url
  lookup : List Char → List (List Char)

/-- `hostname.replace(/^\[|\]$/g, "").toLowerCase()` -/
def normalizeHost (hostname : List Char) : List Char :=
  let hostname := match hostname with
    | '[' :: rest => rest
    | hostname => hostname
  (if hostname.getLast? = some ']' then hostname.dropLast else hostname).map Char.toLower

/-- The addresses of a host: itself where it is an address, and else those that the resolver answers. -/
def addressesOf (env : Env) (host : List Char) : Except String (List (List Char)) := do
  match ← parseIp host with
  | some _ => return [host]
  | none => return env.lookup host

def firstPrivate (whitelist : List Cidr) : List (List Char) → Except String (Option (List Char))
  | [] => .ok none
  | address :: rest => do
    if ← isPrivateIp whitelist address then return some address
    firstPrivate whitelist rest

/-- The URL is let through, or the reason why it is not. -/
def validateUrlTarget (env : Env) (whitelist : List Cidr) (url : List Char) : Except String (Bool × String) :=
  match env.parseUrl url with
  | none => .ok (false, "Invalid URL")
  | some parsed =>
    if parsed.protocol ∉ ["http:", "https:"] then .ok (false, "Only http/https URLs are allowed")
    else if parsed.hostname = [] then .ok (false, "URL is missing domain")
    else do
      let addresses ← addressesOf env (normalizeHost parsed.hostname)
      if addresses = [] then return (false, "Could not resolve host")
      match ← firstPrivate whitelist addresses with
      | some address =>
        return (false, "Resolved address " ++ String.ofList address ++ " is private or blocked")
      | none => return (true, "")

/-! ### Commands -/

/-- A character of a URL in a command. -/
def isUrlChar (c : Char) : Bool := !isJsSpace c && c ∉ ['\x22', '\x27', '\x60', ';', '|', '<', '>']

/-- What follows the scheme, which is matched in either case. -/
def afterScheme (text : List Char) : Option (List Char) :=
  if (text.take 8).map Char.toLower = "https://".toList then some (text.drop 8)
  else if (text.take 7).map Char.toLower = "http://".toList then some (text.drop 7)
  else none

/-- `command.match(URL_RE)`; after a URL the search goes on behind its end. -/
def urlsFrom : ℕ → List Char → List (List Char)
  | 0, _ => []
  | _ + 1, [] => []
  | fuel + 1, c :: rest =>
    match afterScheme (c :: rest) with
    | none => urlsFrom fuel rest
    | some after =>
      if (after.takeWhile isUrlChar) = [] then urlsFrom fuel rest
      else
        let url := (c :: rest).take ((c :: rest).length - (after.dropWhile isUrlChar).length)
        url :: urlsFrom fuel (after.dropWhile isUrlChar)

def urlsIn (command : List Char) : List (List Char) := urlsFrom (command.length + 1) command

/-- Some URL of the command is not let through. -/
def containsInternalUrl (env : Env) (whitelist : List Cidr) (command : List Char) : Except String Bool :=
  (urlsIn command).anyM fun url => do
    let (ok, _) ← validateUrlTarget env whitelist url
    return !ok

/-- The literal addresses only; an error blocks the command. -/
def urlBlocked (env : Env) (whitelist : List Cidr) (url : List Char) : Except String Bool :=
  match env.parseUrl url with
  | none => .error "Invalid URL"
  | some parsed => do
    let host := normalizeHost parsed.hostname
    match ← parseIp host with
    | some _ => isPrivateIp whitelist host
    | none => return host = "localhost".toList

def containsInternalUrlSync (env : Env) (whitelist : List Cidr) (command : List Char) : Bool :=
  (urlsIn command).any fun url =>
    match urlBlocked env whitelist url with
    | .ok blocked => blocked
    | .error _ => true

/-! ### Redirects -/

structure Response where
  status : ℕ
  location : Option (List Char)
  url : List Char

/-- The answers of the servers, and the resolution of a location against the address of the response. -/
structure Web where
  fetch : List Char → Response
  resolve : List Char → List Char → Option (List Char)

def maxRedirects : ℕ := 5

/-- The URLs that were fetched, and what the loop ends with: a response or the reason why it is refused. -/
def redirectsFrom (env : Env) (web : Web) (whitelist : List Cidr) :
    ℕ → List Char → List (List Char) × Except String (Except String Response)
  | 0, _ => ([], .ok (.error "Too many redirects"))
  | fuel + 1, current =>
    match validateUrlTarget env whitelist current with
    | .error e => ([], .error e)
    | .ok (false, reason) => ([], .ok (.error ("Redirect blocked: " ++ reason)))
    | .ok (true, _) =>
      let response := web.fetch current
      if response.status < 300 ∨ 400 ≤ response.status then ([current], .ok (.ok response))
      else match response.location with
        | none => ([current], .ok (.ok response))
        | some location =>
          let source := if response.url = [] then current else response.url
          match web.resolve location source with
          | none => ([current], .error "Invalid URL")
          | some next =>
            match validateUrlTarget env whitelist next with
            | .error e => ([current], .error e)
            | .ok (false, reason) => ([current], .ok (.error ("Redirect blocked: " ++ reason)))
            | .ok (true, _) =>
              let rest := redirectsFrom env web whitelist fuel next
              (current :: rest.1, rest.2)

def getWithSafeRedirects (env : Env) (web : Web) (whitelist : List Cidr) (url : List Char) :
    List (List Char) × Except String (Except String Response) :=
  redirectsFrom env web whitelist (maxRedirects + 1) url

end Memmy.Security.Network
