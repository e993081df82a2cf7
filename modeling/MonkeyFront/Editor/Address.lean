import MonkeyFront.Editor.Host
import MonkeyFront.Text.Quoted

/-!
# Addresses of documents

An editor names a document by an address: a scheme, an authority behind two slashes, and a path.
Only the authority can be at fault. Brackets stand in it around an internet address of the newer
kinds, and no character of it may be a disguised delimiter.
-/

namespace MonkeyFront

inductive AddressFault where
  | unbalancedBrackets
  | futureAddress
  | olderAddress
  | noAddress (host : String)
  | disguisedDelimiter (authority : String)
  deriving DecidableEq, Repr

def AddressFault.message : AddressFault → String
  | unbalancedBrackets => "Invalid IPv6 URL"
  | futureAddress => "IPvFuture address is invalid"
  | olderAddress => "An IPv4 address cannot be in brackets"
  | noAddress host => quoted host ++ " does not appear to be an IPv4 or IPv6 address"
  | disguisedDelimiter authority =>
    "netloc '" ++ authority ++ "' contains invalid characters under NFKC normalization"

def isSchemeChar (c : Char) : Bool := c.isAlphanum || c = '+' || c = '-' || c = '.'

/-- The text behind the scheme and its colon, if there is one: it begins with a letter. -/
def afterScheme (text : List Char) : List Char :=
  match text, text.dropWhile isSchemeChar with
  | c :: _, ':' :: rest => if c.isAlpha then rest else text
  | _, _ => text

/-- The authority of an address, empty where there is none. Controls and spaces before the address,
and tabs and line ends in it, are passed over. -/
def authority (address : List Char) : List Char :=
  let text := (address.dropWhile fun c => c.toNat ≤ 0x20).filter fun c =>
    c != '\t' && c != '\n' && c != '\r'
  match afterScheme text with
  | '/' :: '/' :: rest => rest.takeWhile fun c => c != '/' && c != '?' && c != '#'
  | _ => []

/-- The text between the first opening bracket and the first closing one behind it. -/
def bracketed (authority : List Char) : List Char :=
  ((authority.dropWhile (· != '[')).drop 1).takeWhile (· != ']')

/-- An address of a kind to come: `v`, hexadecimal digits, a point, and anything. -/
def isFutureAddress (host : List Char) : Bool :=
  match host with
  | 'v' :: rest =>
    let digits := rest.takeWhile (· != '.')
    !digits.isEmpty && digits.all (fun c => isHextet [c]) && 2 ≤ (rest.drop digits.length).length
  | _ => false

def hostFault? (host : List Char) : Option AddressFault :=
  if host.head? = some 'v' then if isFutureAddress host then none else some .futureAddress
  else if isIPv4 host then some .olderAddress
  else if isIPv6 host then none
  else some (.noAddress (String.ofList host))

/-- The characters that stand for text with a delimiter in it: the compatibility forms, full width,
small and vertical, of the delimiters, and marks such as that for `a/c`. -/
def disguisedDelimiters : List Nat := [
    0x2047, 0x2048, 0x2049, 0x2100, 0x2101, 0x2105, 0x2106, 0x2A74, 0xFE13, 0xFE16, 0xFE55, 0xFE56,
    0xFE5F, 0xFE6B, 0xFF03, 0xFF0F, 0xFF1A, 0xFF1F, 0xFF20]

def authorityFault? (authority : List Char) : Option AddressFault :=
  let inBrackets :=
    match authority.contains '[', authority.contains ']' with
    | false, false => none
    | true, true => hostFault? (bracketed authority)
    | _, _ => some .unbalancedBrackets
  let inDisguise :=
    if authority.any fun c => disguisedDelimiters.contains c.toNat then
      some (.disguisedDelimiter (String.ofList authority))
    else none
  inBrackets.or inDisguise

def addressFault? (address : String) : Option AddressFault :=
  authorityFault? (authority address.toList)

end MonkeyFront
