import Msgbox.Types

/-!
# Addresses as strings

`parse_address_str` and `address_as_str`, over C strings as lists of characters without
their terminator. `inet_pton`, `inet_ntoa` and `strtol` follow their documented behaviour.
-/

namespace Msgbox

/-- A NUL-terminated string, without the NUL. -/
abbrev CString := List Char

/-! ## Library functions -/

/-- A decimal number of one to three digits, without leading zeros, up to 255. -/
def parseOctet (digits : CString) : Option Nat :=
  if digits.length = 0 ∨ 3 < digits.length then none
  else if ¬ digits.all Char.isDigit then none
  else if 1 < digits.length ∧ digits.head? = some '0' then none
  else
    let n := digits.foldl (fun acc ch => acc * 10 + (ch.toNat - '0'.toNat)) 0
    if n ≤ 255 then some n else none

/-- Split at every occurrence of `sep`. -/
def splitAt (sep : Char) : CString → List CString
  | [] => [[]]
  | ch :: rest =>
    match splitAt sep rest with
    | [] => [[ch]]
    | part :: parts => if ch = sep then [] :: part :: parts else (ch :: part) :: parts

/-- `inet_pton(AF_INET, ..)`: a dotted quad, stored with the first byte lowest in memory. -/
def inetPton (s : CString) : Option UInt32 :=
  match (splitAt '.' s).map parseOctet with
  | [some a, some b, some c, some d] =>
    some (UInt32.ofNat (a + b * 256 + c * 65536 + d * 16777216))
  | _ => none

/-- `inet_ntoa`. -/
def inetNtoa (ip : UInt32) : CString :=
  let n := ip.toNat
  Nat.toDigits 10 (n % 256) ++ '.' :: Nat.toDigits 10 (n / 256 % 256) ++
    '.' :: Nat.toDigits 10 (n / 65536 % 256) ++ '.' :: Nat.toDigits 10 (n / 16777216)

/-- `isspace` in the C locale. -/
def isSpace (ch : Char) : Bool :=
  ch = ' ' || (9 ≤ ch.toNat && ch.toNat ≤ 13)

/-- The largest and the smallest `long`. -/
def longMax : Int := 9223372036854775807
def longMin : Int := -9223372036854775808

/-- `strtol(.., 10)`: the value, and the rest of the string that `end_ptr` points to. -/
def strtol (s : CString) : Int × CString :=
  let afterSpace := s.dropWhile isSpace
  let negative : Bool := afterSpace.head? = some '-'
  let body := if negative ∨ afterSpace.head? = some '+' then afterSpace.tail else afterSpace
  let digits := body.takeWhile Char.isDigit
  if digits.isEmpty then (0, s)
  else
    let n : Nat := digits.foldl (fun acc ch => acc * 10 + (ch.toNat - '0'.toNat)) 0
    let value : Int := if negative then -(n : Int) else n
    (max longMin (min longMax value), body.dropWhile Char.isDigit)

/-! ## `address_as_str` and `parse_address_str` -/

/-- `address_as_str`, cut to its buffer of 32 bytes. -/
def addressAsStr (address : Address) : CString :=
  let protocol : CString :=
    if address.protocolType = .udp then ['u', 'd', 'p'] else ['t', 'c', 'p']
  let str := protocol ++ [':', '/', '/'] ++ inetNtoa address.ip ++ [':'] ++
    Nat.toDigits 10 address.port.toNat
  str.take 31

/-- `parse_address_str`: the conn's address fields as far as they were written, and the
    error text, if any. The port is narrowed to an `int` and then to 16 bits. -/
def parseAddressStr (address : CString) (conn : Address) : Address × Option String :=
  let shown := String.ofList address
  let error (conn : Address) (text : String) : Address × Option String :=
    (conn, some (snprintf 1024 text))
  let prefixLen := 6
  let protocol : Option Protocol :=
    if address.take prefixLen = ['t', 'c', 'p', ':', '/', '/'] then some .tcp
    else if address.take prefixLen = ['u', 'd', 'p', ':', '/', '/'] then some .udp
    else none
  match protocol with
  | none => error conn ("Failing due to unrecognized prefix: " ++ shown)
  | some p =>
    let conn := { conn with protocolType := p }
    let ipStart := address.drop prefixLen
    if ¬ ipStart.contains ':' then
      error conn ("Can't parse address '" ++ shown ++ "'; missing colon after ip")
    else
      let ipStr := ipStart.takeWhile (· != ':')
      let portStr := (ipStart.dropWhile (· != ':')).tail
      if 15 < ipStr.length ∨ ipStr.length < 1 then
        error conn ("Failing because ip length=" ++ toString ipStr.length ++
          "; expected to be 1-15 (in addresss '" ++ shown ++ "')")
      else
        match (if ipStr = ['*'] then some 0 else inetPton ipStr) with
        | none => error conn ("Couldn't parse ip string '" ++ String.ofList ipStr ++ "'.")
        | some ip =>
          let conn := { conn with ip := ip }
          if portStr.isEmpty then
            error conn ("Empty port string in address '" ++ shown ++ "'")
          else
            let parsed := strtol portStr
            let conn := { conn with port := UInt16.ofNat (parsed.1 % 65536).toNat }
            if ¬ parsed.2.isEmpty then
              error conn ("Invalid port string in address '" ++ shown ++ "'")
            else (conn, none)

end Msgbox
