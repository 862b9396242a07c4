import HexDns.Tasks.Addresses

/-! # The texts that are addresses

`IPv4Address` and `IPv6Address` of the library `ipaddress` on a text: four decimal numbers without leading
zeros, or up to eight groups of up to four hexadecimal digits, where `::` stands for the groups of zeros
left out and the last two groups may be an IPv4 address. `none` is an `AddressValueError`. -/

namespace HexDns.Svcb.Addresses

open HexDns.Lib.Texts HexDns.Base.Codecs HexDns.Models.Names HexDns.Tasks.Addresses

/-- `_parse_octet` -/
def parseOctet (octet : Text) : Option ℕ :=
  if 3 < octet.length ∨ (octet ≠ ['0'] ∧ octet.head? = some '0') then none
  else (readBase 10 octet).filter (· ≤ 255)

/-- `IPv4Address(t)` -/
def ipv4Address (t : Text) : Option (BitVec 32) :=
  let octets := t.splitOn '.'
  if octets.length ≠ 4 then none
  else (octets.mapM parseOctet).map fun ns => BitVec.ofNat 32 (joinDigits 256 ns)

/-- `_parse_hextet` -/
def parseHextet (hextet : Text) : Option ℕ := if 4 < hextet.length then none else readBase 16 hextet

/-- The parts between colons, where an IPv4 address at the end makes two. -/
def splitParts (t : Text) : Option (List Text) :=
  let parts := t.splitOn ':'
  if parts.length < 3 then none
  else if '.' ∈ parts.getLastD [] then
    (ipv4Address (parts.getLastD [])).map fun a =>
      parts.dropLast ++ [Nat.toDigits 16 (a.toNat / 65536), Nat.toDigits 16 (a.toNat % 65536)]
  else some parts

/-- The positions of the empty parts that are not at an end. -/
def skipIndices (parts : List Text) : List ℕ :=
  (List.range (parts.length - 1)).filter fun i => 0 < i ∧ parts[i]? = some []

/-- The eight groups that the parts stand for. -/
def expandParts (parts : List Text) : Option (List ℕ) :=
  if 9 < parts.length then none
  else
    match skipIndices parts with
    | [] => if parts.length ≠ 8 then none else parts.mapM parseHextet
    | [skip] =>
      let first := parts.headD []
      let last := parts.getLastD []
      let hi := if first = [] then skip - 1 else skip
      let lo := if last = [] then parts.length - skip - 2 else parts.length - skip - 1
      if (first = [] ∧ hi ≠ 0) ∨ (last = [] ∧ lo ≠ 0) ∨ 8 ≤ hi + lo then none
      else do
        let his ← (parts.take hi).mapM parseHextet
        let los ← (parts.drop (parts.length - lo)).mapM parseHextet
        return his ++ List.replicate (8 - (hi + lo)) 0 ++ los
    | _ => none

/-- `IPv6Address(t)` -/
def ipv6Address (t : Text) : Option (BitVec 128) :=
  ((splitParts t).bind expandParts).map fun ns => BitVec.ofNat 128 (joinDigits 65536 ns)

example : ipv4Address "192.0.2.1".toList = some 0xc0000201#32 := by decide
example : ipv6Address "2001:db8::192.0.2.1".toList = some 0x20010db80000000000000000c0000201#128 := by
  decide
example : ipv6Address "::".toList = some 0#128 := by decide

end HexDns.Svcb.Addresses
