import HexDns.Models.Db
import HexDns.Models.Env

/-! # Labels and numbers as texts

The names under which rows are published (`idna_label`, `svcb_record_name`), and the texts of numbers
and addresses. -/

namespace HexDns.Models.Names

open HexDns.Lib.Texts HexDns.Base.Py HexDns.Base.Label HexDns.Base.Message HexDns.Models.Db
  HexDns.Models.Env

/-! ### Numbers and addresses -/

def showNat (n : ℕ) : Text := Nat.toDigits 10 n

theorem isDigit_showNat {n : ℕ} {c : Char} (hc : c ∈ showNat n) : c.isDigit = true :=
  Nat.isDigit_of_mem_toDigits (by omega) (by omega) hc

def showInt (n : ℤ) : Text := if n < 0 then '-' :: showNat n.natAbs else showNat n.natAbs

/-- `str(IPv4Address)` -/
def ipv4Text (a : BitVec 32) : Text :=
  ['.'].intercalate ((List.range 4).map fun i => showNat (a.toNat / 256 ^ (3 - i) % 256))

/-- The start and the length of the first longest run of zeros. -/
def longestZeros (hextets : List ℕ) : ℕ × ℕ :=
  ((List.range hextets.length).map fun i => (i, ((hextets.drop i).takeWhile (· = 0)).length)).foldl
    (fun best run => if best.2 < run.2 then run else best) (0, 0)

/-- `_compress_hextets` -/
def compressHextets (hextets : List ℕ) : List Text :=
  let (start, len) := longestZeros hextets
  let texts := hextets.map (Nat.toDigits 16)
  if 1 < len then
    (if start = 0 then [[]] else []) ++ texts.take start ++ [[]] ++ texts.drop (start + len) ++
      (if start + len = hextets.length then [[]] else [])
  else texts

/-- `str(IPv6Address)` -/
def ipv6Text (a : BitVec 128) : Text :=
  [':'].intercalate
    (compressHextets ((List.range 8).map fun i => a.toNat / 65536 ^ (7 - i) % 65536))

/-! ### The labels of rows -/

/-- A character of `string.ascii_letters + string.digits + "-_ *."` -/
def allowedChar (c : Char) : Bool := c.isAlpha || c.isDigit || c ∈ ['-', '_', ' ', '*', '.']

/-- `t.replace(" ", "\\040")` -/
def escapeBlanks (t : Text) : Text := t.flatMap fun c => if c = ' ' then ['\\', '0', '4', '0'] else [c]

section
variable (h : Host)

/-- `record_name.strip() == "@" or record_name.strip() == ''` -/
def isApex (recordName : Text) : Bool := strip recordName = ['@'] || strip recordName = []

/-- `DNSZoneRecord.idna_label` -/
def idnaLabel (recordName : Text) : Option Text :=
  if isApex recordName then some ['@']
  else
    match h.idna recordName with
    | some t => some t
    | none => if recordName.all allowedChar then some (escapeBlanks recordName) else none

/-- `f"{t}"` of a text or `None` -/
def showOption (t : Option Text) : Text := t.getD "None".toList

/-- `HTTPSRecord.svcb_record_name` -/
def svcbRecordName (recordName : Text) (data : HttpsData) : Option Text :=
  if data.port = some 443 ∧ data.scheme = some "https".toList then some recordName
  else if (data.port = none ∨ data.port = some 0) ∧ (data.scheme = none ∨ data.scheme = some []) then
    idnaLabel h recordName
  else
    let service := '_' :: showOption (data.port.map showNat) ++ ['.', '_'] ++ showOption data.scheme
    if isApex recordName then some service
    else some (service ++ '.' :: showOption (idnaLabel h recordName))

/-- `record_label` -/
def recordLabel (r : Row) : Option Text :=
  match r.data with
  | .https data => svcbRecordName h r.recordName data
  | _ => idnaLabel h r.recordName

end

example : ipv6Text 0x20010db8000000000000000000000001#128 = "2001:db8::1".toList := by decide

end HexDns.Models.Names
