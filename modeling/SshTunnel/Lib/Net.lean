import Mathlib.Data.List.Basic
import Mathlib.Data.Fintype.Basic
import Mathlib.Tactic.IntervalCases

/-!
# IP addresses and networks (Go's packages `net` and `net/netip`)

Addresses are byte slices of length 4 or 16, as in package `net`, and texts are
lists of characters. The parsers follow `netip.ParseAddr` and `net.ParseCIDR`
field by field; the printers follow `IP.String` and `IPNet.String`, where an
IPv4-mapped network is written in its IPv4 form.
-/

namespace SshTunnel.Lib.Net

abbrev Byte := Fin 256
abbrev Text := List Char
abbrev IP := List Byte
abbrev IPMask := List Byte

instance neZeroByte : NeZero 256 := ⟨by decide⟩

instance lawfulBEqText : LawfulBEq Text := inferInstance

instance lawfulBEqIP : LawfulBEq IP := inferInstance

/-- `net.IPNet`: the masked address and the mask, both 4 or both 16 bytes. -/
structure IPNet where
  IP : IP
  Mask : IPMask
  deriving Repr, DecidableEq

/-! ### Addresses -/

def v4InV6Prefix : IP := [0, 0, 0, 0, 0, 0, 0, 0, 0, 0, 255, 255]

/-- `IP.To4`: the four bytes of an IPv4 or IPv4-mapped address. -/
def to4 (ip : IP) : Option IP :=
  if ip.length = 4 then some ip
  else if ip.length = 16 ∧ ip.take 12 = v4InV6Prefix then some (ip.drop 12)
  else none

def byteOf (n : ℕ) : Byte := ⟨n % 256, Nat.mod_lt _ (by decide)⟩

/-- `net.CIDRMask`: `ones` one bits, then zero bits, in `l` bytes. -/
def cidrMask (ones : ℕ) : ℕ → IPMask
  | 0 => []
  | l + 1 =>
    if 8 ≤ ones then 255 :: cidrMask (ones - 8) l
    else byteOf (255 - 255 / 2 ^ ones) :: cidrMask 0 l

def andBytes (a b : List Byte) : List Byte := List.zipWith (fun x y => x &&& y) a b

/-- `IP.Mask`, with `nil` for addresses that do not fit the mask. -/
def maskIP (ip : IP) (mask : IPMask) : IP :=
  let mask := if mask.length = 16 ∧ ip.length = 4 ∧ mask.take 12 = List.replicate 12 255
    then mask.drop 12 else mask
  let ip := if mask.length = 4 ∧ ip.length = 16 ∧ ip.take 12 = v4InV6Prefix
    then ip.drop 12 else ip
  if ip.length = mask.length then andBytes ip mask else []

/-- `networkNumberAndMask`: the canonical form under which a network is printed
and searched; an IPv4-mapped network gives its IPv4 number and mask. -/
def networkNumberAndMask (n : IPNet) : Option (IP × IPMask) :=
  match to4 n.IP with
  | some ip =>
    if n.Mask.length = 4 then some (ip, n.Mask)
    else if n.Mask.length = 16 then some (ip, n.Mask.drop 12)
    else none
  | none => if n.IP.length = 16 ∧ n.Mask.length = 16 then some (n.IP, n.Mask) else none

/-- Membership in a network given by its number and mask. -/
def inNetwork : Option (IP × IPMask) → IP → Bool
  | none, _ => false
  | some (nn, m), ip =>
    let ip := (to4 ip).getD ip
    ip.length = nn.length && andBytes nn m = andBytes ip m

/-- `IPNet.Contains`. -/
def contains (n : IPNet) (ip : IP) : Bool := inNetwork (networkNumberAndMask n) ip

/-! ### Texts of addresses -/

def decText (n : ℕ) : Text := Nat.toDigits 10 n

def dottedText (ip : IP) : Text := [ '.' ].intercalate (ip.map fun b => decText b.val)

def hexDigit (d : ℕ) : Char := ("0123456789abcdef".toList)[d]?.getD '0'

/-- `appendHex`: a 16-bit group without leading zeros. -/
def hexText (x : ℕ) : Text :=
  (if 4096 ≤ x then [hexDigit (x / 4096)] else []) ++
  (if 256 ≤ x then [hexDigit (x / 256 % 16)] else []) ++
  (if 16 ≤ x then [hexDigit (x / 16 % 16)] else []) ++ [hexDigit (x % 16)]

def groups : IP → List ℕ
  | a :: b :: rest => (a.val * 256 + b.val) :: groups rest
  | _ => []

/-- The longest run of at least two zero groups, the first of equal ones
(`(255, 255)` when there is none). -/
def zeroRun (g : List ℕ) : ℕ × ℕ :=
  (List.range 8).foldl (fun r i =>
    let l := ((g.drop i).takeWhile (· = 0)).length
    if 2 ≤ l ∧ r.2 - r.1 < l then (i, i + l) else r) (255, 255)

def orEmptyToken (ts : List Text) : List Text := if ts = [] then [[]] else ts

/-- The colon separated fields of `appendTo6`; the zero run is one empty field,
with a further one where it stands at an end of the address. -/
def tokens6 (g : List ℕ) : List Text :=
  let (zeroStart, zeroEnd) := zeroRun g
  if zeroStart = 255 then g.map hexText
  else orEmptyToken ((g.take zeroStart).map hexText) ++ [] ::
    orEmptyToken ((g.drop zeroEnd).map hexText)

/-- `IP.String`. -/
def ipText (ip : IP) : Text :=
  match to4 ip with
  | some p4 => dottedText p4
  | none => if ip = [] then "<nil>".toList else [ ':' ].intercalate (tokens6 (groups ip))

/-- `simpleMaskLength`: the number of leading one bits, `none` for a mask that is
not of the form ones then zeros. -/
def simpleMaskLength : IPMask → Option ℕ
  | [] => some 0
  | b :: rest =>
    if b = 255 then (simpleMaskLength rest).map (· + 8)
    else if rest.all (· = 0) then (List.range 8).find? fun k => byteOf (255 - 255 / 2 ^ k) = b
    else none

def hexString (bs : List Byte) : Text :=
  bs.flatMap fun b => [hexDigit (b.val / 16), hexDigit (b.val % 16)]

/-- `IPNet.String`. -/
def netText (n : IPNet) : Text :=
  match networkNumberAndMask n with
  | none => "<nil>".toList
  | some (nn, m) =>
    match simpleMaskLength m with
    | none => ipText nn ++ '/' :: hexString m
    | some l => ipText nn ++ '/' :: decText l

/-! ### Parsing -/

def digitVal (c : Char) : Option ℕ := if c.isDigit then some (c.toNat - 48) else none

def hexVal (c : Char) : Option ℕ :=
  if c.isDigit then some (c.toNat - 48)
  else if 'a' ≤ c ∧ c ≤ 'f' then some (c.toNat - 87)
  else if 'A' ≤ c ∧ c ≤ 'F' then some (c.toNat - 55)
  else none

/-- `parseIPv4Fields`, with the value and the number of digits of the current
octet and the octets already read. -/
def parseIPv4Fields : Text → ℕ → ℕ → List Byte → Option IP
  | [], val, _, fields => if fields.length < 3 then none else some (fields ++ [byteOf val])
  | c :: cs, val, digLen, fields =>
    match digitVal c with
    | some d =>
      if digLen = 1 ∧ val = 0 then none
      else if 255 < val * 10 + d then none
      else parseIPv4Fields cs (val * 10 + d) (digLen + 1) fields
    | none =>
      if c = '.' then
        if digLen = 0 ∨ cs = [] then none
        else if fields.length = 3 then none
        else parseIPv4Fields cs 0 0 (fields ++ [byteOf val])
      else none

/-- One hexadecimal group: the number of digits, the value and what follows. -/
def parseHexGroup : Text → ℕ → ℕ → Option (ℕ × ℕ × Text)
  | [], off, acc => some (off, acc, [])
  | c :: cs, off, acc =>
    match hexVal c with
    | none => some (off, acc, c :: cs)
    | some d =>
      if 3 < off then none
      else if 65535 < acc * 16 + d then none
      else parseHexGroup cs (off + 1) (acc * 16 + d)

/-- The loop of `parseIPv6`; the position in the address is the number of bytes
read so far, and every round adds at least two, so eight rounds are enough. -/
def parseIPv6Loop : ℕ → IP → Option ℕ → Text → Option (IP × Option ℕ × Text)
  | 0, ip, ellipsis, s => some (ip, ellipsis, s)
  | fuel + 1, ip, ellipsis, s =>
    if 16 ≤ ip.length then some (ip, ellipsis, s)
    else match parseHexGroup s 0 0 with
      | none => none
      | some (off, acc, rest) =>
        if off = 0 then none
        else if rest.head? = some '.' then
          if ellipsis = none ∧ ip.length ≠ 12 then none
          else if 16 < ip.length + 4 then none
          else (parseIPv4Fields s 0 0 []).map fun p4 => (ip ++ p4, ellipsis, [])
        else
          let ip := ip ++ [byteOf (acc / 256), byteOf acc]
          match rest with
          | [] => some (ip, ellipsis, [])
          | [_] => none
          | c :: d :: cs =>
            if c ≠ ':' then none
            else if d = ':' then
              if ellipsis.isSome then none
              else if cs = [] then some (ip, some ip.length, [])
              else parseIPv6Loop fuel ip (some ip.length) cs
            else parseIPv6Loop fuel ip ellipsis (d :: cs)

/-- The expansion of the ellipsis after the loop of `parseIPv6`. -/
def expandEllipsis : IP × Option ℕ × Text → Option IP
  | (ip, ellipsis, s) =>
    if s ≠ [] then none
    else if ip.length < 16 then
      ellipsis.map fun e => ip.take e ++ List.replicate (16 - ip.length) 0 ++ ip.drop e
    else if ellipsis.isSome then none
    else some ip

def parseIPv6Body (s : Text) : Option IP :=
  match s with
  | [':', ':'] => some (List.replicate 16 0)
  | ':' :: ':' :: rest => (parseIPv6Loop 8 [] (some 0) rest).bind expandEllipsis
  | _ => (parseIPv6Loop 8 [] none s).bind expandEllipsis

/-- `netip.Addr` as far as package `net` uses it: 4 or 16 bytes and the zone. -/
structure Addr where
  bytes : IP
  zone : Text
  deriving Repr, DecidableEq

def parseIPv6 (s : Text) : Option Addr :=
  let zone := (s.dropWhile (· ≠ '%')).drop 1
  if '%' ∈ s ∧ zone = [] then none
  else (parseIPv6Body (s.takeWhile (· ≠ '%'))).map fun ip => ⟨ip, zone⟩

/-- `netip.ParseAddr`: the first of `.`, `:` and `%` selects the notation. -/
def parseAddr (s : Text) : Option Addr :=
  match s.find? fun c => c = '.' || c = ':' || c = '%' with
  | some '.' => (parseIPv4Fields s 0 0 []).map fun ip => ⟨ip, []⟩
  | some ':' => parseIPv6 s
  | _ => none

/-- `dtoi`: a decimal number below `0xFFFFFF` that takes the whole text. -/
def dtoi : Text → ℕ → Option ℕ
  | [], n => some n
  | c :: cs, n =>
    match digitVal c with
    | none => none
    | some d => if 16777215 ≤ n * 10 + d then none else dtoi cs (n * 10 + d)

/-- `net.ParseCIDR`. -/
def parseCIDR (s : Text) : Option (IP × IPNet) :=
  if '/' ∈ s then
    let mask := (s.dropWhile (· ≠ '/')).drop 1
    match parseAddr (s.takeWhile (· ≠ '/')), (if mask = [] then none else dtoi mask 0) with
    | some addr, some n =>
      if addr.zone ≠ [] then none
      else if addr.bytes.length * 8 < n then none
      else
        let m := cidrMask n addr.bytes.length
        let addr16 := if addr.bytes.length = 4 then v4InV6Prefix ++ addr.bytes else addr.bytes
        some (addr16, ⟨maskIP addr16 m, m⟩)
    | _, _ => none
  else none

end SshTunnel.Lib.Net
