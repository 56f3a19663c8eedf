/-! Numbers as lists of bits, the most significant first, and the regrouping of
octets into smaller symbols that base32 and base64 have in common. -/

namespace LedgerClient.Bits

/-- The lowest bits of a number. -/
def ofNat : (width : Nat) → Nat → List Bool
  | 0, _ => []
  | width + 1, n => n.testBit width :: ofNat width n

def toNat (bits : List Bool) : Nat :=
  bits.foldl (fun n bit => 2 * n + bit.toNat) 0

def ofOctets (octets : List UInt8) : List Bool :=
  octets.flatMap fun octet => ofNat 8 octet.toNat

def ofSymbols (width : Nat) (symbols : List Nat) : List Bool :=
  symbols.flatMap (ofNat width)

/-- The octets that the bits fill; up to seven bits are left out at the end. -/
def toOctets : List Bool → List UInt8
  | a :: b :: c :: d :: e :: f :: g :: h :: rest =>
    UInt8.ofNat (toNat [a, b, c, d, e, f, g, h]) :: toOctets rest
  | _ => []

/-- The bits that do not fill an octet. -/
def unused : List Bool → List Bool
  | _ :: _ :: _ :: _ :: _ :: _ :: _ :: _ :: rest => unused rest
  | rest => rest

/-- Symbols of the given width; the last one is filled up with zeros. Each
symbol takes one bit at least, so there are no more symbols than bits. -/
def toSymbols (width : Nat) (bits : List Bool) : List Nat :=
  go bits.length bits
where
  go : Nat → List Bool → List Nat
    | 0, _ => []
    | _, [] => []
    | bound + 1, bits =>
      let group := bits.take width
      toNat (group ++ List.replicate (width - group.length) false) :: go bound (bits.drop width)

end LedgerClient.Bits
