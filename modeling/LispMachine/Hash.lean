/-!
# Hash codes

Every datum has a 32-bit signed hash that agrees with equality: equal data have equal codes.
Text goes through a 32-bit murmur mix of its UTF-8 bytes; numbers fold their high and low words;
sequences combine the codes of their members in order, sets and maps without regard to order.

The arithmetic is that of 32-bit words, so every operation here wraps.
-/
namespace LispMachine.Hash

/-- The 32-bit fraction of the golden ratio, used to spread combined codes. -/
def golden : UInt32 := 0x9e3779b9

/-! ## The murmur mix -/

def rotateLeft (x : UInt32) (r : UInt32) : UInt32 := (x <<< r) ||| (x >>> (32 - r))

def scramble (k : UInt32) : UInt32 := rotateLeft (k * 0xcc9e2d51) 15 * 0x1b873593

def mixBlock (h k : UInt32) : UInt32 := rotateLeft (h ^^^ scramble k) 13 * 5 + 0xe6546b64

/-- Up to four bytes as one word, the first byte lowest. -/
def littleEndian : List UInt8 → UInt32
  | [] => 0
  | b :: bs => b.toUInt32 ||| (littleEndian bs <<< 8)

/-- Absorbs whole blocks of four bytes, then the one to three bytes left over. -/
def absorb : UInt32 → List UInt8 → UInt32
  | h, a :: b :: c :: d :: rest => absorb (mixBlock h (littleEndian [a, b, c, d])) rest
  | h, [] => h
  | h, tail => h ^^^ scramble (littleEndian tail)

def avalanche (x : UInt32) : UInt32 :=
  let x := x ^^^ (x >>> 16)
  let x := x * 0x85ebca6b
  let x := x ^^^ (x >>> 13)
  let x := x * 0xc2b2ae35
  x ^^^ (x >>> 16)

/-- Murmur of a byte string with seed zero. -/
def ofBytes (bytes : List UInt8) : UInt32 :=
  avalanche (absorb 0 bytes ^^^ UInt32.ofNat bytes.length)

/-! ## Codes of atoms -/

def ofLong (n : Int64) : Int32 :=
  let w := n.toUInt64
  (w ^^^ (w >>> 32)).toUInt32.toInt32

/-- Both zeros are equal, so both have code zero. -/
def ofDouble (d : Float) : Int32 := if d == 0.0 then 0 else ofLong d.toBits.toInt64

def ofBool (b : Bool) : Int32 := if b then 1231 else 1237

def ofChar (c : Char) : Int32 := c.val.toInt32

def ofString (s : String) : Int32 := (ofBytes s.toUTF8.toList).toInt32

/-! ## Combining codes -/

def combine (seed hash : Int32) : Int32 :=
  let s := seed.toUInt32
  (s ^^^ (hash.toUInt32 + golden + (s <<< 6) + (s >>> 2))).toInt32

def finish (h : Int32) (count : Nat) : Int32 :=
  (avalanche (h.toUInt32 ^^^ UInt32.ofNat count)).toInt32

/-- The code of a sequence: a polynomial in 31 over the members' codes. -/
def ordered (hashes : List Int32) : Int32 :=
  finish (hashes.foldl (fun h x => h * 31 + x) 1) hashes.length

/-- The code of a collection whose order does not matter: the sum of the members' codes. -/
def unordered (hashes : List Int32) : Int32 :=
  finish (hashes.foldl (fun h x => h + x) 0) hashes.length

end LispMachine.Hash
