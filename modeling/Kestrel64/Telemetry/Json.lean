import Mathlib.Data.List.Lex
import Kestrel64.Lib.Decimal
import Kestrel64.Lib.OrdMap

/-! # Telemetry: JSON

    `telemetry/json.hpp`: the values, the serializer and the parser of the
    telemetry protocol.

    A text is a byte string; the parser's two pointers are the bytes from `p`
    to `end`. An object is kept as `std::map` iterates it, as its entries in
    key order. Doubles are a type `F` with the two conversions of the C
    library, `strtod` and the printing of a double.
-/

namespace Json

/-- Bytes in the order `std::string` compares them. -/
scoped instance : LinearOrder Byte where
  le_refl := BitVec.le_refl
  le_trans _ _ _ := BitVec.le_trans
  le_antisymm _ _ := BitVec.le_antisymm
  le_total := BitVec.le_total
  lt_iff_le_not_ge a b := by
    simp only [BitVec.lt_def, BitVec.le_def]
    omega
  toDecidableLE := inferInstance

/-! ## Section 1: Values -/

/-- A value. A number is an integer, with 64 bits and the flag `sign` that says
    how to read them, or a double. -/
inductive Value (F : Type) where
  | null
  | bool (b : Bool)
  | int (sign : Bool) (u : BitVec 64)
  | num (d : F)
  | str (s : Bytes)
  | arr (a : List (Value F))
  | obj (o : List (Bytes × Value F))

/-- What the C library does with doubles. -/
structure Doubles (F : Type) where
  strtod : Bytes → F
  print : F → Bytes

/-! ## Section 2: The serializer -/

def quote : Byte := 0x22
def backslash : Byte := 0x5c
def slash : Byte := 0x2f
def comma : Byte := 0x2c
def colon : Byte := 0x3a
def minus : Byte := 0x2d
def plus : Byte := 0x2b
def dot : Byte := 0x2e
def openBrace : Byte := 0x7b
def closeBrace : Byte := 0x7d
def openBracket : Byte := 0x5b
def closeBracket : Byte := 0x5d

/-- The letter `c` in ASCII. -/
def ascii (c : Char) : Byte := BitVec.ofNat 8 c.toNat

def lit (cs : List Char) : Bytes := cs.map ascii

/-- A digit of `%x`. -/
def hexDigit (d : Nat) : Byte := BitVec.ofNat 8 (if d < 10 then 0x30 + d else 0x57 + d)

/-- What `escape` writes for one byte. -/
def escapeByte (c : Byte) : Bytes :=
  if c = quote then [backslash, quote]
  else if c = backslash then [backslash, backslash]
  else if c = 0x0a then [backslash, ascii 'n']
  else if c = 0x0d then [backslash, ascii 'r']
  else if c = 0x09 then [backslash, ascii 't']
  else if c.toNat < 0x20 then
    [backslash, ascii 'u', ascii '0', ascii '0', hexDigit (c.toNat / 16), hexDigit (c.toNat % 16)]
  else [c]

def escape (s : Bytes) : Bytes := quote :: s.flatMap escapeByte ++ [quote]

/-- `std::to_string` of an `s64`. -/
def intText (n : Int) : Bytes :=
  if n < 0 then minus :: Decimal.text n.natAbs else Decimal.text n.natAbs

section Serializer

variable {F : Type} (D : Doubles F)

mutual

def serialize : Value F → Bytes
  | .null => lit ['n', 'u', 'l', 'l']
  | .bool b => if b then lit ['t', 'r', 'u', 'e'] else lit ['f', 'a', 'l', 's', 'e']
  | .int sign u => if sign then intText u.toInt else Decimal.text u.toNat
  | .num d => D.print d
  | .str s => escape s
  | .obj o => openBrace :: serializeFields true o ++ [closeBrace]
  | .arr a => openBracket :: serializeItems true a ++ [closeBracket]

/-- The loop over the fields of an object. -/
def serializeFields : Bool → List (Bytes × Value F) → Bytes
  | _, [] => []
  | first, (k, val) :: o =>
    (if first then [] else [comma]) ++ escape k ++ colon :: serialize val ++ serializeFields false o

/-- The loop over the items of an array. -/
def serializeItems : Bool → List (Value F) → Bytes
  | _, [] => []
  | first, val :: a =>
    (if first then [] else [comma]) ++ serialize val ++ serializeItems false a

end

def dump (v : Value F) : Bytes := serialize D v

end Serializer

/-! ## Section 3: The parser -/

/-- The text that is left, and whether all was well so far. -/
structure Parser where
  p : Bytes
  ok : Bool := true
deriving DecidableEq, Repr

def isSpace (b : Byte) : Bool := b = 0x20 || b = 0x09 || b = 0x0a || b = 0x0d

def Parser.ws (q : Parser) : Parser := { q with p := q.p.dropWhile isSpace }

/-- `match`: take `cs` if the text begins with it. -/
def Parser.matchLit (q : Parser) (cs : Bytes) : Option Parser :=
  if cs <+: q.p then some { q with p := q.p.drop cs.length } else none

/-- The characters of a number. -/
def isNumeric (b : Byte) : Bool :=
  b = minus || b = plus || b = dot || b = ascii 'e' || b = ascii 'E' || Decimal.isDigit b

def isFraction (b : Byte) : Bool := b = dot || b = ascii 'e' || b = ascii 'E'

/-- `strtoull` in base 10, on a text without spaces in front. -/
def strtoull (s : Bytes) : BitVec 64 :=
  let neg := s.head? = some minus
  let s := if neg ∨ s.head? = some plus then s.tail else s
  let v := Decimal.value s
  if 2 ^ 64 ≤ v then BitVec.ofNat 64 (2 ^ 64 - 1)
  else if neg then -BitVec.ofNat 64 v else BitVec.ofNat 64 v

/-- `strtoll` in base 10, on a text without spaces in front. -/
def strtoll (s : Bytes) : BitVec 64 :=
  let neg := s.head? = some minus
  let s := if neg ∨ s.head? = some plus then s.tail else s
  let v : Int := if neg then -(Decimal.value s) else Decimal.value s
  BitVec.ofInt 64 (max (-2 ^ 63) (min (2 ^ 63 - 1) v))

def hexValue (b : Byte) : Option Nat :=
  let n := b.toNat
  if 0x30 ≤ n ∧ n ≤ 0x39 then some (n - 0x30)
  else if 0x61 ≤ n ∧ n ≤ 0x66 then some (n - 0x57)
  else if 0x41 ≤ n ∧ n ≤ 0x46 then some (n - 0x37)
  else none

/-- The number the hexadecimal digits in front of `s` stand for. -/
def hexDigits (s : Bytes) : Nat :=
  (s.takeWhile fun b => (hexValue b).isSome).foldl (fun v b => 16 * v + (hexValue b).getD 0) 0

/-- `isspace` in the C locale. -/
def isCSpace (b : Byte) : Bool := b = 0x20 || (0x09 ≤ b.toNat && b.toNat ≤ 0x0d)

/-- `strtol` in base 16: spaces, a sign and `0x` may come first. -/
def strtolHex (s : Bytes) : Int :=
  let s := s.dropWhile isCSpace
  let neg := s.head? = some minus
  let s := if neg ∨ s.head? = some plus then s.tail else s
  let v := match s with
    | z :: x :: d :: s =>
      if z = ascii '0' ∧ (x = ascii 'x' ∨ x = ascii 'X') ∧ (hexValue d).isSome then hexDigits (d :: s)
      else hexDigits (z :: x :: d :: s)
    | s => hexDigits s
  if neg then -(v : Int) else v

/-- What `\u` with the four characters `hx` stands for. -/
def unicode (hx : Bytes) : Byte :=
  if strtolHex hx < 0x80 then BitVec.ofInt 8 (strtolHex hx) else ascii '?'

/-- What a backslash and `e` stand for, other than `\u`. -/
def unescape (e : Byte) : Byte :=
  if e = ascii 'n' then 0x0a
  else if e = ascii 't' then 0x09
  else if e = ascii 'r' then 0x0d
  else e

/-- The loop of `string`, after the opening quote: the text and what is left. -/
def stringBody : Bytes → Bytes × Bytes
  | [] => ([], [])
  | c :: p =>
    if c = quote then ([], p)
    else if c = backslash then
      match p with
      | [] => ([c], [])
      | e :: p =>
        if e = ascii 'u' then
          match p with
          | a :: b :: c :: d :: p =>
            let (s, p) := stringBody p
            (unicode [a, b, c, d] :: s, p)
          | p => stringBody p
        else
          let (s, p) := stringBody p
          (unescape e :: s, p)
    else
      let (s, p) := stringBody p
      (c :: s, p)

def Parser.string (q : Parser) : Bytes × Parser :=
  let (s, p) := stringBody q.p.tail
  (s, { q with p := p })

section Parser

variable {F : Type} (D : Doubles F)

def Parser.number (q : Parser) : Value F × Parser :=
  let tok := q.p.takeWhile isNumeric
  let v :=
    if tok.any isFraction then .num (D.strtod tok)
    else if tok.head? = some minus then .int true (strtoll tok)
    else .int false (strtoull tok)
  (v, { q with p := q.p.dropWhile isNumeric })

def Parser.fail (q : Parser) : Parser := { q with ok := false }

mutual

/-- `value`. The fuel bounds the calls inside one another and the rounds of the
    loops; each bracket and each comma takes a character. -/
def Parser.value : Nat → Parser → Value F × Parser
  | 0, q => (.null, q.fail)
  | fuel + 1, q =>
    let q := q.ws
    match q.p.head? with
    | none => (.null, q.fail)
    | some c =>
      if c = openBrace then Parser.object fuel q
      else if c = openBracket then Parser.array fuel q
      else if c = quote then
        let (s, q) := q.string
        (.str s, q)
      else if c = ascii 't' then
        match q.matchLit (lit ['t', 'r', 'u', 'e']) with
        | some q => (.bool true, q)
        | none => (.null, q.fail)
      else if c = ascii 'f' then
        match q.matchLit (lit ['f', 'a', 'l', 's', 'e']) with
        | some q => (.bool false, q)
        | none => (.null, q.fail)
      else if c = ascii 'n' then
        match q.matchLit (lit ['n', 'u', 'l', 'l']) with
        | some q => (.null, q)
        | none => (.null, q.fail)
      else q.number D

def Parser.object : Nat → Parser → Value F × Parser
  | 0, q => (.null, q.fail)
  | fuel + 1, q =>
    let q := { q with p := q.p.tail }.ws
    if q.p.head? = some closeBrace then (.obj [], { q with p := q.p.tail })
    else Parser.fields fuel [] q

/-- The loop of `object`; `o` are the fields so far. -/
def Parser.fields : Nat → List (Bytes × Value F) → Parser → Value F × Parser
  | 0, o, q => (.obj o, q.fail)
  | fuel + 1, o, q =>
    if q.p = [] then (.obj o, q)
    else
      let q := q.ws
      -- at the end `*p` is the terminator of the string
      if q.p.head? ≠ some quote then (.obj o, q.fail)
      else
        let (key, q) := q.string
        let q := q.ws
        if q.p.head? ≠ some colon then (.obj o, q.fail)
        else
          let (val, q) := Parser.value fuel { q with p := q.p.tail }
          let o := OrdMap.insertEntry key val o
          let q := q.ws
          if q.p.head? = some comma then Parser.fields fuel o { q with p := q.p.tail }
          else if q.p.head? = some closeBrace then (.obj o, { q with p := q.p.tail })
          else (.obj o, q.fail)

def Parser.array : Nat → Parser → Value F × Parser
  | 0, q => (.null, q.fail)
  | fuel + 1, q =>
    let q := { q with p := q.p.tail }.ws
    if q.p.head? = some closeBracket then (.arr [], { q with p := q.p.tail })
    else Parser.items fuel [] q

/-- The loop of `array`; `a` are the items so far. -/
def Parser.items : Nat → List (Value F) → Parser → Value F × Parser
  | 0, a, q => (.arr a, q.fail)
  | fuel + 1, a, q =>
    if q.p = [] then (.arr a, q)
    else
      let (val, q) := Parser.value fuel q
      let a := a ++ [val]
      let q := q.ws
      if q.p.head? = some comma then Parser.items fuel a { q with p := q.p.tail }
      else if q.p.head? = some closeBracket then (.arr a, { q with p := q.p.tail })
      else (.arr a, q.fail)

end

/-- The value of a text, and `ok`. -/
def parse (s : Bytes) : Value F × Bool :=
  let (v, q) := Parser.value D (4 * s.length + 4) (Parser.ws { p := s })
  (v, q.ws.ok)

end Parser

end Json
