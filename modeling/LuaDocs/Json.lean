import LuaDocs.Table

/-!
# Documents of the analyzers

The analyzers describe a project by a JSON document. A value keeps the order of the members of its
objects; of members with one name the last counts, at the place of the first. Whole numbers and
other numbers are kept apart.

## Main definitions

* `Json`: the values.
* `Json.parse?`: reads a text.
* `Json.isTrue`: whether a value counts as set.
-/

namespace LuaDocs

/-- A JSON value. -/
inductive Json where
  | null
  | bool (b : Bool)
  /-- A number without fraction and exponent. -/
  | int (n : Int)
  /-- The number `mantissa * 10 ^ exponent`, written with a fraction or an exponent. -/
  | decimal (mantissa exponent : Int)
  /-- The numbers that have no digits: infinity, its negative, or no number at all. -/
  | special (name : String)
  | str (s : String)
  | arr (items : List Json)
  | obj (members : List (String × Json))
  deriving Repr, BEq

namespace Json

/-! ### Reading -/

/-- A blank between the parts of a document. -/
def isGap (c : Char) : Bool := c == ' ' || c == '\t' || c == '\n' || c == '\r'

/-- The text without the blanks it starts with. -/
def skip (s : List Char) : List Char := s.dropWhile isGap

/-- The value of a hexadecimal digit. -/
def hexValue? (c : Char) : Option Nat :=
  if c.isDigit then some (c.toNat - '0'.toNat)
  else if 'a' ≤ c && c ≤ 'f' then some (c.toNat - 'a'.toNat + 10)
  else if 'A' ≤ c && c ≤ 'F' then some (c.toNat - 'A'.toNat + 10)
  else none

/-- Reads four hexadecimal digits. -/
def hex4? : List Char → Option (Nat × List Char)
  | a :: b :: c :: d :: r => do
    let a ← hexValue? a
    let b ← hexValue? b
    let c ← hexValue? c
    let d ← hexValue? d
    return (((a * 16 + b) * 16 + c) * 16 + d, r)
  | _ => none

/-- Reads the character after `\u`: four hexadecimal digits, or two such groups that form a pair.
Half of a pair that stands alone becomes the replacement character. -/
def unicode? (s : List Char) : Option (Char × List Char) := do
  let (n, r) ← hex4? s
  if 0xd800 ≤ n && n < 0xdc00 then
    match r with
    | '\\' :: 'u' :: t =>
      match hex4? t with
      | some (m, t') =>
        if 0xdc00 ≤ m && m < 0xe000 then
          return (Char.ofNat (0x10000 + (n - 0xd800) * 0x400 + (m - 0xdc00)), t')
        else return (Char.ofNat 0xfffd, r)
      | none => return (Char.ofNat 0xfffd, r)
    | _ => return (Char.ofNat 0xfffd, r)
  else if 0xdc00 ≤ n && n < 0xe000 then return (Char.ofNat 0xfffd, r)
  else return (Char.ofNat n, r)

/-- The character that an escape stands for. -/
def escape? : Char → Option Char
  | '"' => some '"'
  | '\\' => some '\\'
  | '/' => some '/'
  | 'b' => some (Char.ofNat 8)
  | 'f' => some (Char.ofNat 12)
  | 'n' => some '\n'
  | 'r' => some '\r'
  | 't' => some '\t'
  | _ => none

/-- Reads the rest of a string after its quote; `acc` holds the characters so far, the last first.
The string cannot have more characters than `fuel`. -/
def string? : Nat → List Char → List Char → Option (String × List Char)
  | 0, _, _ => none
  | _, _, [] => none
  | fuel + 1, acc, c :: r =>
    if c == '"' then some (String.ofList acc.reverse, r)
    else if c == '\\' then
      match r with
      | 'u' :: t => do
        let (d, t) ← unicode? t
        string? fuel (d :: acc) t
      | e :: t => do
        let d ← escape? e
        string? fuel (d :: acc) t
      | [] => none
    else if c.toNat < 0x20 then none
    else string? fuel (c :: acc) r

/-- The number that a run of digits stands for. -/
def digits (s : List Char) : Nat := s.foldl (fun n c => 10 * n + (c.toNat - '0'.toNat)) 0

/-- Reads an exponent, if there is a whole one. -/
def exponent (s : List Char) : Option Int × List Char :=
  match s with
  | e :: r =>
    if e == 'e' || e == 'E' then
      let (negative, r) := match r with
        | '-' :: r => (true, r)
        | '+' :: r => (false, r)
        | r => (false, r)
      let ds := r.takeWhile Char.isDigit
      if ds.isEmpty then (none, s)
      else (some (if negative then -(digits ds : Int) else digits ds), r.dropWhile Char.isDigit)
    else (none, s)
  | [] => (none, s)

/-- Reads a number without its sign. -/
def number? (negative : Bool) (s : List Char) : Option (Json × List Char) :=
  let whole := match s with
    | '0' :: _ => ['0']
    | _ => s.takeWhile Char.isDigit
  if whole.isEmpty then none
  else
    let r := s.drop whole.length
    let (frac, r) := match r with
      | '.' :: t =>
        let ds := t.takeWhile Char.isDigit
        if ds.isEmpty then ([], r) else (ds, t.dropWhile Char.isDigit)
      | _ => ([], r)
    let (exp, r) := exponent r
    let m : Int := digits (whole ++ frac)
    let m := if negative then -m else m
    if frac.isEmpty && exp.isNone then some (.int m, r)
    else some (.decimal m (exp.getD 0 - (frac.length : Int)), r)

/-- Removes a word from the start of a text. -/
def word? : List Char → List Char → Option (List Char)
  | [], s => some s
  | c :: w, d :: s => if c == d then word? w s else none
  | _ :: _, [] => none

/-- Reads a value that is neither a string nor an array nor an object. -/
def scalar? (s : List Char) : Option (Json × List Char) :=
  let named (word : String) (v : Json) : Option (Json × List Char) :=
    (word? word.toList s).map fun r => (v, r)
  named "null" .null <|> named "true" (.bool true) <|> named "false" (.bool false) <|>
  named "NaN" (.special "NaN") <|> named "Infinity" (.special "Infinity") <|>
  named "-Infinity" (.special "-Infinity") <|>
  match s with
  | '-' :: r => number? true r
  | _ => number? false s

mutual

/-- Reads a value. Nesting cannot be deeper than `fuel`. -/
def value? : Nat → List Char → Option (Json × List Char)
  | 0, _ => none
  | fuel + 1, s =>
    match s with
    | '"' :: r => (string? (r.length + 1) [] r).map fun p => (.str p.1, p.2)
    | '[' :: r =>
      match skip r with
      | ']' :: t => some (.arr [], t)
      | r => items? fuel [] r
    | '{' :: r =>
      match skip r with
      | '}' :: t => some (.obj [], t)
      | r => members? fuel [] r
    | s => scalar? s

/-- Reads the items of an array, after those in `acc`. -/
def items? : Nat → List Json → List Char → Option (Json × List Char)
  | 0, _, _ => none
  | fuel + 1, acc, s => do
    let (v, r) ← value? fuel s
    match skip r with
    | ',' :: t => items? fuel (v :: acc) (skip t)
    | ']' :: t => some (.arr (v :: acc).reverse, t)
    | _ => none

/-- Reads the members of an object, after those in `acc`. -/
def members? : Nat → List (String × Json) → List Char → Option (Json × List Char)
  | 0, _, _ => none
  | fuel + 1, acc, s =>
    match s with
    | '"' :: r => do
      let (key, r) ← string? (r.length + 1) [] r
      match skip r with
      | ':' :: r => do
        let (v, r) ← value? fuel (skip r)
        let acc := (key, v) :: acc
        match skip r with
        | ',' :: t => members? fuel acc (skip t)
        | '}' :: t => some (.obj (Table.update [] acc.reverse), t)
        | _ => none
      | _ => none
    | _ => none

end

/-- Reads a document. -/
def parse? (s : String) : Option Json :=
  let chars := s.toList
  match value? (2 * chars.length + 2) (skip chars) with
  | some (v, r) => if (skip r).isEmpty then some v else none
  | none => none

/-! ### Access -/

/-- The member of an object. -/
def get? (j : Json) (key : String) : Option Json :=
  match j with
  | .obj members => Table.get? members key
  | _ => none

/-- The value counts as set: not null, not false, not zero, and not empty. -/
def isTrue : Json → Bool
  | .null => false
  | .bool b => b
  | .int n => n != 0
  | .decimal m _ => m != 0
  | .special _ => true
  | .str s => !s.isEmpty
  | .arr items => !items.isEmpty
  | .obj members => !members.isEmpty

end Json

end LuaDocs
