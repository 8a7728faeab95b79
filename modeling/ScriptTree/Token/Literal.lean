import ScriptTree.Token.Lexeme

/-! Literals at the head of a text: numbers, strings, template text and regular expressions.

A number is decimal, with optional fraction and exponent, or an integer in base 16, 8 or 2 behind a
radix mark. An integer may end in `n`. A single `_` may stand between two digits. A point followed
by a second one belongs to a range and not to the number, and an exponent mark without digits behind
it is no part of the number.

Escape sequences are the same in strings and templates: up to three octal digits, `x` and two
hexadecimal digits, `u` and four of them or any number in braces, a line continuation, or any other
single character. A malformed one ends at its first wrong character and still counts as an escape. A
string ends at its quote, before a line feed or carriage return, or with the text. -/
namespace ScriptTree.Lexeme

/-! ### Numbers -/

def isDigitOf (radix : Nat) (c : Char) : Bool :=
  if radix = 16 then c.isDigit || ('a' ≤ c && c ≤ 'f') || ('A' ≤ c && c ≤ 'F')
  else '0' ≤ c && c.toNat < '0'.toNat + radix

/-- The digits at the head of a text, with single separators between them. `started` says whether a
digit stands before the text, `taken` holds what has been read, last character first. -/
def digitRun (radix : Nat) (started : Bool) : List Char → List Char → List Char
  | [], taken => taken.reverse
  | c :: cs, taken =>
    if isDigitOf radix c then digitRun radix true cs (c :: taken)
    else if c = '_' && started && cs.head?.any (isDigitOf radix) then
      digitRun radix started cs (c :: taken)
    else taken.reverse

/-- The digits at the head of a text that may not open with a separator. -/
def digits (radix : Nat) (cs : List Char) : List Char := digitRun radix false cs []

def radixMark? : Char → Option Nat
  | 'x' | 'X' => some 16
  | 'o' | 'O' => some 8
  | 'b' | 'B' => some 2
  | _ => none

/-- The suffix of an integer without size limit. -/
def bigSuffix : List Char → List Char
  | 'n' :: _ => ['n']
  | _ => []

/-- A point that does not open a range, and the digits after it. -/
def fraction : List Char → List Char
  | '.' :: '.' :: _ => []
  | '.' :: cs => '.' :: digits 10 cs
  | _ => []

/-- An exponent mark, an optional sign and at least one digit. -/
def exponent : List Char → List Char
  | e :: cs =>
    if e = 'e' || e = 'E' then
      let sign := (cs.take 1).filter fun c => c = '+' || c = '-'
      let ds := digits 10 (cs.drop sign.length)
      if ds.isEmpty then [] else e :: sign ++ ds
    else []
  | [] => []

/-- A decimal number at the head of a text that starts with a digit, or with a point and a digit. -/
def decimal (cs : List Char) : List Char :=
  let whole := digits 10 cs
  let afterWhole := cs.drop whole.length
  let part := fraction afterWhole
  let afterPart := afterWhole.drop part.length
  let power := exponent afterPart
  let suffix := if part.isEmpty && power.isEmpty then bigSuffix afterPart else []
  whole ++ part ++ power ++ suffix

/-- The number at the head of a text that starts with a digit, or with a point and a digit. -/
def ofNumber (cs : List Char) : Lexeme :=
  match cs with
  | '0' :: mark :: rest =>
    match radixMark? mark with
    | some radix =>
      let ds := digits radix rest
      let suffix := bigSuffix (rest.drop ds.length)
      .number ('0' :: mark :: ds ++ suffix) (if ds.isEmpty then some radix else none)
    | none => .number (decimal cs) none
  | _ => .number (decimal cs) none

/-! ### Escape sequences -/

def isHex (c : Char) : Bool := c.isDigit || ('a' ≤ c && c ≤ 'f') || ('A' ≤ c && c ≤ 'F')

def isOctal (c : Char) : Bool := '0' ≤ c && c ≤ '7'

/-- The longest stretch of at most `n` characters with the property `p`. -/
def takeUpTo (n : Nat) (p : Char → Bool) (cs : List Char) : List Char := (cs.take n).takeWhile p

/-- What follows the backslash of an escape sequence, and whether it is well-formed. -/
def escapeBody : List Char → List Char × Bool
  | [] => ([], false)
  | 'x' :: cs =>
    let ds := takeUpTo 2 isHex cs
    ('x' :: ds, ds.length == 2)
  | 'u' :: '\x7b' :: cs =>
    let ds := cs.takeWhile isHex
    match cs.drop ds.length with
    | '\x7d' :: _ => ('u' :: '\x7b' :: ds ++ ['\x7d'], !ds.isEmpty)
    | _ => ('u' :: '\x7b' :: ds, false)
  | 'u' :: cs =>
    let ds := takeUpTo 4 isHex cs
    ('u' :: ds, ds.length == 4)
  | '\r' :: '\n' :: _ => (['\r', '\n'], true)
  | c :: cs => if isOctal c then (takeUpTo 3 isOctal (c :: cs), true) else ([c], true)

/-! ### Strings -/

/-- The mark of an opening quote. -/
def quote? : Char → Option Punctuation
  | '\x22' => some .doubleQuote
  | '\x27' => some .singleQuote
  | _ => none

/-- Whether a plain stretch of a string goes on with this character. -/
def inFragment (quote c : Char) : Bool := c != quote && c != '\\' && c != '\n' && c != '\r'

/-- The piece that starts with `c`, which is neither the quote nor the end of a line. -/
def piece (quote c : Char) (cs : List Char) : Piece :=
  if c = '\\' then
    let (body, wellFormed) := escapeBody cs
    .escape (c :: body) wellFormed
  else .fragment (c :: cs.takeWhile (inFragment quote))

/-- The pieces of a string up to its end, and whether it is closed; `taken` holds earlier ones, last
first. -/
def pieces (quote : Char) (cs : List Char) (taken : List Piece) : List Piece × Bool :=
  match cs with
  | [] => (taken.reverse, false)
  | c :: rest =>
    if c = quote then (taken.reverse, true)
    else if c = '\n' || c = '\r' then (taken.reverse, false)
    else
      let p := piece quote c rest
      pieces quote (rest.drop (p.text.length - 1)) (p :: taken)
termination_by cs.length
decreasing_by simp only [List.length_drop, List.length_cons]; omega

/-- The string that `quote` opens in front of `cs`. -/
def ofString (mark : Punctuation) (quote : Char) (cs : List Char) : Lexeme :=
  let (ps, closed) := pieces quote cs []
  .string mark ps closed

/-! ### Templates -/

/-- Plain template text: up to a backtick, a backslash or the start of a substitution. -/
def templateRun : List Char → List Char → List Char
  | [], taken => taken.reverse
  | c :: cs, taken =>
    if c = '\x60' || c = '\\' || (c = '$' && cs.head? = some '\x7b') then taken.reverse
    else templateRun cs (c :: taken)

/-- The piece of a template that starts with `c`. -/
def ofTemplate (c : Char) (cs : List Char) : Lexeme :=
  if c = '\x60' then .punctuation .backtick
  else if c = '$' && cs.head? = some '\x7b' then .punctuation .dollarBrace
  else if c = '\\' then
    let (body, wellFormed) := escapeBody cs
    .templateEscape (c :: body) wellFormed
  else .templateChars (templateRun (c :: cs) [])

/-! ### Regular expressions -/

/-- The pattern of a regular expression and whether a slash closes it. A slash inside brackets or
behind a backslash does not; the end of the line leaves the expression open. -/
def regexBody (inClass : Bool) : List Char → List Char → List Char × Bool
  | [], taken => (taken.reverse, false)
  | '\\' :: d :: cs, taken =>
    if isLineTerminator d then (('\\' :: taken).reverse, false)
    else regexBody inClass cs (d :: '\\' :: taken)
  | c :: cs, taken =>
    if isLineTerminator c then (taken.reverse, false)
    else if c = '/' && !inClass then (taken.reverse, true)
    else regexBody (if c = '[' then true else if c = ']' then false else inClass) cs (c :: taken)

/-- The regular expression whose opening slash stands in front of `cs`. -/
def ofRegex (cs : List Char) : Lexeme :=
  let (pattern, closed) := regexBody false cs []
  let flags := if closed then (cs.drop (pattern.length + 1)).takeWhile Char.isLower else []
  .regex pattern flags closed

end ScriptTree.Lexeme
