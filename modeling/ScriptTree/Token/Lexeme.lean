import ScriptTree.Diagnostic.Cause
import ScriptTree.Text.Source
import ScriptTree.Token.Basic

/-! Lexemes: the stretches into which a source text falls.

A lexeme says what a stretch is and keeps its characters (`text`), but not where it stands: offsets
are added when lexemes are laid end to end (`ScriptTree.Token.Lexer`). Blanks and characters that
fit nothing are lexemes as well, so the texts of a source's lexemes, joined, are the source. -/
namespace ScriptTree

/-- A piece of a quoted string. -/
inductive Piece where
  | fragment (text : List Char)
  /-- An escape sequence, with its backslash. -/
  | escape (text : List Char) (wellFormed : Bool)
deriving DecidableEq, Repr

def Piece.text : Piece → List Char
  | fragment text => text
  | escape text _ => text

/-- A stretch of source text. -/
inductive Lexeme where
  | blank (c : Char)
  /-- A character that starts no token. -/
  | unexpected (c : Char)
  | comment (kind : CommentKind) (text : List Char) (closed : Bool)
  | keyword (word : Keyword)
  | identifier (name : List Char)
  /-- A number; the radix is given if digits are missing after its mark. -/
  | number (text : List Char) (missingDigits : Option Nat)
  | operator (o : Operator)
  /-- A loose spelling, read as the strict operator. -/
  | loose (spelling : String) (strict : Operator)
  | punctuation (mark : Punctuation)
  | string (quote : Punctuation) (pieces : List Piece) (closed : Bool)
  | regex (pattern flags : List Char) (closed : Bool)
  | templateChars (text : List Char)
  | templateEscape (text : List Char) (wellFormed : Bool)
deriving DecidableEq, Repr

namespace Lexeme

/-- The characters of the source that the lexeme covers. -/
def text : Lexeme → List Char
  | blank c => [c]
  | unexpected c => [c]
  | comment _ text _ => text
  | keyword word => word.spelling.toList
  | identifier name => name
  | number text _ => text
  | operator o => o.spelling.toList
  | loose spelling _ => spelling.toList
  | punctuation mark => mark.spelling.toList
  | string quote pieces closed =>
    let mark := quote.spelling.toList
    mark ++ pieces.flatMap Piece.text ++ if closed then mark else []
  | regex pattern flags closed => '/' :: pattern ++ if closed then '/' :: flags else []
  | templateChars text => text
  | templateEscape text _ => text

/-- The number of bytes covered. -/
def size (l : Lexeme) : Nat := byteLength l.text

/-- The span of the lexeme when it starts at `start`. -/
def span (l : Lexeme) (start : Nat) : Span := ⟨start, start + l.size⟩

/-! ### What a lexeme contributes, once placed -/

/-- The parts of a string whose first piece starts at `start`. -/
def placePieces (start : Nat) : List Piece → List StringPart
  | [] => []
  | p :: pieces =>
    let stop := start + byteLength p.text
    (match p with
      | .fragment _ => StringPart.fragment ⟨start, stop⟩
      | .escape .. => StringPart.escape ⟨start, stop⟩) :: placePieces stop pieces

/-- The token that the lexeme is when it starts at `start`. -/
def tokenKind? (start : Nat) : Lexeme → Option TokenKind
  | blank _ | unexpected _ | comment .. => none
  | keyword word => some (.keyword word)
  | identifier name => some (.identifier (String.ofList name))
  | number text _ => some (.number (String.ofList text))
  | operator o => some (.operator o)
  | loose _ strict => some (.operator strict)
  | punctuation mark => some (.punctuation mark)
  | string quote pieces _ => some (.string quote (placePieces (start + 1) pieces))
  | regex pattern flags _ =>
    let stop := start + 1 + byteLength pattern
    let flagsSpan := if flags.isEmpty then none else some ⟨stop + 1, stop + 1 + byteLength flags⟩
    some (.regex ⟨start + 1, stop⟩ flagsSpan)
  | templateChars _ => some .templateChars
  | templateEscape .. => some .templateEscape

/-- The token, if the lexeme is one. -/
def token? (l : Lexeme) (start : Nat) : Option Token :=
  (l.tokenKind? start).map fun kind => ⟨kind, l.span start⟩

/-- The comment, if the lexeme is one. -/
def comment? (l : Lexeme) (start : Nat) : Option Comment :=
  match l with
  | comment kind _ _ => some ⟨kind, l.span start⟩
  | _ => none

/-- The malformed escapes among the pieces of a string. -/
def escapeProblems (start : Nat) : List Piece → List Problem
  | [] => []
  | p :: pieces =>
    let stop := start + byteLength p.text
    match p with
    | .escape _ false => ⟨.invalidEscape, ⟨start, stop⟩⟩ :: escapeProblems stop pieces
    | _ => escapeProblems stop pieces

/-- What is wrong with the lexeme when it starts at `start`, in the order in which it is met. -/
def problems (l : Lexeme) (start : Nat) : List Problem :=
  match l with
  | unexpected c => [⟨.unexpectedCharacter c, l.span start⟩]
  | comment _ _ false => [⟨.unterminatedComment, l.span start⟩]
  | number _ (some radix) => [⟨.missingDigits radix, ⟨start, start + 2⟩⟩]
  | loose spelling strict => [⟨.looseEquality spelling strict, l.span start⟩]
  | string _ pieces closed =>
    escapeProblems (start + 1) pieces ++
      if closed then [] else [⟨.unterminatedString, l.span start⟩]
  | regex _ _ false => [⟨.unterminatedRegex, l.span start⟩]
  | templateEscape _ false => [⟨.invalidEscape, l.span start⟩]
  | _ => []

/-! ### What a lexeme means for the text after it -/

/-- Whether the lexeme is a token that ends an operand; `none` if it is no token. -/
def endsOperand? (l : Lexeme) : Option Bool := (l.tokenKind? 0).map TokenKind.endsOperand

end Lexeme

end ScriptTree
