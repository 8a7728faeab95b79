import ScriptTree.Text.LineIndex
import ScriptTree.Text.Source

/-! Diagnostics: what is reported about a place in the source.

A diagnostic has a kind, a message, the span it is about, and notes and hints for the reader. Its
span is whatever the reporter says it is, so a rendering must cope with any.

The plain-text rendering has the headline, the place, the source line and a row of carets under it.

```text
syntax error: Expected expression, found ';'
  --> main.tsz:1:11
   |
 1 | const x = ;
   |           ^
```

The gutter is as wide as the line number. The caret row starts at the byte column of the span and
has at least one caret; it ends with the span or with the line, whichever comes first. A span that
starts past the end of the source is shown at the end. -/
namespace ScriptTree

/-- What went wrong, broadly. -/
inductive Diagnostic.Kind where
  /-- A malformed token. -/
  | lexical
  /-- Tokens that do not fit the grammar. -/
  | grammar
  /-- A required token was absent and has been made up. -/
  | missing
  /-- The input goes beyond a configured limit. -/
  | limit
deriving DecidableEq, Repr

/-- A report about a place in a source text. -/
structure Diagnostic where
  kind : Diagnostic.Kind
  message : String
  span : Span
  notes : List String := []
  hints : List String := []
deriving DecidableEq, Repr

namespace Diagnostic

def Kind.label : Kind → String
  | lexical => "lexical error"
  | grammar => "syntax error"
  | missing => "missing token"
  | limit => "limit exceeded"

/-- The stable code by which tools tell kinds apart. -/
def Kind.code : Kind → String
  | lexical => "tsz::lexical"
  | grammar => "tsz::syntax"
  | missing => "tsz::missing"
  | limit => "tsz::limit"

/-- The headline: kind and message. -/
def headline (d : Diagnostic) : String := s!"{d.kind.label}: {d.message}"

/-- The hints as one text, a line each. -/
def help? (d : Diagnostic) : Option String :=
  if d.hints.isEmpty then none else some ("\n".intercalate d.hints)

/-! ### Rendering -/

/-- What an excerpt shows, before it is laid out. -/
structure Excerpt where
  /-- The zero-based place at which the carets start. -/
  point : Point
  /-- The source line without its line feed. -/
  line : String
  carets : Nat
deriving DecidableEq, Repr

/-- The part of `source` to show for a diagnostic. -/
def excerpt (source : String) (d : Diagnostic) : Excerpt :=
  let offset := min d.span.start source.utf8ByteSize
  let point := (LineIndex.ofString source).point offset
  let lineStart := offset - point.column
  let line := String.ofList ((dropBytes lineStart source.toList).takeWhile (· != '\n'))
  { point, line, carets := max 1 (min d.span.stop (lineStart + line.utf8ByteSize) - offset) }

/-- `n` copies of a character. -/
def copies (n : Nat) (c : Char) : String := String.ofList (List.replicate n c)

/-- The lines of the rendering. -/
def renderLines (file source : String) (d : Diagnostic) : List String :=
  let e := d.excerpt source
  let number := toString (e.point.row + 1)
  let gutter := copies (number.length + 1) ' '
  [d.headline,
    s!"{gutter}--> {file}:{number}:{e.point.column + 1}",
    s!"{gutter} |",
    s!" {number} | {e.line}",
    s!"{gutter} | " ++ copies e.point.column ' ' ++ copies e.carets '^'] ++
  d.notes.map (fun note => s!"{gutter} = note: {note}") ++
  d.hints.map (fun hint => s!"{gutter} = hint: {hint}")

/-- The rendering as one text, every line ended by a line feed. -/
def render (file source : String) (d : Diagnostic) : String :=
  String.join ((d.renderLines file source).map (· ++ "\n"))

end Diagnostic

end ScriptTree
