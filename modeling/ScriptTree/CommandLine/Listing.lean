import ScriptTree.Highlight.Spans
import ScriptTree.Text.Quoted
import ScriptTree.Token.Basic

/-! Tokens, comments and highlights as lines of text.

Spans are set in two columns of at least five characters, so that the descriptions line up in short
files. -/
namespace ScriptTree.Listing

/-- A span in two columns, the start flush right and the stop flush left. -/
def spanColumns (s : Span) : String :=
  let start := toString s.start
  let stop := toString s.stop
  "".pushn ' ' (5 - start.length) ++ start ++ ".." ++ stop.pushn ' ' (5 - stop.length)

def describeToken (source : String) (t : Token) : String :=
  match t.kind with
  | .keyword word => s!"keyword '{word.spelling}'"
  | .operator o => s!"operator '{o.spelling}'"
  | .punctuation mark => s!"punctuation '{mark.spelling}'"
  | .identifier name => s!"identifier {name}"
  | .number text => s!"number {text}"
  | .string _ parts => s!"string ({parts.length} parts)"
  | .regex pattern flags =>
    let flagsText := (flags.map fun span => span.slice source).getD ""
    s!"regex /{pattern.slice source}/{flagsText}"
  | .templateChars => s!"template_chars {Quoted.encode (t.span.slice source)}"
  | .templateEscape => s!"escape_sequence {t.span.slice source}"
  | .endOfFile => "eof"

def tokenLine (source : String) (t : Token) : String :=
  s!"{spanColumns t.span} {describeToken source t}\n"

def commentName : CommentKind → String
  | .line => "Line"
  | .block => "Block"
  | .html => "Html"

def commentLine (c : Comment) : String := s!"{spanColumns c.span} comment {commentName c.kind}\n"

/-- The line of a highlight: where it starts, counted from one, its class and its text. -/
def highlightLine (t : Tree) (h : Highlight) : String :=
  let start := t.lines.point h.span.start
  let text := Quoted.encode (h.span.slice t.source)
  s!"{start.row + 1}:{start.column + 1}\t{h.capture.name}\t{text}\n"

end ScriptTree.Listing
