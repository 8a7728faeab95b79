/-! Source text: its characters, its bytes and places in it.

Blanks separate tokens: the characters of the Unicode property `White_Space` and three of zero
width, the byte order mark, the word joiner and the zero width space. Four characters end a line,
and with it a line comment.

A `Span` is a pair of byte offsets, the end exclusive. Nothing forces the offsets into order, since
a report may be asked about any pair; a reversed span has length zero. A `Point` counts rows and
columns from zero, columns in bytes, and points are ordered by row first. -/
namespace ScriptTree

/-! ### Characters -/

/-- The characters with the property `White_Space`. -/
def isWhiteSpace (c : Char) : Bool :=
  let n := c.toNat
  (0x09 ≤ n && n ≤ 0x0D) || n == 0x20 || n == 0x85 || n == 0xA0 || n == 0x1680 ||
    (0x2000 ≤ n && n ≤ 0x200A) || n == 0x2028 || n == 0x2029 || n == 0x202F || n == 0x205F ||
    n == 0x3000

/-- Whether the character separates tokens without being part of one. -/
def isBlank (c : Char) : Bool :=
  isWhiteSpace c || c == '\uFEFF' || c == '\u2060' || c == '\u200B'

/-- Line feed, carriage return, line separator and paragraph separator. -/
def isLineTerminator (c : Char) : Bool :=
  c == '\n' || c == '\r' || c == '\u2028' || c == '\u2029'

/-- The number of bytes of a text in UTF-8. -/
def byteLength (cs : List Char) : Nat := cs.foldr (fun c n => c.utf8Size + n) 0

/-- The text from byte `n` on; a character that reaches over it is left out. -/
def dropBytes : Nat → List Char → List Char
  | 0, cs => cs
  | _ + 1, [] => []
  | n + 1, c :: cs => dropBytes (n + 1 - c.utf8Size) cs

/-! ### Places -/

/-- A range of byte offsets, end exclusive. -/
structure Span where
  start : Nat
  stop : Nat
deriving DecidableEq, Repr, Inhabited

namespace Span

/-- The zero-width span at `offset`. -/
def empty (offset : Nat) : Span := ⟨offset, offset⟩

/-- The least span that reaches from the first start to the last end. -/
def merge (a b : Span) : Span := ⟨min a.start b.start, max a.stop b.stop⟩

/-- The number of bytes covered; zero for a reversed span. -/
def length (s : Span) : Nat := s.stop - s.start

def isEmpty (s : Span) : Bool := s.length == 0

/-- Whether `inner` lies entirely within `outer`. -/
def contains (outer inner : Span) : Bool := outer.start ≤ inner.start && inner.stop ≤ outer.stop

/-- The part of `source` that the span covers, for a span whose ends fall between characters. -/
def slice (span : Span) (source : String) : String :=
  String.Pos.Raw.extract source ⟨span.start⟩ ⟨span.stop⟩

end Span

/-- A zero-based position; the column counts bytes. -/
structure Point where
  row : Nat
  column : Nat
deriving DecidableEq, Repr, Inhabited

namespace Point

/-- Rows decide first, columns break ties. -/
instance : Ord Point where
  compare p q := (compare p.row q.row).then (compare p.column q.column)

instance : ToString Point where
  toString p := s!"({p.row}, {p.column})"

end Point

end ScriptTree
