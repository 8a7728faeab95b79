import ScriptTree.Text.Source

/-! From byte offsets to points.

A `LineIndex` holds the offset at which each row starts. Only a line feed starts a new row: the
other line terminators end comments but do not move the row, as editors number lines. The row of an
offset is the last one that starts at or before it, found by bisection; an offset past the end of
the text lies in the last row. -/
namespace ScriptTree

/-- Row starts of a text, in increasing order; row 0 starts at 0. -/
structure LineIndex where
  starts : Array Nat

namespace LineIndex

/-- Adds the offsets just past each line feed of `cs`, a text whose first byte has offset
`offset`. -/
def collect (offset : Nat) : List Char → Array Nat → Array Nat
  | [], starts => starts
  | c :: cs, starts =>
    let next := offset + c.utf8Size
    collect next cs (if c = '\n' then starts.push next else starts)

def ofList (cs : List Char) : LineIndex := ⟨collect 0 cs #[0]⟩

def ofString (source : String) : LineIndex := ofList source.toList

/-- The last of the rows `lo, …, hi - 1` that starts at or before `offset`, given that row `lo`
does. -/
def bisect (index : LineIndex) (offset lo hi : Nat) : Nat :=
  if hi ≤ lo + 1 then lo
  else
    let mid := (lo + hi) / 2
    if index.starts.getD mid 0 ≤ offset then index.bisect offset mid hi
    else index.bisect offset lo mid
termination_by hi - lo

/-- The point of a byte offset, which may lie past the end of the text. -/
def point (index : LineIndex) (offset : Nat) : Point :=
  let row := index.bisect offset 0 index.starts.size
  ⟨row, offset - index.starts.getD row 0⟩

end LineIndex

end ScriptTree
