import PocketLisp.Reader.Token
import PocketLisp.Text.LineBreak

/-!
Chunks: the pieces in which lines of input are evaluated. A chunk ends with the first line where its
parentheses balance, or close more than they open. Blank lines between chunks are dropped.
-/
namespace PocketLisp

namespace Chunk

/-- Cut lines into chunks, going on with the text of one that is open; it is empty if none is. -/
def cutFrom (pending : String) : List String → List String
  | [] => if pending.isEmpty then [] else [pending]
  | line :: lines =>
    if pending.isEmpty && Text.isBlankText line then cutFrom "" lines
    else if parenBalance (pending ++ line) ≤ 0 then (pending ++ line) :: cutFrom "" lines
    else cutFrom (pending ++ line) lines

/-- Cut lines into chunks. The last chunk may still be open. -/
def cut (lines : List String) : List String := cutFrom "" lines

def ofText (s : String) : List String := cut (Text.splitLines s)

end Chunk

end PocketLisp
