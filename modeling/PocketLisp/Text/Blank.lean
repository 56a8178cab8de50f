import PocketLisp.Text.Ranges

/-! Blank characters, and cutting them off the ends of a text. -/
namespace PocketLisp.Text

/-- The characters that separate words: the spaces of every script, the line and paragraph
separators, and the control characters that move the writing position or separate records. -/
def blankRanges : List (Nat × Nat) :=
  [(0x9, 0xD), (0x1C, 0x20), (0x85, 0x85), (0xA0, 0xA0), (0x1680, 0x1680), (0x2000, 0x200A),
   (0x2028, 0x2029), (0x202F, 0x202F), (0x205F, 0x205F), (0x3000, 0x3000)]

def isBlank (c : Char) : Bool := inRanges blankRanges c

/-- A text with no character that is not blank; the empty text is one. -/
def isBlankText (s : String) : Bool := s.toList.all isBlank

def stripChars (cs : List Char) : List Char :=
  ((cs.dropWhile isBlank).reverse.dropWhile isBlank).reverse

def strip (s : String) : String := String.ofList (stripChars s.toList)

/-- The last run of characters that are not blank, if there is any. -/
def lastWord? (s : String) : Option String :=
  match (s.toList.reverse.dropWhile isBlank).takeWhile (fun c => !isBlank c) with
  | [] => none
  | w => some (String.ofList w.reverse)

theorem isBlank_newline : isBlank '\n' = true := by decide

end PocketLisp.Text
