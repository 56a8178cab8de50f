import PocketLisp.Text.Blank

/-! Cutting a text into lines. A line keeps the break that ends it, so the lines of a text
joined together are the text. -/
namespace PocketLisp.Text

/-- The characters that end a line. A carriage return and the newline after it are one break. -/
def lineBreakRanges : List (Nat × Nat) :=
  [(0xA, 0xD), (0x1C, 0x1E), (0x85, 0x85), (0x2028, 0x2029)]

def isLineBreak (c : Char) : Bool := inRanges lineBreakRanges c

def consLine (c : Char) : List (List Char) → List (List Char)
  | [] => [[c]]
  | l :: ls => (c :: l) :: ls

def splitLineChars : List Char → List (List Char)
  | [] => []
  | '\r' :: '\n' :: cs => ['\r', '\n'] :: splitLineChars cs
  | c :: cs => if isLineBreak c then [c] :: splitLineChars cs else consLine c (splitLineChars cs)

/-- The lines of a text, each with the break that ends it. -/
def splitLines (s : String) : List String := (splitLineChars s.toList).map String.ofList

@[simp] theorem flatten_consLine (c : Char) (ls : List (List Char)) :
    (consLine c ls).flatten = c :: ls.flatten := by
  cases ls <;> rfl

/-- Nothing is lost: the lines put together are the text. -/
theorem flatten_splitLineChars (cs : List Char) : (splitLineChars cs).flatten = cs := by
  fun_induction splitLineChars cs with
  | case1 => rfl
  | case2 cs ih => simp [ih]
  | case3 c cs _ _ ih => simp [ih]
  | case4 c cs _ _ ih => simp [ih]

/-- Every line break is blank, so it ends a token. -/
theorem isBlank_of_isLineBreak {c : Char} (h : isLineBreak c = true) : isBlank c = true := by
  simp only [isLineBreak, isBlank, inRanges, lineBreakRanges, blankRanges, List.any_cons, List.any_nil,
    Bool.or_eq_true, Bool.and_eq_true, decide_eq_true_eq, Bool.or_false] at h ⊢
  omega

end PocketLisp.Text
