namespace DiceNotation
namespace Text

/-!
# Lines

A text is cut into lines at every mark that ends a line or a page: feeds,
returns, tabulators of lines, separators of records, and the line and paragraph
separators.  A return with a feed behind it ends one line.
-/

/-- Whether a character ends a line. -/
def endsLine (c : Char) : Bool :=
  let code := c.toNat
  (0x0a ≤ code && code ≤ 0x0d) || (0x1c ≤ code && code ≤ 0x1e) || code == 0x85 || code == 0x2028 ||
    code == 0x2029

/-- The lines of a text.  `taken` holds the characters of the current line, the
latest first.  Nothing follows the last end of a line. -/
def linesFrom (taken : List Char) : List Char → List (List Char)
  | [] => if taken.isEmpty then [] else [taken.reverse]
  | '\r' :: '\n' :: rest => taken.reverse :: linesFrom [] rest
  | c :: rest =>
    if endsLine c then taken.reverse :: linesFrom [] rest else linesFrom (c :: taken) rest

/-- The lines of a text. -/
def lines (text : List Char) : List (List Char) := linesFrom [] text

/-- No line holds a character that ends a line. -/
theorem endsLine_of_mem_linesFrom {taken text line : List Char}
    (plain : ∀ c ∈ taken, endsLine c = false) (member : line ∈ linesFrom taken text) :
    ∀ c ∈ line, endsLine c = false := by
  fun_induction linesFrom taken text with
  | case1 taken empty => simp at member
  | case2 taken nonempty =>
    simp only [List.mem_singleton] at member
    subst member
    simpa using plain
  | case3 taken rest ih =>
    rcases List.mem_cons.1 member with same | later
    · subst same
      simpa using plain
    · exact ih (by simp) later
  | case4 taken c rest _ ends ih =>
    rcases List.mem_cons.1 member with same | later
    · subst same
      simpa using plain
    · exact ih (by simp) later
  | case5 taken c rest _ inside ih =>
    refine ih (fun d among => ?_) member
    rcases List.mem_cons.1 among with same | earlier
    · subst same
      simpa using inside
    · exact plain d earlier

end Text
end DiceNotation
