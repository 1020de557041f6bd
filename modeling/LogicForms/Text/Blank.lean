/-!
# White space

`isBlank` is the set of characters that separate words: the ASCII controls that move the print
position, the four information separators, and the white space of Unicode. `words` cuts a text at
blanks, and `collapse` joins the words again with single spaces, so that a collapsed text has no
blank except single spaces between other characters.
-/

set_option autoImplicit false

namespace LogicForms.Text

/-- The blank characters, 29 in number. -/
def blanks : List Char :=
  ['\x09', '\x0a', '\x0b', '\x0c', '\x0d', '\x1c', '\x1d', '\x1e', '\x1f', ' ',
   '\u0085', '\u00a0', '\u1680',
   '\u2000', '\u2001', '\u2002', '\u2003', '\u2004', '\u2005', '\u2006', '\u2007', '\u2008',
   '\u2009', '\u200a', '\u2028', '\u2029', '\u202f', '\u205f', '\u3000']

/-- Is the character white space between words? -/
def isBlank (c : Char) : Bool := blanks.contains c

/-- The maximal runs of characters that are not blank, from left to right. -/
def words : List Char → List (List Char)
  | [] => []
  | c :: rest =>
    if isBlank c then words rest
    else
      match rest with
      | [] => [[c]]
      | d :: _ =>
        if isBlank d then [c] :: words rest
        else
          match words rest with
          | [] => [[c]]
          | word :: others => (c :: word) :: others

/-- The words of a list, in order, with one space between neighbours. -/
def spaced : List (List Char) → List Char
  | [] => []
  | [word] => word
  | word :: next :: rest => word ++ ' ' :: spaced (next :: rest)

/-- The text with every run of blanks between words replaced by one space, and without blanks at
both ends. -/
def collapse (s : List Char) : List Char := spaced (words s)

@[simp] theorem words_nil : words [] = [] := rfl
@[simp] theorem spaced_nil : spaced [] = [] := rfl
@[simp] theorem spaced_singleton (word : List Char) : spaced [word] = word := rfl
@[simp] theorem spaced_cons_cons (word next : List Char) (rest : List (List Char)) :
    spaced (word :: next :: rest) = word ++ ' ' :: spaced (next :: rest) := rfl
@[simp] theorem collapse_nil : collapse [] = [] := rfl

/-- The space is blank. -/
@[simp] theorem isBlank_space : isBlank ' ' = true := by decide

/-- A leading blank is dropped. -/
theorem words_cons_of_isBlank {c : Char} (rest : List Char) (h : isBlank c = true) :
    words (c :: rest) = words rest := by
  simp [words, h]

end LogicForms.Text
