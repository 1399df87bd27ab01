/-!
# Letters regardless of case

Keywords may be written in any case. Besides the two ASCII forms, four letters outside ASCII stand
for an ASCII one: the long s, the Kelvin sign, and the dotted capital and dotless small i.
Comparisons with a whole word are narrower and fold ASCII only.
-/
namespace PlainSketch.Text

/-- The character stands for the lower-case ASCII character `w` of a keyword. -/
def standsFor (w c : Char) : Bool :=
  c.toLower == w || (w == 's' && c == '\u017F') || (w == 'k' && c == '\u212A')
    || (w == 'i' && (c == '\u0130' || c == '\u0131'))

/-- May begin a name in a statement: a character that stands for an ASCII letter, or `_`. -/
def isNameStart (c : Char) : Bool :=
  c.isAlpha || c == '_' || c == '\u017F' || c == '\u212A' || c == '\u0130' || c == '\u0131'

/-- The text is the word `w`, in any ASCII case. -/
def isWord (w : String) (cs : List Char) : Bool := cs.map Char.toLower == w.toList

/-- The text ends in `w`, in any ASCII case. -/
def endsWithWord (w : String) (cs : List Char) : Bool :=
  w.toList.isSuffixOf (cs.map Char.toLower)

/-- Lower case of a character that stands for an ASCII one. The dotted capital i keeps its dot as a
character of its own; the long s and the dotless i are lower case already. -/
def lowerLetter (c : Char) : List Char :=
  if c == '\u0130' then ['i', '\u0307'] else if c == '\u212A' then ['k'] else [c.toLower]

end PlainSketch.Text
