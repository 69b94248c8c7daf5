/-!
# Text.Markup — text within markup

The five characters that mean something in markup are replaced by entities.  HTML and SVG differ only in how they
write the apostrophe.  A text within HTML is made by replacing one kind of character after the other, a text within SVG
in one pass.
-/

namespace LogCorrelation.Text

/-- A character within markup, given the entity for an apostrophe. -/
def entity (apostrophe : String) (c : Char) : List Char :=
  match c with
  | '&' => "&amp;".toList
  | '<' => "&lt;".toList
  | '>' => "&gt;".toList
  | '"' => "&quot;".toList
  | '\'' => apostrophe.toList
  | c => [c]

/-- A text within HTML.  Ampersands are replaced first, since entities hold ampersands. -/
def escapeHtml (s : String) : String :=
  ((((s.replace '&' "&amp;").replace '<' "&lt;").replace '>' "&gt;").replace '"' "&quot;").replace '\'' "&#39;"

/-- A text within SVG. -/
def escapeSvg (s : String) : String := String.ofList (s.toList.flatMap (entity "&apos;"))

end LogCorrelation.Text
