import LogCorrelation.Text.Markup

/-!
# Text.MarkupReader — text within HTML read back

`decodeHtml` reads the five entities from left to right.  `IsEscaped` tells what text within HTML looks like.
-/

namespace LogCorrelation.Text

/-- The text with every entity replaced by its character. -/
def decodeHtml : List Char → List Char
  | [] => []
  | '&' :: 'a' :: 'm' :: 'p' :: ';' :: rest => '&' :: decodeHtml rest
  | '&' :: 'l' :: 't' :: ';' :: rest => '<' :: decodeHtml rest
  | '&' :: 'g' :: 't' :: ';' :: rest => '>' :: decodeHtml rest
  | '&' :: 'q' :: 'u' :: 'o' :: 't' :: ';' :: rest => '"' :: decodeHtml rest
  | '&' :: '#' :: '3' :: '9' :: ';' :: rest => '\'' :: decodeHtml rest
  | c :: rest => c :: decodeHtml rest

/-- The entities of HTML that stand for the five characters. -/
def htmlEntities : List String := ["&amp;", "&lt;", "&gt;", "&quot;", "&#39;"]

/-- Text within HTML: no character of it opens or closes a tag or an attribute, and every ampersand begins one of the
five entities. -/
structure IsEscaped (cs : List Char) : Prop where
  harmless : ∀ c ∈ ['<', '>', '"', '\''], c ∉ cs
  ampersands : ∀ rest, '&' :: rest <:+ cs → ∃ e ∈ htmlEntities, e.toList <+: '&' :: rest

end LogCorrelation.Text
