/-!
# Blanking out library declarations

Library definition files declare what they export on lines of the form `declare export …`. Such a
declaration is no statement of the source, so it is overwritten with blanks from its first word to
the end of its line before the source is read. Every byte is replaced by one space and line breaks
stay, so offsets and line numbers in the blanked text are those of the source.
-/

namespace AliasCheck
namespace Blanking

/-- The words that begin a declaration, with the space after each. -/
def mark : List Char := "declare export ".toList

/-- The text begins with the mark, in any mixture of upper and lower case. -/
def startsWithMark (cs : List Char) : Bool :=
  (cs.take mark.length).map Char.toLower == mark

/-- As many spaces as a character takes bytes. -/
def spaces (c : Char) : List Char := List.replicate c.utf8Size ' '

/-- Overwrites the declarations of a text; `inside` says that the text begins inside one. -/
def blank : (inside : Bool) → List Char → List Char
  | _, [] => []
  | inside, c :: cs =>
    if c = '\n' then c :: blank false cs
    else if inside || startsWithMark (c :: cs) then spaces c ++ blank true cs
    else c :: blank false cs

end Blanking

/-- The text of a source with its library declarations overwritten by blanks. -/
def blankDeclarations (source : List Char) : List Char := Blanking.blank false source

end AliasCheck
