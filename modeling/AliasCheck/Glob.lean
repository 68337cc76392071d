/-!
# Globs

A glob stands for the paths that fit it. It consists of one part for each name of a path: the name
itself, a mask for names, or a part that fits any number of directories.
-/

namespace AliasCheck
namespace Glob

/-- What one place in a mask stands for. -/
inductive Mark where
  | char (c : Char)
  /-- Any character. -/
  | one
  /-- Any number of characters. -/
  | many
  /-- A character in one of the ranges, or in none of them. -/
  | among (negated : Bool) (ranges : List (Char × Char))
  /-- Any number of names. -/
  | names
  deriving DecidableEq, Repr

/-- The mark stands for exactly this character. -/
def Mark.accepts (c : Char) : Mark → Bool
  | char d => c = d
  | one => true
  | among negated ranges => negated != ranges.any fun (low, high) => low ≤ c && c ≤ high
  | many | names => false

/-- Something holds of a text or of what is left when it loses characters at its front. -/
def anySuffix (p : List Char → Bool) : List Char → Bool
  | [] => p []
  | c :: cs => p (c :: cs) || anySuffix p cs

/-- A mask fits a text. -/
def fits : List Mark → List Char → Bool
  | [], cs => cs.isEmpty
  | .many :: marks, cs | .names :: marks, cs => anySuffix (fits marks) cs
  | _ :: _, [] => false
  | mark :: marks, c :: cs => mark.accepts c && fits marks cs

/-- A part of a glob. -/
inductive Part where
  /-- A name, which is looked up. -/
  | name (text : String)
  /-- A mask for the names in a directory. -/
  | mask (marks : List Mark)
  /-- Any number of directories. -/
  | directories
  deriving DecidableEq, Repr

/-- The part fits a name in a directory. -/
def Part.fitsName (name : String) : Part → Bool
  | .name text => name = text
  | .mask marks => fits marks name.toList
  | .directories => false

end Glob

/-- A glob. -/
structure Glob where
  /-- The paths lead from the root. -/
  absolute : Bool
  parts : List Glob.Part
  /-- Only directories count. -/
  closed : Bool
  deriving DecidableEq, Repr

end AliasCheck
