/-!
# Positions in a text

A text is a list of characters, and a place in it is a byte offset: the number of bytes that the
text before it takes in UTF-8. A position is the same place as a reader of the text names it, by
line and column. Two conventions are in use: annotated source files count columns in characters
from 1, JSON texts count the bytes that stand on the line before the place.
-/

namespace AliasCheck

/-- The number of bytes that `cs` takes in UTF-8. -/
def byteLength : List Char → Nat
  | [] => 0
  | c :: cs => c.utf8Size + byteLength cs

@[simp] theorem byteLength_nil : byteLength [] = 0 := rfl

@[simp] theorem byteLength_cons (c : Char) (cs : List Char) :
    byteLength (c :: cs) = c.utf8Size + byteLength cs := rfl

@[simp] theorem byteLength_append (cs ds : List Char) :
    byteLength (cs ++ ds) = byteLength cs + byteLength ds := by
  induction cs with
  | nil => simp
  | cons c cs ih => simp [ih, Nat.add_assoc]

/-- A text takes as many bytes as it has characters if each of them takes one. -/
theorem byteLength_eq_length {cs : List Char} :
    byteLength cs = cs.length ↔ ∀ c ∈ cs, c.utf8Size = 1 := by
  have hle : ∀ cs : List Char, cs.length ≤ byteLength cs := by
    intro cs
    induction cs with
    | nil => exact Nat.le_refl 0
    | cons c cs ih =>
      have hpos := c.utf8Size_pos
      rw [List.length_cons, byteLength_cons]
      omega
  induction cs with
  | nil => simp
  | cons c cs ih =>
    have hpos := c.utf8Size_pos
    have hcs := hle cs
    rw [List.forall_mem_cons, byteLength_cons, List.length_cons]
    constructor
    · exact fun heq => ⟨by omega, ih.mp (by omega)⟩
    · rintro ⟨hc, hrest⟩
      rw [hc, ih.mpr hrest, Nat.add_comm]

/-- The longest beginning of `cs` that takes at most `n` bytes. -/
def takeBytes : List Char → Nat → List Char
  | [], _ => []
  | c :: cs, n => if c.utf8Size ≤ n then c :: takeBytes cs (n - c.utf8Size) else []

/-- Cutting a text at the end of its first part gives that part back. -/
@[simp] theorem takeBytes_append (cs ds : List Char) :
    takeBytes (cs ++ ds) (byteLength cs) = cs := by
  induction cs with
  | nil =>
    cases ds with
    | nil => rfl
    | cons d ds => simp [takeBytes, Nat.ne_of_gt (Char.utf8Size_pos d)]
  | cons c cs ih => simp [takeBytes, ih]

/-- A place in a text, by line and column. -/
structure Position where
  /-- The number of the line, from 1. -/
  line : Nat
  /-- The column on that line. -/
  column : Nat
  deriving DecidableEq, Repr

namespace Position

/-- The place before the first character. -/
def start : Position := ⟨1, 1⟩

/-- The place after `c`, which stands at `p`. -/
def advance (p : Position) (c : Char) : Position :=
  if c = '\n' then ⟨p.line + 1, 1⟩ else ⟨p.line, p.column + 1⟩

/-- The place at a byte offset of `text`, with columns counted in characters from 1. -/
def ofOffset (text : List Char) (offset : Nat) : Position :=
  (takeBytes text offset).foldl advance start

/-- The place `offset` bytes after `p`, with columns counted in bytes; `offset` may fall inside a
character. -/
def skipBytes (p : Position) : List Char → Nat → Position
  | [], _ => p
  | c :: cs, n =>
    if n < c.utf8Size then ⟨p.line, p.column + n⟩
    else if c = '\n' then skipBytes ⟨p.line + 1, 0⟩ cs (n - 1)
    else skipBytes ⟨p.line, p.column + c.utf8Size⟩ cs (n - c.utf8Size)

/-- The place at a byte offset of `text`, where the column is the number of bytes that stand
before it on its line. -/
def ofByteOffset (text : List Char) (offset : Nat) : Position :=
  skipBytes ⟨1, 0⟩ text offset

end Position

end AliasCheck
