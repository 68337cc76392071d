import AliasCheck.Json.Write
import AliasCheck.Proofs.LexicalRules
import AliasCheck.Text.StringLiteral

/-!
# The spellings of a string

A string may be written in many ways between quotation marks, since most characters can stand for
themselves or be escaped. Where a string ends and what it denotes are found by two scans that know
nothing of each other, and they have to agree on where each escape begins and ends.
`StringLiteral.Denotes` says of a piece of text that they do. It is shown for each way to write a
character and kept when pieces are put together, and a text of which it holds is one token with
that value when it stands between quotation marks (`Token.scan_of_denotes`).
-/

namespace AliasCheck

open scoped Computability

namespace StringLiteral

/-! ## Text between quotation marks -/

/-- Between two quotation marks `text` stands for the characters `cs`: it consists of complete
units, and whatever follows, it is these characters that it is read as. -/
structure Denotes (quote : Char) (text cs : List Char) : Prop where
  units : text ∈ (LexicalRule.quotedUnit quote)∗
  decode_eq : ∀ rest, decode (text ++ rest) = cs ++ decode rest

section Denotes

variable {quote c letter : Char} {cs ds text more : List Char}

theorem Denotes.nil : Denotes quote [] [] := ⟨Language.nil_mem_kstar _, fun _ => rfl⟩

theorem Denotes.append (h : Denotes quote text cs) (hmore : Denotes quote more ds) :
    Denotes quote (text ++ more) (cs ++ ds) where
  units := by
    rw [← kstar_mul_kstar]
    exact Language.append_mem_mul h.units hmore.units
  decode_eq := by
    intro rest
    rw [List.append_assoc, h.decode_eq, hmore.decode_eq, List.append_assoc]

theorem Denotes.flatMap {text value : Char → List Char}
    (h : ∀ c ∈ cs, Denotes quote (text c) (value c)) :
    Denotes quote (cs.flatMap text) (cs.flatMap value) := by
  induction cs with
  | nil => exact .nil
  | cons c cs ih =>
    rw [List.forall_mem_cons] at h
    rw [List.flatMap_cons, List.flatMap_cons]
    exact h.1.append (ih h.2)

/-- A character that means nothing else there stands for itself. -/
theorem Denotes.plain (hquote : c ≠ quote) (hslash : c ≠ '\\') (hline : c ≠ '\n') :
    Denotes quote [c] [c] where
  units := (le_kstar : LexicalRule.quotedUnit quote ≤ _)
    (LexicalRule.mem_quotedUnit.mpr (.inl ⟨c, ⟨hquote, hslash, hline⟩, rfl⟩))
  decode_eq := by
    intro rest
    rw [List.singleton_append, decode]
    all_goals simp [hslash]

/-- A backslash and a letter are a unit, and they stand for what they are read as. -/
theorem Denotes.escaped (hline : letter ≠ '\n')
    (hdecode : ∀ rest, decode ('\\' :: letter :: rest) = c :: decode rest) :
    Denotes quote ['\\', letter] [c] where
  units := (le_kstar : LexicalRule.quotedUnit quote ≤ _)
    (LexicalRule.mem_quotedUnit.mpr (.inr ⟨letter, hline, rfl⟩))
  decode_eq := hdecode

theorem Denotes.decode (h : Denotes quote text cs) : decode text = cs := by
  have hvalue := h.decode_eq []
  rwa [List.append_nil, StringLiteral.decode, List.append_nil] at hvalue

/-- Without its quotation marks a text is what stands between them. -/
theorem inside_quoted (hquote : quote = '"' ∨ quote = '\'') (text : List Char) :
    inside (quote :: (text ++ [quote])) = text := by
  have hsize : quote.utf8Size = 1 := by
    rcases hquote with rfl | rfl <;> rfl
  cases text with
  | nil => exact if_pos ⟨hsize, hsize⟩
  | cons c cs =>
    have hlast : ((c :: cs) ++ [quote]).getLast (by simp) = quote := List.getLast_concat
    have hdrop : ((c :: cs) ++ [quote]).dropLast = c :: cs := List.dropLast_concat
    refine (if_pos ?_).trans hdrop
    exact ⟨hsize, (congrArg Char.utf8Size hlast).trans hsize⟩

theorem Denotes.unquote (hquote : quote = '"' ∨ quote = '\'') (h : Denotes quote text cs) :
    unquote (String.ofList (quote :: (text ++ [quote]))) = String.ofList cs := by
  rw [StringLiteral.unquote, String.toList_ofList, inside_quoted hquote, h.decode]

end Denotes

end StringLiteral

namespace Token

variable {quote : Char} {cs text : List Char}

/-- A text between quotation marks whose value they do not cut short is one token with this
value. -/
theorem scan_of_denotes (hquote : quote = '"' ∨ quote = '\'')
    (h : StringLiteral.Denotes quote text cs) :
    scan (quote :: (text ++ [quote]))
        = .ok [⟨.string, String.ofList (quote :: (text ++ [quote])), 0⟩] ∧
      StringLiteral.unquote (String.ofList (quote :: (text ++ [quote]))) = String.ofList cs := by
  refine ⟨?_, h.unquote hquote⟩
  have hquoted := LexicalRule.quoted_of_mem hquote h.units []
  have hscans : Scans none 0 (quote :: (text ++ [quote] ++ []))
      [⟨.string, String.ofList (quote :: (text ++ [quote])), 0⟩] :=
    .token (.string hquote (by rwa [List.append_nil])) .done
  rw [List.append_nil] at hscans
  exact scan_eq_ok.mpr (scanFrom_eq_ok.mpr hscans)

end Token

namespace StringLiteral

/-! ## The ways to write a character -/

/-- A hexadecimal digit, in either case. -/
def HexDigit (n : Nat) (digit : Char) : Prop :=
  n < 16 ∧ (digit = Nat.digitChar n ∨ digit = (Nat.digitChar n).toUpper)

/-- The ways to write the character `c` between two quotation marks. -/
inductive Spelling (quote c : Char) : List Char → Prop where
  | plain (hquote : c ≠ quote) (hslash : c ≠ '\\') (hline : c ≠ '\n') : Spelling quote c [c]
  | escaped (hc : c = quote ∨ c = '\\') : Spelling quote c ['\\', c]
  | short {letter : Char}
      (hc : (c, letter) ∈ [('\n', 'n'), ('\t', 't'), ('\r', 'r'), ('\x00', '0')]) :
      Spelling quote c ['\\', letter]
  | unicode {values : List Nat} {digits : List Char} (hdigits : List.Forall₂ HexDigit values digits)
      (hlength : digits.length = 4)
      (hc : values.foldl (fun n value => 16 * n + value) 0 = c.toNat) :
      Spelling quote c ('\\' :: 'u' :: digits)

/-- `text` is the string `s` between quotation marks, each character of which is written in one of
these ways. -/
def Spells (quote : Char) (s : String) (text : List Char) : Prop :=
  ∃ spellings, List.Forall₂ (Spelling quote) s.toList spellings ∧
    text = quote :: (spellings.flatten ++ [quote])

section Spellings

variable {quote c digit : Char} {cs text digits : List Char} {values : List Nat} {n : Nat}

theorem HexDigit.hexValue_eq (h : HexDigit n digit) : hexValue digit = some n := by
  have all : ∀ n < 16, hexValue (Nat.digitChar n) = some n ∧
      hexValue (Nat.digitChar n).toUpper = some n := by decide
  obtain ⟨hn, rfl | rfl⟩ := h
  · exact (all n hn).1
  · exact (all n hn).2

theorem HexDigit.ne_mark (h : HexDigit n digit) {mark : Char}
    (hmark : hexValue mark = none := by decide) : digit ≠ mark := by
  rintro rfl
  rw [h.hexValue_eq] at hmark
  cases hmark

theorem hexNumber_of_digits (h : List.Forall₂ HexDigit values digits) (n : Nat) :
    hexNumber n digits = some (values.foldl (fun n value => 16 * n + value) n) := by
  induction h generalizing n with
  | nil => rfl
  | cons hdigit _ ih => rw [hexNumber, hdigit.hexValue_eq, Option.bind_some, ih, List.foldl_cons]

theorem codePoint_of_digits (h : List.Forall₂ HexDigit values digits) (hne : digits ≠ [])
    (hc : values.foldl (fun n value => 16 * n + value) 0 = c.toNat) :
    codePoint digits = some c := by
  have hscalar : c.toNat < 0xd800 ∨ 0xdfff < c.toNat := c.valid.imp_right And.left
  have hnumber : (hexNumber 0 digits).bind (fun n =>
      if n < 0xd800 ∨ 0xdfff < n then some (Char.ofNat n) else none) = some c := by
    rw [hexNumber_of_digits h, hc, Option.bind_some, if_pos hscalar, Char.ofNat_toNat]
  cases h with
  | nil => exact absurd rfl hne
  | @cons _ digit _ digits hdigit _ =>
    have hsign : digit ≠ '+' := hdigit.ne_mark
    simpa [codePoint, hsign] using hnumber

/-- Hexadecimal digits are units, each by itself. -/
theorem mem_units_of_digits (hquote : quote = '"' ∨ quote = '\'')
    (h : List.Forall₂ HexDigit values digits) : digits ∈ (LexicalRule.quotedUnit quote)∗ := by
  have hmark : hexValue quote = none := by
    rcases hquote with rfl | rfl <;> decide
  induction h with
  | nil => exact Language.nil_mem_kstar _
  | @cons _ digit _ _ hdigit _ ih =>
    refine LexicalRule.append_mem_kstar (u := [digit]) (LexicalRule.mem_quotedUnit.mpr ?_) ih
    exact .inl ⟨digit, ⟨hdigit.ne_mark hmark, hdigit.ne_mark, hdigit.ne_mark⟩, rfl⟩

/-- Each way to write a character stands for it. -/
theorem Spelling.denotes (hquote : quote = '"' ∨ quote = '\'') (h : Spelling quote c text) :
    Denotes quote text [c] := by
  cases h with
  | plain hmark hslash hline => exact .plain hmark hslash hline
  | escaped hc =>
    have hmarks : c = '"' ∨ c = '\'' ∨ c = '\\' := by
      rcases hc with rfl | rfl
      · exact hquote.imp_right .inl
      · exact .inr (.inr rfl)
    rcases hmarks with rfl | rfl | rfl
    all_goals exact .escaped (by decide) fun rest => by rw [decode] <;> simp
  | short hc =>
    simp only [List.mem_cons, List.not_mem_nil, or_false, Prod.mk.injEq] at hc
    rcases hc with ⟨rfl, rfl⟩ | ⟨rfl, rfl⟩ | ⟨rfl, rfl⟩ | ⟨rfl, rfl⟩
    all_goals exact .escaped (by decide) fun rest => by rw [decode]
  | @unicode _ digits hdigits hlength hc =>
    constructor
    · exact LexicalRule.append_mem_kstar (u := ['\\', 'u'])
        (LexicalRule.mem_quotedUnit.mpr (.inr ⟨'u', by decide, rfl⟩))
        (mem_units_of_digits hquote hdigits)
    · intro rest
      have hpoint := codePoint_of_digits hdigits (by rintro rfl; cases hlength) hc
      obtain ⟨d₁, d₂, d₃, d₄, rfl⟩ := List.length_eq_four.mp hlength
      show decode ('\\' :: 'u' :: d₁ :: d₂ :: d₃ :: d₄ :: rest) = [c] ++ decode rest
      rw [decode, decode.unicode, hpoint]

theorem denotes_of_spellings {spellings : List (List Char)} (hquote : quote = '"' ∨ quote = '\'')
    (h : List.Forall₂ (Spelling quote) cs spellings) : Denotes quote spellings.flatten cs := by
  induction h with
  | nil => exact .nil
  | cons hfirst _ ih => exact (hfirst.denotes hquote).append ih

end Spellings

/-! ## Strings written as JSON -/

/-- The character that is read for one that has been written as JSON: the escapes of the backspace
and of the form feed are not known here and stand for their letters. -/
def ofJson (c : Char) : Char :=
  match c with
  | '\x08' => 'b'
  | '\x0c' => 'f'
  | c => c

theorem ofJson_eq_self {c : Char} : ofJson c = c ↔ c ≠ '\x08' ∧ c ≠ '\x0c' := by
  unfold ofJson
  split
  · simp
  · simp
  · rename_i hback hfeed
    exact iff_of_true rfl ⟨hback, hfeed⟩

theorem map_ofJson_eq_self {cs : List Char} :
    cs.map ofJson = cs ↔ '\x08' ∉ cs ∧ '\x0c' ∉ cs := by
  induction cs with
  | nil => simp
  | cons c cs ih =>
    rw [List.map_cons, List.cons.injEq, ofJson_eq_self, ih, List.mem_cons, List.mem_cons, not_or,
      not_or, and_and_and_comm, ne_comm, @ne_comm _ c]

/-- In JSON a character is written in one of the ways that are known here, unless it is one of
these two. -/
theorem spelling_escape {c : Char} (hback : c ≠ '\x08') (hfeed : c ≠ '\x0c') :
    Spelling '"' c (Json.escape c) := by
  have hdigit : ∀ {n : Nat}, n < 16 → HexDigit n (Nat.digitChar n) := fun h => ⟨h, .inl rfl⟩
  unfold Json.escape
  split
  · exact .escaped (.inl rfl)
  · exact .escaped (.inr rfl)
  · exact absurd rfl hback
  · exact absurd rfl hfeed
  · exact .short (by decide)
  · exact .short (by decide)
  · exact .short (by decide)
  rename_i hquote hslash _ _ hline _ _
  split
  · rename_i hsmall
    have hhigh : c.toNat / 16 < 16 := by omega
    have hlow : c.toNat % 16 < 16 := by omega
    have hdigits : List.Forall₂ HexDigit [0, 0, c.toNat / 16, c.toNat % 16]
        ['0', '0', Nat.digitChar (c.toNat / 16), Nat.digitChar (c.toNat % 16)] :=
      .cons (hdigit (n := 0) (by decide)) (.cons (hdigit (n := 0) (by decide))
        (.cons (hdigit hhigh) (.cons (hdigit hlow) .nil)))
    refine .unicode hdigits rfl ?_
    simp only [List.foldl_cons, List.foldl_nil]
    omega
  · exact .plain hquote hslash hline

theorem denotes_escape (c : Char) : Denotes '"' (Json.escape c) [ofJson c] := by
  by_cases hback : c = '\x08'
  · subst hback
    exact .escaped (by decide) fun rest => by rw [decode] <;> simp [ofJson]
  by_cases hfeed : c = '\x0c'
  · subst hfeed
    exact .escaped (by decide) fun rest => by rw [decode] <;> simp [ofJson]
  rw [ofJson_eq_self.mpr ⟨hback, hfeed⟩]
  exact (spelling_escape hback hfeed).denotes (.inl rfl)

end StringLiteral

namespace Token

/-! ## Written strings are read -/

open StringLiteral

variable {quote : Char} {text : List Char}

/-- However a string is written between quotation marks, the text is one token, and its value is the
string. -/
theorem scan_of_spells {s : String} (hquote : quote = '"' ∨ quote = '\'')
    (h : Spells quote s text) :
    scan text = .ok [⟨.string, String.ofList text, 0⟩] ∧ unquote (String.ofList text) = s := by
  obtain ⟨spellings, hspellings, rfl⟩ := h
  have hread := scan_of_denotes hquote (denotes_of_spellings hquote hspellings)
  rwa [String.ofList_toList] at hread

/-- All kinds of escapes beside each other, with characters behind them that would belong to them if
they went on. -/
theorem scan_of_spells_example :
    ∃ s text, s = "it's \\n\n\t\x000é\"😀f" ∧
      text = "'it\\'s \\\\n\\n\t\\00\\u00E9\"😀\\u0066'".toList ∧ Spells '\'' s text ∧
      scan text = .ok [⟨.string, String.ofList text, 0⟩] ∧ unquote (String.ofList text) = s := by
  generalize hs : "it's \\n\n\t\x000é\"😀f" = s
  generalize htext : "'it\\'s \\\\n\\n\t\\00\\u00E9\"😀\\u0066'".toList = text
  have hspells : Spells '\'' s text := by
    have hchars : s.toList
        = ['i', 't', '\'', 's', ' ', '\\', 'n', '\n', '\t', '\x00', '0', 'é', '"', '😀', 'f'] := by
      subst hs
      decide
    have hplain : ∀ {c : Char}, c ≠ '\'' ∧ c ≠ '\\' ∧ c ≠ '\n' → Spelling '\'' c [c] :=
      fun h => .plain h.1 h.2.1 h.2.2
    have hline : Spelling '\'' '\n' ['\\', 'n'] := .short (by decide)
    have hnul : Spelling '\'' '\x00' ['\\', '0'] := .short (by decide)
    have hzero : HexDigit 0 '0' := ⟨by decide, .inl rfl⟩
    have hnine : HexDigit 9 '9' := ⟨by decide, .inl rfl⟩
    have hsix : HexDigit 6 '6' := ⟨by decide, .inl rfl⟩
    have hupper : HexDigit 14 'E' := ⟨by decide, .inr rfl⟩
    have haccent : Spelling '\'' 'é' ['\\', 'u', '0', '0', 'E', '9'] :=
      .unicode (.cons hzero (.cons hzero (.cons hupper (.cons hnine .nil)))) rfl rfl
    have hletter : Spelling '\'' 'f' ['\\', 'u', '0', '0', '6', '6'] :=
      .unicode (.cons hzero (.cons hzero (.cons hsix (.cons hsix .nil)))) rfl rfl
    rw [Spells, hchars]
    refine ⟨_, .cons (hplain (by decide)) <| .cons (hplain (by decide)) <|
      .cons (.escaped (.inl rfl)) <| .cons (hplain (by decide)) <| .cons (hplain (by decide)) <|
      .cons (.escaped (.inr rfl)) <| .cons (hplain (by decide)) <| .cons hline <|
      .cons (hplain (by decide)) <| .cons hnul <| .cons (hplain (by decide)) <| .cons haccent <|
      .cons (hplain (by decide)) <| .cons (hplain (by decide)) <| .cons hletter .nil, ?_⟩
    subst htext
    decide
  exact ⟨s, text, rfl, rfl, hspells, scan_of_spells (.inr rfl) hspells⟩

/-- A string that has been written as JSON is one token too. Its value is the string with the
letters of their escapes in the place of backspaces and form feeds, so that it is the string exactly
if it has none of these. -/
theorem scan_writeString (s : String) :
    scan (Json.writeString s) = .ok [⟨.string, String.ofList (Json.writeString s), 0⟩] ∧
      unquote (String.ofList (Json.writeString s)) = String.ofList (s.toList.map ofJson) ∧
      (unquote (String.ofList (Json.writeString s)) = s ↔
        '\x08' ∉ s.toList ∧ '\x0c' ∉ s.toList) := by
  have hdenotes : Denotes '"' (s.toList.flatMap Json.escape) (s.toList.flatMap ([ofJson ·])) :=
    .flatMap fun c _ => denotes_escape c
  obtain ⟨hscan, hvalue⟩ := scan_of_denotes (.inl rfl) hdenotes
  rw [← List.map_eq_flatMap] at hvalue
  refine ⟨hscan, hvalue, ?_⟩
  rw [Json.writeString, hvalue, ← String.toList_inj, String.toList_ofList, map_ofJson_eq_self]

/-- The value of a backspace that has been written as JSON is a letter. -/
theorem not_unquote_writeString :
    ¬ ∀ s : String, scan (Json.writeString s)
        = .ok [⟨.string, String.ofList (Json.writeString s), 0⟩] ∧
      unquote (String.ofList (Json.writeString s)) = s := by
  intro h
  have hvalue := (h "\x08").2
  exact absurd hvalue (by decide +kernel)

end Token

end AliasCheck
