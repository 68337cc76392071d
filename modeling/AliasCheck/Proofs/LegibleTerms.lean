import AliasCheck.Proofs.Layout
import AliasCheck.Proofs.StringSpellings

/-!
# Printed terms can be told apart

The pieces of a term that can be written end where the next ones begin, as long as what stands
behind the term ends a word. Only the bodies of strings need more: what is escaped between quotes is
one token whatever characters it has, and its value is what was escaped. The escapes in keys bring
about no mark of library declarations either.
-/

namespace AliasCheck

open Piece

/-! ## Escaped texts -/

namespace Piece

open StringLiteral

/-- What a character is written as between quotes: itself if it means nothing else there, or a
backslash and a character that stand for it. -/
inductive Escapes (c : Char) : List Char → Prop where
  | plain (hquote : c ≠ '"') (hslash : c ≠ '\\') (hline : c ≠ '\n') : Escapes c [c]
  | escaped {d : Char} (hline : d ≠ '\n')
      (hdecode : ∀ cs, decode ('\\' :: d :: cs) = c :: decode cs) : Escapes c ['\\', d]

section Escaped

variable {f : Char → List Char} {cs : List Char}

theorem Escapes.denotes {c : Char} {text : List Char} (h : Escapes c text) :
    Denotes '"' text [c] := by
  cases h with
  | plain hquote hslash hline => exact .plain hquote hslash hline
  | escaped hline hdecode => exact .escaped hline hdecode

/-- A text that is escaped between quotes is the text of a string with the value that was
escaped. -/
theorem string_of_escapes {text : String} (h : ∀ c ∈ cs, Escapes c (f c))
    (htext : text.toList = '"' :: (cs.flatMap f ++ ['"'])) :
    Token.isText .string text = true ∧ unquote text = String.ofList cs := by
  have hdenotes : Denotes '"' (cs.flatMap f) (cs.flatMap ([·])) :=
    .flatMap fun c hc => (h c hc).denotes
  rw [List.flatMap_singleton'] at hdenotes
  constructor
  · rw [Token.isText_eq_true, htext]
    exact ⟨'"', _, rfl, .string (.inl rfl)
      (LexicalRule.quoted_of_mem (.inl rfl) hdenotes.units [])⟩
  · rw [← String.ofList_toList (s := text), htext]
    exact hdenotes.unquote (.inl rfl)

end Escaped

/-! ## Keys -/

theorem escape_cases (c : Char) :
    (escape c = [c] ∧ c ≠ '"' ∧ c ≠ '\\' ∧ c ≠ '\n') ∨
    ∃ d ∈ ['"', '\\', 'n', 'r', 't'], escape c = ['\\', d] ∧
      ∀ cs, decode ('\\' :: d :: cs) = c :: decode cs := by
  unfold escape
  split
  · exact .inr ⟨'"', by decide, rfl, fun cs => by rw [decode] <;> simp⟩
  · exact .inr ⟨'\\', by decide, rfl, fun cs => by rw [decode] <;> simp⟩
  · exact .inr ⟨'n', by decide, rfl, fun cs => by rw [decode]⟩
  · exact .inr ⟨'r', by decide, rfl, fun cs => by rw [decode]⟩
  · exact .inr ⟨'t', by decide, rfl, fun cs => by rw [decode]⟩
  · rename_i hquote hslash hline _ _
    exact .inl ⟨rfl, hquote, hslash, hline⟩

theorem escapes_escape (c : Char) : Escapes c (escape c) := by
  rcases escape_cases c with ⟨heq, hquote, hslash, hline⟩ | ⟨d, hd, heq, hdecode⟩
  · rw [heq]
    exact .plain hquote hslash hline
  · have hline : d ≠ '\n' := by
      rintro rfl
      exact absurd hd (by decide)
    rw [heq]
    exact .escaped hline hdecode

theorem string_quoteKey (key : String) :
    Token.isText .string (quoteKey key) = true ∧ unquote (quoteKey key) = key := by
  have htext : (quoteKey key).toList = '"' :: (key.toList.flatMap escape ++ ['"']) :=
    String.toList_ofList
  have hstring := string_of_escapes (fun c _ => escapes_escape c) htext
  rwa [String.ofList_toList] at hstring

/-- What escaped text begins with, the text itself begins with, unless there are quotation marks or
backslashes in it. -/
theorem startsWith_of_escape {word cs : List Char} (hquote : '"' ∉ word) (hslash : '\\' ∉ word)
    (h : word <+: (cs.flatMap escape ++ ['"']).map Char.toLower) :
    word <+: cs.map Char.toLower := by
  induction word generalizing cs with
  | nil => exact List.nil_prefix
  | cons w word ih =>
    rw [List.mem_cons, not_or] at hquote hslash
    cases cs with
    | nil =>
      rw [List.flatMap_nil, List.nil_append, List.map_cons, List.cons_prefix_cons] at h
      exact absurd h.1.symm hquote.1
    | cons c cs =>
      rw [List.flatMap_cons, List.append_assoc, List.map_append] at h
      rcases escape_cases c with ⟨heq, -⟩ | ⟨d, -, heq, -⟩
      · rw [heq, List.map_singleton, List.singleton_append, List.cons_prefix_cons] at h
        rw [List.map_cons, List.cons_prefix_cons]
        exact ⟨h.1, ih hquote.2 hslash.2 h.2⟩
      · rw [heq, List.map_cons, List.cons_append, List.cons_prefix_cons] at h
        exact absurd h.1.symm hslash.1

/-- Quoting a key brings about no mark of library declarations. -/
theorem hasMark_quoteKey {key : String} (h : Blanking.hasMark key.toList = false) :
    Blanking.hasMark (quoteKey key).toList = false := by
  have hescaped : ∀ cs : List Char, Blanking.hasMark cs = false →
      Blanking.hasMark (cs.flatMap escape ++ ['"']) = false := by
    intro cs hcs
    induction cs with
    | nil => decide
    | cons c cs ih =>
      rw [Blanking.hasMark, Bool.or_eq_false_iff] at hcs
      have hrest := ih hcs.2
      have hbegin : Blanking.startsWithMark ((c :: cs).flatMap escape ++ ['"']) = false := by
        rw [Bool.eq_false_iff, ne_eq, Blanking.startsWithMark_eq_true]
        intro h
        have hkey := Blanking.startsWithMark_eq_true.mpr
          (startsWith_of_escape (by decide) (by decide) h)
        exact Bool.false_ne_true (hcs.1.symm.trans hkey)
      rw [List.flatMap_cons, List.append_assoc] at hbegin ⊢
      rcases escape_cases c with ⟨heq, -⟩ | ⟨d, hd, heq, -⟩
      · rw [heq, List.singleton_append] at hbegin ⊢
        rw [Blanking.hasMark, hbegin, hrest]
        rfl
      · have hfirst : (['\\', d].any fun e => e.toLower == 'd') = false := by
          simp only [List.mem_cons, List.not_mem_nil, or_false] at hd
          rcases hd with rfl | rfl | rfl | rfl | rfl <;> decide
        rw [heq]
        exact Blanking.hasMark_append_of_noFirst hfirst hrest
  rw [quoteKey, String.toList_ofList, ← List.singleton_append]
  exact Blanking.hasMark_append_of_noFirst (by decide) (hescaped _ h)

end Piece

/-! ## Marks, words and names -/

/-- Pieces that may stand behind a term. -/
structure Trails (ps : List Piece) : Prop where
  legible : Legible ps
  next : Next Lexeme.EndsWord ps
  apart : ¬ Blanking.Continues (render ps)

/-- The kinds of the marks that may stand behind a term. -/
def Piece.enders : List Token.Kind :=
  [.semicolon, .comma, .pipe, .ampersand, .openAngle, .closeAngle, .openBracket, .closeBracket,
    .closeParen, .closeBrace]

variable {kind : Token.Kind} {text : String} {ps qs : List Piece}

theorem Legible.tail {p : Piece} (h : Legible (p :: ps)) : Legible ps := by
  cases h <;> assumption

/-- The first piece of a list may be left out, such as a separator in front of all items. -/
theorem Legible.drop_one (h : Legible (qs ++ ps)) : Legible (qs.drop 1 ++ ps) := by
  cases qs with
  | nil => exact h
  | cons q qs => exact h.tail

/-- Most marks are what they are whatever comes next. -/
theorem Legible.plainMark (kind : Token.Kind) (hps : Legible ps)
    (hkind : kind ∈ marks ∧ kind ≠ .dot ∧ kind ≠ .equals := by decide) :
    Legible (Piece.mark kind :: ps) := by
  have hfits : ∀ d, kind.Fits d := by
    intro d
    obtain ⟨hmem, hdot, hequals⟩ := hkind
    cases kind
    case identifier | number | slash | regex => exact absurd hmem (by decide)
    case dot => exact absurd rfl hdot
    case equals => exact absurd rfl hequals
    all_goals exact trivial
  exact .mark hkind.1 (fun d _ => hfits d) hps

theorem Trails.nil : Trails [] := ⟨.nil, nofun, by decide⟩

/-- The marks that stand behind terms end words. -/
theorem first_of_ender (hkind : kind ∈ enders) (ps : List Piece) {d : Char}
    (hd : (render (Piece.mark kind :: ps)).head? = some d) :
    Lexeme.EndsWord d ∧ d ≠ ' ' ∧ d.isAlpha = false := by
  have hfirst : ∀ kind ∈ enders, (kind.spelling.toList.head?.any fun d =>
      !Lexeme.isIdentifierPart d && d != '.' && d != '+' && d != '-' && d != ' ') = true := by
    decide
  obtain ⟨e, hspelling, he⟩ := (Option.any_eq_true _ _).mp (hfirst kind hkind)
  rw [render_cons, List.head?_append, Piece.mark, Piece.text, hspelling] at hd
  cases hd
  simp only [Bool.and_eq_true, Bool.not_eq_true', bne_iff_ne] at he
  obtain ⟨⟨⟨⟨hpart, hpoint⟩, hplus⟩, hminus⟩, hspace⟩ := he
  exact ⟨⟨hpart, hpoint, hplus, hminus⟩, hspace, Lexeme.isAlpha_of_isIdentifierPart hpart⟩

theorem legible_ender (hkind : kind ∈ enders) (hps : Legible ps) :
    Legible (Piece.mark kind :: ps) := by
  have hmarks : ∀ kind ∈ enders, kind ∈ marks ∧ kind ≠ .dot ∧ kind ≠ .equals := by decide
  exact .plainMark kind hps (hmarks kind hkind)

theorem Trails.mark (hkind : kind ∈ enders) (hps : Legible ps) :
    Trails (Piece.mark kind :: ps) where
  legible := legible_ender hkind hps
  next := fun _ hd => (first_of_ender hkind ps hd).1
  apart := Blanking.not_continues_of_head fun _ hd => (first_of_ender hkind ps hd).2.1

/-- A space may stand between a term and the mark behind it. -/
theorem Trails.spaceMark (hkind : kind ∈ enders) (hps : Legible ps) :
    Trails (space :: Piece.mark kind :: ps) where
  legible := .space (legible_ender hkind hps)
  next := by
    intro d hd
    cases hd
    exact Lexeme.endsWord_space
  apart := Blanking.not_continues_of_second fun _ hd => (first_of_ender hkind ps hd).2.2

theorem Trails.number (htext : Token.isText .number text = true) (hps : Trails ps) :
    Legible (token .number text :: ps) :=
  .number htext hps.next (fun _ => hps.apart) hps.legible

theorem Trails.word (htext : Token.isText .identifier text = true) (hps : Trails ps) :
    Legible (token .identifier text :: ps) :=
  .word htext (fun d hd => (hps.next d hd).1) (fun _ => hps.apart) hps.legible

/-- A point in front of an identifier is a point. -/
theorem Legible.dot (htext : Token.isText .identifier text = true)
    (hps : Legible (token .identifier text :: ps)) :
    Legible (Piece.mark .dot :: token .identifier text :: ps) := by
  refine .mark (by decide) (fun d hd => ?_) hps
  obtain ⟨c, cs, hlist, hrule⟩ := Token.isText_eq_true.mp htext
  rw [render_cons, Piece.text, hlist] at hd
  cases hd
  have hstart : Lexeme.isIdentifierStart d = true := by
    generalize d :: cs = text' at hrule
    cases hrule with
    | word hc => exact hc
    | mark h => exact absurd rfl (Lexeme.punctuation_kind h).1
  refine ⟨?_, Lexeme.isDigit_of_isIdentifierStart hstart⟩
  rintro rfl
  exact absurd hstart (by decide)

theorem legible_ofSegments {segments : List (List Char)}
    (h : ∀ segment ∈ segments, Token.isText .identifier (String.ofList segment) = true)
    (hps : Trails ps) : Legible (ofSegments segments ++ ps) ∧
      Next (fun d => Lexeme.isIdentifierPart d = false) (ofSegments segments ++ ps) ∧
      ¬ Blanking.Continues (render (ofSegments segments ++ ps)) := by
  induction segments with
  | nil => exact ⟨hps.legible, fun d hd => (hps.next d hd).1, hps.apart⟩
  | cons segment segments ih =>
    rw [List.forall_mem_cons] at h
    obtain ⟨hlegible, hnext, hapart⟩ := ih h.2
    refine ⟨.dot h.1 (.word h.1 hnext (fun _ => hapart) hlegible), fun d hd => ?_,
      Blanking.not_continues_of_head fun d hd => ?_⟩
    all_goals
      cases hd
      decide

theorem legible_ofName {name : String} (h : isName name = true) (hps : Trails ps) :
    Legible (ofName name ++ ps) := by
  rw [isName, List.all_eq_true] at h
  rw [ofName]
  cases hsegments : splitAt '.' name.toList with
  | nil => exact hps.legible
  | cons first more =>
    rw [hsegments, List.forall_mem_cons] at h
    obtain ⟨hlegible, hnext, hapart⟩ := legible_ofSegments h.2 hps
    exact .word h.1 hnext (fun _ => hapart) hlegible

theorem legible_ofNumeral {raw : String} (h : isNumeral raw = true) (hps : Trails ps) :
    Legible (ofNumeral raw ++ ps) := by
  unfold isNumeral at h
  unfold ofNumeral
  split
  · rename_i digits heq
    rw [heq] at h
    exact .plainMark .minus (Trails.number h hps)
  · rename_i hne
    split at h
    · rename_i digits heq
      exact absurd heq (hne digits)
    · exact Trails.number h hps

/-! ## Lists -/

/-- Lists of pieces, each behind a separator. -/
def Piece.behind (separator : List Piece) (pss : List (List Piece)) : List Piece :=
  pss.flatMap (separator ++ ·)

theorem behind_cons (separator ps : List Piece) (pss : List (List Piece)) :
    behind separator (ps :: pss) = separator ++ (ps ++ behind separator pss) := by
  rw [behind, List.flatMap_cons, List.append_assoc]
  rfl

/-- Pieces behind separators can be told apart if a separator ends what stands in front of it. -/
theorem Trails.behind {separator : List Piece} {pss : List (List Piece)}
    (hseparator : ∀ {rs}, Legible rs → Trails (separator ++ rs))
    (hpss : ∀ qs ∈ pss, ∀ {rs}, Trails rs → Legible (qs ++ rs)) (hps : Trails ps) :
    Trails (behind separator pss ++ ps) := by
  induction pss with
  | nil => exact hps
  | cons qs pss ih =>
    rw [List.forall_mem_cons] at hpss
    rw [behind_cons, List.append_assoc, List.append_assoc]
    exact hseparator (hpss.1 (ih hpss.2))

/-! ## Terms -/

theorem legible_enclose (need : Nat) (t : TypeTerm) (hps : Trails ps)
    (h : ∀ {rs}, Trails rs → Legible (qs ++ rs)) : Legible (t.enclose need qs ++ ps) := by
  unfold TypeTerm.enclose
  split
  · rw [List.cons_append, List.append_assoc]
    exact .plainMark .openParen (h (.mark (by decide) hps.legible))
  · exact h hps

theorem legible_bar (exact : Bool) (hps : Legible ps) : Legible (bar exact ++ ps) := by
  cases exact with
  | false => exact hps
  | true => exact .plainMark .pipe hps

/-- The end of an object type may stand behind its last member. -/
theorem trails_closeBrace (exact : Bool) (hps : Legible ps) :
    Trails (bar exact ++ Piece.mark .closeBrace :: ps) := by
  cases exact with
  | false => exact .mark (by decide) hps
  | true => exact .mark (by decide) (.plainMark .closeBrace hps)

/-- The kinds of the separators of lists. -/
def Piece.separators : List Token.Kind := [.comma, .pipe, .ampersand]

variable (short : List Nat → Bool)

mutual

/-- The pieces of a term that can be written can be told apart. -/
theorem TypeTerm.legible (t : TypeTerm) (ht : t.isPrintable = true) (path : List Nat)
    {ps : List Piece} (hps : Trails ps) : Legible (t.pieces short path ++ ps) := by
  match t with
  | .object members exact =>
    rw [TypeTerm.isPrintable] at ht
    rw [TypeTerm.pieces]
    simp only [List.cons_append, List.append_assoc, List.nil_append]
    have hend := trails_closeBrace exact hps.legible
    have hmembers := Member.legibleAll members ht path 0 hend
    exact .plainMark .openBrace (legible_bar exact hmembers.legible.drop_one)
  | .named name =>
    rw [TypeTerm.isPrintable, isTypeName, Bool.and_eq_true] at ht
    rw [TypeTerm.pieces]
    exact legible_ofName ht.1 hps
  | .applied name args =>
    rw [TypeTerm.isPrintable, Bool.and_eq_true, isTypeName, Bool.and_eq_true] at ht
    rw [TypeTerm.pieces]
    split
    · rw [List.append_assoc]
      have hend : Trails (Piece.mark .openBracket :: Piece.mark .closeBracket :: ps) :=
        .mark (by decide) (.plainMark .closeBracket hps.legible)
      have hargs := TypeTerm.legibleAll args ht.2 path (by decide : .comma ∈ separators) 3 0 hend
      exact hargs.legible.drop_one
    · simp only [List.cons_append, List.append_assoc, List.nil_append]
      have hend : Trails (Piece.mark .closeAngle :: ps) := .mark (by decide) hps.legible
      have hargs := TypeTerm.legibleAll args ht.2 path (by decide : .comma ∈ separators) 0 0 hend
      exact legible_ofName ht.1.1 (.mark (by decide) hargs.legible.drop_one)
  | .nullable inner =>
    rw [TypeTerm.isPrintable] at ht
    rw [TypeTerm.pieces, List.cons_append]
    refine .plainMark .question (legible_enclose 2 inner hps fun h => ?_)
    exact TypeTerm.legible inner ht (0 :: path) h
  | .stringLiteral value raw =>
    rw [TypeTerm.isPrintable, Bool.and_eq_true, Bool.and_eq_true, Bool.not_eq_true'] at ht
    rw [TypeTerm.pieces]
    exact .string ht.1.1 ht.2 hps.legible
  | .numberLiteral raw =>
    rw [TypeTerm.isPrintable] at ht
    rw [TypeTerm.pieces]
    exact legible_ofNumeral ht hps
  | .booleanLiteral value =>
    rw [TypeTerm.pieces]
    refine Trails.word ?_ hps
    cases value <;> decide
  | .keyword word =>
    rw [TypeTerm.pieces]
    refine Trails.word ?_ hps
    cases word <;> decide
  | .union members =>
    rw [TypeTerm.isPrintable, Bool.and_eq_true] at ht
    rw [TypeTerm.pieces]
    exact (TypeTerm.legibleAll members ht.2 path (by decide) 1 0 hps).legible.drop_one
  | .intersection members =>
    rw [TypeTerm.isPrintable, Bool.and_eq_true] at ht
    rw [TypeTerm.pieces]
    exact (TypeTerm.legibleAll members ht.2 path (by decide) 2 0 hps).legible.drop_one
  | .tuple items =>
    rw [TypeTerm.isPrintable] at ht
    rw [TypeTerm.pieces]
    simp only [List.cons_append, List.append_assoc, List.nil_append]
    have hend : Trails (Piece.mark .closeBracket :: ps) := .mark (by decide) hps.legible
    have hitems := TypeTerm.legibleAll items ht path (by decide : .comma ∈ separators) 0 0 hend
    exact .plainMark .openBracket hitems.legible.drop_one
  | .function params returns =>
    rw [TypeTerm.isPrintable, Bool.and_eq_true] at ht
    rw [TypeTerm.pieces]
    simp only [List.cons_append, List.append_assoc]
    have hreturns := TypeTerm.legible returns ht.2 (0 :: path) hps
    have hend := Trails.mark (by decide : .closeParen ∈ enders) (.plainMark .arrow hreturns)
    have hparams := TypeTerm.legibleAll params ht.1 path (by decide : .comma ∈ separators) 0 1 hend
    exact .plainMark .openParen hparams.legible.drop_one
  | .typeOf name =>
    rw [TypeTerm.isPrintable] at ht
    rw [TypeTerm.pieces]
    have hshort : ¬ Blanking.Opens "typeof".toList := Blanking.not_opens_of_length (by decide)
    refine .word (by decide) (fun d hd => ?_) (fun h => absurd h hshort)
      (.space (legible_ofName ht hps))
    cases hd
    exact Lexeme.endsWord_space.1
  | .existential =>
    rw [TypeTerm.pieces]
    exact .plainMark .star hps.legible
  termination_by structural t

/-- The pieces of terms behind separators can be told apart. -/
theorem TypeTerm.legibleAll (ts : List TypeTerm) (hts : TypeTerm.arePrintable ts = true)
    (path : List Nat) {separator : Token.Kind} (hseparator : separator ∈ separators)
    (need i : Nat) {ps : List Piece} (hps : Trails ps) :
    Trails (TypeTerm.listPieces short path separator need i ts ++ ps) := by
  match ts with
  | [] =>
    rw [TypeTerm.listPieces]
    exact hps
  | t :: ts =>
    rw [TypeTerm.arePrintable, Bool.and_eq_true] at hts
    rw [TypeTerm.listPieces, List.cons_append, List.append_assoc]
    have hrest := TypeTerm.legibleAll ts hts.2 path hseparator need (i + 1) hps
    have henders : ∀ kind ∈ separators, kind ∈ enders := by decide
    refine .mark (henders _ hseparator) (legible_enclose need t hrest fun h => ?_)
    exact TypeTerm.legible t hts.1 (i :: path) h
  termination_by structural ts

/-- The pieces of a member that can be written can be told apart. -/
theorem Member.legible (m : Member) (hm : m.isPrintable = true) (path : List Nat)
    {ps : List Piece} (hps : Trails ps) : Legible (m.pieces short path ++ ps) := by
  match m with
  | ⟨key, value, optional⟩ =>
    rw [Member.isPrintable, Bool.and_eq_true, Bool.not_eq_true'] at hm
    rw [Member.pieces]
    simp only [List.cons_append, List.append_assoc]
    have hvalue := TypeTerm.legible value hm.2 path hps
    refine .string (string_quoteKey key).1 (hasMark_quoteKey hm.1) ?_
    cases optional with
    | false => exact .plainMark .colon hvalue
    | true => exact .plainMark .question (.plainMark .colon hvalue)
  termination_by structural m

/-- The pieces of members behind commas can be told apart. -/
theorem Member.legibleAll (ms : List Member) (hms : Member.arePrintable ms = true)
    (path : List Nat) (i : Nat) {ps : List Piece} (hps : Trails ps) :
    Trails (Member.listPieces short path i ms ++ ps) := by
  match ms with
  | [] =>
    rw [Member.listPieces]
    exact hps
  | m :: ms =>
    rw [Member.arePrintable, Bool.and_eq_true] at hms
    rw [Member.listPieces, List.cons_append, List.append_assoc]
    have hrest := Member.legibleAll ms hms.2 path (i + 1) hps
    exact .mark (by decide) (Member.legible m hms.1 (i :: path) hrest)
  termination_by structural ms

end

end AliasCheck
