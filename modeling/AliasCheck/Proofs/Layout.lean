import AliasCheck.Proofs.Printing
import AliasCheck.Proofs.Scanning

/-!
# Reading pieces back as tokens

A text that is put together of pieces falls into just these pieces if each of them ends where the
next begins and no mark of library declarations comes about. `Legible` says so of a list of pieces
by looking at one character behind each piece. Offsets of tokens mean nothing to the readers, so
`Piece.Spells` compares pieces with tokens by their kinds and texts only.
-/

namespace AliasCheck

/-! ## Upper and lower case -/

/-- Only upper case letters change when they are lowered. -/
theorem toLower_eq_self_or (c : Char) :
    c.toLower = c ∨ (c.isUpper = true ∧ c.toLower.isLower = true) := by
  unfold Char.toLower
  split
  · rename_i h
    have hA : 'A'.val.toNat = 65 := rfl
    have hZ : 'Z'.val.toNat = 90 := rfl
    have ha : 'a'.val.toNat = 97 := rfl
    have hz : 'z'.val.toNat = 122 := rfl
    have hsub : ('a'.val - 'A'.val).toNat = 32 := rfl
    have hrange :
        'a'.val ≤ c.val + ('a'.val - 'A'.val) ∧ c.val + ('a'.val - 'A'.val) ≤ 'z'.val := by
      simp only [ge_iff_le, UInt32.le_iff_toNat_le, UInt32.toNat_add] at h ⊢
      omega
    refine .inr ⟨decide_eq_true h, ?_⟩
    exact Bool.and_eq_true_iff.mpr ⟨decide_eq_true hrange.1, decide_eq_true hrange.2⟩
  · exact .inl rfl

theorem toLower_eq {c d : Char} (hd : d.isLower = false) (h : c.toLower = d) : c = d := by
  rcases toLower_eq_self_or c with heq | ⟨-, hlower⟩
  · rw [← heq, h]
  · rw [h, hd] at hlower
    cases hlower

theorem isAlpha_of_toLower {c : Char} (h : c.toLower.isAlpha = true) : c.isAlpha = true := by
  rcases toLower_eq_self_or c with heq | ⟨hupper, -⟩
  · rwa [heq] at h
  · exact Bool.or_eq_true_iff.mpr (.inl hupper)

/-! ## The mark of library declarations -/

namespace Blanking

variable {a b cs : List Char}

theorem startsWithMark_eq_true :
    startsWithMark cs = true ↔ mark <+: cs.map Char.toLower := by
  unfold startsWithMark
  rw [beq_iff_eq, List.prefix_iff_eq_take, List.map_take]
  exact eq_comm

theorem hasMark_eq_true : hasMark cs = true ↔ mark <:+: cs.map Char.toLower := by
  induction cs with
  | nil =>
    have hne : mark ≠ [] := by decide
    simp [hasMark, hne]
  | cons c cs ih =>
    rw [hasMark, Bool.or_eq_true, startsWithMark_eq_true, ih, List.map_cons, List.infix_cons_iff]

theorem hasMark_eq_false : hasMark cs = false ↔ ¬ mark <:+: cs.map Char.toLower := by
  rw [← hasMark_eq_true, Bool.not_eq_true]

/-- Without a mark there is nothing to overwrite. -/
theorem blank_eq_self (h : hasMark cs = false) : blank false cs = cs := by
  induction cs with
  | nil => rfl
  | cons c cs ih =>
    rw [hasMark, Bool.or_eq_false_iff] at h
    rw [blank, ih h.2, h.1, Bool.false_or, if_neg Bool.false_ne_true, ite_self]

/-- A mark in a text that is put together lies in one of its parts or across the seam. -/
theorem hasMark_append (ha : hasMark a = false) (hb : hasMark b = false)
    (hseam : ∀ u v, u ≠ [] → v ≠ [] → mark = u ++ v → u <:+ a.map Char.toLower →
      ¬ v <+: b.map Char.toLower) : hasMark (a ++ b) = false := by
  rw [hasMark_eq_false] at ha hb ⊢
  rw [List.map_append, List.infix_append_iff_ne_nil]
  rintro (h | h | ⟨u, v, hu, hv, hmark, hback, hfront⟩)
  · exact ha h
  · exact hb h
  · exact hseam u v hu hv hmark hback hfront

/-- The mark contains spaces. -/
theorem hasMark_of_noSpace (h : ' ' ∉ cs) : hasMark cs = false := by
  rw [hasMark_eq_false]
  intro hmark
  have hmem : ' ' ∈ cs.map Char.toLower := hmark.subset (by decide)
  obtain ⟨c, hc, hlower⟩ := List.mem_map.mp hmem
  cases toLower_eq (by decide) hlower
  exact h hc

/-- No mark begins in a text without its first letter. -/
theorem hasMark_append_of_noFirst (ha : (a.any fun c => c.toLower == 'd') = false)
    (hb : hasMark b = false) : hasMark (a ++ b) = false := by
  have hfirst : ∀ u v, u ≠ [] → mark = u ++ v → ¬ u <:+: a.map Char.toLower := by
    intro u v hu hmark hpart
    have hmem : 'd' ∈ u := by
      have hhead : (u ++ v).head? = some 'd' := hmark ▸ (by decide)
      rw [List.head?_append, List.head?_eq_some_head hu] at hhead
      exact Option.some.inj hhead ▸ List.head_mem hu
    obtain ⟨c, hc, hlower⟩ := List.mem_map.mp (hpart.subset hmem)
    exact Bool.false_ne_true (ha.symm.trans (List.any_eq_true.mpr ⟨c, hc, beq_iff_eq.mpr hlower⟩))
  refine hasMark_append ?_ hb fun u v hu _ hmark hback _ => hfirst u v hu hmark hback.isInfix
  exact hasMark_eq_false.mpr (hfirst mark [] (by decide) (List.append_nil mark).symm)

/-- No mark goes on behind a character that is not in it. -/
theorem hasMark_append_of_last {q : Char} (ha : hasMark a = false) (hlast : a.getLast? = some q)
    (hq : q.toLower ∉ mark) (hb : hasMark b = false) : hasMark (a ++ b) = false := by
  refine hasMark_append ha hb fun u v hu _ hmark hback _ => ?_
  obtain ⟨w, hw⟩ := hback
  have hmem : q.toLower ∈ u := by
    have hgetLast := congrArg List.getLast? hw
    rw [List.getLast?_append, List.getLast?_eq_some_getLast hu, List.getLast?_map, hlast]
      at hgetLast
    exact Option.some.inj hgetLast ▸ List.getLast_mem hu
  exact hq (hmark ▸ List.mem_append_left v hmem)

/-- A text ends with the first word of the mark. -/
def Opens (cs : List Char) : Prop := mark.take 7 <:+ cs.map Char.toLower

instance : DecidablePred Opens := fun _ => inferInstanceAs (Decidable (_ <:+ _))

theorem not_opens_of_length (h : cs.length < 7) : ¬ Opens cs := by
  intro hopens
  have hlen : 7 ≤ (cs.map Char.toLower).length := hopens.length_le
  rw [List.length_map] at hlen
  omega

/-- A text begins with what stands behind the first word of the mark: a space, and the second word
with the space after it. -/
def Continues (cs : List Char) : Prop := mark.drop 7 <+: cs.map Char.toLower

instance : DecidablePred Continues := fun _ => inferInstanceAs (Decidable (_ <+: _))

/-- What continues the mark begins with a space. -/
theorem not_continues_of_head (h : ∀ d, cs.head? = some d → d ≠ ' ') : ¬ Continues cs := by
  rintro ⟨rest, hrest⟩
  have hspace : (cs.map Char.toLower).head? = some ' ' := by
    have hmark : (mark.drop 7).head? = some ' ' := by decide
    rw [← hrest, List.head?_append, hmark]
    rfl
  rw [List.head?_map, Option.map_eq_some_iff] at hspace
  obtain ⟨d, hd, hlower⟩ := hspace
  exact h d hd (toLower_eq (by decide) hlower)

/-- What continues the mark has a letter behind its space. -/
theorem not_continues_of_second (h : ∀ d, cs.head? = some d → d.isAlpha = false) :
    ¬ Continues (' ' :: cs) := by
  rintro ⟨rest, hrest⟩
  have hletter : (cs.map Char.toLower).head? = some 'e' := by
    have hmark : mark.drop 7 = ' ' :: 'e' :: mark.drop 9 := by decide
    rw [hmark, List.map_cons, List.cons_append, List.cons_append, List.cons.injEq] at hrest
    rw [← hrest.2]
    rfl
  rw [List.head?_map, Option.map_eq_some_iff] at hletter
  obtain ⟨d, hd, hlower⟩ := hletter
  have halpha : d.isAlpha = true := isAlpha_of_toLower (hlower ▸ (by decide))
  rw [h d hd] at halpha
  cases halpha

/-- No mark goes on behind a word without spaces, unless it ends with the first word of the mark and
the second one follows. -/
theorem hasMark_append_of_word (ha : ' ' ∉ a) (hb : hasMark b = false)
    (hnext : ∀ d, b.head? = some d → d.isAlpha = false) (hapart : Opens a → ¬ Continues b) :
    hasMark (a ++ b) = false := by
  refine hasMark_append (hasMark_of_noSpace ha) hb fun u v hu hv hmark hback hfront => ?_
  have hspace : ' ' ∉ u := by
    intro hmem
    obtain ⟨c, hc, hlower⟩ := List.mem_map.mp (hback.subset hmem)
    cases toLower_eq (by decide) hlower
    exact ha hc
  obtain ⟨e, v, rfl⟩ := List.exists_cons_of_ne_nil hv
  -- The character after the first `n` of the mark is a letter or the space at its place.
  have hcases : ∀ n < mark.length, ' ' ∈ mark.take n ∨
      ((mark.drop n).head?.any fun e => e.isAlpha || (e == ' ' && n == 7)) = true := by decide
  have hn : u.length < mark.length := by
    rw [hmark, List.length_append, List.length_cons]
    omega
  rcases hcases u.length hn with h | h
  · rw [hmark, List.take_left] at h
    exact hspace h
  · rw [hmark, List.drop_left, List.head?_cons] at h
    rw [Option.any_some, Bool.or_eq_true, Bool.and_eq_true, beq_iff_eq, beq_iff_eq] at h
    rcases h with he | ⟨-, hseven⟩
    · obtain ⟨w, hw⟩ := hfront
      obtain ⟨d, ds, rfl, hlower, -⟩ := List.map_eq_cons_iff.mp hw.symm
      have hletter := hnext d rfl
      rw [← hlower] at he
      rw [isAlpha_of_toLower he] at hletter
      cases hletter
    · have hword : mark.take 7 = u := by rw [hmark, ← hseven, List.take_left]
      have hrest : mark.drop 7 = e :: v := by rw [hmark, ← hseven, List.drop_left]
      rw [← hword] at hback
      rw [← hrest] at hfront
      exact hapart hback hfront

end Blanking

/-! ## Texts of tokens -/

section Texts

variable {allowed : Bool} {kind : Token.Kind} {text : String} {c : Char} {cs : List Char}

theorem Token.isText_eq_true : Token.isText kind text = true ↔
    ∃ c cs, text.toList = c :: cs ∧ Lexeme.Rule true c cs (.token kind (c :: cs)) := by
  unfold Token.isText
  cases text.toList with
  | nil => simp
  | cons c cs =>
    rw [beq_iff_eq]
    constructor
    · exact fun h => ⟨c, cs, rfl, Lexeme.rule_of_read h (Lexeme.token_ne_broken _ _)⟩
    · rintro ⟨_, _, ⟨⟩, h⟩
      exact h.read_eq

theorem Lexeme.endsWord_space : EndsWord ' ' := by
  unfold EndsWord
  decide

theorem Lexeme.eq_false_of_isBlank {p : Char → Bool} {d : Char}
    (hp : [' ', '\t', '\r', '\n', '\x0c'].any p = false) (hd : isBlank d = true) : p d = false := by
  refine Bool.eq_false_iff.mpr fun hpd => ?_
  rw [isBlank_eq_false hp hpd] at hd
  cases hd

/-- A blank fits behind every token that does not begin with a slash. -/
theorem Token.Kind.fits_blank {d : Char} (hd : Lexeme.isBlank d = true) (hslash : kind ≠ .slash)
    (hregex : kind ≠ .regex) : kind.Fits d := by
  have hne : ∀ c, Lexeme.isBlank c = false → d ≠ c := by
    rintro c hc rfl
    rw [hd] at hc
    cases hc
  have hpart : Lexeme.isIdentifierPart d = false := Lexeme.eq_false_of_isBlank (by decide) hd
  cases kind
  case identifier => exact hpart
  case number => exact ⟨hpart, hne '.' rfl, hne '+' rfl, hne '-' rfl⟩
  case dot => exact ⟨hne '.' rfl, Lexeme.eq_false_of_isBlank (by decide) hd⟩
  case equals => exact hne '>' rfl
  case slash => exact absurd rfl hslash
  case regex => exact absurd rfl hregex
  all_goals trivial

/-- Neither words nor numbers contain spaces. -/
theorem Lexeme.Rule.noSpace (h : Rule allowed c cs (.token kind (c :: cs)))
    (hkind : kind = .identifier ∨ kind = .number) : ' ' ∉ c :: cs := by
  intro hmem
  have hc : c ≠ ' ' := by
    rintro rfl
    have hread := h.read_eq
    rw [read_blank (by decide)] at hread
    cases hread
  obtain ⟨u, v, rfl⟩ := List.append_of_mem (List.mem_of_ne_of_mem hc.symm hmem)
  have hlonger : ∀ {w : List Char}, w.length ≤ u.length → c :: (u ++ ' ' :: v) ≠ c :: w := by
    intro w hw heq
    have hlen := congrArg List.length heq
    simp only [List.length_cons, List.length_append] at hlen
    omega
  generalize hcs : u ++ ' ' :: v = cs at h
  generalize htext : c :: cs = text at h
  rw [← hcs] at htext
  cases h with
  | word _ =>
    rw [← hcs, takeWhile_append_stop endsWord_space.1] at htext
    exact hlonger ((takes_takeWhile _).front u).length_le htext
  | number _ =>
    rw [← hcs, ← List.cons_append, number_append endsWord_space] at htext
    have hlen := (takes_number.front (c :: u)).length_le
    rw [← htext, List.length_append, List.length_cons, List.length_cons] at hlen
    omega
  | fraction _ _ =>
    rw [← hcs, pointDigits_append endsWord_space] at htext
    exact hlonger (takes_pointDigits.front u).length_le htext
  | mark _ => exact hlonger (Nat.zero_le _) htext
  | _ => simp at hkind

end Texts

/-! ## Pieces that can be told apart -/

namespace Piece

/-- The character that comes next in a text of pieces, if there is one, satisfies `p`. -/
def Next (p : Char → Prop) (ps : List Piece) : Prop := ∀ d, (render ps).head? = some d → p d

/-- The tokens begin with those that pieces are, and `r` is behind them. -/
def Spells : List Piece → List Token → List Token → Prop
  | [], ts, r => ts = r
  | space :: ps, ts, r => Spells ps ts r
  | token kind text :: ps, ts, r =>
    ∃ t us, ts = t :: us ∧ t.kind = kind ∧ t.text = text ∧ Spells ps us r

/-- The kinds of the tokens that stand between words. -/
def marks : List Token.Kind :=
  [.openBrace, .closeBrace, .openParen, .closeParen, .openBracket, .closeBracket, .openAngle,
    .closeAngle, .semicolon, .comma, .colon, .question, .pipe, .ampersand, .equals, .arrow, .dot,
    .minus, .star]

theorem render_cons (piece : Piece) (ps : List Piece) :
    render (piece :: ps) = piece.text ++ render ps := List.flatMap_cons

theorem render_append (ps qs : List Piece) : render (ps ++ qs) = render ps ++ render qs :=
  List.flatMap_append

theorem render_spaces (n : Nat) : render (List.replicate n space) = List.replicate n ' ' := by
  induction n with
  | zero => rfl
  | succ n ih =>
    rw [List.replicate_succ, render_cons, ih]
    rfl

theorem spells_append {ps qs : List Piece} {ts r : List Token} :
    Spells (ps ++ qs) ts r ↔ ∃ us, Spells ps ts us ∧ Spells qs us r := by
  induction ps generalizing ts with
  | nil => simp [Spells]
  | cons p ps ih =>
    cases p with
    | space => exact ih
    | token kind text =>
      rw [List.cons_append]
      constructor
      · rintro ⟨t, us, rfl, hkind, htext, h⟩
        obtain ⟨vs, hps, hqs⟩ := ih.mp h
        exact ⟨vs, ⟨t, us, rfl, hkind, htext, hps⟩, hqs⟩
      · rintro ⟨vs, ⟨t, us, rfl, hkind, htext, hps⟩, hqs⟩
        exact ⟨t, us, rfl, hkind, htext, ih.mpr ⟨vs, hps, hqs⟩⟩

end Piece

open Piece

/-- Each of the pieces ends where the next begins, and no mark of library declarations comes
about. -/
inductive Legible : List Piece → Prop where
  | nil : Legible []
  | space {ps : List Piece} (hps : Legible ps) : Legible (space :: ps)
  | mark {kind : Token.Kind} {ps : List Piece} (hkind : kind ∈ marks) (hnext : Next kind.Fits ps)
      (hps : Legible ps) : Legible (Piece.mark kind :: ps)
  | word {text : String} {ps : List Piece} (htext : Token.isText .identifier text = true)
      (hnext : Next (fun d => Lexeme.isIdentifierPart d = false) ps)
      (hapart : Blanking.Opens text.toList → ¬ Blanking.Continues (render ps))
      (hps : Legible ps) : Legible (token .identifier text :: ps)
  | number {text : String} {ps : List Piece} (htext : Token.isText .number text = true)
      (hnext : Next Lexeme.EndsWord ps)
      (hapart : Blanking.Opens text.toList → ¬ Blanking.Continues (render ps))
      (hps : Legible ps) : Legible (token .number text :: ps)
  | string {text : String} {ps : List Piece} (htext : Token.isText .string text = true)
      (hmark : Blanking.hasMark text.toList = false) (hps : Legible ps) :
      Legible (token .string text :: ps)

/-- The text of a token in front of pieces that are scanned as they should be. -/
theorem scans_token {kind : Token.Kind} {text : String} {ps : List Piece}
    (htext : Token.isText kind text = true) (hslash : kind ≠ .slash) (hregex : kind ≠ .regex)
    (hnext : Next kind.Fits ps)
    (hps : ∀ previous offset, ∃ ts,
      Token.Scans previous offset (render ps) ts ∧ Spells ps ts [])
    (previous : Option Token) (offset : Nat) :
    ∃ ts, Token.Scans previous offset (render (token kind text :: ps)) ts ∧
      Spells (token kind text :: ps) ts [] := by
  obtain ⟨c, cs, hlist, hrule⟩ := Token.isText_eq_true.mp htext
  have hrule' := hrule.of_allowed hslash hregex (Token.regexAllowed previous)
  have hmore : Lexeme.Rule (Token.regexAllowed previous) c (cs ++ render ps)
      (.token kind (c :: cs)) := by
    cases hrender : render ps with
    | nil => rwa [List.append_nil]
    | cons d more => exact hrule'.append (hnext d (by rw [hrender]; rfl)) more
  obtain rfl : text = String.ofList (c :: cs) := by rw [← hlist, String.ofList_toList]
  obtain ⟨ts, hts, hspells⟩ := hps (some ⟨kind, String.ofList (c :: cs), offset⟩)
    (offset + byteLength (c :: cs))
  refine ⟨⟨kind, String.ofList (c :: cs), offset⟩ :: ts, ?_, ⟨_, ts, rfl, rfl, rfl, hspells⟩⟩
  rw [render_cons, Piece.text, hlist, List.cons_append]
  exact .token hmore hts

/-- The text of pieces that can be told apart is scanned as just these. -/
theorem Legible.scans {ps : List Piece} (h : Legible ps) (previous : Option Token)
    (offset : Nat) : ∃ ts, Token.Scans previous offset (render ps) ts ∧ Spells ps ts [] := by
  induction h generalizing previous offset with
  | nil => exact ⟨[], .done, rfl⟩
  | @space ps _ ih =>
    obtain ⟨ts, hts, hspells⟩ := ih previous (offset + 1)
    exact ⟨ts, hts.of_isBlank (by decide), hspells⟩
  | @mark kind ps hkind hnext _ ih =>
    have hmarks : ∀ kind ∈ marks, Token.isText kind kind.spelling = true ∧ kind ≠ .slash ∧
        kind ≠ .regex := by decide
    obtain ⟨htext, hslash, hregex⟩ := hmarks kind hkind
    exact scans_token htext hslash hregex hnext ih previous offset
  | word htext hnext _ _ ih =>
    exact scans_token htext (by decide) (by decide) hnext ih previous offset
  | number htext hnext _ _ ih =>
    exact scans_token htext (by decide) (by decide) hnext ih previous offset
  | string htext _ _ ih =>
    exact scans_token htext (by decide) (by decide) (fun _ _ => trivial) ih previous offset

/-- A string ends with a quotation mark. -/
theorem getLast?_of_quoted {quote : Char} {escaped : Bool} {cs text : List Char}
    (h : Lexeme.quoted quote escaped cs = some text) : text.getLast? = some quote := by
  induction cs generalizing escaped text with
  | nil => cases h
  | cons c cs ih =>
    have hrest : ∀ {b : Bool}, (Lexeme.quoted quote b cs).map (c :: ·) = some text →
        text.getLast? = some quote := by
      intro b h
      obtain ⟨rest, hrest, rfl⟩ := Option.map_eq_some_iff.mp h
      rw [List.getLast?_cons, ih hrest]
      rfl
    rw [Lexeme.quoted] at h
    split at h
    · cases h
    · split at h
      · exact hrest h
      · split at h
        · rename_i hc
          cases h
          rw [hc]
          rfl
        · exact hrest h

theorem getLast?_of_string {text : String} (h : Token.isText .string text = true) :
    ∃ quote, text.toList.getLast? = some quote ∧ (quote = '"' ∨ quote = '\'') := by
  obtain ⟨c, cs, hlist, hrule⟩ := Token.isText_eq_true.mp h
  refine ⟨c, ?_⟩
  rw [hlist]
  generalize htext : c :: cs = text' at hrule ⊢
  cases hrule with
  | string hc hrest =>
    refine ⟨?_, hc⟩
    rw [List.getLast?_cons, getLast?_of_quoted hrest]
    rfl
  | mark h => exact absurd rfl (Lexeme.punctuation_kind h).2.2.1

/-- No mark of library declarations comes about in the text of pieces that can be told apart. -/
theorem Legible.hasMark {ps : List Piece} (h : Legible ps) :
    Blanking.hasMark (render ps) = false := by
  induction h with
  | nil => rfl
  | space _ ih =>
    rw [render_cons]
    exact Blanking.hasMark_append_of_noFirst (by decide) ih
  | @mark kind _ hkind _ _ ih =>
    have hmarks : ∀ kind ∈ marks, (kind.spelling.toList.any fun c => c.toLower == 'd') = false := by
      decide
    rw [render_cons]
    exact Blanking.hasMark_append_of_noFirst (hmarks kind hkind) ih
  | word htext hnext hapart _ ih =>
    obtain ⟨c, cs, hlist, hrule⟩ := Token.isText_eq_true.mp htext
    have hletter := fun d hd => Lexeme.isAlpha_of_isIdentifierPart (hnext d hd)
    rw [render_cons]
    refine Blanking.hasMark_append_of_word ?_ ih hletter hapart
    rw [Piece.text, hlist]
    exact hrule.noSpace (.inl rfl)
  | number htext hnext hapart _ ih =>
    obtain ⟨c, cs, hlist, hrule⟩ := Token.isText_eq_true.mp htext
    have hletter := fun d hd => (hnext d hd).isAlpha
    rw [render_cons]
    refine Blanking.hasMark_append_of_word ?_ ih hletter hapart
    rw [Piece.text, hlist]
    exact hrule.noSpace (.inr rfl)
  | @string text _ htext hmark _ ih =>
    obtain ⟨quote, hlast, hquote⟩ := getLast?_of_string htext
    have hquote' : quote.toLower ∉ Blanking.mark := by
      rcases hquote with rfl | rfl <;> decide
    rw [render_cons]
    exact Blanking.hasMark_append_of_last hmark hlast hquote' ih

/-- Pieces that can be told apart are the tokens of their text. -/
theorem Legible.scan {ps : List Piece} (h : Legible ps) :
    ∃ ts, Token.scan (blankDeclarations (render ps)) = .ok ts ∧ Spells ps ts [] := by
  obtain ⟨ts, hts, hspells⟩ := h.scans none 0
  refine ⟨ts, ?_, hspells⟩
  rw [blankDeclarations, Blanking.blank_eq_self h.hasMark]
  exact Token.scan_eq_ok.mpr (Token.scanFrom_eq_ok.mpr hts)

/-! ## Spaces between pieces -/

namespace Piece

/-- Puts some spaces in front of each piece and some behind it. -/
def spread (front back : Piece → Nat) (ps : List Piece) : List Piece :=
  ps.flatMap fun p => List.replicate (front p) space ++ p :: List.replicate (back p) space

variable {front back : Piece → Nat} {q : Char → Prop} {ps : List Piece} {ts r : List Token}

theorem spread_cons (p : Piece) (ps : List Piece) : spread front back (p :: ps)
    = List.replicate (front p) space ++ p :: (List.replicate (back p) space
      ++ spread front back ps) := by
  rw [spread, List.flatMap_cons, List.append_assoc, List.cons_append]
  rfl

theorem spread_append (ps qs : List Piece) :
    spread front back (ps ++ qs) = spread front back ps ++ spread front back qs :=
  List.flatMap_append

/-- Pieces among which there is no room stay together. -/
theorem spread_eq_self (h : ∀ p ∈ ps, front p = 0 ∧ back p = 0) : spread front back ps = ps := by
  induction ps with
  | nil => rfl
  | cons p ps ih =>
    rw [List.forall_mem_cons] at h
    rw [spread_cons, h.1.1, h.1.2, ih h.2]
    rfl

theorem spells_spaces (n : Nat) : Spells (List.replicate n space ++ ps) ts r ↔ Spells ps ts r := by
  induction n with
  | zero => exact Iff.rfl
  | succ n ih => exact ih

theorem spells_spread : Spells (spread front back ps) ts r ↔ Spells ps ts r := by
  induction ps generalizing ts with
  | nil => exact Iff.rfl
  | cons p ps ih =>
    rw [spread_cons, spells_spaces]
    cases p with
    | space => exact (spells_spaces _).trans ih
    | token kind text =>
      have hrest : ∀ us, Spells (List.replicate (back (token kind text)) space
          ++ spread front back ps) us r ↔ Spells ps us r :=
        fun us => (spells_spaces _).trans ih
      simp only [Spells, hrest]

theorem Next.spaces (n : Nat) (hspace : q ' ') (h : Next q ps) :
    Next q (List.replicate n space ++ ps) := by
  cases n with
  | zero => exact h
  | succ n =>
    intro d hd
    cases hd
    exact hspace

theorem Next.spread (front back : Piece → Nat) (hspace : q ' ') (h : Next q ps) :
    Next q (spread front back ps) := by
  induction ps with
  | nil => exact h
  | cons p ps ih =>
    rw [spread_cons]
    refine .spaces _ hspace fun d hd => ?_
    unfold Next at h
    rw [render_cons] at h hd
    cases hp : p.text with
    | nil =>
      rw [hp, List.nil_append] at h hd
      exact Next.spaces _ hspace (ih h) d hd
    | cons c cs =>
      rw [hp, List.cons_append] at h hd
      exact h d hd

end Piece

theorem Legible.spaces {ps : List Piece} (n : Nat) (h : Legible ps) :
    Legible (List.replicate n Piece.space ++ ps) := by
  induction n with
  | zero => exact h
  | succ n ih => exact .space ih

/-- Pieces that can be told apart may be spread, unless a word ends with the first word of the
mark. -/
theorem Legible.spread {front back : Piece → Nat} {ps : List Piece} (h : Legible ps)
    (hwords : ∀ kind text, token kind text ∈ ps → kind = .string ∨ ¬ Blanking.Opens text.toList) :
    Legible (spread front back ps) := by
  induction h with
  | nil => exact .nil
  | space _ ih =>
    have hrest := ih fun kind text hmem => hwords kind text (List.mem_cons_of_mem _ hmem)
    rw [spread_cons]
    exact .spaces _ (.space (.spaces _ hrest))
  | @mark kind ps hkind hnext _ ih =>
    have hrest := ih fun kind text hmem => hwords kind text (List.mem_cons_of_mem _ hmem)
    have hmarks : ∀ kind ∈ marks, kind ≠ .slash ∧ kind ≠ .regex := by decide
    have hspace : kind.Fits ' ' :=
      Token.Kind.fits_blank (by decide) (hmarks kind hkind).1 (hmarks kind hkind).2
    rw [spread_cons]
    exact .spaces _ (.mark hkind (.spaces _ hspace (.spread _ _ hspace hnext)) (.spaces _ hrest))
  | @word text ps htext hnext _ _ ih =>
    have hrest := ih fun kind text hmem => hwords kind text (List.mem_cons_of_mem _ hmem)
    have hopens : ¬ Blanking.Opens text.toList :=
      (hwords .identifier text List.mem_cons_self).resolve_left (by decide)
    have hspace : Lexeme.isIdentifierPart ' ' = false := Lexeme.endsWord_space.1
    have hnext' := (hnext.spread front back hspace).spaces
      (back (token .identifier text)) hspace
    rw [spread_cons]
    exact .spaces _ (.word htext hnext' (fun h => absurd h hopens) (.spaces _ hrest))
  | @number text ps htext hnext _ _ ih =>
    have hrest := ih fun kind text hmem => hwords kind text (List.mem_cons_of_mem _ hmem)
    have hopens : ¬ Blanking.Opens text.toList :=
      (hwords .number text List.mem_cons_self).resolve_left (by decide)
    have hnext' := (hnext.spread front back Lexeme.endsWord_space).spaces
      (back (token .number text)) Lexeme.endsWord_space
    rw [spread_cons]
    exact .spaces _ (.number htext hnext' (fun h => absurd h hopens) (.spaces _ hrest))
  | string htext hmark _ ih =>
    have hrest := ih fun kind text hmem => hwords kind text (List.mem_cons_of_mem _ hmem)
    rw [spread_cons]
    exact .spaces _ (.string htext hmark (.spaces _ hrest))

end AliasCheck
