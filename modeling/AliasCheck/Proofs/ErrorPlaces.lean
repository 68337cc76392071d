import AliasCheck.Proofs.BrokenText
import AliasCheck.Proofs.FoundTokens
import AliasCheck.Proofs.Overwriting

/-!
# The places of errors

An error is found in the text that is left when library declarations are overwritten, and its line
and column are counted there. Overwriting keeps bytes, so the offset of an error is that of the same
place in the source. It does not keep characters: for one of several bytes there are as many spaces,
and the rest of its line moves to the right. On such a line nothing but spaces is left, so no token
stands there and only the end of the text can. What is at fault then is counted in the wrong column.
-/

namespace AliasCheck

/-! ## Lines and columns -/

namespace Position

/-- The place behind a text without line feeds. -/
theorem foldl_advance {cs : List Char} (h : '\n' ∉ cs) (p : Position) :
    cs.foldl advance p = ⟨p.line, p.column + cs.length⟩ := by
  induction cs generalizing p with
  | nil => rfl
  | cons c cs ih =>
    rw [List.mem_cons, not_or] at h
    rw [List.foldl_cons, ih h.2, advance, if_neg (Ne.symm h.1), List.length_cons]
    simp only [Position.mk.injEq, true_and]
    omega

theorem foldl_advance_newline (before after : List Char) (p : Position) :
    (before ++ '\n' :: after).foldl advance p
      = after.foldl advance ⟨(before.foldl advance p).line + 1, 1⟩ := by
  rw [List.foldl_append, List.foldl_cons, advance, if_pos rfl]

/-- The position of a place whose text before it is known. -/
theorem ofOffset_append (before rest : List Char) :
    ofOffset (before ++ rest) (byteLength before) = before.foldl advance start := by
  rw [ofOffset, takeBytes_append]

end Position

namespace Blanking

open Position

variable {inside : Bool} {cs u v : List Char} {c d : Char}

theorem newline_not_mem_spaces (c : Char) : '\n' ∉ spaces c := by
  intro hmem
  exact absurd (List.eq_of_mem_replicate hmem) (by decide)

theorem foldl_advance_spaces (c : Char) (p : Position) :
    (spaces c).foldl advance p = ⟨p.line, p.column + c.utf8Size⟩ := by
  rw [foldl_advance (newline_not_mem_spaces c), spaces, List.length_replicate]

/-- Overwriting keeps lines. -/
theorem line_blank (inside : Bool) (cs : List Char) {p q : Position} (hline : p.line = q.line) :
    ((blank inside cs).foldl advance p).line = (cs.foldl advance q).line := by
  induction cs generalizing inside p q with
  | nil => exact hline
  | cons c cs ih =>
    rw [blank]
    split
    · rename_i hc
      refine ih false ?_
      rw [advance, advance, if_pos hc, if_pos hc, hline]
    · rename_i hc
      have hnext : (advance q c).line = q.line := by rw [advance, if_neg hc]
      split
      · rw [List.foldl_append, foldl_advance_spaces]
        exact ih true (hline.trans hnext.symm)
      · refine ih false ?_
        rw [hnext, advance, if_neg hc, hline]

theorem byteLength_blank (inside : Bool) (cs : List Char) :
    byteLength (blank inside cs) = byteLength cs := by
  induction cs generalizing inside with
  | nil => rfl
  | cons c cs ih =>
    rw [blank]
    split
    · rw [byteLength_cons, byteLength_cons, ih]
    · split
      · rw [byteLength_append, byteLength_spaces, byteLength_cons, ih]
      · rw [byteLength_cons, byteLength_cons, ih]

/-- What is not blank is not overwritten, and it stands at the same place as before: what is
overwritten on a line goes on to the end of the line. -/
theorem place_of_blank {p q : Position} (hd : Lexeme.isBlank d = false)
    (h : blank inside cs = u ++ d :: v) (hline : p.line = q.line)
    (hplace : inside = false → p = q) :
    ∃ before rest, cs = before ++ d :: rest ∧ blank false (d :: rest) = d :: v ∧
      byteLength before = byteLength u ∧ u.foldl advance p = before.foldl advance q := by
  have hspace : d ≠ ' ' := by
    rintro rfl
    cases hd
  induction cs generalizing inside u p q with
  | nil =>
    rw [blank] at h
    exact absurd h.symm (List.append_ne_nil_of_right_ne_nil u (List.cons_ne_nil d v))
  | cons c cs ih =>
    rw [blank] at h
    split at h
    · rename_i hc
      cases u with
      | nil =>
        cases h
        rw [hc] at hd
        cases hd
      | cons b u =>
        rw [List.cons_append, List.cons.injEq] at h
        obtain ⟨rfl, h⟩ := h
        have hnext : advance p c = advance q c := by
          rw [advance, advance, if_pos hc, if_pos hc, hline]
        have hnextLine := congrArg Position.line hnext
        obtain ⟨before, rest, rfl, hrest, hbytes, hends⟩ := ih h hnextLine fun _ => hnext
        exact ⟨c :: before, rest, rfl, hrest, congrArg (c.utf8Size + ·) hbytes, hends⟩
    · rename_i hc
      split at h
      · -- Of the spaces, none is the character that is looked for.
        have hbehind : ∃ u', u = spaces c ++ u' ∧ blank true cs = u' ++ d :: v := by
          rcases List.append_eq_append_iff.mp h with ⟨u', hu, hcs⟩ | ⟨within, hspaces, hrest⟩
          · exact ⟨u', hu, hcs⟩
          · cases within with
            | nil => exact ⟨[], by rw [hspaces, List.append_nil, List.append_nil], hrest.symm⟩
            | cons e within =>
              have hmem : e ∈ spaces c := by simp [hspaces]
              rw [← (List.cons.inj hrest).1] at hmem
              exact absurd (List.eq_of_mem_replicate hmem) hspace
        obtain ⟨u', rfl, hcs⟩ := hbehind
        have hnext : ((spaces c).foldl advance p).line = (advance q c).line := by
          rw [foldl_advance_spaces, advance, if_neg hc]
          exact hline
        obtain ⟨before, rest, rfl, hrest, hbytes, hends⟩ := ih hcs hnext fun htrue => by cases htrue
        refine ⟨c :: before, rest, rfl, hrest, ?_, ?_⟩
        · rw [byteLength_append, byteLength_spaces, byteLength_cons, hbytes]
        · rw [List.foldl_append, hends, List.foldl_cons]
      · rename_i hkept
        rw [Bool.not_eq_true, Bool.or_eq_false_iff] at hkept
        obtain ⟨rfl, hmark⟩ := hkept
        cases hplace rfl
        cases u with
        | nil =>
          cases h
          exact ⟨[], cs, rfl, blank_of_noMark hmark, rfl, rfl⟩
        | cons b u =>
          rw [List.cons_append, List.cons.injEq] at h
          obtain ⟨rfl, h⟩ := h
          obtain ⟨before, rest, rfl, hrest, hbytes, hends⟩ :=
            ih (p := advance p c) h rfl fun _ => rfl
          exact ⟨c :: before, rest, rfl, hrest, congrArg (c.utf8Size + ·) hbytes, hends⟩

/-! ## The end of the text -/

/-- A library declaration goes on to the end of the text, and there are characters of several bytes
in it. -/
def WideEnd (cs : List Char) : Prop :=
  ∃ before declaration, cs = before ++ declaration ∧ startsWithMark declaration = true ∧
    '\n' ∉ declaration ∧ ∃ c ∈ declaration, c.utf8Size ≠ 1

theorem blank_true (h : '\n' ∉ cs) : blank true cs = cs.flatMap spaces := by
  induction cs with
  | nil => rfl
  | cons c cs ih =>
    rw [List.mem_cons, not_or] at h
    rw [blank, if_neg (Ne.symm h.1), Bool.true_or, if_pos rfl, ih h.2, List.flatMap_cons]

/-- On a line, everything from the first mark is overwritten. -/
theorem blank_of_line (h : '\n' ∉ cs) : ∃ kept overwritten, cs = kept ++ overwritten ∧
    blank false cs = kept ++ overwritten.flatMap spaces ∧
    (overwritten = [] ∨ startsWithMark overwritten = true) ∧
    ∀ a b, cs = a ++ b → startsWithMark b = true → b <:+ overwritten := by
  induction cs with
  | nil =>
    refine ⟨[], [], rfl, rfl, .inl rfl, fun a b hab _ => ?_⟩
    obtain rfl := (List.append_eq_nil_iff.mp hab.symm).2
    exact List.suffix_rfl
  | cons c cs ih =>
    cases hmark : startsWithMark (c :: cs) with
    | true =>
      refine ⟨[], c :: cs, rfl, ?_, .inr hmark, fun a b hab _ => ⟨a, hab.symm⟩⟩
      rw [List.mem_cons, not_or] at h
      rw [blank_of_mark hmark, blank_true h.2, List.flatMap_cons, List.nil_append]
    | false =>
      rw [List.mem_cons, not_or] at h
      obtain ⟨kept, overwritten, hcs, hblank, hfirst, hmarks⟩ := ih h.2
      refine ⟨c :: kept, overwritten, congrArg (c :: ·) hcs, ?_, hfirst, fun a b hab hb => ?_⟩
      · rw [blank_of_noMark hmark, hblank, List.cons_append]
      · cases a with
        | nil =>
          rw [← List.nil_append b, ← hab, hmark] at hb
          cases hb
        | cons a as => exact hmarks as b (List.cons.inj hab).2 hb

theorem length_flatMap_spaces (cs : List Char) : (cs.flatMap spaces).length = byteLength cs := by
  induction cs with
  | nil => rfl
  | cons c cs ih =>
    rw [List.flatMap_cons, List.length_append, ih, spaces, List.length_replicate, byteLength_cons]

/-- The last line of a text, and what stands before it. -/
theorem exists_last_line (cs : List Char) : '\n' ∉ cs ∨
    ∃ lines last, cs = lines ++ '\n' :: last ∧ '\n' ∉ last := by
  by_cases h : '\n' ∈ cs
  · obtain ⟨last, lines, hsplit, hlast⟩ := List.eq_append_cons_of_mem (List.mem_reverse.mpr h)
    refine .inr ⟨lines.reverse, last.reverse, ?_, by simpa using hlast⟩
    simpa using congrArg List.reverse hsplit
  · exact .inl h

theorem wideEnd_newline {lines last : List Char} :
    WideEnd (lines ++ '\n' :: last) ↔ WideEnd last := by
  constructor
  · rintro ⟨before, declaration, hsplit, hmark, hline, hwide⟩
    rcases List.append_eq_append_iff.mp hsplit with ⟨between, -, hlast⟩ | ⟨between, -, hrest⟩
    · cases between with
      | nil =>
        rw [List.nil_append] at hlast
        exact absurd (by simp [← hlast]) hline
      | cons c between =>
        exact ⟨between, declaration, (List.cons.inj hlast).2, hmark, hline, hwide⟩
    · exact absurd (by simp [hrest]) hline
  · rintro ⟨before, declaration, rfl, hmark, hline, hwide⟩
    exact ⟨lines ++ '\n' :: before, declaration, by simp, hmark, hline, hwide⟩

theorem end_of_line (h : '\n' ∉ cs) (p : Position) :
    (blank false cs).foldl advance p = cs.foldl advance p ↔ ¬ WideEnd cs := by
  obtain ⟨kept, overwritten, rfl, hblank, hfirst, hmarks⟩ := blank_of_line h
  rw [List.mem_append, not_or] at h
  have hspaces : '\n' ∉ overwritten.flatMap spaces := by
    rw [List.mem_flatMap]
    rintro ⟨c, -, hmem⟩
    exact newline_not_mem_spaces c hmem
  rw [hblank, List.foldl_append, List.foldl_append, foldl_advance hspaces, foldl_advance h.2,
    length_flatMap_spaces, Position.mk.injEq]
  simp only [true_and, Nat.add_left_cancel_iff]
  rw [byteLength_eq_length]
  constructor
  · rintro hnarrow ⟨before, declaration, hsplit, hmark, -, c, hc, hwide⟩
    exact hwide (hnarrow c ((hmarks before declaration hsplit hmark).mem hc))
  · intro hnot c hc
    refine Decidable.byContradiction fun hwide => ?_
    rcases hfirst with rfl | hmark
    · cases hc
    · exact hnot ⟨kept, overwritten, rfl, hmark, h.2, c, hc, hwide⟩

/-- Where a text ends after overwriting. -/
theorem end_of_blank (cs : List Char) :
    (blank false cs).foldl advance start = cs.foldl advance start ↔ ¬ WideEnd cs := by
  rcases exists_last_line cs with hline | ⟨lines, last, rfl, hlast⟩
  · exact end_of_line hline start
  · rw [blank_append, foldl_advance_newline, foldl_advance_newline,
      line_blank false lines (p := start) rfl, wideEnd_newline]
    exact end_of_line hlast _

end Blanking

/-! ## What stands where an error is -/

/-- The text begins with what the fault is about; it is empty if that is the end of the source. -/
def SyntaxFault.ShowsIn : SyntaxFault → List Char → Prop
  | .unclosedComment, text => ['/', '*'] <+: text
  | .unclosedTemplate, text => ['`'] <+: text
  | .strayCharacter c, text => [c] <+: text
  | .unexpected _ (some found), text => found.toList <+: text
  | .unexpected _ none, text => text = []

section

variable {previous : Option Token} {offset : Nat} {text u v : List Char} {d : Char}
  {tokens : List Token} {fault : SyntaxFault}

theorem Lexeme.Obstacle.showsIn (h : Lexeme.Obstacle fault text) :
    fault.ShowsIn text ∧ ∃ c cs, text = c :: cs ∧ Lexeme.isBlank c = false := by
  cases h with
  | comment _ => exact ⟨⟨_, rfl⟩, _, _, rfl, rfl⟩
  | template _ => exact ⟨⟨_, rfl⟩, _, _, rfl, rfl⟩
  | string hquote _ =>
    refine ⟨⟨_, rfl⟩, _, _, rfl, ?_⟩
    rcases hquote with rfl | rfl <;> rfl
  | control _ hblank => exact ⟨⟨_, rfl⟩, _, _, rfl, hblank⟩

/-- Tokens do not begin with blanks. -/
theorem Token.Scans.first (h : Scans previous offset text tokens) {t : Token} (ht : t ∈ tokens) :
    ∃ c cs, t.text.toList = c :: cs ∧ Lexeme.isBlank c = false := by
  induction h with
  | done => cases ht
  | blank _ _ ih => exact ih ht
  | @token previous _ kind c tail rest _ hrule _ ih =>
    rcases List.mem_cons.mp ht with rfl | hlater
    · refine ⟨c, tail, String.toList_ofList, Bool.eq_false_iff.mpr fun hblank => ?_⟩
      have hread := hrule.read_eq
      rw [Lexeme.read_blank hblank] at hread
      cases hread
    · exact ih hlater

/-- An error at something that is not blank is at the same place in the source. -/
theorem Blanking.atOffset_of_blank (hd : Lexeme.isBlank d = false)
    (h : blankDeclarations text = u ++ d :: v) (hshows : fault.ShowsIn (d :: v)) :
    ∃ before rest, text = before ++ rest ∧ byteLength u = byteLength before ∧ rest ≠ [] ∧
      fault.ShowsIn (blankDeclarations rest) ∧
      Position.ofOffset (blankDeclarations text) (byteLength u)
        = Position.ofOffset text (byteLength u) := by
  obtain ⟨before, rest, rfl, hrest, hbytes, hends⟩ :=
    place_of_blank (p := Position.start) hd h rfl fun _ => rfl
  refine ⟨before, d :: rest, rfl, hbytes.symm, List.cons_ne_nil d rest, ?_, ?_⟩
  · rw [blankDeclarations, hrest]
    exact hshows
  · rw [h, Position.ofOffset_append, ← hbytes, Position.ofOffset_append, hends]

end

/-! ## Sources -/

namespace Program

variable {source : String} {e : SyntaxError}

theorem parse_eq_error (h : parse source = .error e) :
    Token.scan (blankDeclarations source.toList) = .error e ∨
      ∃ tokens u, Token.scan (blankDeclarations source.toList) = .ok tokens ∧
        ofTokens tokens = .error u ∧ e = errorIn (blankDeclarations source.toList) u := by
  rcases bind_eq_error h with hscan | ⟨tokens, hscan, hread⟩
  · exact .inl hscan
  · cases hprogram : ofTokens tokens with
    | ok p =>
      rw [hprogram] at hread
      cases hread
    | error u =>
      rw [hprogram] at hread
      cases hread
      exact .inr ⟨tokens, u, hscan, hprogram, rfl⟩

/-- An error is where its offset is in the source: there stands the character that no token begins
with, the token that should be another one, or the end of the text. Line and column are those of
this place, with one exception: at the end of the text the column is wrong if characters of several
bytes have been overwritten there. -/
theorem place_of_error (h : parse source = .error e) :
    ∃ before rest, source.toList = before ++ rest ∧ e.offset = byteLength before ∧
      e.fault.ShowsIn (blankDeclarations rest) ∧
      (∀ expected found, e.fault = .unexpected expected (some found) →
        ∃ tokens kind, Token.scan (blankDeclarations source.toList) = .ok tokens ∧
          ⟨kind, found, e.offset⟩ ∈ tokens) ∧
      e.position.line = (Position.ofOffset source.toList e.offset).line ∧
      (e.position = Position.ofOffset source.toList e.offset ↔
        ¬ (rest = [] ∧ Blanking.WideEnd source.toList)) := by
  rcases parse_eq_error h with hscan | ⟨tokens, u, hscan, hread, rfl⟩
  · obtain ⟨pre, post, -, htext, -, hobstacle, hplace⟩ := Token.reaches_of_scan hscan
    obtain ⟨hshows, c, cs, rfl, hblank⟩ := hobstacle.showsIn
    obtain ⟨before, rest, hsource, hbytes, hrest, hfound, hposition⟩ :=
      Blanking.atOffset_of_blank hblank htext hshows
    rw [hplace]
    refine ⟨before, rest, hsource, hbytes, hfound, ?_, congrArg Position.line hposition, ?_⟩
    · intro expected found hfault
      change e.fault = _ at hfault
      rw [hfault] at hobstacle
      cases hobstacle
    · exact iff_of_true hposition fun hend => hrest hend.1
  · have hstops := Grammar.stops_program tokens.length tokens
    rw [show Grammar.program tokens.length tokens = _ from hread] at hstops
    obtain ⟨r, hr, hfound⟩ := hstops
    obtain ⟨expected, found⟩ := u
    dsimp only at hfound
    cases found with
    | some t =>
      have ht : t ∈ tokens := hr.mem (List.mem_of_mem_head? hfound.symm)
      have hscans := Token.scanFrom_eq_ok.mp (Token.scan_eq_ok.mp hscan)
      obtain ⟨c, cs, htext, hblank⟩ := hscans.first ht
      obtain ⟨-, -, pre, post, hplace, hstart⟩ := hscans.tiles.stands ht
      rw [Nat.zero_add] at hstart
      rw [htext, List.cons_append] at hplace
      have hshows : SyntaxFault.ShowsIn (.unexpected expected (some t.text)) (c :: (cs ++ post)) :=
        ⟨post, by rw [htext, List.cons_append]⟩
      obtain ⟨before, rest, hsource, hbytes, hrest, hat, hposition⟩ :=
        Blanking.atOffset_of_blank hblank hplace hshows
      simp only [errorIn, SyntaxError.atOffset]
      rw [hstart, hposition]
      refine ⟨before, rest, hsource, hbytes, hat, ?_, rfl, ?_⟩
      · rintro _ _ ⟨⟩
        exact ⟨tokens, t.kind, hscan, hstart ▸ ht⟩
      · exact iff_of_true rfl fun hend => hrest hend.1
    | none =>
      have hbytes := Blanking.byteLength_blank false source.toList
      have hblanked := Position.ofOffset_append (blankDeclarations source.toList) []
      have hwhole := Position.ofOffset_append source.toList []
      rw [List.append_nil] at hblanked hwhole
      simp only [errorIn, SyntaxError.atOffset]
      rw [hblanked]
      refine ⟨source.toList, [], (List.append_nil _).symm, hbytes, rfl, nofun, ?_, ?_⟩
      · rw [blankDeclarations, hbytes, hwhole]
        exact Blanking.line_blank false source.toList rfl
      · rw [blankDeclarations, hbytes, hwhole, Blanking.end_of_blank]
        simp

/-- Characters of several bytes that are overwritten on a line of their own do no harm. -/
theorem place_of_error_example :
    ∃ source e before rest, source = "declare export \u00e4\u20ac\n/* \u00e4 */ type A = ;" ∧
      parse source = .error e ∧ source.toList = before ++ rest ∧ e.offset = byteLength before ∧
      e.fault = .unexpected .typeTerm (some ";") ∧ e.fault.ShowsIn (blankDeclarations rest) ∧
      e.offset = 39 ∧ e.position = Position.ofOffset source.toList 39 ∧ e.position = ⟨2, 18⟩ := by
  generalize hsource : "declare export \u00e4\u20ac\n/* \u00e4 */ type A = ;" = source
  have herror : (match parse source with
      | .ok _ => none
      | .error e => some e) = some ⟨.unexpected .typeTerm (some ";"), 39, ⟨2, 18⟩⟩ := by
    subst hsource
    decide +kernel
  cases hparse : parse source with
  | ok p =>
    rw [hparse] at herror
    cases herror
  | error e =>
    rw [hparse] at herror
    cases herror
    obtain ⟨before, rest, hsplit, hoffset, hshows, -, -, hposition⟩ := place_of_error hparse
    have hrest : rest ≠ [] := by
      rintro rfl
      exact absurd (List.prefix_nil.mp hshows) (by decide)
    exact ⟨source, _, before, rest, rfl, hparse, hsplit, hoffset, rfl, hshows, rfl,
      hposition.mpr fun hend => hrest hend.1, rfl⟩

/-- The source of this error ends in a character of two bytes that is overwritten, and the column of
the error is that of a place one character further on. -/
theorem not_place_of_error : ¬ ∀ (source : String) (e : SyntaxError), parse source = .error e →
    e.position = Position.ofOffset source.toList e.offset := by
  intro h
  have herror : (match parse "type A =\ndeclare export \u00e9" with
      | .ok _ => none
      | .error e => some e) = some ⟨.unexpected .typeTerm none, 26, ⟨2, 18⟩⟩ := by
    decide +kernel
  cases hparse : parse "type A =\ndeclare export \u00e9" with
  | ok p =>
    rw [hparse] at herror
    cases herror
  | error e =>
    rw [hparse] at herror
    cases herror
    exact absurd (h _ _ hparse) (by decide +kernel)

end Program

end AliasCheck
