import AliasCheck.Proofs.Linewise
import AliasCheck.Proofs.Overwriting
import AliasCheck.Proofs.ShiftedPrograms
import Mathlib.Data.List.Infix

/-!
# Comments and library declarations

Library declarations are overwritten before a source is cut into tokens, so what looks like one may
also stand in a comment. As long as nothing is overwritten there but the comment itself, the source
has the same tokens afterwards, and neither its comments nor its blanks have any effect: it is the
same program as its tokens, each on a line of its own. A mark in front of the end of a block comment
is different, as it takes the end of the comment and the code behind it with it.
-/

namespace AliasCheck

namespace Token

open Blanking

variable {previous : Option Token} {offset : Nat} {cs u v : List Char} {t : Token}
  {tokens : List Token}

/-! ## Gaps -/

/-- What stands between tokens still does when it is overwritten, except for ends of comments. -/
theorem Gap.overwritten {after gap : List Char} (hgap : Gap after gap)
    (hmarks : ∀ a b, gap = a ++ b → startsWithMark (b ++ after) = true →
      ¬ ['*', '/'] <:+: line (b ++ after)) :
    ∃ gap', Gap (Blanking.blank false after) gap' ∧ byteLength gap' = byteLength gap ∧
      Blanking.blank false (gap ++ after) = gap' ++ Blanking.blank false after := by
  induction hgap with
  | nil => exact ⟨[], .nil, rfl, rfl⟩
  | @blank c gap hc _ ih =>
    obtain ⟨gap', hgap', hlen, hblank⟩ :=
      ih fun a b hab => hmarks (c :: a) b (congrArg (c :: ·) hab)
    refine ⟨c :: gap', .blank hc hgap', ?_, ?_⟩
    · rw [byteLength_cons, byteLength_cons, hlen]
    · rw [List.cons_append, blank_of_noMark (noMark_of_isBlank hc), hblank, List.cons_append]
  | @lineComment body gap hbody hend _ ih =>
    obtain ⟨gap', hgap', hlen, hblank⟩ := ih fun a b hab =>
      hmarks ('/' :: '/' :: (body ++ a)) b (by rw [hab]; simp)
    obtain ⟨body', hbody', hlen', hblank'⟩ := blank_line hbody hend false
    refine ⟨'/' :: '/' :: (body' ++ gap'), .lineComment hbody' ?_ hgap', ?_, ?_⟩
    · intro d hd
      rw [← hblank] at hd
      cases hrest : gap ++ after with
      | nil =>
        rw [hrest] at hd
        cases hd
      | cons e rest =>
        rw [hrest] at hd
        cases hend e (by rw [hrest]; rfl)
        exact (Option.some.inj hd).symm
    · simp only [byteLength_cons, byteLength_append, hlen, hlen']
    · simp only [List.cons_append, List.append_assoc]
      rw [blank_of_noMark (noMark_slash _), blank_of_noMark (noMark_slash _), hblank', hblank]
  | @blockComment body gap hbody _ ih =>
    obtain ⟨gap', hgap', hlen, hblank⟩ := ih fun a b hab =>
      hmarks ('/' :: '*' :: (body ++ ('*' :: '/' :: a))) b (by rw [hab]; simp)
    obtain ⟨body', hbody', hlen', hblank'⟩ := blank_comment false hbody
      (fun h => absurd h Bool.false_ne_true) fun a b hab => by
        have hclose := hmarks ('/' :: '*' :: a) (b ++ '*' :: '/' :: gap) (by rw [hab]; simp)
        simpa using hclose
    refine ⟨'/' :: '*' :: (body' ++ ('*' :: '/' :: gap')), .blockComment hbody' hgap', ?_, ?_⟩
    · simp only [byteLength_cons, byteLength_append, hlen, hlen']
    · simp only [List.cons_append, List.append_assoc]
      rw [blank_of_noMark (noMark_slash _), blank_of_noMark (noMark_star _), hblank', hblank]

theorem Scans.of_gap {after gap : List Char} (hgap : Gap after gap)
    (h : Scans previous (offset + byteLength gap) after tokens) :
    Scans previous offset (gap ++ after) tokens := by
  induction hgap generalizing offset with
  | nil => exact h
  | @blank c gap hc _ ih =>
    rw [byteLength_cons, ← Nat.add_assoc] at h
    exact (ih h).of_isBlank hc
  | @lineComment body gap hbody hend _ ih =>
    have hrest :
        Scans previous (offset + byteLength ('/' :: '/' :: body)) (gap ++ after) tokens := by
      refine ih ?_
      rw [Nat.add_assoc, ← byteLength_append]
      exact h
    -- The comment goes on to the end of its line, and so does what the rule takes.
    have htake : (body ++ (gap ++ after)).takeWhile (· ≠ '\n') = body := by
      have hstop : (gap ++ after).takeWhile (· ≠ '\n') = [] := by
        cases hrest : gap ++ after with
        | nil => rfl
        | cons d rest =>
          cases hend d (by rw [hrest]; rfl)
          rfl
      rw [List.takeWhile_append_of_pos, hstop, List.append_nil]
      exact fun c hc => decide_eq_true fun hline => hbody (hline ▸ hc)
    have hrule : Lexeme.Rule (regexAllowed previous) '/' ('/' :: body ++ (gap ++ after))
        (.blank ('/' :: '/' :: body)) := by
      have hrule := @Lexeme.Rule.lineComment (regexAllowed previous) (body ++ (gap ++ after))
      rwa [htake] at hrule
    have hscans := Scans.blank hrule hrest
    simpa using hscans
  | @blockComment body gap hbody _ ih =>
    have hrest : Scans previous (offset + byteLength ('/' :: '*' :: (body ++ ['*', '/'])))
        (gap ++ after) tokens := by
      refine ih ?_
      rw [Nat.add_assoc, ← byteLength_append]
      simpa using h
    have hclose : Lexeme.comment ((body ++ ['*', '/']) ++ (gap ++ after))
        = some (body ++ ['*', '/']) :=
      Lexeme.comment_eq_some.mpr ⟨body, gap ++ after, rfl, rfl, hbody⟩
    have hrule : Lexeme.Rule (regexAllowed previous) '/'
        ('*' :: (body ++ ['*', '/']) ++ (gap ++ after))
        (.blank ('/' :: '*' :: (body ++ ['*', '/']))) := .blockComment hclose
    have hscans := Scans.blank hrule hrest
    simpa using hscans

/-! ## Overwriting a text -/

/-- Where a mark begins in the text `cs`, which begins at `offset`, what is overwritten belongs to
no token and contains no end of a block comment. -/
def MarksApart (offset : Nat) (cs : List Char) (tokens : List Token) : Prop :=
  ∀ before marked, cs = before ++ marked → startsWithMark marked = true →
    ¬ ['*', '/'] <:+: line marked ∧
    ∀ t ∈ tokens, t.stop ≤ offset + byteLength before ∨
      offset + byteLength before + byteLength (line marked) ≤ t.start

theorem marksApart_iff : MarksApart offset cs tokens ↔
    ∀ n < cs.length + 1, startsWithMark (cs.drop n) = true →
      ¬ ['*', '/'] <:+: line (cs.drop n) ∧
      ∀ t ∈ tokens, t.stop ≤ offset + byteLength (cs.take n) ∨
        offset + byteLength (cs.take n) + byteLength (line (cs.drop n)) ≤ t.start := by
  constructor
  · intro h n _ hmark
    exact h (cs.take n) (cs.drop n) (List.take_append_drop n cs).symm hmark
  · intro h before marked hcs hmark
    have hn := h before.length (by rw [hcs, List.length_append]; omega)
    rw [hcs, List.take_left, List.drop_left] at hn
    exact hn hmark

instance : Decidable (MarksApart offset cs tokens) := decidable_of_iff _ marksApart_iff.symm

theorem MarksApart.drop (h : MarksApart offset (u ++ v) tokens) :
    MarksApart (offset + byteLength u) v tokens := by
  intro before marked hv hmark
  have hwhole := h (u ++ before) marked (by rw [hv, List.append_assoc]) hmark
  rwa [byteLength_append, ← Nat.add_assoc] at hwhole

theorem MarksApart.tail (h : MarksApart offset cs (t :: tokens)) : MarksApart offset cs tokens := by
  intro before marked hcs hmark
  obtain ⟨hclose, hapart⟩ := h before marked hcs hmark
  exact ⟨hclose, fun u hu => hapart u (List.mem_cons_of_mem _ hu)⟩

theorem byteLength_line_pos (h : startsWithMark cs = true) : 0 < byteLength (line cs) := by
  cases cs with
  | nil => cases h
  | cons c cs =>
    have hline : c ≠ '\n' := by
      rintro rfl
      exact absurd (toLower_of_startsWithMark h) (by decide)
    have hc := c.utf8Size_pos
    rw [line, List.takeWhile_cons_of_pos (by simpa using hline), byteLength_cons]
    omega

theorem MarksApart.noMark {w : List Char} (h : MarksApart offset (u ++ (v ++ w)) tokens)
    (ht : t ∈ tokens) (hstart : t.start = offset + byteLength u) (htext : t.text.toList = v)
    {a b : List Char} (hab : v = a ++ b) (hb : b ≠ []) : startsWithMark (b ++ w) = false := by
  refine Bool.eq_false_iff.mpr fun hmark => ?_
  have hsplit : u ++ (v ++ w) = (u ++ a) ++ (b ++ w) := by
    rw [hab, List.append_assoc, List.append_assoc]
  have hapart := (h _ _ hsplit hmark).2 t ht
  have hlen : 0 < byteLength b := by
    cases b with
    | nil => exact absurd rfl hb
    | cons c b =>
      have hc := c.utf8Size_pos
      rw [byteLength_cons]
      omega
  have hpos := byteLength_line_pos hmark
  rw [byteLength_append, stop, htext, hab, byteLength_append] at hapart
  omega

/-- When the marks of a text stand apart from its tokens, it has the same tokens at the same places
once it is overwritten. -/
theorem Scans.overwritten (h : Scans previous offset cs tokens)
    (hmarks : MarksApart offset cs tokens) :
    Scans previous offset (Blanking.blank false cs) tokens := by
  induction h with
  | done => exact .done
  | @blank previous offset c tail rest tokens hrule hrest ih =>
    rw [← List.cons_append] at hmarks ⊢
    obtain ⟨gap', hgap', hlen, hblank⟩ := (Gap.of_rule hrule).overwritten fun a b hab hmark =>
      (hmarks a (b ++ rest) (by rw [hab, List.append_assoc]) hmark).1
    rw [hblank]
    refine .of_gap hgap' ?_
    rw [hlen]
    exact ih hmarks.drop
  | @token previous offset kind c tail rest tokens hrule hrest ih =>
    have htext : (⟨kind, String.ofList (c :: tail), offset⟩ : Token).text.toList = c :: tail :=
      String.toList_ofList
    rw [← List.cons_append] at hmarks ⊢
    have hblank := blank_append_of_noMark (u := c :: tail) (v := rest) fun a b hab hb =>
      MarksApart.noMark (u := []) hmarks List.mem_cons_self rfl htext hab hb
    rw [hblank, List.cons_append]
    exact .token hrule.blank (ih hmarks.drop.tail)

theorem MarksApart.hasMark_text (h : MarksApart offset cs tokens) (htiles : Tiles offset cs tokens)
    (ht : t ∈ tokens) : hasMark t.text.toList = false := by
  obtain ⟨-, -, before, after, rfl, hstart⟩ := htiles.stands ht
  refine Bool.eq_false_iff.mpr fun hmark => ?_
  obtain ⟨a, b, hab, hb⟩ := exists_mark hmark
  have hne : b ≠ [] := by
    rintro rfl
    cases hb
  have hnoMark := h.noMark ht hstart rfl hab hne
  rw [startsWithMark_append_of_mark hb after] at hnoMark
  cases hnoMark

theorem hasMark_linewise (h : ∀ t ∈ tokens, hasMark t.text.toList = false) :
    hasMark (linewise tokens) = false := by
  induction tokens with
  | nil => rfl
  | cons t tokens ih =>
    rw [List.forall_mem_cons] at h
    rw [linewise_cons]
    split
    · rw [List.append_nil]
      exact h.1
    · exact hasMark_append_newline h.1 (ih h.2)

end Token

/-! ## Programs -/

section Programs

variable {ts us : List Token} {p : Program}

theorem exists_move (hnodup : ts.Nodup) (h : ts.map Token.content = us.map Token.content) :
    ∃ move : Token → Token, (∀ t, (move t).kind = t.kind ∧ (move t).text = t.text) ∧
      ts.map move = us := by
  induction ts generalizing us with
  | nil =>
    cases List.map_eq_nil_iff.mp h.symm
    exact ⟨id, fun t => ⟨rfl, rfl⟩, rfl⟩
  | cons t ts ih =>
    obtain ⟨u, us, rfl, hu, hus⟩ := List.map_eq_cons_iff.mp h.symm
    rw [List.nodup_cons] at hnodup
    obtain ⟨move, hmove, hmap⟩ := ih hnodup.2 hus.symm
    -- The first token stands nowhere else in the list, so moving it moves no other.
    refine ⟨fun v => if v = t then u else move v, fun v => ?_, ?_⟩
    · dsimp only
      by_cases hv : v = t
      · rw [if_pos hv, hv]
        exact Prod.mk.inj hu
      · rw [if_neg hv]
        exact hmove v
    · rw [List.map_cons, if_pos rfl]
      have hrest : ts.map (fun v => if v = t then u else move v) = ts.map move := by
        refine List.map_congr_left fun v hv => if_neg ?_
        rintro rfl
        exact hnodup.1 hv
      rw [hrest, hmap]

/-- Only the kinds and the texts of the tokens make a program. -/
theorem Runs.of_content (hnodup : ts.Nodup) (h : ts.map Token.content = us.map Token.content)
    (hp : Runs ts p) : Runs us p := by
  obtain ⟨move, hmove, hmap⟩ := exists_move hnodup h
  rw [← hmap]
  exact hp.map (fun t => (hmove t).1) fun t => (hmove t).2

theorem Runs.iff_of_content (hts : ts.Nodup) (hus : us.Nodup)
    (h : ts.map Token.content = us.map Token.content) : Runs ts p ↔ Runs us p :=
  ⟨Runs.of_content hts h, Runs.of_content hus h.symm⟩

end Programs

theorem Token.Tiles.nodup {offset : Nat} {cs : List Char} {tokens : List Token}
    (h : Token.Tiles offset cs tokens) : tokens.Nodup := by
  refine h.ordered.imp_of_mem fun {t u} ht _ hle => ?_
  rintro rfl
  have hlt := (h.stands ht).1
  omega

namespace Program

open Blanking Token

/-- Comments and blanks have no effect when nothing is overwritten but what they hold: a source is
the same program as its tokens, each on a line of its own, or neither is a program. -/
theorem parse_linewise {source : String} {tokens : List Token}
    (hscan : scan source.toList = .ok tokens) (hmarks : MarksApart 0 source.toList tokens)
    (p : Program) : parse source = .ok p ↔ parse (String.ofList (linewise tokens)) = .ok p := by
  have hscans := scanFrom_eq_ok.mp (scan_eq_ok.mp hscan)
  have hsource : scan (blankDeclarations source.toList) = .ok tokens :=
    scan_eq_ok.mpr (scanFrom_eq_ok.mpr (hscans.overwritten hmarks))
  obtain ⟨again, hagain, hcontent⟩ := hscans.linewise rfl 0
  have hlines : scan (blankDeclarations (String.ofList (linewise tokens)).toList) = .ok again := by
    rw [String.toList_ofList, blankDeclarations, blank_eq_self]
    · exact scan_eq_ok.mpr (scanFrom_eq_ok.mpr hagain)
    · exact hasMark_linewise fun t ht => hmarks.hasMark_text hscans.tiles ht
  rw [parse_eq_ok hsource, parse_eq_ok hlines]
  exact Runs.iff_of_content hscans.tiles.nodup hagain.tiles.nodup hcontent.symm

/-- Two comments of this source contain marks of library declarations; neither of them matters. -/
theorem parse_linewise_example :
    ∃ source tokens program,
      source = "// declare export a\ntype A = /* is\ndeclare export b\n*/ string" ∧
      scan source.toList = .ok tokens ∧ MarksApart 0 source.toList tokens ∧
      parse source = .ok program ∧ program.declarations.map Alias.name = ["A"] ∧
      parse (String.ofList (linewise tokens)) = .ok program := by
  generalize hsource :
    "// declare export a\ntype A = /* is\ndeclare export b\n*/ string" = source
  have hapart : (scan source.toList).map (fun tokens =>
      decide (MarksApart 0 source.toList tokens)) = .ok true := by
    subst hsource
    decide +kernel
  have hnames : (parse source).map (fun p => p.declarations.map Alias.name) = .ok ["A"] := by
    subst hsource
    decide +kernel
  obtain ⟨tokens, hscan, hmarks⟩ := map_eq_ok.mp hapart
  obtain ⟨program, hparse, haliases⟩ := map_eq_ok.mp hnames
  have hmarks := of_decide_eq_true hmarks
  have hlines := (parse_linewise hscan hmarks program).mp hparse
  exact ⟨source, tokens, program, rfl, hscan, hmarks, hparse, haliases, hlines⟩

/-- Marks in comments do matter in general. Here the comment loses its end, and with it goes the
code behind it. -/
theorem not_parse_linewise : ¬ ∀ (source : String) (tokens : List Token),
    scan source.toList = .ok tokens →
    (∀ before t u after, tokens = before ++ t :: u :: after →
      ¬ (t.text.toList.map Char.toLower = "declare".toList ∧
        u.text.toList.map Char.toLower = "export".toList)) →
    (∀ t ∈ tokens, hasMark t.text.toList = false) →
    ∀ p, parse source = .ok p ↔ parse (String.ofList (linewise tokens)) = .ok p := by
  intro h
  have hfails : (parse "/* declare export */ type A = string;").toOption.isSome = false := by
    decide +kernel
  have htokens : (scan "/* declare export */ type A = string;".toList).map (fun tokens =>
      (decide (∀ t ∈ tokens, t.text.toList.map Char.toLower ≠ "declare".toList ∧
        hasMark t.text.toList = false),
      (parse (String.ofList (linewise tokens))).toOption.isSome)) = .ok (true, true) := by
    decide +kernel
  obtain ⟨tokens, hscan, hpair⟩ := map_eq_ok.mp htokens
  obtain ⟨hwords, hparses⟩ := Prod.mk.inj hpair
  have hwords := of_decide_eq_true hwords
  cases hlines : parse (String.ofList (linewise tokens)) with
  | error e =>
    rw [hlines] at hparses
    cases hparses
  | ok p =>
    have hsource := (h _ tokens hscan ?_ (fun t ht => (hwords t ht).2) p).mpr hlines
    · rw [hsource] at hfails
      cases hfails
    · rintro before t u after rfl ⟨hdeclare, -⟩
      exact (hwords t (by simp)).1 hdeclare

end Program

end AliasCheck
