import AliasCheck.Proofs.LegibleTerms
import AliasCheck.Proofs.Parts
import AliasCheck.Proofs.Readers

/-!
# Places of printed terms

What has to be known about the tokens behind a printed term depends on the place in which it
stands: the weaker a term may bind there, the more operators could go on with it. A term that binds
more strongly than its place needs is read there just as well. Names and the parameters of functions
come here too, since a name goes on at a point, and a parameter without a name must not look like
one that has a name.
-/

namespace AliasCheck

open Grammar Piece

/-! ## Places -/

/-- No term goes on with the tokens `r` in a place that needs this strength. -/
structure Follows (need : Nat) (r : List Token) : Prop where
  dot : startsWith .dot r = false
  openAngle : startsWith .openAngle r = false
  arrow : startsWith .arrow r = false
  openBracket : need ≤ 2 → startsWith .openBracket r = false
  ampersand : need ≤ 1 → startsWith .ampersand r = false
  bar : need = 0 → unionBar? r = none

/-- A term is read in a place that needs this strength. Where array brackets may follow, they are
counted as part of what follows. -/
def ReadsAt : (need : Nat) → List Token → TypeTerm → List Token → Prop
  | 0, ts, t, r => Reads .term ts t r
  | 1, ts, t, r => Reads .conjunct ts t r
  | 2, ts, t, r => Reads .operand ts t r
  | _, ts, t, r => ∃ x r', Reads .primary ts x r' ∧ arrays x r' = arrays t r

/-- The kinds of the tokens that might go on with a term in a place. -/
def Token.barred (need : Nat) : List Token.Kind :=
  [.dot, .openAngle, .arrow] ++ (if need ≤ 2 then [.openBracket] else [])
    ++ (if need ≤ 1 then [.ampersand] else []) ++ (if need = 0 then [.pipe] else [])

/-- The kinds of the tokens that a printed term can begin with. -/
def Token.beginners : List Token.Kind :=
  [.openBrace, .openBracket, .openParen, .string, .number, .minus, .identifier, .star, .question]

/-- A term is read in a place, and no operator stands in front of it. -/
structure Placed (need : Nat) (ts : List Token) (t : TypeTerm) (r : List Token) : Prop where
  begins : ∃ b ∈ Token.beginners, startsWith b ts = true
  reads : ReadsAt need ts t r

variable {need need' : Nat} {ts r : List Token} {t : TypeTerm}

theorem Follows.mono (h : Follows need r) (hle : need ≤ need') : Follows need' r where
  dot := h.dot
  openAngle := h.openAngle
  arrow := h.arrow
  openBracket := fun hneed => h.openBracket (by omega)
  ampersand := fun hneed => h.ampersand (by omega)
  bar := fun hneed => h.bar (by omega)

theorem unionBar?_eq_none (h : startsWith .pipe r = false) : unionBar? r = none := by
  rw [unionBar?, eat?_eq_none.mpr h]
  rfl

theorem startsWith_ne {kind kind' : Token.Kind} (h : startsWith kind ts = true)
    (hne : kind ≠ kind') : startsWith kind' ts = false := by
  obtain ⟨t, us, rfl, rfl⟩ := startsWith_eq_true.mp h
  exact beq_eq_false_iff_ne.mpr hne

/-- A token that is of one kind is of no other. -/
theorem startsWith_cons_ne {u : Token} {kind kind' : Token.Kind} (h : u.kind = kind)
    (hne : kind ≠ kind') (ts : List Token) : startsWith kind' (u :: ts) = false :=
  startsWith_ne (beq_iff_eq.mpr h) hne

/-- A token ends a term unless its kind may go on with it. -/
theorem follows_of_notMem {kind : Token.Kind} (h : startsWith kind r = true)
    (hkind : kind ∉ Token.barred need) : Follows need r := by
  have hne : ∀ kind' ∈ Token.barred need, startsWith kind' r = false := by
    intro kind' hkind'
    refine startsWith_ne h ?_
    rintro rfl
    exact hkind hkind'
  refine ⟨hne _ ?_, hne _ ?_, hne _ ?_, fun hle => hne _ ?_, fun hle => hne _ ?_,
    fun hzero => unionBar?_eq_none (hne _ ?_)⟩
  all_goals simp [Token.barred, *]

theorem Placed.startsWith_eq_false (h : Placed need ts t r) {kind : Token.Kind}
    (hkind : kind ∉ Token.beginners) : startsWith kind ts = false := by
  obtain ⟨b, hb, hstart⟩ := h.begins
  refine startsWith_ne hstart ?_
  rintro rfl
  exact hkind hb

theorem skip_eq_self {kind : Token.Kind} (h : startsWith kind ts = false) : skip kind ts = ts := by
  rw [skip, eat?_eq_none.mpr h]
  rfl

/-- What no operator joins begins with no question mark. -/
theorem startsWith_question_of_primary {x : TypeTerm} (h : Reads .primary ts x r) :
    startsWith .question ts = false := by
  cases h
  case functionType ht _ =>
    rcases ht with ht | ht <;> exact startsWith_cons_ne ht (by decide) _
  all_goals
    rename_i ht
    simp_all

/-- A term is read in a place that needs less strength if what follows allows it. -/
theorem Placed.weaken (h : Placed (need + 1) ts t r) (hr : Follows need r) :
    Placed need ts t r := by
  refine ⟨h.begins, ?_⟩
  match need, h, hr with
  | 0, h, hr =>
    have hfirst : Reads .conjunct (skip .pipe ts) t r := by
      rw [skip_eq_self (h.startsWith_eq_false (by decide))]
      exact h.reads
    exact .term hfirst (.noMore (hr.bar rfl))
  | 1, h, hr =>
    have hfirst : Reads .operand (skip .ampersand ts) t r := by
      rw [skip_eq_self (h.startsWith_eq_false (by decide))]
      exact h.reads
    exact .conjunct hfirst (.noMore (eat?_eq_none.mpr (hr.ampersand (Nat.le_refl 1))))
  | 2, h, hr =>
    obtain ⟨x, r', hx, harrays⟩ := h.reads
    have hdone : arrays t r = (t, r) := by
      refine arrays_of_noBrackets t fun us hus => ?_
      have hbracket := eat?_eq_none.mpr (hr.openBracket (Nat.le_refl 2))
      rw [hus] at hbracket
      cases hbracket
    have hread := Reads.suffixed (startsWith_question_of_primary hx) hx
    rw [harrays, hdone] at hread
    exact hread
  | _ + 3, h, _ => exact h.reads

theorem Placed.mono (h : Placed need' ts t r) (hle : need ≤ need') (hr : Follows need r) :
    Placed need ts t r := by
  induction hle with
  | refl => exact h
  | step hle ih => exact ih (h.weaken (hr.mono hle))

/-- A term that no operator joins is read in every place. -/
theorem Placed.of_primary {u : Token} {kind : Token.Kind} (hu : u.kind = kind)
    (hkind : kind ∈ Token.beginners) (h : Reads .primary (u :: ts) t r) (hneed : need ≤ 3)
    (hr : Follows need r) : Placed need (u :: ts) t r := by
  have hbegins : startsWith kind (u :: ts) = true := beq_iff_eq.mpr hu
  have hplaced : Placed 3 (u :: ts) t r := ⟨⟨kind, hkind, hbegins⟩, t, r, h, rfl⟩
  exact hplaced.mono hneed hr

/-! ## Names and parameters -/

/-- The segments of a name are read behind its first one. -/
theorem segments_of_spells {more : List (List Char)} (name : List Char)
    (h : Spells (ofSegments more) ts r) (hr : startsWith .dot r = false) :
    segments (String.ofList name) ts
      = .ok (String.ofList (name ++ more.flatMap ('.' :: ·)), r) := by
  induction more generalizing name ts with
  | nil =>
    cases h
    rw [List.flatMap_nil, List.append_nil]
    exact segments_of_noDot _ hr
  | cons segment more ih =>
    obtain ⟨d, us, rfl, hd, -, n, vs, rfl, hn, hsegment, h⟩ := h
    have hjoin : String.ofList name ++ "." ++ n.text
        = String.ofList (name ++ '.' :: segment) := by
      rw [hsegment, ← String.toList_inj]
      simp
    rw [segments, if_neg (by simpa using hd), if_pos hn, hjoin, ih (name ++ '.' :: segment) h]
    simp

theorem qualifiedName_of_spells {name : String} (h : Spells (ofName name) ts r)
    (hr : startsWith .dot r = false) : ∃ t us first more, ts = t :: us ∧
      splitAt '.' name.toList = first :: more ∧ t.kind = .identifier ∧
      t.text = String.ofList first ∧ qualifiedName ts = .ok (name, r) := by
  rw [ofName] at h
  obtain ⟨first, more, hsplit⟩ := List.exists_cons_of_ne_nil (splitAt_ne_nil '.' name.toList)
  rw [hsplit] at h
  obtain ⟨t, us, rfl, hkind, htext, h⟩ := h
  refine ⟨t, us, first, more, rfl, hsplit, hkind, htext, ?_⟩
  refine bind_eq_ok.mpr ⟨(t.text, us), identifier_eq_ok.mpr ⟨t, hkind, rfl, rfl⟩, ?_⟩
  have hsegments := segments_of_spells first h hr
  rw [join_splitAt hsplit, String.ofList_toList, ← htext] at hsegments
  exact hsegments

/-- No further term is joined where something else than an operator comes next. -/
theorem eq_of_reads_more {joint : Joint} {xs : List TypeTerm} {kind : Token.Kind}
    (h : Reads (.more joint) ts xs r) (hkind : startsWith kind ts = true)
    (hne : kind ≠ .pipe ∧ kind ≠ .ampersand) : r = ts := by
  cases xs with
  | nil => exact (reads_more_nil.mp h).1
  | cons x xs =>
    obtain ⟨us, _, hnext, _⟩ := reads_more_cons.mp h
    have hstart : startsWith .pipe ts = true ∨ startsWith .ampersand ts = true := by
      cases joint with
      | union =>
        obtain ⟨t, ht, rfl⟩ := eat?_eq_some.mp (Option.filter_eq_some_iff.mp hnext).1
        exact .inl (beq_iff_eq.mpr ht)
      | intersection =>
        obtain ⟨t, ht, rfl⟩ := eat?_eq_some.mp hnext
        exact .inr (beq_iff_eq.mpr ht)
    rcases hstart with hstart | hstart
    · rw [startsWith_ne hkind hne.1] at hstart
      cases hstart
    · rw [startsWith_ne hkind hne.2] at hstart
      cases hstart

/-- A term that begins with a word begins with a term that no operator joins, and ends with it if
something else than an operator follows. -/
theorem primary_of_term {u : Token} {x : TypeTerm} (h : Reads .term (u :: ts) x r)
    (hu : u.kind ∉ [.pipe, .ampersand, .question]) :
    ∃ y r', Reads .primary (u :: ts) y r' ∧
      ∀ kind ∉ [.pipe, .ampersand, .openBracket], startsWith kind r' = true → r = r' := by
  simp only [List.mem_cons, List.not_mem_nil, or_false, not_or] at hu
  cases h with
  | term hfirst hrest =>
    rw [skip_eq_self (by simpa using hu.1)] at hfirst
    cases hfirst with
    | conjunct hfirst hinner =>
      rw [skip_eq_self (by simpa using hu.2.1)] at hfirst
      cases hfirst with
      | nullable ht _ => exact absurd ht hu.2.2
      | @suffixed _ r' y _ hy =>
        refine ⟨y, r', hy, fun kind hkind hstart => ?_⟩
        simp only [List.mem_cons, List.not_mem_nil, or_false, not_or] at hkind
        have harrays : arrays y r' = (y, r') := by
          refine arrays_of_noBrackets y fun us hus => ?_
          rw [eat?_eq_none.mpr (startsWith_ne hstart hkind.2.2)] at hus
          cases hus
        rw [harrays] at hinner
        cases eq_of_reads_more hinner hstart ⟨hkind.1, hkind.2.1⟩
        exact eq_of_reads_more hrest hstart ⟨hkind.1, hkind.2.1⟩

/-- A word on its own is a term unless a name or type arguments go on with it. -/
theorem eq_of_reads_word {u : Token} {x : TypeTerm} {kind : Token.Kind}
    (h : Reads .primary (u :: ts) x r) (hu : u.kind = .identifier)
    (hstart : startsWith kind ts = true) (hkind : kind ∉ [.identifier, .dot, .openAngle]) :
    r = ts := by
  simp only [List.mem_cons, List.not_mem_nil, or_false, not_or] at hkind
  have hname : ∀ {id : String} {us : List Token}, qualifiedName (u :: ts) = .ok (id, us) →
      us = ts := by
    intro id us hid
    have hsegments := segments_of_noDot u.text (startsWith_ne hstart hkind.2.1)
    obtain ⟨⟨name, vs⟩, hidentifier, hrest⟩ := bind_eq_ok.mp hid
    obtain ⟨v, -, rfl, heq⟩ := identifier_eq_ok.mp hidentifier
    cases heq
    cases hsegments.symm.trans hrest
    rfl
  cases h with
  | word _ _ => rfl
  | typeOf _ _ hid =>
    obtain ⟨⟨name, vs⟩, hidentifier, _⟩ := bind_eq_ok.mp hid
    obtain ⟨v, hv, -, rfl⟩ := identifier_eq_ok.mp hidentifier
    have hfalse := startsWith_ne hstart hkind.1
    rw [startsWith_cons, hv] at hfalse
    cases hfalse
  | named _ _ _ hid _ => exact hname hid
  | applied _ _ _ hid ho _ =>
    have hfalse := startsWith_ne hstart hkind.2.2
    rw [← hname hid, startsWith_cons, ho] at hfalse
    cases hfalse
  | functionType ht _ => simp [hu] at ht
  | _ => simp_all

/-- A term in a list of parameters is a parameter without a name. -/
theorem param_of_term {c : Token} {x : TypeTerm} (h : Reads .term ts x (c :: r))
    (hc : c.kind = .comma ∨ c.kind = .closeParen) : Reads .param ts x (c :: r) := by
  have hellipsis : startsWith .ellipsis ts = false := by
    rw [Bool.eq_false_iff]
    intro hstart
    obtain ⟨u, us, rfl, hu⟩ := startsWith_eq_true.mp hstart
    obtain ⟨y, r', hy, -⟩ := primary_of_term h (by rw [hu]; decide)
    cases hy <;> simp_all
  have hunnamed : ∀ us, eat? .identifier ts = some us →
      startsWith .colon us = false ∧ startsWith .question us = false := by
    intro us hus
    obtain ⟨u, hu, rfl⟩ := eat?_eq_some.mp hus
    obtain ⟨y, r', hy, hend⟩ := primary_of_term h (by rw [hu]; decide)
    have hfalse : ∀ kind ∈ [Token.Kind.colon, .question], startsWith kind us = false := by
      intro kind hkind
      rw [Bool.eq_false_iff]
      intro hstart
      simp only [List.mem_cons, List.not_mem_nil, or_false] at hkind
      cases eq_of_reads_word hy hu hstart (by rcases hkind with rfl | rfl <;> decide)
      cases hend kind (by rcases hkind with rfl | rfl <;> decide) hstart
      have hkind' := beq_iff_eq.mp hstart
      rcases hkind with rfl | rfl <;> rcases hc with hc | hc <;> cases hc.symm.trans hkind'
    exact ⟨hfalse _ (by decide), hfalse _ (by decide)⟩
  refine .param ?_
  rw [skip_eq_self hellipsis, skipParamName_eq_self hunnamed]
  exact h

/-- A list of terms is a list of parameters without names. -/
theorem params_of_terms {xs : List TypeTerm} (h : Reads (.items .paren .term) ts xs r) :
    Reads (.items .paren .param) ts xs r := by
  induction xs generalizing ts with
  | nil =>
    cases h with
    | noItems hc => exact .noItems hc
  | cons x xs ih =>
    cases h with
    | lastItem _ hclose hx hc => exact .lastItem rfl hclose (param_of_term hx (.inr hc)) hc
    | item _ hclose hx hc hxs => exact .item rfl hclose (param_of_term hx (.inl hc)) hc (ih hxs)

end AliasCheck
