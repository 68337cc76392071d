import AliasCheck.Proofs.Places
import AliasCheck.Proofs.Statements

/-!
# Reading printed terms

The tokens of a printed term are read as the term, by induction on the term. It is enough to look at
every term in the place for its own strength: in other places it is either strong enough or stands
in parentheses. So a declaration whose right side is a printed term declares the term.
-/

namespace AliasCheck

open Grammar Piece

variable {short : List Nat → Bool} {path : List Nat} {i need need' : Nat} {ts r : List Token}
  {t : TypeTerm} {ps : List Piece}

/-- Pieces are read as a term in a place that needs this strength, if nothing that follows goes on
with it. -/
def ReadAs (need : Nat) (ps : List Piece) (t : TypeTerm) : Prop :=
  ∀ ts r, Spells ps ts r → Follows need r → Placed need ts t r

theorem ReadAs.mono (h : ReadAs need' ps t) (hle : need ≤ need') : ReadAs need ps t :=
  fun ts r hspells hr => (h ts r hspells (hr.mono hle)).mono hle hr

/-- In parentheses a term is read in every place. -/
theorem ReadAs.parens (h : ReadAs 0 ps t) (hneed : need ≤ 3) :
    ReadAs need (mark .openParen :: (ps ++ [mark .closeParen])) t := by
  rintro _ r ⟨o, us, rfl, ho, -, hspells⟩ hr
  obtain ⟨vs, hinner, c, ws, rfl, hc, -, rfl⟩ := spells_append.mp hspells
  have hclose : Follows 0 (c :: ws) := follows_of_notMem (beq_iff_eq.mpr hc) (by decide)
  have hgroup := Reads.group ho (h us _ hinner hclose).reads hc hr.arrow
  exact .of_primary ho (by decide) hgroup hneed hr

/-- A printed term is read where nothing that follows goes on with it. -/
def TypeTerm.Readable (short : List Nat → Bool) (t : TypeTerm) : Prop :=
  ∀ path, ReadAs t.strength (t.pieces short path) t

/-- A printed term, in parentheses where that is necessary, is read in every place. -/
theorem TypeTerm.Readable.enclosed (ht : t.Readable short) (hneed : need ≤ 3) :
    ReadAs need (t.enclose need (t.pieces short path)) t := by
  unfold TypeTerm.enclose
  split
  · exact ((ht path).mono (Nat.zero_le _)).parens hneed
  · rename_i hstrong
    exact (ht path).mono (Nat.le_of_not_lt hstrong)

/-- A printed term is read as a whole. -/
theorem TypeTerm.Readable.whole (ht : t.Readable short) : ReadAs 0 (t.pieces short path) t :=
  (ht path).mono (Nat.zero_le _)

/-! ## Lists of terms -/

/-- A separator is a token of this kind, whatever spaces are around it. -/
def Separates (kind : Token.Kind) (separator : List Piece) : Prop :=
  ∀ ps ts r, Spells (separator ++ ps) ts r → Spells (mark kind :: ps) ts r

theorem separates_mark (kind : Token.Kind) : Separates kind [mark kind] := fun _ _ _ h => h

variable {separator : List Piece} {pss : List (List Piece)} {x : TypeTerm} {xs : List TypeTerm}

/-- What stands behind a separator is the token of the separator and the rest. -/
theorem Separates.spells_behind {kind : Token.Kind} (hseparator : Separates kind separator)
    (h : Spells (behind separator (ps :: pss)) ts r) :
    ∃ d us, ts = d :: us ∧ d.kind = kind ∧ Spells (ps ++ behind separator pss) us r := by
  rw [behind_cons] at h
  obtain ⟨d, us, hts, hd, -, hrest⟩ := hseparator _ _ _ h
  exact ⟨d, us, hts, hd, hrest⟩

/-- The pieces of printed terms in a list are such that each is read as its term. -/
theorem listPieces_eq_behind (kind : Token.Kind) (hneed : need ≤ 3)
    (hxs : ∀ x ∈ xs, x.Readable short) :
    ∃ pss, TypeTerm.listPieces short path kind need i xs = behind [mark kind] pss ∧
      List.Forall₂ (ReadAs need) pss xs := by
  induction xs generalizing i with
  | nil => exact ⟨[], rfl, .nil⟩
  | cons x xs ih =>
    rw [List.forall_mem_cons] at hxs
    obtain ⟨pss, hpss, hread⟩ := ih (i := i + 1) hxs.2
    refine ⟨x.enclose need (x.pieces short (i :: path)) :: pss, ?_,
      .cons (hxs.1.enclosed hneed) hread⟩
    rw [TypeTerm.listPieces, hpss, behind_cons]
    rfl

/-- Terms between brackets are read as a list. -/
theorem reads_items (b : Bracket) (hseparator : Separates .comma separator) {c : Token}
    (hx : ReadAs 0 ps x) (hxs : List.Forall₂ (ReadAs 0) pss xs)
    (h : Spells (ps ++ behind separator pss) ts (c :: r)) (hc : c.kind = b.closer) :
    Reads (.items b .term) ts (x :: xs) r := by
  have hclosers : b.closer ∉ Token.beginners := by cases b <;> decide
  obtain ⟨us, hfirst, hrest⟩ := spells_append.mp h
  induction hxs generalizing ps x ts us with
  | nil =>
    cases hrest
    have hclose : Follows 0 (c :: r) :=
      follows_of_notMem (beq_iff_eq.mpr hc) (by cases b <;> decide)
    have hplaced := hx ts _ hfirst hclose
    exact .lastItem rfl (hplaced.startsWith_eq_false hclosers) hplaced.reads hc
  | cons hy _ ih =>
    obtain ⟨d, vs, rfl, hd, hrest⟩ := hseparator.spells_behind hrest
    have hcomma : Follows 0 (d :: vs) := follows_of_notMem (beq_iff_eq.mpr hd) (by decide)
    have hplaced := hx ts _ hfirst hcomma
    obtain ⟨ws, hnext, hmore⟩ := spells_append.mp hrest
    exact .item rfl (hplaced.startsWith_eq_false hclosers) hplaced.reads hd
      (ih hy hrest ws hnext hmore)

/-- Printed terms between brackets are read as a list. -/
theorem reads_listPieces (b : Bracket) {c : Token} (hxs : ∀ x ∈ xs, x.Readable short)
    (h : Spells ((TypeTerm.listPieces short path .comma 0 i xs).drop 1) ts (c :: r))
    (hc : c.kind = b.closer) : Reads (.items b .term) ts xs r := by
  cases xs with
  | nil =>
    cases h
    exact .noItems hc
  | cons x xs =>
    rw [List.forall_mem_cons] at hxs
    obtain ⟨pss, hpss, hread⟩ := listPieces_eq_behind .comma (Nat.zero_le 3) hxs.2
    have hfirst : ReadAs 0 (x.enclose 0 (x.pieces short (i :: path))) x :=
      hxs.1.enclosed (Nat.zero_le 3)
    rw [TypeTerm.listPieces, hpss] at h
    exact reads_items b (separates_mark .comma) hfirst hread h hc

/-- The strength that the terms of a joint need. -/
def Joint.strength : Joint → Nat
  | union => 1
  | intersection => 2

theorem Joint.strength_le (joint : Joint) : joint.strength ≤ 3 := by
  cases joint <;> decide

/-- Terms behind operators are read as further terms. -/
theorem reads_more (joint : Joint) (hseparator : Separates joint.operator separator)
    (hxs : List.Forall₂ (ReadAs joint.strength) pss xs) (h : Spells (behind separator pss) ts r)
    (hend : joint.next? r = none) (hr : Follows joint.strength r) :
    Reads (.more joint) ts xs r ∧ Follows joint.strength ts := by
  induction hxs generalizing ts with
  | nil =>
    cases h
    exact ⟨.noMore hend, hr⟩
  | cons hx _ ih =>
    obtain ⟨d, us, rfl, hd, h⟩ := hseparator.spells_behind h
    obtain ⟨vs, hfirst, hrest⟩ := spells_append.mp h
    obtain ⟨hmore, hfollows⟩ := ih hrest
    have hplaced := hx us vs hfirst hfollows
    refine ⟨?_, follows_of_notMem (beq_iff_eq.mpr hd) (by cases joint <;> decide)⟩
    cases joint with
    | union =>
      have hpipe : d.kind = .pipe := hd
      have hnext : unionBar? (d :: us) = some us := by
        rw [unionBar?, eat?_cons hpipe, Option.filter_some,
          hplaced.startsWith_eq_false (by decide)]
        rfl
      exact .moreUnion hnext hplaced.reads hmore
    | intersection => exact .moreIntersection (eat?_cons hd us) hplaced.reads hmore

/-- Terms with operators between them are read as the term that they amount to. -/
theorem placed_join (joint : Joint) (hseparator : Separates joint.operator separator)
    (hx : ReadAs joint.strength ps x) (hxs : List.Forall₂ (ReadAs joint.strength) pss xs)
    (h : Spells (ps ++ behind separator pss) ts r) (hend : joint.next? r = none)
    (hr : Follows joint.strength r) : Placed (joint.strength - 1) ts (joint.join x xs) r := by
  obtain ⟨us, hfirst, hrest⟩ := spells_append.mp h
  obtain ⟨hmore, hfollows⟩ := reads_more joint hseparator hxs hrest hend hr
  have hplaced := hx ts us hfirst hfollows
  refine ⟨hplaced.begins, ?_⟩
  cases joint with
  | union =>
    have hread : Reads .conjunct (skip .pipe ts) x us := by
      rw [skip_eq_self (hplaced.startsWith_eq_false (by decide))]
      exact hplaced.reads
    exact .term hread hmore
  | intersection =>
    have hread : Reads .operand (skip .ampersand ts) x us := by
      rw [skip_eq_self (hplaced.startsWith_eq_false (by decide))]
      exact hplaced.reads
    exact .conjunct hread hmore

/-- Printed terms with operators between them are read as the term that they amount to. -/
theorem placed_listPieces (joint : Joint) (hx : x.Readable short)
    (hxs : ∀ x ∈ xs, x.Readable short)
    (h : Spells ((TypeTerm.listPieces short path joint.operator joint.strength i (x :: xs)).drop 1)
      ts r)
    (hend : joint.next? r = none) (hr : Follows joint.strength r) :
    Placed (joint.strength - 1) ts (joint.join x xs) r := by
  obtain ⟨pss, hpss, hread⟩ := listPieces_eq_behind joint.operator joint.strength_le hxs
  have hfirst : ReadAs joint.strength (x.enclose joint.strength (x.pieces short (i :: path))) x :=
    hx.enclosed joint.strength_le
  rw [TypeTerm.listPieces, hpss] at h
  exact placed_join joint (separates_mark _) hfirst hread h hend hr

/-! ## Members -/

/-- The end of an object type stands at the beginning of the tokens. -/
theorem objectEnd_of_spells {exact : Bool} (h : Spells (bar exact ++ [mark .closeBrace]) ts r) :
    objectEnd? exact ts = some r ∧ Follows 0 ts ∧ memberEnd exact ts = .ok ts := by
  have hkind : objectEnd? exact ts = some r ∧ Follows 0 ts ∧
      startsWith .semicolon ts = false ∧ startsWith .comma ts = false := by
    cases exact with
    | false =>
      obtain ⟨c, us, rfl, hc, -, rfl⟩ := h
      exact ⟨eat?_cons hc us, follows_of_notMem (beq_iff_eq.mpr hc) (by decide),
        startsWith_cons_ne hc (by decide) _, startsWith_cons_ne hc (by decide) _⟩
    | true =>
      obtain ⟨p, us, rfl, hp, -, c, vs, rfl, hc, -, rfl⟩ := h
      have hend : objectEnd? true (p :: c :: vs) = some vs := by
        rw [objectEnd?, if_pos rfl, eat?_cons hp, Option.bind_some, eat?_cons hc]
      have hbar : unionBar? (p :: c :: vs) = none := by
        rw [unionBar?, eat?_cons hp, Option.filter_some, startsWith_cons, hc]
        rfl
      have hother : Follows 1 (p :: c :: vs) := follows_of_notMem (beq_iff_eq.mpr hp) (by decide)
      have hfollows : Follows 0 (p :: c :: vs) :=
        ⟨hother.dot, hother.openAngle, hother.arrow, fun _ => hother.openBracket (by decide),
          fun _ => hother.ampersand (by decide), fun _ => hbar⟩
      exact ⟨hend, hfollows, startsWith_cons_ne hp (by decide) _,
        startsWith_cons_ne hp (by decide) _⟩
  obtain ⟨hend, hfollows, hsemicolon, hcomma⟩ := hkind
  refine ⟨hend, hfollows, ?_⟩
  rw [memberEnd, eat?_eq_none.mpr hsemicolon, eat?_eq_none.mpr hcomma, hend]

/-- The kinds of the tokens that are keys. -/
def Token.keyKinds : List Token.Kind := [.identifier, .number, .string]

/-- Pieces are read as a member of an object type. -/
def ReadAsMember (ps : List Piece) (m : Member) : Prop :=
  ∀ ts r, Spells ps ts r → Follows 0 r →
    Reads .member ts (some m) r ∧ ∃ kind ∈ Token.keyKinds, startsWith kind ts = true

/-- A key with the type of its property behind a colon is read as a member. -/
theorem readAsMember {kind : Token.Kind} {text key : String} {colon : List Piece}
    {optional : Bool} (hkind : kind ∈ Token.keyKinds)
    (hkey : ∀ k : Token, k.kind = kind → k.text = text → key? k = some key)
    (hcolon : Separates .colon colon) (ht : ReadAs 0 ps t) :
    ReadAsMember (token kind text :: ((if optional then [mark .question] else [])
      ++ (colon ++ ps))) ⟨key, t, optional⟩ := by
  rintro _ r ⟨k, us, rfl, hk, htext, h⟩ hr
  have hkinds : ∀ kind ∈ Token.keyKinds, kind ≠ .plus ∧ kind ≠ .minus ∧
      kind ∉ [.ellipsis, .openBracket, .openParen, .openAngle] := by decide
  obtain ⟨hplus, hminus, hmember⟩ := hkinds kind hkind
  have hvariance : skipVariance (k :: us) = k :: us := by
    rw [skipVariance, eat?_eq_none.mpr (startsWith_cons_ne hk hplus us)]
    exact skip_eq_self (startsWith_cons_ne hk hminus us)
  rw [← hk] at hmember
  refine ⟨?_, kind, hkind, beq_iff_eq.mpr hk⟩
  cases optional with
  | false =>
    obtain ⟨c, vs, rfl, hc, -, hvalue⟩ := hcolon _ _ _ h
    have hx := (ht vs r hvalue hr).reads
    have hquestion : startsWith .question (c :: vs) = false := startsWith_cons_ne hc (by decide) vs
    have hread := Reads.property hmember hvariance (hkey k hk htext) (by simp [hc])
      (skip_eq_self hquestion) hc hx
    rw [hquestion] at hread
    exact hread
  | true =>
    obtain ⟨q, vs, rfl, hq, -, h⟩ := h
    obtain ⟨c, ws, rfl, hc, -, hvalue⟩ := hcolon _ _ _ h
    have hx := (ht ws r hvalue hr).reads
    have hskip : skip .question (q :: c :: ws) = c :: ws := by rw [skip, eat?_cons hq]; rfl
    have hread := Reads.property hmember hvariance (hkey k hk htext) (by simp [hq]) hskip hc hx
    rw [startsWith_cons, hq] at hread
    exact hread

/-- Pieces are read as the members of an object type up to its end. The members of an object type
that is not exact do not begin with a bar. -/
def ReadAsMembers (exact : Bool) (ps : List Piece) (ms : List Member) : Prop :=
  ∀ ts us r, Spells ps ts us → Spells (bar exact ++ [mark .closeBrace]) us r →
    Reads (.members exact) ts ms r ∧ (exact = false → startsWith .pipe ts = false)

theorem readAsMembers_nil (exact : Bool) : ReadAsMembers exact [] [] := by
  rintro ts _ r rfl hend
  refine ⟨.noMembers (objectEnd_of_spells hend).1, ?_⟩
  rintro rfl
  obtain ⟨c, us, rfl, hc, -⟩ := hend
  exact startsWith_cons_ne hc (by decide) us

/-- Members with separators between them are read up to the end of the object type. -/
theorem readAsMembers {exact : Bool} {kind : Token.Kind} {m : Member} {ms : List Member}
    (hkind : kind = .comma ∨ kind = .semicolon) (hseparator : Separates kind separator)
    (hm : ReadAsMember ps m) (hms : List.Forall₂ ReadAsMember pss ms) :
    ReadAsMembers exact (ps ++ behind separator pss) (m :: ms) := by
  intro ts us r h hend
  obtain ⟨hclose, hfollows, hmember⟩ := objectEnd_of_spells hend
  have hbegin : ∀ {ts : List Token}, (∃ kind ∈ Token.keyKinds, startsWith kind ts = true) →
      objectEnd? exact ts = none ∧ startsWith .pipe ts = false := by
    rintro ts ⟨kind, hkind, hstart⟩
    have hkinds : ∀ kind ∈ Token.keyKinds, kind ≠ .closeBrace ∧ kind ≠ .pipe := by decide
    have hbrace := eat?_eq_none.mpr (startsWith_ne hstart (hkinds kind hkind).1)
    have hpipe := startsWith_ne hstart (hkinds kind hkind).2
    refine ⟨?_, hpipe⟩
    cases exact with
    | false => exact hbrace
    | true => rw [objectEnd?, if_pos rfl, eat?_eq_none.mpr hpipe]; rfl
  induction hms generalizing ps m ts with
  | nil =>
    obtain ⟨vs, hfirst, hrest⟩ := spells_append.mp h
    cases hrest
    obtain ⟨hread, hkey⟩ := hm ts us hfirst hfollows
    exact ⟨.members (hbegin hkey).1 hread hmember (.noMembers hclose), fun _ => (hbegin hkey).2⟩
  | cons hn _ ih =>
    obtain ⟨vs, hfirst, hrest⟩ := spells_append.mp h
    obtain ⟨d, ws, rfl, hd, hrest⟩ := hseparator.spells_behind hrest
    have hfollows' : Follows 0 (d :: ws) := by
      refine follows_of_notMem (beq_iff_eq.mpr hd) ?_
      rcases hkind with rfl | rfl <;> decide
    have hnext : memberEnd exact (d :: ws) = .ok ws := by
      rcases hkind with rfl | rfl
      · rw [memberEnd, eat?_eq_none.mpr (startsWith_cons_ne hd (by decide) ws), eat?_cons hd]
      · rw [memberEnd, eat?_cons hd]
    obtain ⟨hread, hkey⟩ := hm ts _ hfirst hfollows'
    exact ⟨.members (hbegin hkey).1 hread hnext (ih hn ws hrest).1, fun _ => (hbegin hkey).2⟩

/-- The pieces of printed members in a list are such that each is read as its member. -/
theorem listPieces_eq_behind_comma {ms : List Member} (hms : ∀ m ∈ ms, m.value.Readable short) :
    ∃ pss, Member.listPieces short path i ms = behind [mark .comma] pss ∧
      List.Forall₂ ReadAsMember pss ms := by
  induction ms generalizing i with
  | nil => exact ⟨[], rfl, .nil⟩
  | cons m ms ih =>
    rw [List.forall_mem_cons] at hms
    obtain ⟨pss, hpss, hread⟩ := ih (i := i + 1) hms.2
    obtain ⟨key, value, optional⟩ := m
    have hkey : ∀ k : Token, k.kind = .string → k.text = quoteKey key → key? k = some key := by
      intro k hk htext
      simp only [key?, hk, htext, (string_quoteKey key).2]
    refine ⟨Member.pieces short (i :: path) ⟨key, value, optional⟩ :: pss, ?_, .cons ?_ hread⟩
    · rw [Member.listPieces, hpss, behind_cons]
      rfl
    · exact readAsMember (by decide) hkey (separates_mark .colon) hms.1.whole

/-- Printed members are read up to the end of the object type. -/
theorem readAsMembers_listPieces (exact : Bool) {ms : List Member}
    (hms : ∀ m ∈ ms, m.value.Readable short) :
    ReadAsMembers exact ((Member.listPieces short path i ms).drop 1) ms := by
  obtain ⟨pss, hpss, hread⟩ : ∃ pss, Member.listPieces short path i ms
      = behind [mark .comma] pss ∧ List.Forall₂ ReadAsMember pss ms :=
    listPieces_eq_behind_comma hms
  rw [hpss]
  cases hread with
  | nil => exact readAsMembers_nil exact
  | cons hm hrest =>
    rw [behind_cons]
    exact readAsMembers (.inl rfl) (separates_mark .comma) hm hrest

/-! ## Terms -/

theorem word?_eq_none {word : String} (h : word ∉ reserved) :
    word? word = none ∧ word ≠ "typeof" := by
  refine ⟨?_, ?_⟩
  · unfold word?
    split <;> first | rfl | exact absurd (by decide) h
  · rintro rfl
    exact absurd (by decide) h

/-- A name that can stand for a type is read as a name. -/
theorem typeName_of_spells {name : String} (hname : isTypeName name = true)
    (h : Spells (ofName name) ts r) (hr : startsWith .dot r = false) :
    ∃ t us, ts = t :: us ∧ t.kind = .identifier ∧ word? t.text = none ∧ t.text ≠ "typeof" ∧
      qualifiedName (t :: us) = .ok (name, r) := by
  obtain ⟨t, us, first, more, rfl, hsplit, hkind, htext, hread⟩ := qualifiedName_of_spells h hr
  rw [isTypeName, hsplit, Bool.and_eq_true, List.head?_cons, Option.any_some, ← htext,
    Bool.not_eq_true', List.contains_eq_mem, decide_eq_false_iff_not] at hname
  obtain ⟨hword, htypeof⟩ := word?_eq_none hname.2
  exact ⟨t, us, rfl, hkind, hword, htypeof, hread⟩

theorem placed_numeral {raw : String} (h : Spells (ofNumeral raw) ts r) (hr : Follows 3 r) :
    Placed 3 ts (.numberLiteral raw) r := by
  unfold ofNumeral at h
  split at h
  · rename_i digits heq
    obtain ⟨m, us, rfl, hm, -, n, vs, rfl, hn, htext, rfl⟩ := h
    have hraw : "-" ++ n.text = raw := by
      rw [htext, ← String.toList_inj, heq]
      simp
    rw [← hraw]
    exact .of_primary hm (by decide) (.negativeLiteral hm hn) (Nat.le_refl 3) hr
  · obtain ⟨n, us, rfl, hn, rfl, rfl⟩ := h
    exact .of_primary hn (by decide) (.numberLiteral hn) (Nat.le_refl 3) hr

/-- Only an exact object type has a bar behind its brace. -/
theorem reads_object {exact : Bool} {ms : List Member} {o : Token}
    (hms : ReadAsMembers exact ps ms) (ho : o.kind = .openBrace)
    (h : Spells (bar exact ++ (ps ++ (bar exact ++ [mark .closeBrace]))) ts r) :
    Reads .primary (o :: ts) (.object ms exact) r := by
  obtain ⟨us, hbar, h⟩ := spells_append.mp h
  obtain ⟨vs, hmembers, hend⟩ := spells_append.mp h
  obtain ⟨hread, hpipe⟩ := hms us vs r hmembers hend
  have hstart : startsWith .pipe ts = exact ∧ skip .pipe ts = us := by
    cases exact with
    | true =>
      obtain ⟨p, ws, rfl, hp, -, rfl⟩ := hbar
      exact ⟨beq_iff_eq.mpr hp, by rw [skip, eat?_cons hp]; rfl⟩
    | false =>
      cases hbar
      exact ⟨hpipe rfl, skip_eq_self (hpipe rfl)⟩
  have hinside : Reads (.members (startsWith .pipe ts)) (skip .pipe ts) ms r := by
    rw [hstart.1, hstart.2]
    exact hread
  have hobject := Reads.object ho hinside
  rw [hstart.1] at hobject
  exact hobject

variable (short)

mutual

/-- Every term that can be written is read where nothing that follows goes on with it. -/
theorem TypeTerm.readable (t : TypeTerm) (ht : t.isPrintable = true) : t.Readable short := by
  intro path ts r h hr
  match t with
  | .object members exact =>
    rw [TypeTerm.isPrintable] at ht
    rw [TypeTerm.pieces] at h
    obtain ⟨o, us, rfl, ho, -, h⟩ := h
    have hmembers : ReadAsMembers exact ((Member.listPieces short path 0 members).drop 1) members :=
      readAsMembers_listPieces exact (Member.readableAll members ht)
    have hread := reads_object hmembers ho h
    exact .of_primary ho (by decide) hread (Nat.le_refl 3) hr
  | .named name =>
    rw [TypeTerm.isPrintable] at ht
    rw [TypeTerm.pieces] at h
    obtain ⟨u, us, rfl, hu, hword, htypeof, hid⟩ := typeName_of_spells ht h hr.dot
    have hread := Reads.named hu hword htypeof hid hr.openAngle
    exact .of_primary hu (by decide) hread (Nat.le_refl 3) hr
  | .applied name args =>
    rw [TypeTerm.isPrintable, Bool.and_eq_true] at ht
    rw [TypeTerm.pieces] at h
    have hargs := TypeTerm.readableAll args ht.2
    split at h
    · rename_i hshort
      obtain ⟨-, rfl, hlen⟩ := hshort
      obtain ⟨x, rfl⟩ := List.length_eq_one_iff.mp hlen
      obtain ⟨us, hx, o, vs, rfl, ho, -, c, ws, rfl, hc, -, rfl⟩ := spells_append.mp h
      obtain ⟨us, hx, rfl⟩ := spells_append.mp hx
      -- The element type is read with the brackets behind it, which then make the array type of it.
      have hbrackets : Follows 3 (o :: c :: ws) :=
        follows_of_notMem (beq_iff_eq.mpr ho) (by decide)
      have hplaced := (hargs x List.mem_cons_self).enclosed (Nat.le_refl 3) _ _ hx hbrackets
      obtain ⟨y, r', hy, harrays⟩ := hplaced.reads
      rw [arrays, if_pos ⟨ho, hc⟩] at harrays
      exact ⟨hplaced.begins, y, r', hy, harrays⟩
    · obtain ⟨us, hname, o, vs, rfl, ho, -, h⟩ := spells_append.mp h
      obtain ⟨ws, hitems, c, zs, rfl, hc, -, rfl⟩ := spells_append.mp h
      have hdot : startsWith .dot (o :: vs) = false := startsWith_cons_ne ho (by decide) vs
      obtain ⟨u, us, rfl, hu, hword, htypeof, hid⟩ := typeName_of_spells ht.1 hname hdot
      have hread := Reads.applied hu hword htypeof hid ho (reads_listPieces .angle hargs hitems hc)
      exact .of_primary hu (by decide) hread (Nat.le_refl 3) hr
  | .nullable inner =>
    rw [TypeTerm.isPrintable] at ht
    rw [TypeTerm.pieces] at h
    obtain ⟨q, us, rfl, hq, -, h⟩ := h
    have hinner := (TypeTerm.readable inner ht).enclosed (by decide) _ _ h hr
    exact ⟨⟨.question, by decide, beq_iff_eq.mpr hq⟩, .nullable hq hinner.reads⟩
  | .stringLiteral value raw =>
    rw [TypeTerm.isPrintable, Bool.and_eq_true, Bool.and_eq_true, beq_iff_eq] at ht
    rw [TypeTerm.pieces] at h
    obtain ⟨u, us, rfl, hu, rfl, rfl⟩ := h
    rw [ht.1.2]
    exact .of_primary hu (by decide) (.stringLiteral hu) (Nat.le_refl _) hr
  | .numberLiteral raw =>
    rw [TypeTerm.pieces] at h
    exact placed_numeral h hr
  | .booleanLiteral value =>
    rw [TypeTerm.pieces] at h
    obtain ⟨u, us, rfl, hu, htext, rfl⟩ := h
    have hword : word? u.text = some (.booleanLiteral value) := by
      rw [htext]
      cases value <;> rfl
    have hread : Reads .primary (u :: us) _ us := .word hu hword
    exact .of_primary hu (by decide) hread (Nat.le_refl 3) hr
  | .keyword word =>
    rw [TypeTerm.pieces] at h
    obtain ⟨u, us, rfl, hu, htext, rfl⟩ := h
    have hword : word? u.text = some (.keyword word) := by
      rw [htext]
      cases word <;> rfl
    have hread : Reads .primary (u :: us) _ us := .word hu hword
    exact .of_primary hu (by decide) hread (Nat.le_refl 3) hr
  | .union members =>
    rw [TypeTerm.isPrintable, Bool.and_eq_true, decide_eq_true_eq] at ht
    rw [TypeTerm.pieces] at h
    have hmembers := TypeTerm.readableAll members ht.2
    match members, ht, hmembers, h with
    | x :: y :: zs, _, hmembers, h =>
      rw [List.forall_mem_cons] at hmembers
      exact placed_listPieces .union hmembers.1 hmembers.2 h (hr.bar rfl) (hr.mono (Nat.zero_le _))
  | .intersection members =>
    rw [TypeTerm.isPrintable, Bool.and_eq_true, decide_eq_true_eq] at ht
    rw [TypeTerm.pieces] at h
    have hmembers := TypeTerm.readableAll members ht.2
    match members, ht, hmembers, h with
    | x :: y :: zs, _, hmembers, h =>
      rw [List.forall_mem_cons] at hmembers
      have hend := eat?_eq_none.mpr (hr.ampersand (Nat.le_refl 1))
      exact placed_listPieces .intersection hmembers.1 hmembers.2 h hend (hr.mono (Nat.le_succ 1))
  | .tuple items =>
    rw [TypeTerm.isPrintable] at ht
    rw [TypeTerm.pieces] at h
    obtain ⟨o, us, rfl, ho, -, h⟩ := h
    obtain ⟨vs, hitems, c, ws, rfl, hc, -, rfl⟩ := spells_append.mp h
    have hread := Reads.tuple ho
      (reads_listPieces .square (TypeTerm.readableAll items ht) hitems hc)
    exact .of_primary ho (by decide) hread (Nat.le_refl 3) hr
  | .function params returns =>
    rw [TypeTerm.isPrintable, Bool.and_eq_true] at ht
    rw [TypeTerm.pieces] at h
    obtain ⟨o, us, rfl, ho, -, h⟩ := h
    obtain ⟨vs, hitems, c, ws, rfl, hc, -, a, zs, rfl, ha, -, h⟩ := spells_append.mp h
    have hparams := params_of_terms
      (reads_listPieces .paren (TypeTerm.readableAll params ht.1) hitems hc)
    have hreturns := ((TypeTerm.readable returns ht.2).whole _ _ h hr).reads
    have hangle : startsWith .openAngle (o :: us) = false := startsWith_cons_ne ho (by decide) us
    have hread := Reads.functionType (.inl ho)
      (.function (.inl rfl) (.noTypeParams hangle) ho hparams ha hreturns)
    exact .of_primary ho (by decide) hread (Nat.zero_le _) hr
  | .typeOf name =>
    rw [TypeTerm.pieces] at h
    obtain ⟨u, us, rfl, hu, htext, h⟩ := h
    obtain ⟨_, _, _, _, rfl, -, -, -, hid⟩ := qualifiedName_of_spells h hr.dot
    have hread := Reads.typeOf hu htext hid
    exact .of_primary hu (by decide) hread (Nat.le_refl 3) hr
  | .existential =>
    rw [TypeTerm.pieces] at h
    obtain ⟨u, us, rfl, hu, -, rfl⟩ := h
    exact .of_primary hu (by decide) (.existential hu) (Nat.le_refl _) hr
  termination_by structural t

theorem TypeTerm.readableAll (ts : List TypeTerm) (hts : TypeTerm.arePrintable ts = true) :
    ∀ t ∈ ts, t.Readable short := by
  match ts with
  | [] => exact nofun
  | t :: ts =>
    rw [TypeTerm.arePrintable, Bool.and_eq_true] at hts
    rw [List.forall_mem_cons]
    exact ⟨TypeTerm.readable t hts.1, TypeTerm.readableAll ts hts.2⟩
  termination_by structural ts

theorem Member.readable (m : Member) (hm : m.isPrintable = true) : m.value.Readable short := by
  match m with
  | ⟨key, value, optional⟩ =>
    rw [Member.isPrintable, Bool.and_eq_true] at hm
    exact TypeTerm.readable value hm.2
  termination_by structural m

theorem Member.readableAll (ms : List Member) (hms : Member.arePrintable ms = true) :
    ∀ m ∈ ms, m.value.Readable short := by
  match ms with
  | [] => exact nofun
  | m :: ms =>
    rw [Member.arePrintable, Bool.and_eq_true] at hms
    rw [List.forall_mem_cons]
    exact ⟨Member.readable m hms.1, Member.readableAll ms hms.2⟩
  termination_by structural ms

end

/-! ## Declarations -/

/-- The pieces of an alias declaration without type parameters. -/
def Alias.pieces (name : String) (body : List Piece) : List Piece :=
  token .identifier "type" :: space :: token .identifier name :: space :: mark .equals :: space ::
    body

theorem legible_declaration {name : String} {body : List Piece}
    (hname : Token.isText .identifier name = true) (hlen : name.toList.length < 7)
    (hbody : Legible body) : Legible (Alias.pieces name body) := by
  have hspace : ∀ {ps : List Piece}, Next (fun d => Lexeme.isIdentifierPart d = false)
      (space :: ps) := by
    intro ps d hd
    cases hd
    exact Lexeme.endsWord_space.1
  have hshort : ∀ {word : String} {ps : List Piece}, word.toList.length < 7 →
      Blanking.Opens word.toList → ¬ Blanking.Continues (render ps) :=
    fun hword hopens => absurd hopens (Blanking.not_opens_of_length hword)
  have hequals : Legible (mark .equals :: space :: body) := by
    refine .mark (by decide) (fun d hd => ?_) (.space hbody)
    cases hd
    exact (by decide : ' ' ≠ '>')
  have halias : Legible (token .identifier name :: space :: mark .equals :: space :: body) :=
    .word hname hspace (hshort hlen) (.space hequals)
  exact .word (by decide) hspace (hshort (by decide)) (.space halias)

/-- A source that declares a term for a name is read as that declaration and nothing else. -/
theorem Program.parse_declaration {t : TypeTerm} {body : List Piece} (hbody : Legible body)
    (ht : ∀ ts, Spells body ts [] → Reads .term ts t []) :
    Program.parse ("type X = " ++ String.ofList (render body)) = .ok [.declares ⟨"X", [], t⟩] := by
  have hlegible : Legible (Alias.pieces "X" body) :=
    legible_declaration (by decide) (by decide) hbody
  have hsource : ("type X = " ++ String.ofList (render body)).toList
      = render (Alias.pieces "X" body) := by
    have hprint : (String.ofList (render body)).toList = render body := String.toList_ofList
    rw [String.toList_append, hprint]
    rfl
  obtain ⟨tokens, hscan, hspells⟩ := hlegible.scan
  rw [← hsource] at hscan
  obtain ⟨w, us, rfl, hw, hwtext, n, vs, rfl, hn, hntext, e, zs, rfl, he, -, hterm⟩ := hspells
  rw [parse_eq_ok hscan]
  have hangle : startsWith .openAngle (e :: zs) = false := startsWith_cons_ne he (by decide) zs
  have hword : w.isWord "type" = true := by simp [Token.isWord, hw, hwtext]
  have halias : startsAlias (w :: n :: e :: zs) = true := by simp [startsAlias, hword, hn, he]
  have hdeclares := ReadsAlias.mk hn (.noTypeParams hangle) he (ht zs hterm)
  rw [hntext] at hdeclares
  exact .statement (by rw [hw]; decide) (.declares halias hdeclares) .nil

theorem TypeTerm.legible_pieces (short : List Nat → Bool) {t : TypeTerm}
    (ht : t.isPrintable = true) : Legible (t.pieces short []) := by
  have hbody := TypeTerm.legible short t ht [] Trails.nil
  rwa [List.append_nil] at hbody

theorem TypeTerm.reads_pieces (short : List Nat → Bool) {t : TypeTerm}
    (ht : t.isPrintable = true) {ts : List Token} (h : Spells (t.pieces short []) ts []) :
    Reads .term ts t [] := by
  have hnothing : Follows 0 [] := ⟨rfl, rfl, rfl, fun _ => rfl, fun _ => rfl, fun _ => rfl⟩
  exact ((TypeTerm.readable short t ht).whole _ _ h hnothing).reads

/-- A source that declares a printed term for a name is read as that declaration and nothing
else. -/
theorem Program.parse_print (t : TypeTerm) (ht : t.isPrintable = true)
    (short : List Nat → Bool) :
    Program.parse ("type X = " ++ t.print short) = .ok [.declares ⟨"X", [], t⟩] :=
  parse_declaration (t.legible_pieces short ht) fun _ => t.reads_pieces short ht

/-- Parentheses stand only where the grammar needs them: around what brackets make an array of, and
around the function behind a question mark. The array is written with brackets, and the keys and
literals with quotation marks of both sorts. -/
theorem Program.parse_print_example :
    Program.parse
        "type X = (a.b|?((string)=>void))[]|\x7b|\"say \\\"hi\\\"\"?:-1.5&'d'|\x7d|[typeof x.y,*]"
      = .ok [.declares ⟨"X", [], .union [
          .applied "Array"
            [.union [.named "a.b", .nullable (.function [.keyword .string] (.keyword .void))]],
          .object [⟨"say \"hi\"",
            .intersection [.numberLiteral "-1.5", .stringLiteral "d" "'d'"], true⟩] true,
          .tuple [.typeOf "x.y", .existential]]⟩] := by
  refine Eq.trans (congrArg Program.parse ?_)
    (Program.parse_print (.union _) (by decide +kernel) fun _ => true)
  decide +kernel

end AliasCheck
