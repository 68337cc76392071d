import AliasCheck.Proofs.Statements

/-!
# What readers do not see

The readers look at the kind and the text of a token, never at its offset, and none of them looks
beyond a semicolon that stands behind what it reads. So phrases stay what they are when tokens move
to other offsets and when code follows behind a semicolon. Both changes are one notion here,
`Shift`; the end of the list takes the place of the semicolon for a shift that only moves.
-/

namespace AliasCheck

open Grammar

/-- A change to lists of tokens that no reader of terms sees. -/
structure Shift where
  /-- The token that takes the place of another. -/
  move : Token → Token
  /-- What follows behind the tokens. -/
  behind : List Token
  kind_move : ∀ t, (move t).kind = t.kind
  text_move : ∀ t, (move t).text = t.text
  behind_eq : behind = [] ∨ startsWith .semicolon behind = true

namespace Shift

/-- The tokens after the change. -/
def apply (m : Shift) (ts : List Token) : List Token := ts.map m.move ++ m.behind

variable (m : Shift)

@[simp] theorem apply_cons (t : Token) (ts : List Token) :
    m.apply (t :: ts) = m.move t :: m.apply ts := rfl

@[simp] theorem apply_nil : m.apply [] = m.behind := rfl

/-- The tokens stand at other offsets, and nothing follows them. -/
def moved (move : Token → Token) (hkind : ∀ t, (move t).kind = t.kind)
    (htext : ∀ t, (move t).text = t.text) : Shift :=
  ⟨move, [], hkind, htext, .inl rfl⟩

theorem apply_moved {move : Token → Token} {hkind : ∀ t, (move t).kind = t.kind}
    {htext : ∀ t, (move t).text = t.text} (ts : List Token) :
    (moved move hkind htext).apply ts = ts.map move :=
  List.append_nil _

/-- A semicolon follows the tokens, and behind it stand others. -/
def continued (t : Token) (ht : t.kind = .semicolon) (others : List Token) : Shift :=
  ⟨id, t :: others, fun _ => rfl, fun _ => rfl, .inr (by rw [startsWith_cons, ht]; rfl)⟩

theorem apply_continued {t : Token} {ht : t.kind = .semicolon} {others : List Token}
    (ts : List Token) : (continued t ht others).apply ts = ts ++ t :: others :=
  congrArg (· ++ t :: others) (List.map_id ts)

variable {kind : Token.Kind} {ts r : List Token}

theorem startsWith_behind (hkind : kind ≠ .semicolon) : startsWith kind m.behind = false := by
  rcases m.behind_eq with h | h
  · rw [h]
    rfl
  · obtain ⟨t, r, h, ht⟩ := startsWith_eq_true.mp h
    rw [h, startsWith_cons, ht]
    exact beq_eq_false_iff_ne.mpr hkind.symm

/-! ## Single tokens -/

theorem startsWith_apply (hkind : kind ≠ .semicolon) (ts : List Token) :
    startsWith kind (m.apply ts) = startsWith kind ts := by
  cases ts with
  | nil => exact m.startsWith_behind hkind
  | cons t ts => rw [apply_cons, startsWith_cons, startsWith_cons, m.kind_move]

theorem eat?_apply (hkind : kind ≠ .semicolon) (ts : List Token) :
    eat? kind (m.apply ts) = (eat? kind ts).map m.apply := by
  unfold eat?
  rw [m.startsWith_apply hkind]
  cases ts with
  | nil => rfl
  | cons t ts => cases startsWith kind (t :: ts) <;> rfl

theorem eatAll?_apply {kinds : List Token.Kind} (hkinds : .semicolon ∉ kinds) (ts : List Token) :
    eatAll? kinds (m.apply ts) = (eatAll? kinds ts).map m.apply := by
  induction kinds generalizing ts with
  | nil => rfl
  | cons kind kinds ih =>
    rw [List.mem_cons, not_or] at hkinds
    rw [eatAll?, eatAll?, m.eat?_apply (Ne.symm hkinds.1)]
    cases eat? kind ts with
    | none => rfl
    | some us => exact ih hkinds.2 us

theorem skip_apply (hkind : kind ≠ .semicolon) (ts : List Token) :
    skip kind (m.apply ts) = m.apply (skip kind ts) := by
  unfold skip
  rw [m.eat?_apply hkind]
  cases eat? kind ts <;> rfl

theorem skipVariance_apply (ts : List Token) :
    skipVariance (m.apply ts) = m.apply (skipVariance ts) := by
  unfold skipVariance
  rw [m.eat?_apply (by decide)]
  cases eat? .plus ts with
  | none => exact m.skip_apply (by decide) ts
  | some r => rfl

theorem identifier_apply {id : String} (h : identifier ts = .ok (id, r)) :
    identifier (m.apply ts) = .ok (id, m.apply r) := by
  obtain ⟨t, ht, rfl, rfl⟩ := identifier_eq_ok.mp h
  exact identifier_eq_ok.mpr ⟨m.move t, by rw [m.kind_move, ht], m.text_move t, rfl⟩

/-! ## Names and array brackets -/

theorem segments_apply {name id : String} (h : segments name ts = .ok (id, r)) :
    segments name (m.apply ts) = .ok (id, m.apply r) := by
  -- A point is always followed by a segment, so the name ends where no point follows.
  have hdone : ∀ {name : String} {us : List Token}, startsWith .dot us = false →
      (name, us) = (id, r) → segments name (m.apply us) = .ok (id, m.apply r) := by
    rintro name us hus ⟨⟩
    exact segments_of_noDot _ (by rw [m.startsWith_apply (by decide), hus])
  fun_induction segments name ts with
  | case1 name d t ts hd => exact hdone (by simpa using hd) (Except.ok.inj h)
  | case2 name d t ts hd ht ih =>
    rw [apply_cons, apply_cons, segments, if_neg (by rwa [m.kind_move]), m.kind_move,
      if_pos ht, m.text_move]
    exact ih h
  | case3 => cases h
  | case4 => cases h
  | case5 name d hd => exact hdone (by simpa using hd) (Except.ok.inj h)
  | case6 name => exact hdone rfl (Except.ok.inj h)

theorem qualifiedName_apply {id : String} (h : qualifiedName ts = .ok (id, r)) :
    qualifiedName (m.apply ts) = .ok (id, m.apply r) := by
  obtain ⟨⟨name, us⟩, hname, h⟩ := bind_eq_ok.mp h
  exact bind_eq_ok.mpr ⟨(name, m.apply us), m.identifier_apply hname, m.segments_apply h⟩

theorem arrays_apply (x : TypeTerm) (ts : List Token) :
    arrays x (m.apply ts) = ((arrays x ts).1, m.apply (arrays x ts).2) := by
  have hdone : ∀ {x : TypeTerm} {us : List Token},
      (∀ vs, eat? .openBracket us = some vs → startsWith .closeBracket vs = false) →
      arrays x (m.apply us) = (x, m.apply us) := by
    intro x us hus
    refine arrays_of_noBrackets x fun vs hvs => ?_
    rw [m.eat?_apply (by decide)] at hvs
    obtain ⟨ws, hws, rfl⟩ := Option.map_eq_some_iff.mp hvs
    rw [m.startsWith_apply (by decide), hus ws hws]
  fun_induction arrays x ts with
  | case1 x o c ts h ih =>
    rw [apply_cons, apply_cons, arrays, if_pos (by rwa [m.kind_move, m.kind_move]), ih]
  | case2 x o c ts h =>
    refine hdone fun vs hvs => ?_
    obtain ⟨t, ht, heq⟩ := eat?_eq_some.mp hvs
    cases heq
    rw [startsWith_cons, beq_eq_false_iff_ne]
    exact fun hc => h ⟨ht, hc⟩
  | case3 x ts h =>
    refine hdone fun vs hvs => ?_
    obtain ⟨t, ht, rfl⟩ := eat?_eq_some.mp hvs
    cases vs with
    | nil => rfl
    | cons c vs => exact absurd rfl (h t c vs)

theorem next?_apply (joint : Joint) (ts : List Token) :
    joint.next? (m.apply ts) = (joint.next? ts).map m.apply := by
  cases joint with
  | intersection => exact m.eat?_apply (by decide) ts
  | union =>
    unfold Joint.next?
    dsimp only
    unfold unionBar?
    rw [m.eat?_apply (by decide)]
    cases eat? .pipe ts with
    | none => rfl
    | some us =>
      rw [Option.map_some, Option.filter_some, Option.filter_some, m.startsWith_apply (by decide)]
      cases startsWith .closeBrace us <;> rfl

/-! ## Optional names -/

theorem skipIndexName_apply (ts : List Token) :
    skipIndexName (m.apply ts) = m.apply (skipIndexName ts) := by
  rw [skipIndexName_eq, skipIndexName_eq, m.eatAll?_apply (by decide)]
  cases eatAll? [.identifier, .colon] ts <;> rfl

theorem skipParamName_apply (ts : List Token) :
    skipParamName (m.apply ts) = m.apply (skipParamName ts) := by
  rw [skipParamName_eq, skipParamName_eq, m.eatAll?_apply (by decide), m.skipIndexName_apply]
  cases eatAll? [.identifier, .question, .colon] ts <;> rfl

/-! ## Members of object types -/

theorem key?_move (t : Token) : key? (m.move t) = key? t := by
  unfold key?
  rw [m.kind_move, m.text_move]

theorem spreadEnds_apply (h : ts ≠ []) : spreadEnds (m.apply ts) = spreadEnds ts := by
  cases ts with
  | nil => exact absurd rfl h
  | cons t ts =>
    rw [apply_cons, spreadEnds, spreadEnds, m.kind_move]

theorem objectEnd?_apply (exact' : Bool) (ts : List Token) :
    objectEnd? exact' (m.apply ts) = (objectEnd? exact' ts).map m.apply := by
  rw [objectEnd?_eq, objectEnd?_eq, m.eatAll?_apply (by cases exact' <;> decide)]

theorem memberEnd_apply {exact' : Bool} (h : memberEnd exact' ts = .ok r) :
    memberEnd exact' (m.apply ts) = .ok (m.apply r) := by
  have hne : ts ≠ [] := by
    rintro rfl
    cases exact' <;> cases h
  have hsemicolon : eat? .semicolon (m.apply ts) = (eat? .semicolon ts).map m.apply := by
    cases ts with
    | nil => exact absurd rfl hne
    | cons t ts =>
      unfold eat?
      rw [apply_cons, startsWith_cons, startsWith_cons, m.kind_move]
      cases t.kind == .semicolon <;> rfl
  unfold memberEnd at h ⊢
  rw [hsemicolon, m.eat?_apply (by decide), m.objectEnd?_apply]
  split at h
  · cases h
    simp_all
  · cases h
    simp_all
  · cases h
    simp_all
  · cases h

end Shift

theorem closer_ne_semicolon (b : Bracket) : b.closer ≠ .semicolon := by cases b <;> decide

open Shift in
/-- A phrase is the same phrase after a shift. -/
theorem Reads.shift {p : Phrase} {ts r : List Token} {x : p.Value} (m : Shift)
    (h : Reads p ts x r) : Reads p (m.apply ts) x (m.apply r) := by
  induction h with
  | term _ _ hfirst hrest =>
    rw [← m.skip_apply (by decide)] at hfirst
    exact .term hfirst hrest
  | conjunct _ _ hfirst hrest =>
    rw [← m.skip_apply (by decide)] at hfirst
    exact .conjunct hfirst hrest
  | noMore h => exact .noMore (by rw [m.next?_apply, h]; rfl)
  | moreUnion h _ _ hx hxs => exact .moreUnion (by rw [m.next?_apply, h]; rfl) hx hxs
  | moreIntersection h _ _ hx hxs =>
    exact .moreIntersection (by rw [m.next?_apply, h]; rfl) hx hxs
  | nullable ht _ hx => exact .nullable (by rw [m.kind_move, ht]) hx
  | suffixed h _ hx =>
    have hread := Reads.suffixed (by rw [m.startsWith_apply (by decide), h]) hx
    rw [m.arrays_apply] at hread
    exact hread
  | @object t ts r ms ht _ hms =>
    have hpipe := m.startsWith_apply (show Token.Kind.pipe ≠ .semicolon by decide) ts
    rw [← m.skip_apply (by decide), ← hpipe] at hms
    rw [← hpipe]
    exact .object (by rw [m.kind_move, ht]) hms
  | tuple ht _ hxs => exact .tuple (by rw [m.kind_move, ht]) hxs
  | group ht _ hc hr hx =>
    exact .group (by rw [m.kind_move, ht]) hx (by rw [m.kind_move, hc])
      (by rw [m.startsWith_apply (by decide), hr])
  | functionType ht _ hx => exact .functionType (by rwa [m.kind_move]) hx
  | @stringLiteral t ts ht =>
    have hread : Reads .primary (m.apply (t :: ts)) _ (m.apply ts) :=
      .stringLiteral ((m.kind_move t).trans ht)
    rw [m.text_move] at hread
    exact hread
  | @numberLiteral t ts ht =>
    have hread : Reads .primary (m.apply (t :: ts)) _ (m.apply ts) :=
      .numberLiteral ((m.kind_move t).trans ht)
    rw [m.text_move] at hread
    exact hread
  | @negativeLiteral t n ts ht hn =>
    have hread : Reads .primary (m.apply (t :: n :: ts)) _ (m.apply ts) :=
      .negativeLiteral ((m.kind_move t).trans ht) ((m.kind_move n).trans hn)
    rw [m.text_move] at hread
    exact hread
  | existential ht => exact .existential (by rw [m.kind_move, ht])
  | word ht hword => exact .word (by rw [m.kind_move, ht]) (by rw [m.text_move, hword])
  | typeOf ht htext hid =>
    exact .typeOf (by rw [m.kind_move, ht]) (by rw [m.text_move, htext]) (m.qualifiedName_apply hid)
  | named ht hword htext hid hr =>
    exact .named (by rw [m.kind_move, ht]) (by rw [m.text_move, hword]) (by rwa [m.text_move])
      (m.qualifiedName_apply hid) (by rw [m.startsWith_apply (by decide), hr])
  | applied ht hword htext hid ho _ hargs =>
    exact .applied (by rw [m.kind_move, ht]) (by rw [m.text_move, hword]) (by rwa [m.text_move])
      (m.qualifiedName_apply hid) (by rw [m.kind_move, ho]) hargs
  | noItems hc => exact .noItems (by rw [m.kind_move, hc])
  | @lastItem b _ _ _ _ _ hitem h _ hc hx =>
    exact .lastItem hitem (by rw [m.startsWith_apply (closer_ne_semicolon b), h]) hx
      (by rw [m.kind_move, hc])
  | @item b _ _ _ _ _ _ _ hitem h _ hc _ hx hxs =>
    exact .item hitem (by rw [m.startsWith_apply (closer_ne_semicolon b), h]) hx
      (by rw [m.kind_move, hc]) hxs
  | notBehind hkind h =>
    refine .notBehind hkind ?_
    rw [m.startsWith_apply (by rcases hkind with rfl | rfl <;> decide), h]
  | behind hkind ht _ hx => exact .behind hkind (by rw [m.kind_move, ht]) hx
  | typeParam hid _ _ hbound hdefault =>
    refine .typeParam ?_ hbound hdefault
    rw [m.skipVariance_apply]
    exact m.identifier_apply hid
  | noTypeParams h => exact .noTypeParams (by rw [m.startsWith_apply (by decide), h])
  | typeParams ht _ hids => exact .typeParams (by rw [m.kind_move, ht]) hids
  | param _ hx =>
    rw [← m.skipParamName_apply, ← m.skip_apply (by decide)] at hx
    exact .param hx
  | function hseparator _ ho _ hs _ hids hparams hreturns =>
    exact .function hseparator hids (by rw [m.kind_move, ho]) hparams (by rw [m.kind_move, hs])
      hreturns
  | @bareSpread t ts ht h =>
    have hne : ts ≠ [] := by
      rintro rfl
      cases h
    exact .bareSpread (by rw [m.kind_move, ht]) ((m.spreadEnds_apply hne).trans h)
  | @spread t ts r x ht h hread hx =>
    have hne : ts ≠ [] := by
      rintro rfl
      exact absurd (hread.length_lt rfl) (Nat.not_lt_zero _)
    exact .spread (by rw [m.kind_move, ht]) ((m.spreadEnds_apply hne).trans h) hx
  | indexer ht _ hc hd _ hk hx =>
    rw [← m.skipIndexName_apply] at hk
    exact .indexer (by rw [m.kind_move, ht]) hk (by rw [m.kind_move, hc]) (by rw [m.kind_move, hd])
      hx
  | call ht _ hx => exact .call (by rwa [m.kind_move]) hx
  | @method t k ts r _ _ _ ht hk hkey hopen _ hx =>
    refine .method (by rwa [m.kind_move]) ?_ (by rw [m.key?_move, hkey]) ?_ hx
    · exact (m.skipVariance_apply (t :: ts)).trans (congrArg m.apply hk)
    · rw [m.startsWith_apply (by decide), m.startsWith_apply (by decide), hopen]
  | @property t k c ts r r' _ _ _ ht hk hkey hopen hc hcolon _ hx =>
    have hquestion := m.startsWith_apply (show Token.Kind.question ≠ .semicolon by decide) r
    rw [← hquestion]
    refine .property (by rwa [m.kind_move]) ?_ (by rw [m.key?_move, hkey]) ?_ ?_
      (by rw [m.kind_move, hcolon]) hx
    · exact (m.skipVariance_apply (t :: ts)).trans (congrArg m.apply hk)
    · rw [m.startsWith_apply (by decide), m.startsWith_apply (by decide), hopen]
    · rw [m.skip_apply (by decide), hc, apply_cons]
  | noMembers h => exact .noMembers (by rw [m.objectEnd?_apply, h]; rfl)
  | members h _ hend _ hm hms =>
    exact .members (by rw [m.objectEnd?_apply, h]; rfl) hm (m.memberEnd_apply hend) hms

end AliasCheck
