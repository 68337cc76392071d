import AliasCheck.Proofs.Reading
import AliasCheck.Proofs.Results

/-!
# The readers read what the rules allow

A reader of terms and the rules for its sort of phrase say the same: the reader succeeds on a list
of tokens exactly if the rules derive a phrase there, and with the same outcome. This holds as long
as the bound that the reader counts down is not smaller than the list. Each reader is treated for
itself, on the assumption that the reader for whole terms that it is given agrees up to the bound;
`agrees_term` then ties the knot, by induction on the bound.

The one reader that does not follow the rules step by step is the one for parentheses. It runs ahead
to the end of the group to see whether an arrow follows, and that it looks for it at the right place
is a consequence of `Reads.consumed`.
-/

namespace AliasCheck

open Grammar AliasCheck.Bracket

/-- On lists of at most `bound` tokens, `f` reads exactly the phrases of sort `p`. -/
def Agrees (p : Phrase) (f : Reader p.Value) (bound : Nat) : Prop :=
  ∀ ts : List Token, ts.length ≤ bound → ∀ x r, f ts = .ok (x, r) ↔ Reads p ts x r

theorem Agrees.mono {p : Phrase} {f : Reader p.Value} {bound bound' : Nat}
    (h : Agrees p f bound) (hle : bound' ≤ bound) : Agrees p f bound' :=
  fun ts hts => h ts (Nat.le_trans hts hle)

/-- A phrase takes at least as many tokens as its sort says. -/
theorem Reads.length_le {p : Phrase} {ts r : List Token} {x : p.Value} (h : Reads p ts x r) :
    r.length + p.least ≤ ts.length :=
  (h.consumed).length_le

theorem Reads.length_lt {p : Phrase} {ts r : List Token} {x : p.Value} (h : Reads p ts x r)
    (hp : p.least = 1) : r.length < ts.length := by
  have hlen := h.length_le
  rw [hp] at hlen
  exact hlen

namespace Grammar

theorem expect_cons {kind : Token.Kind} {t : Token} (h : t.kind = kind) (ts : List Token) :
    expect kind (t :: ts) = .ok ts := expect_eq_ok.mpr ⟨t, h, rfl⟩

/-! ## Lists -/

section Lists

variable {p : Phrase} {f : Reader p.Value} {bound : Nat}

theorem agrees_itemsUntil (b : Bracket) (hpending : p.pending = []) (hleast : p.least = 1)
    (hf : Agrees p f bound) : Agrees (.items b p) (itemsUntil b.closer f bound) bound := by
  induction bound with
  | zero =>
    intro ts hts xs r
    cases List.length_eq_zero_iff.mp (Nat.le_zero.mp hts)
    constructor
    · intro h
      obtain ⟨⟨x, r'⟩, hx, -⟩ := bind_eq_ok.mp h
      have hlen := ((hf [] (Nat.zero_le _) x r').mp hx).length_lt hleast
      exact absurd hlen (Nat.not_lt_zero _)
    · intro h
      exact absurd (h.length_lt rfl) (Nat.not_lt_zero _)
  | succ n ih =>
    have ih := ih (hf.mono (Nat.le_succ n))
    intro ts hts xs r
    rw [itemsUntil]
    constructor
    · intro h
      cases hclose : eat? b.closer ts with
      | some us =>
        rw [hclose] at h
        cases h
        obtain ⟨c, hc, rfl⟩ := eat?_eq_some.mp hclose
        exact .noItems hc
      | none =>
        rw [hclose] at h
        obtain ⟨⟨x, us⟩, hx, h⟩ := bind_eq_ok.mp h
        have hread := (hf ts hts x us).mp hx
        have hlen := hread.length_le
        cases hcomma : eat? .comma us with
        | some vs =>
          simp only [hcomma] at h
          obtain ⟨⟨ys, ws⟩, hys, h⟩ := bind_eq_ok.mp h
          cases h
          obtain ⟨c, hc, rfl⟩ := eat?_eq_some.mp hcomma
          rw [List.length_cons] at hlen
          exact .item hpending (eat?_eq_none.mp hclose) hread hc
            ((ih vs (by omega) _ _).mp hys)
        | none =>
          simp only [hcomma] at h
          obtain ⟨vs, hvs, h⟩ := bind_eq_ok.mp h
          cases h
          obtain ⟨c, hc, rfl⟩ := expect_eq_ok.mp hvs
          exact .lastItem hpending (eat?_eq_none.mp hclose) hread hc
    · intro h
      cases h with
      | noItems hc => rw [eat?_cons hc]
      | @lastItem _ _ c _ r x _ hclose hx hc =>
        have hcomma : eat? .comma (c :: r) = none := by
          rw [eat?_eq_none, startsWith_cons, hc]
          cases b <;> rfl
        rw [eat?_eq_none.mpr hclose]
        refine bind_eq_ok.mpr ⟨(x, c :: r), (hf ts hts _ _).mpr hx, ?_⟩
        simp only [hcomma]
        exact bind_eq_ok.mpr ⟨r, expect_cons hc r, rfl⟩
      | @item _ _ c _ us _ x ys _ hclose hx hc hxs =>
        have hlen := hx.length_le
        rw [List.length_cons] at hlen
        rw [eat?_eq_none.mpr hclose]
        refine bind_eq_ok.mpr ⟨(x, c :: us), (hf ts hts _ _).mpr hx, ?_⟩
        simp only [eat?_cons hc]
        exact bind_eq_ok.mpr ⟨(ys, r), (ih us (by omega) _ _).mpr hxs, rfl⟩

/-- A term that an operator may join with others stands at the beginning of the tokens. -/
def ReadsPart : Joint → List Token → TypeTerm → List Token → Prop
  | .union => Reads .conjunct
  | .intersection => Reads .operand

theorem reads_more_nil {joint : Joint} {ts r : List Token} :
    Reads (.more joint) ts [] r ↔ r = ts ∧ joint.next? ts = none := by
  constructor
  · intro h
    cases h with
    | noMore h => exact ⟨rfl, h⟩
  · rintro ⟨rfl, h⟩
    exact .noMore h

theorem reads_more_cons {joint : Joint} {ts r : List Token} {x : TypeTerm} {xs : List TypeTerm} :
    Reads (.more joint) ts (x :: xs) r ↔ ∃ us vs, joint.next? ts = some us ∧
      ReadsPart joint us x vs ∧ Reads (.more joint) vs xs r := by
  constructor
  · intro h
    cases h with
    | moreUnion h hx hxs => exact ⟨_, _, h, hx, hxs⟩
    | moreIntersection h hx hxs => exact ⟨_, _, h, hx, hxs⟩
  · rintro ⟨us, vs, h, hx, hxs⟩
    cases joint with
    | union => exact .moreUnion h hx hxs
    | intersection => exact .moreIntersection h hx hxs

theorem ReadsPart.length_lt {joint : Joint} {ts r : List Token} {x : TypeTerm}
    (h : ReadsPart joint ts x r) : r.length < ts.length := by
  cases joint <;> exact Reads.length_lt h rfl

theorem agrees_separated (joint : Joint) {f : Reader TypeTerm}
    (hf : ∀ ts : List Token, ts.length ≤ bound →
      ∀ x r, f ts = .ok (x, r) ↔ ReadsPart joint ts x r) :
    Agrees (.more joint) (separated joint.next? f bound) bound := by
  induction bound with
  | zero =>
    intro ts hts xs r
    cases List.length_eq_zero_iff.mp (Nat.le_zero.mp hts)
    have hnone : joint.next? [] = none := by cases joint <;> rfl
    cases xs with
    | nil => simp [separated, reads_more_nil, hnone, eq_comm]
    | cons x xs => simp [separated, reads_more_cons, hnone]
  | succ n ih =>
    have ih := ih fun ts hts => hf ts (Nat.le_succ_of_le hts)
    intro ts hts xs r
    rw [separated]
    cases hnext : joint.next? ts with
    | none =>
      cases xs with
      | nil => simp [reads_more_nil, hnext, eq_comm]
      | cons x xs => simp [reads_more_cons, hnext]
    | some us =>
      have hus := (passes_next? hnext).length_le
      constructor
      · intro h
        obtain ⟨⟨x, vs⟩, hx, h⟩ := bind_eq_ok.mp h
        obtain ⟨⟨ys, ws⟩, hys, h⟩ := bind_eq_ok.mp h
        cases h
        have hx := (hf us (by omega) x vs).mp hx
        have hvs := hx.length_lt
        exact reads_more_cons.mpr ⟨us, vs, hnext, hx, (ih vs (by omega) _ _).mp hys⟩
      · intro h
        cases xs with
        | nil =>
          rw [reads_more_nil, hnext] at h
          cases h.2
        | cons x xs =>
          obtain ⟨us', vs, h, hx, hxs⟩ := reads_more_cons.mp h
          cases hnext.symm.trans h
          have hvs := hx.length_lt
          refine bind_eq_ok.mpr ⟨(x, vs), (hf us (by omega) x vs).mpr hx, ?_⟩
          exact bind_eq_ok.mpr ⟨(xs, r), (ih vs (by omega) xs r).mpr hxs, rfl⟩

/-- A term that consists of parts with operators between them, or of a single part, stands at the
beginning of the tokens. -/
def ReadsJoined : Joint → List Token → TypeTerm → List Token → Prop
  | .union => Reads .term
  | .intersection => Reads .conjunct

theorem readsJoined_iff {joint : Joint} {ts r : List Token} {x : TypeTerm} :
    ReadsJoined joint ts x r ↔ ∃ first us more, ReadsPart joint (skip joint.operator ts) first us ∧
      Reads (.more joint) us more r ∧ x = joint.join first more := by
  constructor
  · intro h
    cases joint <;> cases h <;> exact ⟨_, _, _, ‹_›, ‹_›, rfl⟩
  · rintro ⟨first, us, more, hfirst, hmore, rfl⟩
    cases joint with
    | union => exact .term hfirst hmore
    | intersection => exact .conjunct hfirst hmore

/-- Reads parts with operators between them, or a single part. -/
def joined (joint : Joint) (part : Reader TypeTerm) (bound : Nat) : Reader TypeTerm := fun ts => do
  let (first, ts) ← part (skip joint.operator ts)
  let (more, ts) ← separated joint.next? part bound ts
  .ok (joint.join first more, ts)

theorem length_skip_operator_le (joint : Joint) (ts : List Token) :
    (skip joint.operator ts).length ≤ ts.length := by
  cases joint <;> exact (passes_skip _ rfl rfl ts).length_le

theorem agrees_joined (joint : Joint) {part : Reader TypeTerm}
    (hpart : ∀ ts : List Token, ts.length ≤ bound + 1 →
      ∀ x r, part ts = .ok (x, r) ↔ ReadsPart joint ts x r) :
    ∀ ts : List Token, ts.length ≤ bound + 1 →
      ∀ x r, joined joint part bound ts = .ok (x, r) ↔ ReadsJoined joint ts x r := by
  have hmore := agrees_separated joint fun ts hts => hpart ts (Nat.le_succ_of_le hts)
  intro ts hts x r
  have hskip := length_skip_operator_le joint ts
  rw [readsJoined_iff]
  constructor
  · intro h
    obtain ⟨⟨first, us⟩, hfirst, h⟩ := bind_eq_ok.mp h
    obtain ⟨⟨more, vs⟩, hrest, h⟩ := bind_eq_ok.mp h
    cases h
    have hfirst := (hpart _ (by omega) first us).mp hfirst
    have hlen := hfirst.length_lt
    exact ⟨first, us, more, hfirst, (hmore us (by omega) more _).mp hrest, rfl⟩
  · rintro ⟨first, us, more, hfirst, hrest, rfl⟩
    have hlen := hfirst.length_lt
    refine bind_eq_ok.mpr ⟨(first, us), (hpart _ (by omega) first us).mpr hfirst, ?_⟩
    exact bind_eq_ok.mpr ⟨(more, r), (hmore us (by omega) more r).mpr hrest, rfl⟩

end Lists

/-! ## Forms of terms -/

section Forms

variable {term : Reader TypeTerm} {bound : Nat} (hterm : Agrees .term term bound)

include hterm

theorem termAfter_eq_ok {kind : Token.Kind} (hkind : kind = .colon ∨ kind = .equals)
    {ts r : List Token} (hts : ts.length ≤ bound) :
    termAfter term kind ts = .ok r ↔ Reads (.behind kind) ts () r := by
  unfold termAfter
  cases h : eat? kind ts with
  | none =>
    rw [eat?_eq_none] at h
    constructor
    · rintro ⟨⟩
      exact .notBehind hkind h
    · intro hread
      cases hread with
      | notBehind _ _ => rfl
      | behind _ ht _ => simp [ht] at h
  | some us =>
    obtain ⟨t, ht, rfl⟩ := eat?_eq_some.mp h
    rw [List.length_cons] at hts
    constructor
    · intro h
      obtain ⟨⟨x, vs⟩, hx, h⟩ := bind_eq_ok.mp h
      cases h
      exact .behind hkind ht ((hterm us (by omega) _ _).mp hx)
    · intro hread
      cases hread with
      | notBehind _ h => simp [ht] at h
      | @behind _ _ _ _ x _ _ hx =>
        exact bind_eq_ok.mpr ⟨(x, r), (hterm us (by omega) x r).mpr hx, rfl⟩

theorem agrees_typeParam : Agrees .typeParam (typeParam term) bound := by
  intro ts hts id r
  have hskip := (passes_skipVariance ts).length_le
  constructor
  · intro h
    obtain ⟨⟨name, us⟩, hid, h⟩ := bind_eq_ok.mp h
    obtain ⟨vs, hvs, h⟩ := bind_eq_ok.mp h
    obtain ⟨ws, hws, h⟩ := bind_eq_ok.mp h
    cases h
    have hus := (passes_identifier hid).length_le
    have hbound := (termAfter_eq_ok hterm (.inl rfl) (by omega)).mp hvs
    have hlen := hbound.length_le
    exact .typeParam hid hbound ((termAfter_eq_ok hterm (.inr rfl) (by omega)).mp hws)
  · intro h
    cases h with
    | @typeParam _ us vs _ _ hid hbound hdefault =>
      have hus := (passes_identifier hid).length_le
      have hlen := hbound.length_le
      refine bind_eq_ok.mpr ⟨(id, us), hid, ?_⟩
      refine bind_eq_ok.mpr ⟨vs, (termAfter_eq_ok hterm (.inl rfl) (by omega)).mpr hbound, ?_⟩
      exact bind_eq_ok.mpr ⟨r, (termAfter_eq_ok hterm (.inr rfl) (by omega)).mpr hdefault, rfl⟩

theorem agrees_typeParams :
    Agrees .typeParams (optionalTypeParams term bound) (bound + 1) := by
  have hitems := agrees_itemsUntil .angle rfl rfl (agrees_typeParam hterm)
  intro ts hts ids r
  unfold optionalTypeParams
  cases h : startsWith .openAngle ts with
  | false =>
    constructor
    · rintro ⟨⟩
      exact .noTypeParams h
    · intro hread
      cases hread with
      | noTypeParams _ => rfl
      | typeParams ht _ => simp [ht] at h
  | true =>
    obtain ⟨t, us, rfl, ht⟩ := startsWith_eq_true.mp h
    rw [List.length_cons] at hts
    constructor
    · intro h
      obtain ⟨vs, hvs, h⟩ := bind_eq_ok.mp h
      cases (expect_cons ht us).symm.trans hvs
      exact .typeParams ht ((hitems us (by omega) ids r).mp h)
    · intro hread
      cases hread with
      | noTypeParams h => simp [ht] at h
      | typeParams _ hids =>
        exact bind_eq_ok.mpr ⟨us, expect_cons ht us, (hitems us (by omega) ids r).mpr hids⟩

theorem agrees_param : Agrees .param (param term) bound := by
  intro ts hts x r
  have hskip := (passes_skip .ellipsis rfl rfl ts).length_le
  have hname := (passes_skipParamName (skip .ellipsis ts)).length_le
  constructor
  · exact fun h => .param ((hterm _ (by omega) x r).mp h)
  · intro h
    cases h with
    | param hx => exact (hterm _ (by omega) x r).mpr hx

theorem agrees_functionWith {separator : Token.Kind}
    (hseparator : separator = .arrow ∨ separator = .colon) :
    Agrees (.function separator) (functionWith term bound separator) (bound + 1) := by
  have hitems := agrees_itemsUntil .paren rfl rfl (agrees_param hterm)
  intro ts hts x r
  constructor
  · intro h
    obtain ⟨⟨ids, us⟩, hids, h⟩ := bind_eq_ok.mp h
    obtain ⟨vs, hvs, h⟩ := bind_eq_ok.mp h
    obtain ⟨⟨params, ws⟩, hparams, h⟩ := bind_eq_ok.mp h
    obtain ⟨zs, hzs, h⟩ := bind_eq_ok.mp h
    obtain ⟨⟨returns, r'⟩, hreturns, h⟩ := bind_eq_ok.mp h
    cases h
    obtain ⟨o, ho, rfl⟩ := expect_eq_ok.mp hvs
    obtain ⟨s, hs, rfl⟩ := expect_eq_ok.mp hzs
    have hids := (agrees_typeParams hterm ts hts _ _).mp hids
    have hlen := hids.length_le
    rw [List.length_cons] at hlen
    have hparams := (hitems vs (by omega) _ _).mp hparams
    have hlen' := hparams.length_le
    rw [List.length_cons] at hlen'
    exact .function hseparator hids ho hparams hs ((hterm zs (by omega) _ _).mp hreturns)
  · intro h
    cases h with
    | @function _ o s _ us vs _ ids params returns _ hids ho hparams hs hreturns =>
      have hlen := hids.length_le
      rw [List.length_cons] at hlen
      have hlen' := hparams.length_le
      rw [List.length_cons] at hlen'
      refine bind_eq_ok.mpr ⟨(ids, o :: us), (agrees_typeParams hterm ts hts _ _).mpr hids, ?_⟩
      refine bind_eq_ok.mpr ⟨us, expect_cons ho us, ?_⟩
      refine bind_eq_ok.mpr ⟨(params, s :: vs), (hitems us (by omega) _ _).mpr hparams, ?_⟩
      refine bind_eq_ok.mpr ⟨vs, expect_cons hs vs, ?_⟩
      exact bind_eq_ok.mpr ⟨(returns, r), (hterm vs (by omega) _ _).mpr hreturns, rfl⟩

end Forms

/-! ## Parentheses -/

/-- The look ahead for an arrow passes over brackets that are closed. -/
theorem arrowAfterGroup_append {stack stack' : List Bracket} {used : List Token}
    (h : openAfter isCode stack used = some stack') (rest : List Token) :
    arrowAfterGroup (stack.length + 1) (used ++ rest)
      = arrowAfterGroup (stack'.length + 1) rest := by
  induction used generalizing stack with
  | nil =>
    cases h
    rfl
  | cons t used ih =>
    rw [openAfter_cons] at h
    obtain ⟨next, hstep, hrest⟩ := Option.bind_eq_some_iff.mp h
    rw [List.cons_append, ← ih hrest, arrowAfterGroup]
    rcases step_isCode hstep with ⟨b, rfl, hkind⟩ | ⟨b, rfl, -, hkind⟩ | ⟨rfl, hkind⟩
    · rw [List.length_cons]
      split <;> simp_all
    · rw [List.length_cons]
      split <;> simp_all
    · split <;> simp_all

/-- Whether an arrow follows a group shows behind the bracket that closes it. -/
theorem arrowAfterGroup_eq {t c : Token} {ts r : List Token} (ht : t.kind = .openParen)
    (h : Passes isCode 0 [] ts (c :: r)) (hc : c.kind = .closeParen) :
    arrowAfterGroup 0 (t :: ts) = startsWith .arrow r := by
  obtain ⟨used, rfl, -, hopen⟩ := h
  have hgroup : arrowAfterGroup 0 (t :: (used ++ c :: r)) = arrowAfterGroup 1 (used ++ c :: r) := by
    rw [arrowAfterGroup, ht]
  rw [hgroup]
  refine (arrowAfterGroup_append hopen (c :: r)).trans ?_
  rw [arrowAfterGroup, hc]
  rfl

end Grammar

/-- What closes a list of items in brackets. -/
theorem Reads.closer {b : Bracket} {p : Phrase} {ts r : List Token} {xs : List p.Value}
    (h : Reads (.items b p) ts xs r) :
    ∃ c, c.kind = b.closer ∧ Passes isCode 0 [] ts (c :: r) := by
  induction xs generalizing ts with
  | nil =>
    cases h with
    | @noItems _ _ c _ hc => exact ⟨c, hc, .refl _⟩
  | cons x xs ih =>
    cases h with
    | @lastItem _ _ c _ _ _ hitem _ hx hc =>
      have hpassed : Passes isCode _ _ _ _ := hx.consumed
      rw [hitem] at hpassed
      exact ⟨c, hc, hpassed.mono (Nat.zero_le _)⟩
    | item hitem _ hx hc hxs =>
      obtain ⟨c, hkind, hrest⟩ := ih hxs
      have hpassed : Passes isCode _ _ _ _ := hx.consumed
      rw [hitem] at hpassed
      exact ⟨c, hkind, (hpassed.trans ((Passes.plain hc rfl rfl _).trans hrest)).mono
        (Nat.zero_le _)⟩

namespace Grammar

/-! ## Terms that no operator joins -/

section Primary

variable {term : Reader TypeTerm} {bound : Nat} (hterm : Agrees .term term bound)

include hterm

theorem parenthesised_eq_ok {t : Token} {ts r : List Token} {x : TypeTerm}
    (ht : t.kind = .openParen) (hts : ts.length ≤ bound) :
    parenthesised term bound (t :: ts) = .ok (x, r) ↔ Reads .primary (t :: ts) x r := by
  have hfunction := agrees_functionWith hterm (.inl rfl) (t :: ts) (Nat.succ_le_succ hts) x r
  unfold parenthesised
  constructor
  · intro h
    split at h
    · exact .functionType (.inl ht) (hfunction.mp h)
    · rename_i harrow
      obtain ⟨us, hus, h⟩ := bind_eq_ok.mp h
      obtain ⟨⟨inner, vs⟩, hinner, h⟩ := bind_eq_ok.mp h
      obtain ⟨ws, hws, h⟩ := bind_eq_ok.mp h
      cases h
      cases (expect_cons ht ts).symm.trans hus
      obtain ⟨c, hc, rfl⟩ := expect_eq_ok.mp hws
      have hread := (hterm ts hts _ _).mp hinner
      have harrow' := arrowAfterGroup_eq ht (hread.consumed.mono (Nat.zero_le _)) hc
      exact .group ht hread hc (by simpa [harrow'] using harrow)
  · intro h
    cases h with
    | @group _ c _ _ _ _ hx hc hr =>
      rw [arrowAfterGroup_eq ht (hx.consumed.mono (Nat.zero_le _)) hc, hr]
      refine bind_eq_ok.mpr ⟨ts, expect_cons ht ts, ?_⟩
      refine bind_eq_ok.mpr ⟨(x, c :: r), (hterm ts hts _ _).mpr hx, ?_⟩
      exact bind_eq_ok.mpr ⟨r, expect_cons hc r, rfl⟩
    | functionType _ hx =>
      have harrow : arrowAfterGroup 0 (t :: ts) = true := by
        cases hx with
        | function _ hids ho hparams hs hreturns =>
          cases hids with
          | noTypeParams _ =>
            obtain ⟨c, hc, hpassed⟩ := hparams.closer
            rw [arrowAfterGroup_eq ht hpassed hc, startsWith_cons, hs]
            rfl
          | typeParams hangle _ => cases ht.symm.trans hangle
      rw [harrow]
      exact hfunction.mpr hx
    | _ => simp_all

theorem tuple_eq_ok {t : Token} {ts r : List Token} {x : TypeTerm}
    (ht : t.kind = .openBracket) (hts : ts.length ≤ bound) :
    tuple term bound (t :: ts) = .ok (x, r) ↔ Reads .primary (t :: ts) x r := by
  have hitems := agrees_itemsUntil .square rfl rfl hterm
  constructor
  · intro h
    obtain ⟨us, hus, h⟩ := bind_eq_ok.mp h
    obtain ⟨⟨xs, vs⟩, hxs, h⟩ := bind_eq_ok.mp h
    cases h
    cases (expect_cons ht ts).symm.trans hus
    exact .tuple ht ((hitems ts hts _ _).mp hxs)
  · intro h
    cases h with
    | @tuple _ _ _ xs _ hxs =>
      refine bind_eq_ok.mpr ⟨ts, expect_cons ht ts, ?_⟩
      exact bind_eq_ok.mpr ⟨(xs, r), (hitems ts hts _ _).mpr hxs, rfl⟩
    | _ => simp_all

theorem name_eq_ok {t : Token} {ts r : List Token} {x : TypeTerm} (ht : t.kind = .identifier)
    (hts : ts.length ≤ bound) :
    name term bound (t :: ts) = .ok (x, r) ↔ Reads .primary (t :: ts) x r := by
  have hitems := agrees_itemsUntil .angle rfl rfl hterm
  have hlen : ∀ {id us}, qualifiedName (t :: ts) = .ok (id, us) → us.length ≤ ts.length :=
    fun h => Nat.le_of_succ_le_succ (passes_qualifiedName h).length_le
  constructor
  · intro h
    cases hword : word? t.text with
    | some word =>
      simp only [name, hword] at h
      cases h
      exact .word ht hword
    | none =>
      simp only [name, hword] at h
      split at h
      · rename_i htext
        obtain ⟨⟨id, us⟩, hid, h⟩ := bind_eq_ok.mp h
        cases h
        exact .typeOf ht htext hid
      · rename_i htext
        obtain ⟨⟨id, us⟩, hid, h⟩ := bind_eq_ok.mp h
        have hus := hlen hid
        cases hangle : eat? .openAngle us with
        | none =>
          simp only [hangle] at h
          cases h
          exact .named ht hword htext hid (eat?_eq_none.mp hangle)
        | some vs =>
          simp only [hangle] at h
          obtain ⟨⟨args, ws⟩, hargs, h⟩ := bind_eq_ok.mp h
          cases h
          obtain ⟨o, ho, rfl⟩ := eat?_eq_some.mp hangle
          rw [List.length_cons] at hus
          exact .applied ht hword htext hid ho ((hitems vs (by omega) _ _).mp hargs)
  · intro h
    unfold name
    cases h with
    | word _ hword => simp [hword]
    | @typeOf _ _ _ id _ htext hid =>
      have hword : word? t.text = none := by
        rw [htext]
        rfl
      simp only [hword, if_pos htext]
      exact bind_eq_ok.mpr ⟨(id, r), hid, rfl⟩
    | @named _ _ _ id _ hword htext hid hr =>
      simp only [hword, if_neg htext]
      refine bind_eq_ok.mpr ⟨(id, r), hid, ?_⟩
      simp only [eat?_eq_none.mpr hr]
    | @applied _ o _ us _ id args _ hword htext hid ho hargs =>
      have hus := hlen hid
      rw [List.length_cons] at hus
      simp only [hword, if_neg htext]
      refine bind_eq_ok.mpr ⟨(id, o :: us), hid, ?_⟩
      simp only [eat?_cons ho]
      exact bind_eq_ok.mpr ⟨(args, r), (hitems us (by omega) _ _).mpr hargs, rfl⟩
    | _ => simp_all

end Primary

/-! ## Object types -/

section Object

variable {term : Reader TypeTerm} {bound : Nat} (hterm : Agrees .term term bound)

include hterm

theorem indexer_eq_ok {t : Token} {ts r : List Token} (ht : t.kind = .openBracket)
    (hts : ts.length ≤ bound) :
    indexer term ts = .ok r ↔ Reads .member (t :: ts) none r := by
  have hskip := (passes_skipIndexName ts).length_le
  constructor
  · intro h
    obtain ⟨⟨k, us⟩, hk, h⟩ := bind_eq_ok.mp h
    obtain ⟨vs, hvs, h⟩ := bind_eq_ok.mp h
    obtain ⟨ws, hws, h⟩ := bind_eq_ok.mp h
    obtain ⟨⟨x, r'⟩, hx, h⟩ := bind_eq_ok.mp h
    cases h
    obtain ⟨c, hc, rfl⟩ := expect_eq_ok.mp hvs
    obtain ⟨d, hd, rfl⟩ := expect_eq_ok.mp hws
    have hk := (hterm _ (by omega) _ _).mp hk
    have hlen := hk.length_le
    simp only [List.length_cons] at hlen
    exact .indexer ht hk hc hd ((hterm ws (by omega) _ _).mp hx)
  · intro h
    cases h with
    | @indexer _ c d _ us _ k x _ hk hc hd hx =>
      have hlen := hk.length_le
      simp only [List.length_cons] at hlen
      refine bind_eq_ok.mpr ⟨(k, c :: d :: us), (hterm _ (by omega) _ _).mpr hk, ?_⟩
      refine bind_eq_ok.mpr ⟨d :: us, expect_cons hc _, ?_⟩
      refine bind_eq_ok.mpr ⟨us, expect_cons hd us, ?_⟩
      exact bind_eq_ok.mpr ⟨(x, r), (hterm us (by omega) _ _).mpr hx, rfl⟩
    | bareSpread ht' _ => cases ht.symm.trans ht'
    | spread ht' _ _ => cases ht.symm.trans ht'
    | call ht' _ => simp [ht] at ht'

theorem keyedMember_eq_ok {t : Token} {ts r : List Token} {m : Member}
    (ht : t.kind ∉ [.ellipsis, .openBracket, .openParen, .openAngle])
    (hts : ts.length ≤ bound) :
    keyedMember term bound (skipVariance (t :: ts)) = .ok (m, r)
      ↔ Reads .member (t :: ts) (some m) r := by
  have hskip := (passes_skipVariance (t :: ts)).length_le
  rw [List.length_cons] at hskip
  have hmethod := agrees_functionWith hterm (.inr rfl)
  constructor
  · intro h
    cases hk : skipVariance (t :: ts) with
    | nil =>
      rw [hk] at h
      cases h
    | cons k rest =>
      rw [hk, List.length_cons] at hskip
      rw [hk] at h
      cases hkey : key? k with
      | none =>
        simp only [keyedMember, hkey] at h
        cases h
      | some key =>
        simp only [keyedMember, hkey] at h
        split at h
        · rename_i hopen
          obtain ⟨⟨x, us⟩, hx, h⟩ := bind_eq_ok.mp h
          cases h
          exact .method ht hk hkey hopen ((hmethod rest (by omega) _ _).mp hx)
        · rename_i hopen
          obtain ⟨us, hus, h⟩ := bind_eq_ok.mp h
          obtain ⟨⟨x, vs⟩, hx, h⟩ := bind_eq_ok.mp h
          cases h
          obtain ⟨c, hc, hcolon⟩ := expect_eq_ok.mp hus
          have hlen := (passes_skip .question rfl rfl rest).length_le
          rw [hcolon, List.length_cons] at hlen
          exact .property ht hk hkey (by simpa using hopen) hcolon hc
            ((hterm us (by omega) _ _).mp hx)
  · intro h
    cases h with
    | @method _ k _ rest _ key x _ hk hkey hopen hx =>
      rw [hk, List.length_cons] at hskip
      simp only [hk, keyedMember, hkey, hopen, if_true]
      exact bind_eq_ok.mpr ⟨(x, r), (hmethod rest (by omega) _ _).mpr hx, rfl⟩
    | @property _ k c _ rest us _ key x _ hk hkey hopen hcolon hc hx =>
      rw [hk, List.length_cons] at hskip
      have hlen := (passes_skip .question rfl rfl rest).length_le
      rw [hcolon, List.length_cons] at hlen
      simp only [hk, keyedMember, hkey, hopen]
      refine bind_eq_ok.mpr ⟨us, expect_eq_ok.mpr ⟨c, hc, hcolon⟩, ?_⟩
      exact bind_eq_ok.mpr ⟨(x, r), (hterm us (by omega) _ _).mpr hx, rfl⟩

theorem agrees_member : Agrees .member (member term bound) (bound + 1) := by
  intro ts hts m r
  cases ts with
  | nil =>
    constructor
    · intro h
      cases h
    · intro h
      exact absurd (h.length_lt rfl) (Nat.not_lt_zero _)
  | cons t ts =>
    rw [List.length_cons] at hts
    unfold member
    dsimp only
    split
    · rename_i ht
      cases h : spreadEnds ts with
      | true =>
        rw [if_pos rfl]
        constructor
        · rintro ⟨⟩
          exact .bareSpread ht h
        · intro hread
          cases hread <;> simp_all
      | false =>
        rw [if_neg Bool.false_ne_true]
        constructor
        · intro hread
          obtain ⟨⟨x, us⟩, hx, hr⟩ := bind_eq_ok.mp hread
          cases hr
          exact .spread ht h ((hterm ts (by omega) _ _).mp hx)
        · intro hread
          cases hread with
          | @spread _ _ _ x _ _ hx =>
            exact bind_eq_ok.mpr ⟨(x, r), (hterm ts (by omega) _ _).mpr hx, rfl⟩
          | _ => simp_all
    · rename_i ht
      constructor
      · intro h
        obtain ⟨us, hus, h⟩ := bind_eq_ok.mp h
        cases h
        exact (indexer_eq_ok hterm ht (by omega)).mp hus
      · intro hread
        have hm : m = none := by cases hread <;> simp_all
        subst hm
        exact bind_eq_ok.mpr ⟨r, (indexer_eq_ok hterm ht (by omega)).mpr hread, rfl⟩
    iterate 2
      rename_i ht
      have hlen : (t :: ts).length ≤ bound + 1 := hts
      have hmethod := agrees_functionWith hterm (.inr rfl) (t :: ts) hlen
      constructor
      · intro h
        obtain ⟨⟨x, us⟩, hx, h⟩ := bind_eq_ok.mp h
        cases h
        exact .call (by simp [ht]) ((hmethod _ _).mp hx)
      · intro hread
        cases hread with
        | @call _ _ _ x _ hx => exact bind_eq_ok.mpr ⟨(x, r), (hmethod _ _).mpr hx, rfl⟩
        | _ => simp_all
    · rename_i hellipsis hbracket hparen hangle
      have ht : t.kind ∉ [.ellipsis, .openBracket, .openParen, .openAngle] := by
        simp_all
      constructor
      · intro h
        obtain ⟨⟨x, us⟩, hx, h⟩ := bind_eq_ok.mp h
        cases h
        exact (keyedMember_eq_ok hterm ht (by omega)).mp hx
      · intro hread
        cases m with
        | none => cases hread <;> simp_all
        | some m =>
          exact bind_eq_ok.mpr ⟨(m, r), (keyedMember_eq_ok hterm ht (by omega)).mpr hread, rfl⟩

theorem agrees_members (exact : Bool) :
    Agrees (.members exact) (members term exact bound) bound := by
  induction bound with
  | zero =>
    intro ts hts ms r
    cases List.length_eq_zero_iff.mp (Nat.le_zero.mp hts)
    constructor
    · intro h
      cases h
    · intro h
      exact absurd (h.length_lt rfl) (Nat.not_lt_zero _)
  | succ n ih =>
    have ih := ih (hterm.mono (Nat.le_succ n))
    have hmember := agrees_member (hterm.mono (Nat.le_succ n))
    intro ts hts ms r
    rw [members]
    cases hclose : objectEnd? exact ts with
    | some us =>
      constructor
      · rintro ⟨⟩
        exact .noMembers hclose
      · intro hread
        cases hread with
        | noMembers h =>
          cases hclose.symm.trans h
          rfl
        | members h _ _ _ => cases hclose.symm.trans h
    | none =>
      constructor
      · intro h
        dsimp only at h
        split at h
        · cases h
        · obtain ⟨⟨m, us⟩, hm, h⟩ := bind_eq_ok.mp h
          obtain ⟨vs, hvs, h⟩ := bind_eq_ok.mp h
          obtain ⟨⟨ms', ws⟩, hms, h⟩ := bind_eq_ok.mp h
          cases h
          have hm := (hmember ts hts m us).mp hm
          have hus := hm.length_lt rfl
          have hlen : vs.length + 0 ≤ us.length := (passes_memberEnd hvs).length_le
          exact .members hclose hm hvs ((ih vs (by omega) _ _).mp hms)
      · intro hread
        cases hread with
        | noMembers h => cases hclose.symm.trans h
        | @members _ _ us vs _ m ms' _ hm hend hms =>
          have hus := hm.length_lt rfl
          have hlen := (passes_memberEnd hend).length_le
          have hts' : ts.isEmpty = false := by
            cases ts with
            | nil => exact absurd hus (Nat.not_lt_zero _)
            | cons t ts => rfl
          simp only [hts']
          refine bind_eq_ok.mpr ⟨(m, us), (hmember ts hts _ _).mpr hm, ?_⟩
          refine bind_eq_ok.mpr ⟨vs, hend, ?_⟩
          exact bind_eq_ok.mpr ⟨(ms', r), (ih vs (by omega) _ _).mpr hms, rfl⟩

theorem object_eq_ok {t : Token} {ts r : List Token} {x : TypeTerm} (ht : t.kind = .openBrace)
    (hts : ts.length ≤ bound) :
    object term bound (t :: ts) = .ok (x, r) ↔ Reads .primary (t :: ts) x r := by
  have hskip := (passes_skip .pipe rfl rfl ts).length_le
  have hmembers := agrees_members hterm (startsWith .pipe ts) (skip .pipe ts) (by omega)
  constructor
  · intro h
    obtain ⟨us, hus, h⟩ := bind_eq_ok.mp h
    cases (expect_cons ht ts).symm.trans hus
    obtain ⟨⟨ms, vs⟩, hms, h⟩ := bind_eq_ok.mp h
    cases h
    exact .object ht ((hmembers _ _).mp hms)
  · intro h
    cases h with
    | @object _ _ _ ms _ hms =>
      refine bind_eq_ok.mpr ⟨ts, expect_cons ht ts, ?_⟩
      exact bind_eq_ok.mpr ⟨(ms, r), (hmembers _ _).mpr hms, rfl⟩
    | _ => simp_all

end Object

/-! ## Terms by strength of binding -/

section Strength

variable {term : Reader TypeTerm} {bound : Nat} (hterm : Agrees .term term bound)

include hterm

theorem agrees_primary : Agrees .primary (primary term bound) (bound + 1) := by
  intro ts hts x r
  cases ts with
  | nil =>
    constructor
    · intro h
      cases h
    · intro h
      exact absurd (h.length_lt rfl) (Nat.not_lt_zero _)
  | cons t ts =>
    rw [List.length_cons] at hts
    unfold primary
    dsimp only
    split
    · rename_i ht
      exact object_eq_ok hterm ht (by omega)
    · rename_i ht
      exact tuple_eq_ok hterm ht (by omega)
    · rename_i ht
      exact parenthesised_eq_ok hterm ht (by omega)
    · rename_i ht
      have hlen : (t :: ts).length ≤ bound + 1 := hts
      have hfunction := agrees_functionWith hterm (.inl rfl) (t :: ts) hlen x r
      constructor
      · exact fun h => .functionType (.inr ht) (hfunction.mp h)
      · intro h
        cases h with
        | functionType _ hx => exact hfunction.mpr hx
        | _ => simp_all
    · rename_i ht
      constructor
      · rintro ⟨⟩
        exact .stringLiteral ht
      · intro h
        cases h with
        | stringLiteral _ => rfl
        | _ => simp_all
    · rename_i ht
      constructor
      · rintro ⟨⟩
        exact .numberLiteral ht
      · intro h
        cases h with
        | numberLiteral _ => rfl
        | _ => simp_all
    · rename_i ht
      constructor
      · intro h
        cases ts with
        | nil => cases h
        | cons n ts =>
          dsimp only at h
          split at h
          · rename_i hn
            cases h
            exact .negativeLiteral ht hn
          · cases h
      · intro h
        cases h with
        | negativeLiteral _ hn => exact if_pos hn
        | _ => simp_all
    · rename_i ht
      exact name_eq_ok hterm ht (by omega)
    · rename_i ht
      constructor
      · rintro ⟨⟩
        exact .existential ht
      · intro h
        cases h with
        | existential _ => rfl
        | _ => simp_all
    · constructor
      · intro h
        cases h
      · intro h
        cases h <;> simp_all

theorem agrees_nullable : Agrees .operand (nullable term bound) (bound + 1) := by
  have hprimary := agrees_primary hterm
  -- A term that begins with no question mark.
  have hsuffixed : ∀ ts : List Token, ts.length ≤ bound + 1 → startsWith .question ts = false →
      ∀ x r, suffixed term bound ts = .ok (x, r) ↔ Reads .operand ts x r := by
    intro ts hts hquestion x r
    constructor
    · intro h
      obtain ⟨⟨y, us⟩, hy, h⟩ := bind_eq_ok.mp h
      have hread := Reads.suffixed hquestion ((hprimary ts hts y us).mp hy)
      rw [Except.ok.inj h] at hread
      exact hread
    · intro h
      cases h with
      | nullable ht _ => simp [ht] at hquestion
      | @suffixed _ us y _ hy => exact bind_eq_ok.mpr ⟨(y, us), (hprimary ts hts y us).mpr hy, rfl⟩
  intro ts
  induction ts with
  | nil => exact fun hts x r => hsuffixed [] hts rfl x r
  | cons t ts ih =>
    intro hts x r
    rw [nullable]
    split
    · rename_i ht
      have ih := ih (Nat.le_of_succ_le hts)
      constructor
      · intro h
        obtain ⟨⟨y, us⟩, hy, h⟩ := bind_eq_ok.mp h
        cases h
        exact .nullable ht ((ih y _).mp hy)
      · intro h
        cases h with
        | @nullable _ _ _ y _ hy => exact bind_eq_ok.mpr ⟨(y, r), (ih y r).mpr hy, rfl⟩
        | suffixed h _ => simp [ht] at h
    · rename_i ht
      exact hsuffixed (t :: ts) hts (by simpa using ht) x r

theorem agrees_intersection : Agrees .conjunct (intersection term bound) (bound + 1) :=
  agrees_joined .intersection (agrees_nullable hterm)

theorem agrees_union : Agrees .term (union term bound) (bound + 1) :=
  agrees_joined .union (agrees_intersection hterm)

end Strength

/-- The reader of terms reads exactly what the rules allow. -/
theorem agrees_term (bound : Nat) : Agrees .term (term bound) bound := by
  induction bound with
  | zero =>
    intro ts hts x r
    cases List.length_eq_zero_iff.mp (Nat.le_zero.mp hts)
    constructor
    · intro h
      cases h
    · intro h
      exact absurd (h.length_lt rfl) (Nat.not_lt_zero _)
  | succ bound ih => exact agrees_union ih

end Grammar

end AliasCheck
