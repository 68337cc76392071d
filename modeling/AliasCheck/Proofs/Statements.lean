import AliasCheck.Program.Grammar
import AliasCheck.Proofs.Readers

/-!
# What the readers of statements read

Statements and programs get the same treatment as terms: relations say what stands at the beginning
of a list of tokens, without bounds, and the readers agree with them. Code that is not understood
remains a function, `skipStatement`, since where a statement ends is decided by nothing but that
function. What it does is described by `Skips`: it goes on until all of its brackets are closed, and
it does not run over the beginning of a statement that it should have stopped at.
-/

namespace AliasCheck

open Grammar AliasCheck.Bracket

/-! ## Skipped code -/

/-- The tokens `used`, in front of `r`, are code that closes the brackets in `stack`. Outside all
brackets no statement begins in it, except that the first token is not looked at if `first` says
so. -/
structure Skips (first : Bool) (stack : List Bracket) (used r : List Token) : Prop where
  closed : openAfter isCode stack used = some []
  boundary : ∀ pre post, used = pre ++ post → post ≠ [] → (first = true → pre ≠ []) →
    openAfter isCode stack pre = some [] → startsStatement (post ++ r) = false

namespace Skips

variable {first : Bool} {stack next : List Bracket} {t : Token} {used r : List Token}

theorem nil (first : Bool) (r : List Token) : Skips first [] [] r where
  closed := rfl
  boundary := by
    intro pre post h hpost
    exact absurd (List.append_eq_nil_iff.mp h.symm).2 hpost

theorem cons (hstep : step isCode stack t = some next)
    (hhead : first = false → stack = [] → startsStatement (t :: (used ++ r)) = false)
    (h : Skips false next used r) : Skips first stack (t :: used) r where
  closed := by
    rw [openAfter_cons, hstep]
    exact h.closed
  boundary := by
    intro pre post hsplit hpost hfirst hopen
    cases pre with
    | nil =>
      rw [openAfter_nil, Option.some.injEq] at hopen
      have hfalse : first = false := by simpa using hfirst
      have := hhead hfalse hopen
      simp only [List.nil_append] at hsplit
      rw [← hsplit]
      exact this
    | cons u pre =>
      rw [List.cons_append, List.cons.injEq] at hsplit
      obtain ⟨rfl, rfl⟩ := hsplit
      rw [openAfter_cons, hstep] at hopen
      exact h.boundary pre post rfl hpost (by simp) hopen

end Skips

/-- A statement that is skipped ends with this token, `depth` brackets being open in front of it. -/
def endsStatement (depth : Nat) (t : Token) : Bool :=
  (t.kind == .closeBrace && decide (depth ≤ 1)) || (t.kind == .semicolon && depth == 0)

section Step

variable {first : Bool} {stack next : List Bracket} {t : Token}

theorem eq_nil_of_endsStatement (hstep : step isCode stack t = some next)
    (h : endsStatement stack.length t = true) : next = [] := by
  rcases step_isCode hstep with ⟨b, rfl, hkind⟩ | ⟨b, rfl, hcloser, hkind⟩ | ⟨rfl, hkind⟩
  · simp only [List.mem_cons, List.not_mem_nil, or_false] at hkind
    rcases hkind with hkind | hkind | hkind <;> simp [endsStatement, hkind] at h
  · simp only [List.mem_cons, List.not_mem_nil, or_false] at hkind
    rcases hkind with hkind | hkind | hkind <;> simp_all [endsStatement]
  · have hsemicolon : t.kind = .semicolon ∧ next.length = 0 := by
      simp only [List.mem_cons, List.not_mem_nil, or_false, not_or] at hkind
      simpa [endsStatement, hkind] using h
    exact List.length_eq_zero_iff.mp hsemicolon.2

/-- The number of brackets that are open is all that skipping has to know about them. -/
theorem skipStatement_cons (hstep : step isCode stack t = some next) {ts : List Token}
    (hgo : (!first && stack.length == 0 && startsStatement (t :: ts)) = false) :
    skipStatement first stack.length (t :: ts)
      = if endsStatement stack.length t then ts else skipStatement false next.length ts := by
  rw [skipStatement, hgo, if_neg Bool.false_ne_true]
  rcases step_isCode hstep with ⟨b, rfl, hkind⟩ | ⟨b, rfl, hcloser, hkind⟩ | ⟨rfl, hkind⟩
  · simp only [List.mem_cons, List.not_mem_nil, or_false] at hkind
    rcases hkind with hkind | hkind | hkind <;> simp [endsStatement, hkind]
  · simp only [List.mem_cons, List.not_mem_nil, or_false] at hkind
    rcases hkind with hkind | hkind | hkind <;> simp [endsStatement, hkind]
  · split <;> simp_all [endsStatement]

end Step

/-- A statement is skipped to the end of its brackets, and not beyond the next one. -/
theorem skips_skipStatement (first : Bool) {stack : List Bracket} {ts : List Token}
    (h : openAfter isCode stack ts = some []) :
    ∃ used, ts = used ++ skipStatement first stack.length ts ∧
      Skips first stack used (skipStatement first stack.length ts) := by
  induction ts generalizing first stack with
  | nil =>
    cases h
    exact ⟨[], by simp [skipStatement], .nil _ _⟩
  | cons t ts ih =>
    rw [openAfter_cons] at h
    obtain ⟨next, hstep, hrest⟩ := Option.bind_eq_some_iff.mp h
    cases hstop : !first && stack.length == 0 && startsStatement (t :: ts) with
    | true =>
      rw [skipStatement, hstop, if_pos rfl]
      simp only [Bool.and_eq_true, beq_iff_eq, List.length_eq_zero_iff] at hstop
      rw [hstop.1.2]
      exact ⟨[], rfl, .nil _ _⟩
    | false =>
      rw [skipStatement_cons hstep hstop]
      have hhead : first = false → stack = [] → startsStatement (t :: ts) = false := by
        rintro rfl rfl
        simpa using hstop
      split
      · rename_i hends
        cases eq_nil_of_endsStatement hstep hends
        exact ⟨[t], rfl, .cons hstep hhead (.nil _ _)⟩
      · obtain ⟨used, hts, hskips⟩ := ih false hrest
        refine ⟨t :: used, by rw [List.cons_append, ← hts], .cons hstep ?_ hskips⟩
        rw [← hts]
        exact hhead

/-- What is skipped where no bracket is open. -/
theorem skips_skipStatement_zero (first : Bool) {ts : List Token} (h : Balanced isCode ts) :
    ∃ used, ts = used ++ skipStatement first 0 ts ∧
      Skips first [] used (skipStatement first 0 ts) :=
  skips_skipStatement first h

/-! ## Statements -/

/-- The alias that a statement declares, however often it is exported. -/
def Statement.alias? : Statement → Option Alias
  | .declares a => some a
  | .exported inner => inner.alias?
  | .other => none

/-- An alias declaration, without its first word, stands at the beginning of a list of tokens. -/
inductive ReadsAlias : List Token → Alias → List Token → Prop where
  | mk {n e : Token} {ts r r' : List Token} {params : List String} {body : TypeTerm}
      (hname : n.kind = .identifier) (hparams : Reads .typeParams ts params (e :: r))
      (he : e.kind = .equals) (hbody : Reads .term r body r') :
      ReadsAlias (n :: ts) ⟨n.text, params, body⟩ (skip .semicolon r')

/-- A statement stands at the beginning of a list of tokens. -/
inductive ReadsStatement : List Token → Statement → List Token → Prop where
  | exported {t : Token} {ts r : List Token} {s : Statement} (ht : t.isWord "export" = true)
      (hts : ts ≠ []) (hs : ReadsStatement ts s r) : ReadsStatement (t :: ts) (.exported s) r
  | hidden {t : Token} {ts : List Token}
      (ht : (t.isWord "opaque" || t.isWord "declare") = true) :
      ReadsStatement (t :: ts) .other (skipStatement true 0 ts)
  | declares {t : Token} {ts r : List Token} {a : Alias} (ht : startsAlias (t :: ts) = true)
      (ha : ReadsAlias ts a r) : ReadsStatement (t :: ts) (.declares a) r
  | other {t : Token} {ts : List Token} (hexport : (t.isWord "export" && !ts.isEmpty) = false)
      (hhidden : (t.isWord "opaque" || t.isWord "declare") = false)
      (halias : startsAlias (t :: ts) = false) :
      ReadsStatement (t :: ts) .other (skipStatement true 0 (t :: ts))

/-- A list of tokens is a program. -/
inductive Runs : List Token → Program → Prop where
  | nil : Runs [] []
  | empty {t : Token} {ts : List Token} {p : Program} (ht : t.kind = .semicolon)
      (hp : Runs ts p) : Runs (t :: ts) p
  | statement {t : Token} {ts r : List Token} {s : Statement} {p : Program}
      (ht : t.kind ≠ .semicolon) (hs : ReadsStatement (t :: ts) s r) (hp : Runs r p) :
      Runs (t :: ts) (s :: p)

/-- A token that is one word is no other word. -/
theorem Token.isWord_ne {t : Token} {word other : String} (h : t.isWord word = true)
    (hne : word ≠ other) : t.isWord other = false := by
  simp only [Token.isWord, Bool.and_eq_true, beq_iff_eq] at h
  simp [Token.isWord, h, hne]

theorem isWord_of_startsAlias {t : Token} {ts : List Token} (h : startsAlias (t :: ts) = true) :
    t.isWord "type" = true := by
  unfold startsAlias at h
  split at h
  · rename_i heq
    cases heq
    simp only [Bool.and_eq_true] at h
    exact h.1.1
  · cases h

theorem balanced_word {t : Token} {word : String} (ht : t.isWord word = true) :
    Balanced isCode [t] := by
  have hkind : t.kind = .identifier := by
    simp only [Token.isWord, Bool.and_eq_true, beq_iff_eq] at ht
    exact ht.1
  exact .plain (by rw [hkind]; rfl) (by rw [hkind]; rfl)

/-- What an alias declaration takes. -/
theorem ReadsAlias.consumed {ts r : List Token} {a : Alias} (h : ReadsAlias ts a r) :
    Passes isCode 1 [] ts r := by
  cases h with
  | mk hname hparams he hbody =>
    have hhead : Passes isCode _ [] _ _ := (Passes.plain hname rfl rfl _).trans hparams.consumed
    have htail : Passes isCode _ [] _ _ := (Passes.plain he rfl rfl _).trans
      (hbody.consumed.trans (passes_skip .semicolon rfl rfl _))
    exact (hhead.trans htail).mono (by simp [Phrase.least])

theorem declaration_eq_ok {bound : Nat} {ts r : List Token} {a : Alias} (hts : ts.length ≤ bound) :
    declaration bound ts = .ok (a, r) ↔ ReadsAlias ts a r := by
  have hterm := agrees_term bound
  have hparams := agrees_typeParams hterm
  constructor
  · intro h
    obtain ⟨⟨name, us⟩, hname, h⟩ := bind_eq_ok.mp h
    obtain ⟨⟨params, vs⟩, hvs, h⟩ := bind_eq_ok.mp h
    obtain ⟨ws, hws, h⟩ := bind_eq_ok.mp h
    obtain ⟨⟨body, zs⟩, hzs, h⟩ := bind_eq_ok.mp h
    cases h
    obtain ⟨n, hn, rfl, rfl⟩ := identifier_eq_ok.mp hname
    obtain ⟨e, he, rfl⟩ := expect_eq_ok.mp hws
    rw [List.length_cons] at hts
    have hread := (hparams us (by omega) _ _).mp hvs
    have hlen := hread.length_le
    rw [List.length_cons] at hlen
    exact .mk hn hread he ((hterm ws (by omega) _ _).mp hzs)
  · intro h
    cases h with
    | @mk n e us vs zs params body hn hread he hbody =>
      rw [List.length_cons] at hts
      have hlen := hread.length_le
      rw [List.length_cons] at hlen
      refine bind_eq_ok.mpr ⟨(n.text, us), identifier_eq_ok.mpr ⟨n, hn, rfl, rfl⟩, ?_⟩
      refine bind_eq_ok.mpr ⟨(params, e :: vs), (hparams us (by omega) _ _).mpr hread, ?_⟩
      refine bind_eq_ok.mpr ⟨vs, expect_cons he vs, ?_⟩
      exact bind_eq_ok.mpr ⟨(body, zs), (hterm vs (by omega) _ _).mpr hbody, rfl⟩

theorem statement_eq_ok {bound : Nat} {ts r : List Token} {s : Statement} (hne : ts ≠ [])
    (hts : ts.length ≤ bound) : statement bound ts = .ok (s, r) ↔ ReadsStatement ts s r := by
  induction ts generalizing s with
  | nil => exact absurd rfl hne
  | cons t ts ih =>
    rw [List.length_cons] at hts
    rw [statement]
    constructor
    · intro h
      split at h
      · rename_i hexport
        rw [Bool.and_eq_true] at hexport
        have hrest : ts ≠ [] := by simpa using hexport.2
        obtain ⟨⟨inner, us⟩, hinner, h⟩ := bind_eq_ok.mp h
        cases h
        exact .exported hexport.1 hrest ((ih hrest (by omega)).mp hinner)
      · rename_i hexport
        split at h
        · rename_i hhidden
          cases h
          exact .hidden hhidden
        · rename_i hhidden
          split at h
          · rename_i halias
            obtain ⟨⟨a, us⟩, ha, h⟩ := bind_eq_ok.mp h
            cases h
            exact .declares halias ((declaration_eq_ok (by omega)).mp ha)
          · rename_i halias
            cases h
            exact .other (by simpa using hexport) (by simpa using hhidden) (by simpa using halias)
    · intro h
      cases h with
      | @exported _ _ _ inner ht hrest hs =>
        rw [if_pos (by simpa [ht] using hrest)]
        exact bind_eq_ok.mpr ⟨(inner, r), (ih hrest (by omega)).mpr hs, rfl⟩
      | hidden ht =>
        have hexport : t.isWord "export" = false := by
          rcases Bool.or_eq_true_iff.mp ht with h | h <;> exact Token.isWord_ne h (by decide)
        rw [hexport, Bool.false_and, if_neg Bool.false_ne_true, if_pos ht]
      | @declares _ _ _ a ht ha =>
        have htype := isWord_of_startsAlias ht
        rw [Token.isWord_ne htype (by decide : "type" ≠ "export"),
          Token.isWord_ne htype (by decide : "type" ≠ "opaque"),
          Token.isWord_ne htype (by decide : "type" ≠ "declare"), Bool.false_and, Bool.or_false,
          if_neg Bool.false_ne_true, if_neg Bool.false_ne_true, if_pos ht]
        exact bind_eq_ok.mpr ⟨(a, r), (declaration_eq_ok (by omega)).mpr ha, rfl⟩
      | other hexport hhidden halias =>
        rw [hexport, hhidden, halias, if_neg Bool.false_ne_true, if_neg Bool.false_ne_true,
          if_neg Bool.false_ne_true]

theorem skipStatement_suffix (first : Bool) (depth : Nat) (ts : List Token) :
    skipStatement first depth ts <:+ ts := by
  induction ts generalizing first depth with
  | nil => exact List.suffix_rfl
  | cons t ts ih =>
    have htail := List.suffix_cons t ts
    have hmore : ∀ depth, skipStatement false depth ts <:+ t :: ts := fun depth =>
      (ih false depth).trans htail
    rw [skipStatement]
    split
    · exact List.suffix_rfl
    · split
      iterate 5 exact hmore _
      · split
        · exact htail
        · exact hmore _
      · split
        · exact htail
        · exact hmore _
      · exact hmore _

theorem skipStatement_length_le (first : Bool) (depth : Nat) (ts : List Token) :
    (skipStatement first depth ts).length ≤ ts.length :=
  (skipStatement_suffix first depth ts).length_le

/-- The first token of a statement is skipped whatever it is. -/
theorem skipStatement_first_length (t : Token) (ts : List Token) :
    (skipStatement true 0 (t :: ts)).length ≤ ts.length := by
  have hrest := fun depth => skipStatement_length_le false depth ts
  rw [skipStatement]
  split
  · simp_all
  · split
    all_goals first
      | exact hrest _
      | split
        · exact Nat.le_refl _
        · exact hrest _

/-- A statement takes at least one token. -/
theorem ReadsStatement.length_lt {ts r : List Token} {s : Statement} (h : ReadsStatement ts s r) :
    r.length < ts.length := by
  induction h with
  | exported _ _ _ ih => exact Nat.lt_succ_of_lt ih
  | hidden _ => exact Nat.lt_succ_of_le (skipStatement_length_le ..)
  | declares _ ha =>
    have hlen := ha.consumed.length_le
    rw [List.length_cons]
    omega
  | other _ _ _ => exact Nat.lt_succ_of_le (skipStatement_first_length ..)

/-- In a list of tokens whose brackets are nested properly, a statement closes all of its own. -/
theorem ReadsStatement.consumed {ts r : List Token} {s : Statement} (h : ReadsStatement ts s r)
    (hts : Balanced isCode ts) : ∃ used, ts = used ++ r ∧ Balanced isCode used := by
  induction h with
  | @exported t _ _ _ ht _ _ ih =>
    have hword := balanced_word ht
    obtain ⟨used, rfl, hused⟩ := ih (hts.of_cons hword)
    exact ⟨t :: used, rfl, hword.append hused⟩
  | @hidden t _ ht =>
    have hword : Balanced isCode [t] := by
      rcases Bool.or_eq_true_iff.mp ht with h | h <;> exact balanced_word h
    obtain ⟨used, hsplit, hskips⟩ := skips_skipStatement_zero true (hts.of_cons hword)
    exact ⟨t :: used, by rw [List.cons_append, ← hsplit], hword.append hskips.closed⟩
  | @declares t _ _ _ ht ha =>
    obtain ⟨used, rfl, -, hused⟩ := ha.consumed
    exact ⟨t :: used, rfl, (balanced_word (isWord_of_startsAlias ht)).append hused⟩
  | other _ _ _ =>
    obtain ⟨used, hsplit, hskips⟩ := skips_skipStatement_zero true hts
    exact ⟨used, hsplit, hskips.closed⟩

/-- The reader of programs reads exactly what the rules allow. -/
theorem program_eq_ok {bound : Nat} {ts : List Token} {p : Program} (hts : ts.length ≤ bound) :
    program bound ts = .ok p ↔ Runs ts p := by
  induction bound generalizing ts p with
  | zero =>
    cases List.length_eq_zero_iff.mp (Nat.le_zero.mp hts)
    constructor
    · rintro ⟨⟩
      exact .nil
    · intro h
      cases h
      rfl
  | succ bound ih =>
    cases ts with
    | nil =>
      rw [program]
      constructor
      · rintro ⟨⟩
        exact .nil
      · intro h
        cases h
        rfl
    | cons t ts =>
      have hstatement := fun s r => statement_eq_ok (s := s) (r := r) (List.cons_ne_nil t ts) hts
      rw [List.length_cons] at hts
      rw [program]
      split
      · rename_i ht
        constructor
        · exact fun h => .empty ht ((ih (by omega)).mp h)
        · intro h
          cases h with
          | empty _ hp => exact (ih (by omega)).mpr hp
          | statement hne _ _ => exact absurd ht hne
      · rename_i ht
        constructor
        · intro h
          obtain ⟨⟨s, us⟩, hs, h⟩ := bind_eq_ok.mp h
          obtain ⟨more, hmore, h⟩ := bind_eq_ok.mp h
          cases h
          have hread := (hstatement s us).mp hs
          have hlen := hread.length_lt
          rw [List.length_cons] at hlen
          exact .statement ht hread ((ih (by omega)).mp hmore)
        · intro h
          cases h with
          | empty hsemicolon _ => exact absurd hsemicolon ht
          | @statement _ _ us s more _ hs hp =>
            have hlen := hs.length_lt
            rw [List.length_cons] at hlen
            refine bind_eq_ok.mpr ⟨(s, us), (hstatement s us).mpr hs, ?_⟩
            exact bind_eq_ok.mpr ⟨more, (ih (by omega)).mpr hp, rfl⟩

/-- A source is read if its tokens are a program. -/
theorem parse_eq_ok {source : String} {tokens : List Token} {p : Program}
    (hscan : Token.scan (blankDeclarations source.toList) = .ok tokens) :
    Program.parse source = .ok p ↔ Runs tokens p := by
  unfold Program.parse
  dsimp only
  rw [hscan, ← program_eq_ok (Nat.le_refl tokens.length)]
  exact mapError_eq_ok

end AliasCheck
