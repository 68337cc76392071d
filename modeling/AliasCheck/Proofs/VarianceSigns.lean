import AliasCheck.Proofs.ExchangedDeclarations

/-!
# Variance signs

A sign in front of a member of an object type says whether the member may be read or written. It is
dropped in front of a key, so a program with the sign is the same as without it. Spreads, indexers
and call properties are told by their first token, before a sign is looked for. With a sign they are
taken for a member with a key, and as no key follows the sign, the program is refused.
-/

namespace AliasCheck

open Grammar

variable {s t o : Token} {ts us r r' rest : List Token} {exact' : Bool}

/-! ## Members -/

/-- The members of an object type are read from `ts` on, and one of them begins at `us`. -/
inductive MemberOf (exact : Bool) : (ts us : List Token) → Prop where
  | first {ts : List Token} (hopen : objectEnd? exact ts = none) : MemberOf exact ts ts
  | later {ts r r' us : List Token} {m : Option Member} (hopen : objectEnd? exact ts = none)
      (hm : Reads .member ts m r) (hend : memberEnd exact r = .ok r') (h : MemberOf exact r' us) :
      MemberOf exact ts us

/-- The token is a sign of variance. -/
def Token.IsSign (t : Token) : Prop := t.kind = .plus ∨ t.kind = .minus

theorem Reads.member_unique {m m' : Option Member} (h : Reads .member ts m r)
    (h' : Reads .member ts m' r') : m = m' ∧ r = r' := by
  have hread := agrees_member (agrees_term ts.length) ts (Nat.le_succ _)
  have heq := (hread m r).mpr h
  rw [(hread m' r').mpr h'] at heq
  cases heq
  exact ⟨rfl, rfl⟩

theorem skipVariance_sign (hs : s.IsSign) (ts : List Token) : skipVariance (s :: ts) = ts := by
  unfold skipVariance
  rcases hs with hs | hs
  · rw [eat?_cons hs]
  · rw [eat?_eq_none.mpr (by rw [startsWith_cons, hs]; rfl), skip, eat?_cons hs]
    rfl

theorem skipVariance_key {key : String} (hkey : key? t = some key) (ts : List Token) :
    skipVariance (t :: ts) = t :: ts := by
  have hne : ∀ kind, kind = .plus ∨ kind = .minus → eat? kind (t :: ts) = none := by
    intro kind hkind
    refine eat?_eq_none.mpr (beq_eq_false_iff_ne.mpr fun ht => ?_)
    rw [key?, ht] at hkey
    rcases hkind with rfl | rfl <;> cases hkey
  rw [skipVariance, hne _ (.inl rfl), skip, hne _ (.inr rfl)]
  rfl

/-- A sign in front of a key is dropped. -/
theorem Reads.sign {m : Option Member} (h : Reads .member (t :: us) m r) (hs : s.IsSign)
    (hkey : (key? t).isSome = true) : Reads .member (s :: t :: us) m r := by
  obtain ⟨key, hkey⟩ := Option.isSome_iff_exists.mp hkey
  have hkind : s.kind ∉ [.ellipsis, .openBracket, .openParen, .openAngle] := by
    rcases hs with hs | hs <;> rw [hs] <;> decide
  have hskip : skipVariance (s :: t :: us) = skipVariance (t :: us) :=
    (skipVariance_sign hs (t :: us)).trans (skipVariance_key hkey us).symm
  cases h with
  | method _ hk hname h hx => exact .method hkind (hskip.trans hk) hname h hx
  | property _ hk hname h hc hcolon hx =>
    exact .property hkind (hskip.trans hk) hname h hc hcolon hx
  | bareSpread ht _ | spread ht _ _ | indexer ht _ _ _ _ =>
    rw [key?, ht] at hkey
    cases hkey
  | call ht _ =>
    rcases ht with ht | ht
    all_goals
      rw [key?, ht] at hkey
      cases hkey

/-- Behind a sign there is a key. -/
theorem Reads.key_of_sign {m : Option Member} (h : Reads .member (s :: us) m r) (hs : s.IsSign) :
    ∃ k more, us = k :: more ∧ (key? k).isSome = true := by
  have hkind : s.kind ∉ [.ellipsis, .openBracket, .openParen, .openAngle] := by
    rcases hs with hs | hs <;> rw [hs] <;> decide
  cases h with
  | method _ hk hkey _ _ | property _ hk hkey _ _ _ _ =>
    rw [skipVariance_sign hs] at hk
    exact ⟨_, _, hk, by rw [hkey]; rfl⟩
  | bareSpread ht _ | spread ht _ _ | indexer ht _ _ _ _ =>
    rw [ht] at hkind
    exact absurd hkind (by decide)
  | call ht _ =>
    rcases ht with ht | ht
    all_goals
      rw [ht] at hkind
      exact absurd hkind (by decide)

/-! ## Lists of members -/

theorem MemberOf.opened (h : MemberOf exact' ts us) : objectEnd? exact' ts = none := by
  cases h with
  | first hopen => exact hopen
  | later hopen _ _ _ => exact hopen

/-- Between two members there is a separator. -/
theorem memberEnd_separator (hend : memberEnd exact' r = .ok r')
    (hopen : objectEnd? exact' r' = none) : ∃ c, r = c :: r' ∧ c.kind ∈ [.semicolon, .comma] ∧
      ∀ other, memberEnd exact' (c :: other) = .ok other := by
  unfold memberEnd at hend ⊢
  split at hend
  · rename_i us hsemicolon
    cases hend
    obtain ⟨c, hc, rfl⟩ := eat?_eq_some.mp hsemicolon
    exact ⟨c, rfl, by simp [hc], fun other => by rw [eat?_cons hc]⟩
  · rename_i us _ hcomma
    cases hend
    obtain ⟨c, hc, rfl⟩ := eat?_eq_some.mp hcomma
    have hnone : ∀ other, eat? .semicolon (c :: other) = none := by
      intro other
      rw [eat?_eq_none, startsWith_cons, hc]
      rfl
    exact ⟨c, rfl, by simp [hc], fun other => by rw [hnone, eat?_cons hc]⟩
  · rename_i us _ _ hclose
    cases hend
    rw [hopen] at hclose
    cases hclose
  · cases hend

theorem Screens.objectEnd? {shown hidden other : List Token} (h : Screens shown)
    (hopen : Grammar.objectEnd? exact' (shown ++ hidden) = none) :
    Grammar.objectEnd? exact' (shown ++ other) = none := by
  have hkinds : ∀ k ∈ [.openBrace, .semicolon, .comma],
      k ∉ if exact' then [Token.Kind.pipe, .closeBrace] else [.closeBrace] := by
    cases exact' <;> decide
  rw [objectEnd?_eq_none, h.shows hkinds] at hopen ⊢
  exact hopen

theorem objectEnd?_sign (hs : s.IsSign) (us : List Token) : objectEnd? exact' (s :: us) = none := by
  rw [objectEnd?_eq_none]
  rcases hs with hs | hs <;> cases exact' <;> simp [hs]

/-- If a sign is put in front of a member, the other members are still read. -/
theorem MemberOf.sign (h : MemberOf exact' ts us) (hs : s.IsSign) :
    ∃ front, ts = front ++ us ∧ (∀ c, front.getLast? = some c → c.kind ∈ [.semicolon, .comma]) ∧
      MemberOf exact' (front ++ s :: us) (s :: us) ∧
      ∀ ms r, (∀ m r, Reads .member us m r → Reads .member (s :: us) m r) →
        Reads (.members exact') ts ms r → Reads (.members exact') (front ++ s :: us) ms r := by
  induction h with
  | @first ts hopen =>
    refine ⟨[], rfl, nofun, .first (objectEnd?_sign hs ts), fun ms r hsign hms => ?_⟩
    cases hms with
    | noMembers hclose =>
      rw [hopen] at hclose
      cases hclose
    | members _ hm hend hms => exact .members (objectEnd?_sign hs ts) (hsign _ _ hm) hend hms
  | @later ts r r' us m hopen hm hend hlater ih =>
    obtain ⟨front, rfl, hlast, hmember, hread⟩ := ih
    obtain ⟨c, rfl, hc, hends⟩ := memberEnd_separator hend hlater.opened
    obtain ⟨used, rfl, hused⟩ := hm.passage
    have hscreens : Screens (c :: front) := Screens.cons_iff.mpr (.inl (List.mem_cons_of_mem _ hc))
    have hm' := hused.unseen (c :: front) us (s :: us) rfl hscreens
    have hopens : objectEnd? exact' ((used ++ c :: front) ++ us) = none := by
      rwa [List.append_assoc]
    have hopen' : objectEnd? exact' ((used ++ c :: front) ++ s :: us) = none :=
      (hscreens.append_left used).objectEnd? hopens
    rw [← List.append_assoc] at hm'
    refine ⟨used ++ c :: front, by simp, ?_, ?_, fun ms r hsign hms => ?_⟩
    · intro d hd
      rw [List.getLast?_append_of_ne_nil _ (List.cons_ne_nil c front)] at hd
      cases front with
      | nil =>
        cases hd
        exact hc
      | cons e front => exact hlast d (by rwa [List.getLast?_cons_cons] at hd)
    · exact .later hopen' hm' (hends _) hmember
    · cases hms with
      | noMembers hclose =>
        rw [hopen] at hclose
        cases hclose
      | members _ hm₂ hend₂ hms₂ =>
        obtain ⟨rfl, rfl⟩ := hm.member_unique hm₂
        cases hend.symm.trans hend₂
        exact .members hopen' hm' (hends _) (hread _ _ hsign hms₂)

/-- Where a member begins, a member is read. -/
theorem MemberOf.reads {ms : List Member} (h : MemberOf exact' ts us)
    (hms : Reads (.members exact') ts ms r) : ∃ m r, Reads .member us m r := by
  induction h generalizing ms with
  | first hopen =>
    cases hms with
    | noMembers hclose =>
      rw [hopen] at hclose
      cases hclose
    | members _ hm _ _ => exact ⟨_, _, hm⟩
  | later hopen hm hend _ ih =>
    cases hms with
    | noMembers hclose =>
      rw [hopen] at hclose
      cases hclose
    | members _ hm' hend' hms =>
      obtain ⟨rfl, rfl⟩ := hm.member_unique hm'
      cases hend.symm.trans hend'
      exact ih hms

/-! ## Object types -/

/-- Behind the bar of an exact object type, the tokens stay what they are. -/
theorem skip_pipe_sign {front : List Token} (hs : s.IsSign)
    (h : skip .pipe rest = front ++ us) : ∃ lead, rest = lead ++ (front ++ us) ∧
      (∀ c ∈ lead, c.kind = .pipe) ∧
      skip .pipe (lead ++ (front ++ s :: us)) = front ++ s :: us ∧
      startsWith .pipe (lead ++ (front ++ s :: us)) = startsWith .pipe rest := by
  unfold skip at h
  cases hbar : eat? .pipe rest with
  | some vs =>
    obtain ⟨c, hc, rfl⟩ := eat?_eq_some.mp hbar
    rw [hbar] at h
    cases h
    refine ⟨[c], rfl, by simpa using hc, ?_, rfl⟩
    rw [List.singleton_append, skip, eat?_cons hc]
    rfl
  | none =>
    rw [hbar] at h
    cases h
    have hstarts : startsWith .pipe (front ++ s :: us) = false := by
      cases front with
      | nil => rcases hs with hs | hs <;> simp [hs]
      | cons c front =>
        have hnone := eat?_eq_none.mp hbar
        exact hnone
    refine ⟨[], rfl, List.forall_mem_nil _, ?_, ?_⟩
    · rw [List.nil_append, skip, eat?_eq_none.mpr hstarts]
      rfl
    · rw [List.nil_append, hstarts, eat?_eq_none.mp hbar]

theorem reads_openBrace (ho : o.kind = .openBrace) {obj : TypeTerm} :
    Reads .primary (o :: rest) obj r ↔ ∃ ms, obj = .object ms (startsWith .pipe rest) ∧
      Reads (.members (startsWith .pipe rest)) (skip .pipe rest) ms r := by
  constructor
  · intro h
    cases h with
    | object _ hms => exact ⟨_, rfl, hms⟩
    | functionType ht _ => simp [ho] at ht
    | _ => simp_all
  · rintro ⟨ms, rfl, hms⟩
    exact .object ho hms

/-- The object type at the brace `o` has a member that begins at `us`. -/
def HasMember (o : Token) (rest us : List Token) : Prop :=
  o.kind = .openBrace ∧ MemberOf (startsWith .pipe rest) (skip .pipe rest) us

/-- A sign in front of a member makes no difference to the object type if the member is one with
the sign, and it cannot be one without. -/
theorem HasMember.sign (h : HasMember o rest us) (hs : s.IsSign) : ∃ front, rest = front ++ us ∧
    (∀ c, (o :: front).getLast? = some c → c.kind ∈ [.openBrace, .pipe, .semicolon, .comma]) ∧
    (∀ obj r, (∀ m r, Reads .member us m r → Reads .member (s :: us) m r) →
      Reads .primary (o :: rest) obj r → Reads .primary (o :: (front ++ s :: us)) obj r) ∧
    ∀ obj r, Reads .primary (o :: (front ++ s :: us)) obj r →
      ∃ m r, Reads .member (s :: us) m r := by
  obtain ⟨ho, hmember⟩ := h
  obtain ⟨front, hfront, hlast, hmember', hread⟩ := hmember.sign hs
  obtain ⟨lead, hrest, hlead, hskip, hexact⟩ := skip_pipe_sign hs hfront
  refine ⟨lead ++ front, by rw [hrest, List.append_assoc], ?_, ?_, ?_⟩
  · intro c hc
    rw [← List.cons_append] at hc
    cases front with
    | cons d front =>
      rw [List.getLast?_append_of_ne_nil _ (List.cons_ne_nil d front)] at hc
      exact List.mem_cons_of_mem _ (List.mem_cons_of_mem _ (hlast c hc))
    | nil =>
      rw [List.append_nil] at hc
      rcases List.mem_cons.mp (List.mem_of_getLast? hc) with rfl | hmem
      · simp [ho]
      · simp [hlead c hmem]
  · intro obj r hsign hobj
    obtain ⟨ms, rfl, hms⟩ := (reads_openBrace ho).mp hobj
    rw [List.append_assoc]
    refine (reads_openBrace ho).mpr ⟨ms, by rw [hexact], ?_⟩
    rw [hexact, hskip]
    exact hread ms r hsign hms
  · intro obj r hobj
    rw [List.append_assoc] at hobj
    obtain ⟨ms, -, hms⟩ := (reads_openBrace ho).mp hobj
    rw [hexact, hskip] at hms
    exact hmember'.reads hms

/-! ## Programs -/

/-- Something that begins at `us` stands in an alias declaration of the program. -/
def InAlias (tokens us : List Token) : Prop :=
  ∃ t ts a r, EntersAlias tokens (t :: ts) ∧ ReadsAlias ts a r ∧ us <:+ ts ∧ r.length < us.length

/-- A member of an object type begins at `us`, at any depth of an alias declaration. -/
def ObjectMember (tokens us : List Token) : Prop :=
  ∃ o rest, InAlias tokens (o :: rest) ∧ HasMember o rest us

theorem ReadsAlias.unique {a a' : Alias} (h : ReadsAlias ts a r) (h' : ReadsAlias ts a' r') :
    a = a' ∧ r = r' := by
  have hread := (declaration_eq_ok (Nat.le_refl _)).mpr h
  rw [(declaration_eq_ok (Nat.le_refl _)).mpr h'] at hread
  cases hread
  exact ⟨rfl, rfl⟩

theorem ReadsStatement.of_startsAlias {st : Statement} (hstarts : startsAlias (t :: ts) = true)
    (h : ReadsStatement (t :: ts) st r) : ∃ a, st = .declares a ∧ ReadsAlias ts a r := by
  have htype := isWord_of_startsAlias hstarts
  cases h with
  | exported ht _ _ =>
    rw [Token.isWord_ne htype (by decide)] at ht
    cases ht
  | hidden ht =>
    rw [Token.isWord_ne htype (by decide), Token.isWord_ne htype (by decide)] at ht
    cases ht
  | declares _ ha => exact ⟨_, rfl, ha⟩
  | other _ _ halias =>
    rw [hstarts] at halias
    cases halias

/-- A sign in front of a member makes no difference to the program if the member is one with the
sign. If it is not, there is no program. -/
theorem ObjectMember.sign {tokens : List Token} (h : ObjectMember tokens us) (hs : s.IsSign) :
    ∃ front, tokens = front ++ us ∧
      (∃ c, front.getLast? = some c ∧ c.kind ∈ [.openBrace, .pipe, .semicolon, .comma]) ∧
      (∀ p, (∀ m r, Reads .member us m r → Reads .member (s :: us) m r) →
        Runs tokens p → Runs (front ++ s :: us) p) ∧
      ∀ p, Runs (front ++ s :: us) p → ∃ m r, Reads .member (s :: us) m r := by
  obtain ⟨o, rest, ⟨t, ts, a, r, ⟨hbegins, hstarts⟩, ha, ⟨before, rfl⟩, hlen⟩, hmember⟩ := h
  have ho := hmember.1
  obtain ⟨inner, rfl, hlast, hobject, hreads⟩ := hmember.sign hs
  -- The declaration up to the member.
  have hscreens : Screens (t :: (before ++ o :: inner)) :=
    ⟨o, by simp, by rw [ho]; decide⟩
  have hplace : ∀ us, t :: (before ++ o :: (inner ++ us)) = (t :: (before ++ o :: inner)) ++ us :=
    fun us => by simp
  rw [hplace] at hbegins hstarts
  have hstarts' := (hscreens.startsAlias us (s :: us)).trans hstarts
  obtain ⟨front, rfl, hbegins', hruns⟩ := hbegins.exchange hscreens (s :: us)
  rw [← hplace] at hstarts hstarts'
  refine ⟨front ++ (t :: (before ++ o :: inner)), (List.append_assoc ..).symm, ?_, ?_, ?_⟩
  · have hsplit : front ++ (t :: (before ++ o :: inner))
        = (front ++ t :: before) ++ o :: inner := by simp
    rw [hsplit, List.getLast?_append_of_ne_nil _ (List.cons_ne_nil o inner)]
    have hsome := List.getLast?_eq_some_getLast (List.cons_ne_nil o inner)
    exact ⟨_, hsome, hlast _ hsome⟩
  · intro p hsign hp
    rw [List.append_assoc]
    refine hruns p (fun st r' hst => ?_) hp
    rw [← hplace] at hst ⊢
    obtain ⟨a', rfl, ha'⟩ := hst.of_startsAlias hstarts
    refine .declares hstarts' ?_
    obtain ⟨rfl, rfl⟩ := ha.unique ha'
    obtain ⟨used, hused, hstretch⟩ := ha.passage
    rcases append_cons_eq_append hused with ⟨within, rfl, hwithin⟩ | ⟨lead, -, rfl⟩
    · obtain ⟨obj, r₁, hobj, hother⟩ := hstretch.objects before o within rfl ho
      rw [← hwithin] at hobj
      exact hother _ (hobject obj r₁ hsign hobj)
    · simp only [List.length_append, List.length_cons] at hlen
      omega
  · intro p hp
    rw [List.append_assoc] at hp
    obtain ⟨st, r', hst⟩ := hp.statement_at hbegins'
    rw [← hplace] at hst
    obtain ⟨a', rfl, ha'⟩ := hst.of_startsAlias hstarts'
    obtain ⟨used, hused, hstretch⟩ := ha'.passage
    rcases append_cons_eq_append hused with ⟨within, rfl, hwithin⟩ | ⟨lead, rfl, rfl⟩
    · obtain ⟨obj, r₁, hobj, -⟩ := hstretch.objects before o within rfl ho
      rw [← hwithin] at hobj
      exact hreads obj r₁ hobj
    · -- Then the declaration would end in front of the brace, with or without the sign.
      have hbrace : Screens (lead ++ [o]) := (Screens.single (by rw [ho]; decide)).append_left lead
      have hwithout := hstretch.unseen (lead ++ [o]) (inner ++ s :: us) (inner ++ us) (by simp)
        hbrace
      obtain ⟨-, rfl⟩ := ha.unique (by simpa using hwithout)
      simp only [List.length_append, List.length_cons] at hlen
      omega

end AliasCheck
