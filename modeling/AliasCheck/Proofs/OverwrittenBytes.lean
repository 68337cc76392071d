import AliasCheck.Proofs.PositionOrder
import AliasCheck.Proofs.Stretches
import AliasCheck.Text.Unicode.Fold

/-!
# The bytes that are overwritten

The words that begin a library declaration are looked for from the left. Each time they are found,
the text is overwritten up to the end of the line, and the search goes on there. Here the search is
described without what comes of it, as a list of ranges of bytes: every byte in one of them is a
space afterwards and every other byte is what it was. No line feed is in such a range. So line feeds
stay where they are, and with them the number of the line that an offset is on.

Upper and lower case are those of Unicode, where letters of other alphabets may differ from a letter
in case only. None does so from a letter of the words that are looked for.
-/

namespace AliasCheck

/-! ## Bytes of a text -/

/-- The bytes of a text in UTF-8. -/
def utf8 (cs : List Char) : List UInt8 := cs.flatMap String.utf8EncodeChar

/-- The byte of a space. -/
def spaceByte : UInt8 := 32

/-- The byte of a line feed. -/
def newlineByte : UInt8 := 10

section Bytes

variable {c : Char} {cs : List Char}

@[simp] theorem utf8_nil : utf8 [] = [] := rfl

theorem utf8_cons (c : Char) (cs : List Char) :
    utf8 (c :: cs) = String.utf8EncodeChar c ++ utf8 cs := List.flatMap_cons

theorem utf8_append (cs ds : List Char) : utf8 (cs ++ ds) = utf8 cs ++ utf8 ds :=
  List.flatMap_append

theorem length_utf8 (cs : List Char) : (utf8 cs).length = byteLength cs := by
  induction cs with
  | nil => rfl
  | cons c cs ih =>
    rw [utf8_cons, List.length_append, String.length_utf8EncodeChar, ih, byteLength_cons]

theorem utf8_replicate_space (n : Nat) :
    utf8 (List.replicate n ' ') = List.replicate n spaceByte := by
  induction n with
  | zero => rfl
  | succ n ih =>
    rw [List.replicate_succ, utf8_cons, ih, List.replicate_succ]
    rfl

/-- A byte is a character of its own, or it is one of several and not ASCII. -/
theorem toNat_of_mem_utf8EncodeChar {b : UInt8} (hb : b ∈ String.utf8EncodeChar c) :
    b.toNat = c.toNat ∨ 128 ≤ b.toNat := by
  have hcode : c.val.toNat = c.toNat := rfl
  dsimp only [String.utf8EncodeChar] at hb
  rw [hcode] at hb
  split at hb
  · rw [List.mem_singleton.mp hb, UInt8.toNat_ofNat']
    exact .inl (Nat.mod_eq_of_lt (by omega))
  · -- Each byte is what is left of a division, raised to 128 or more.
    refine .inr ?_
    split at hb
    · simp only [List.mem_cons, List.not_mem_nil, or_false] at hb
      rcases hb with rfl | rfl <;> rw [UInt8.toNat_ofNat'] <;> omega
    · split at hb
      · simp only [List.mem_cons, List.not_mem_nil, or_false] at hb
        rcases hb with rfl | rfl | rfl <;> rw [UInt8.toNat_ofNat'] <;> omega
      · simp only [List.mem_cons, List.not_mem_nil, or_false] at hb
        rcases hb with rfl | rfl | rfl | rfl <;> rw [UInt8.toNat_ofNat'] <;> omega

/-- No byte of another character is that of a line feed. -/
theorem newlineByte_not_mem (hc : c ≠ '\n') : newlineByte ∉ String.utf8EncodeChar c := by
  intro hmem
  rcases toNat_of_mem_utf8EncodeChar hmem with heq | hge
  · exact hc (Char.ext (UInt32.toNat_inj.mp heq.symm))
  · exact absurd hge (by decide)

theorem isNewline_utf8EncodeChar (hc : c ≠ '\n') :
    (String.utf8EncodeChar c).map (· == newlineByte) = List.replicate c.utf8Size false := by
  rw [← String.length_utf8EncodeChar, ← List.map_const']
  refine List.map_congr_left fun b hb => beq_eq_false_iff_ne.mpr ?_
  rintro rfl
  exact newlineByte_not_mem hc hb

/-- In front of an offset there are as many line feeds as bytes of line feeds, whether or not a
character is cut there. -/
theorem count_takeBytes (cs : List Char) (o : Nat) :
    (takeBytes cs o).count '\n' = ((utf8 cs).take o).count newlineByte := by
  induction cs generalizing o with
  | nil => simp [takeBytes]
  | cons c cs ih =>
    have hsize := String.length_utf8EncodeChar c
    rw [takeBytes, utf8_cons, List.take_append, List.count_append, hsize]
    split
    · rename_i hle
      rw [List.take_of_length_le (hsize ▸ hle), ← ih]
      by_cases hc : c = '\n'
      · rw [hc, List.count_cons_self, Nat.add_comm]
        rfl
      · rw [List.count_cons_of_ne hc, List.count_eq_zero_of_not_mem (newlineByte_not_mem hc),
          Nat.zero_add]
    · rename_i hcut
      rw [Nat.sub_eq_zero_of_le (Nat.le_of_not_le hcut), List.take_zero, List.count_nil,
        List.count_nil, Nat.add_zero]
      by_cases hc : c = '\n'
      · subst hc
        have hstart : o = 0 := Nat.lt_one_iff.mp (Nat.lt_of_not_le hcut)
        rw [hstart, List.take_zero, List.count_nil]
      · exact (List.count_eq_zero_of_not_mem fun hmem =>
          newlineByte_not_mem hc (List.mem_of_mem_take hmem)).symm

/-- The line of an offset is one more than the number of line feeds among the bytes in front of
it. -/
theorem Position.line_ofOffset (cs : List Char) (o : Nat) :
    (ofOffset cs o).line = 1 + ((utf8 cs).take o).count newlineByte := by
  rw [ofOffset, line_foldl_advance, count_takeBytes]
  rfl

end Bytes

namespace Blanking

variable {inside : Bool} {offset o : Nat} {c : Char} {cs text before line rest : List Char}

/-! ## Looking for declarations -/

/-- The code points of a text without the difference between upper and lower case. -/
def folded (cs : List Char) : List Nat := cs.map fun c => Unicode.foldCode c.toNat

/-- The text begins with the words of a declaration, whatever the case of their letters. -/
def Declares (cs : List Char) : Prop := folded mark <+: folded cs

/-- A declaration that goes on to the end of its line. -/
structure IsDeclaration (line rest : List Char) : Prop where
  declares : Declares (line ++ rest)
  isLine : '\n' ∉ line
  ends : ∀ c, rest.head? = some c → c = '\n'

/-- A range of bytes of a text. -/
structure ByteRange where
  /-- The offset of the first byte. -/
  start : Nat
  /-- The offset behind the last byte. -/
  stop : Nat
  deriving DecidableEq, Repr

/-- The byte at this offset is in the range. -/
def ByteRange.Covers (range : ByteRange) (o : Nat) : Prop := range.start ≤ o ∧ o < range.stop

instance (range : ByteRange) (o : Nat) : Decidable (range.Covers o) :=
  inferInstanceAs (Decidable (_ ∧ _))

/-- The declarations that are found in a text from the left, each as soon as possible behind the one
before it. The first byte of the text is at `offset`. -/
inductive Declarations : (offset : Nat) → List Char → List ByteRange → Prop where
  | none {offset : Nat} {cs : List Char} (h : ∀ a b, cs = a ++ b → ¬ Declares b) :
      Declarations offset cs []
  | next {offset : Nat} {before line rest : List Char} {ranges : List ByteRange}
      (hfirst : ∀ a b, before = a ++ b → b ≠ [] → ¬ Declares (b ++ (line ++ rest)))
      (hline : IsDeclaration line rest)
      (hrest : Declarations (offset + byteLength (before ++ line)) rest ranges) :
      Declarations offset (before ++ (line ++ rest))
        (⟨offset + byteLength before, offset + byteLength (before ++ line)⟩ :: ranges)

/-! ## Upper and lower case -/

/-- Only the first entry of the table is about ASCII letters. -/
theorem foldings_eq : Unicode.foldings = (0x41, 0x5a, 1, 32) :: Unicode.foldings.tail ∧
    ∀ entry ∈ Unicode.foldings.tail, 128 ≤ entry.1 :=
  ⟨rfl, by decide +kernel⟩

theorem foldCode_of_ascii {n : Nat} (hn : n < 128) :
    Unicode.foldCode n = if 65 ≤ n ∧ n ≤ 90 then n + 32 else n := by
  obtain ⟨hsplit, hlater⟩ := foldings_eq
  have htail : ∀ p : Nat × Nat × Nat × Int → Bool, (∀ entry, p entry = true → entry.1 ≤ n) →
      Unicode.foldings.tail.find? p = none := by
    refine fun p hp => List.find?_eq_none.mpr fun entry hentry hrange => ?_
    have hfirst := hlater entry hentry
    have hle := hp entry hrange
    omega
  rw [Unicode.foldCode, hsplit, List.find?_cons, htail _ fun entry hrange => by
    simp only [Bool.and_eq_true, decide_eq_true_eq] at hrange
    exact hrange.1.1]
  by_cases hupper : 65 ≤ n ∧ n ≤ 90
  · simp [hupper, Nat.mod_one]
    omega
  · have hout : (decide (65 ≤ n) && decide (n ≤ 90) && (n - 65) % 1 == 0) = false := by
      simp only [Nat.mod_one, BEq.rfl, Bool.and_true, ← Bool.decide_and]
      exact decide_eq_false hupper
    rw [if_neg hupper]
    simp [hout]

/-- The folded form of an ASCII letter is the lower case one. -/
theorem foldCode_eq_toLower {n : Nat} (hn : n < 128) :
    Unicode.foldCode n = (Char.ofNat n).toLower.toNat := by
  have hlower : ∀ n < 128,
      (if 65 ≤ n ∧ n ≤ 90 then n + 32 else n) = (Char.ofNat n).toLower.toNat := by
    decide +kernel
  rw [foldCode_of_ascii hn, hlower n hn]

theorem foldCode_of_mem_mark {d : Char} (hd : d ∈ mark) :
    Unicode.foldCode d.toNat = d.toNat ∧ d.toNat < 128 := by
  have hmark : ∀ n ∈ mark.map Char.toNat, n < 128 ∧ ¬ (65 ≤ n ∧ n ≤ 90) := by decide
  obtain ⟨hascii, hlower⟩ := hmark d.toNat (List.mem_map_of_mem hd)
  exact ⟨by rw [foldCode_of_ascii hascii, if_neg hlower], hascii⟩

/-- No letter of the mark is the folded form of a character that is not ASCII. -/
theorem foldings_avoid_mark : ∀ entry ∈ Unicode.foldings, entry.2.1 < 128 ∨
    128 ≤ entry.1 + entry.2.2.2 ∨
      entry.1 = entry.2.1 ∧ (entry.1 + entry.2.2.2).toNat ∉ mark.map Char.toNat := by
  decide +kernel

theorem foldCode_ne_of_not_ascii {n : Nat} (hn : 128 ≤ n) {d : Char} (hd : d ∈ mark) :
    Unicode.foldCode n ≠ d.toNat := by
  have hascii := (foldCode_of_mem_mark hd).2
  unfold Unicode.foldCode
  split
  · rename_i first last step distance hfind
    have hrange := List.find?_some hfind
    simp only [Bool.and_eq_true, decide_eq_true_eq] at hrange
    obtain ⟨⟨hfirst, hlast⟩, -⟩ := hrange
    rcases foldings_avoid_mark _ (List.mem_of_find?_eq_some hfind) with hend | hhigh | ⟨hone, hne⟩
    · simp only at hend
      omega
    · simp only at hhigh
      omega
    · simp only at hone hne
      obtain rfl : n = first := by omega
      exact fun heq => hne (heq ▸ List.mem_map_of_mem hd)
  · omega

/-- A character differs from one of the mark in case only if lowering it gives that one. -/
theorem foldCode_eq_iff (c : Char) {d : Char} (hd : d ∈ mark) :
    Unicode.foldCode c.toNat = Unicode.foldCode d.toNat ↔ c.toLower = d := by
  obtain ⟨hfold, hascii⟩ := foldCode_of_mem_mark hd
  rw [hfold]
  rcases Nat.lt_or_ge c.toNat 128 with hlt | hge
  · rw [foldCode_eq_toLower hlt, Char.ofNat_toNat]
    exact Char.toNat_inj
  · refine iff_of_false (foldCode_ne_of_not_ascii hge hd) ?_
    rintro rfl
    rcases toLower_eq_self_or c with heq | ⟨hupper, -⟩
    · rw [heq] at hascii
      omega
    · have hle : c.toNat ≤ 'Z'.toNat := UInt32.le_iff_toNat_le.mp (of_decide_eq_true hupper).2
      have hZ : 'Z'.toNat = 90 := rfl
      omega

theorem folded_prefix_iff {words : List Char} (hwords : ∀ d ∈ words, d ∈ mark) :
    folded words <+: folded cs ↔ words <+: cs.map Char.toLower := by
  induction words generalizing cs with
  | nil => simp [folded]
  | cons d words ih =>
    rw [List.forall_mem_cons] at hwords
    cases cs with
    | nil => simp [folded]
    | cons c cs =>
      have hfirst := foldCode_eq_iff c hwords.1
      rw [folded, folded, List.map_cons, List.map_cons, List.map_cons, List.cons_prefix_cons,
        List.cons_prefix_cons, eq_comm, hfirst, eq_comm]
      exact and_congr_right fun _ => ih hwords.2

/-- The words of a declaration are found by lowering letters. -/
theorem declares_iff : Declares cs ↔ startsWithMark cs = true := by
  rw [startsWithMark_eq_true]
  exact folded_prefix_iff fun _ => id

theorem not_declares_iff : ¬ Declares cs ↔ startsWithMark cs = false := by
  rw [declares_iff, Bool.not_eq_true]

/-! ## The search -/

theorem not_declares_newline (rest : List Char) : ¬ Declares ('\n' :: rest) :=
  not_declares_iff.mpr (noMark_of_toLower (by decide))

theorem not_declares_nil : ¬ Declares [] := not_declares_iff.mpr (by decide)

theorem IsDeclaration.ne_nil (h : IsDeclaration line rest) : line ≠ [] := by
  rintro rfl
  have hdeclares := h.declares
  cases rest with
  | nil => exact not_declares_nil hdeclares
  | cons c rest =>
    cases h.ends c rfl
    exact not_declares_newline rest hdeclares

/-- What begins a declaration is one with the rest of its line. -/
theorem exists_isDeclaration (h : Declares cs) :
    ∃ line rest, cs = line ++ rest ∧ IsDeclaration line rest := by
  obtain ⟨rest, hsplit, -, hline, hends⟩ := exists_takeWhile (· ≠ '\n') cs
  refine ⟨_, rest, hsplit, hsplit ▸ h, fun hmem => ?_, fun c hc => ?_⟩
  · exact absurd rfl (of_decide_eq_true (hline '\n' hmem))
  · simpa using hends c hc

/-- The place where a declaration is found first, if there is one. -/
theorem exists_first (cs : List Char) : (∀ a b, cs = a ++ b → ¬ Declares b) ∨
    ∃ before rest, cs = before ++ rest ∧ Declares rest ∧
      ∀ a b, before = a ++ b → b ≠ [] → ¬ Declares (b ++ rest) := by
  induction cs with
  | nil =>
    refine .inl fun a b hab => ?_
    rw [(List.append_eq_nil_iff.mp hab.symm).2]
    exact not_declares_nil
  | cons c cs ih =>
    by_cases hhere : Declares (c :: cs)
    · refine .inr ⟨[], c :: cs, rfl, hhere, fun a b hab hb => ?_⟩
      exact absurd (List.append_eq_nil_iff.mp hab.symm).2 hb
    · rcases ih with hnone | ⟨before, rest, rfl, hrest, hfirst⟩
      · refine .inl fun a b hab => ?_
        cases a with
        | nil =>
          rw [List.nil_append] at hab
          exact hab ▸ hhere
        | cons _ a => exact hnone a b (List.cons.inj hab).2
      · refine .inr ⟨c :: before, rest, rfl, hrest, fun a b hab hb => ?_⟩
        cases a with
        | nil =>
          rw [List.nil_append] at hab
          exact hab ▸ hhere
        | cons _ a => exact hfirst a b (List.cons.inj hab).2 hb

/-- The search comes to an end. -/
theorem exists_declarations (offset : Nat) (cs : List Char) :
    ∃ ranges, Declarations offset cs ranges := by
  induction hlen : cs.length using Nat.strongRecOn generalizing offset cs with
  | ind n ih =>
    rcases exists_first cs with hnone | ⟨before, found, rfl, hfound, hfirst⟩
    · exact ⟨[], .none hnone⟩
    · obtain ⟨line, rest, rfl, hline⟩ := exists_isDeclaration hfound
      have hpos := List.length_pos_iff.mpr hline.ne_nil
      rw [List.length_append, List.length_append] at hlen
      obtain ⟨ranges, hrest⟩ :=
        ih rest.length (by omega) (offset + byteLength (before ++ line)) rest rfl
      exact ⟨_, .next hfirst hline hrest⟩

/-- There is one place where a declaration is found first. -/
theorem first_unique {before' rest' : List Char} (h : before ++ rest = before' ++ rest')
    (hrest : Declares rest) (hfirst : ∀ a b, before = a ++ b → b ≠ [] → ¬ Declares (b ++ rest))
    (hrest' : Declares rest')
    (hfirst' : ∀ a b, before' = a ++ b → b ≠ [] → ¬ Declares (b ++ rest')) :
    before = before' ∧ rest = rest' := by
  rcases List.append_eq_append_iff.mp h with ⟨more, rfl, rfl⟩ | ⟨more, rfl, rfl⟩
  · by_cases hmore : more = []
    · simp [hmore]
    · exact absurd hrest (hfirst' before more rfl hmore)
  · by_cases hmore : more = []
    · simp [hmore]
    · exact absurd hrest' (hfirst before' more rfl hmore)

theorem IsDeclaration.unique {line' rest' : List Char} (h : line ++ rest = line' ++ rest')
    (hline : IsDeclaration line rest) (hline' : IsDeclaration line' rest') :
    line = line' ∧ rest = rest' := by
  have hstays : ∀ {cs : List Char}, '\n' ∉ cs → ∀ c ∈ cs, decide (c ≠ '\n') = true :=
    fun hcs c hc => decide_eq_true fun heq => hcs (heq ▸ hc)
  have hstops : ∀ {c : Char}, c = '\n' → decide (c ≠ '\n') = false :=
    fun hc => decide_eq_false (not_not_intro hc)
  exact stretch_unique h (hstays hline.isLine) (hstays hline'.isLine)
    (fun c hc => hstops (hline.ends c hc)) fun c hc => hstops (hline'.ends c hc)

/-- No two searches find different declarations. -/
theorem Declarations.unique {ranges found : List ByteRange} (h : Declarations offset cs ranges)
    (h' : Declarations offset cs found) : found = ranges := by
  induction h generalizing found with
  | none hnone =>
    cases h' with
    | none => rfl
    | next _ hline' _ => exact absurd hline'.declares (hnone _ _ rfl)
  | @next offset before line rest ranges hfirst hline hrest ih =>
    generalize htext : before ++ (line ++ rest) = cs at h'
    cases h' with
    | none hnone => exact absurd hline.declares (hnone before _ htext.symm)
    | @next _ before' line' rest' ranges' hfirst' hline' hrest' =>
      obtain ⟨rfl, hlater⟩ := first_unique htext hline.declares hfirst hline'.declares hfirst'
      obtain ⟨rfl, rfl⟩ := IsDeclaration.unique hlater hline hline'
      rw [ih hrest']

/-! ## Characters one after the other -/

/-- A character stays as it is or, unless it is a line feed, becomes as many spaces as it has
bytes. -/
theorem blank_step (inside : Bool) (c : Char) (cs : List Char) : ∃ piece next,
    blank inside (c :: cs) = piece ++ blank next cs ∧
      (piece = [c] ∨ c ≠ '\n' ∧ piece = spaces c) := by
  rw [blank]
  split
  · exact ⟨[c], false, rfl, .inl rfl⟩
  · rename_i hc
    split
    · exact ⟨spaces c, true, rfl, .inr ⟨hc, rfl⟩⟩
    · exact ⟨[c], false, rfl, .inl rfl⟩

theorem isNewline_spaces (hc : c ≠ '\n') : (utf8 (spaces c)).map (· == newlineByte)
    = (String.utf8EncodeChar c).map (· == newlineByte) := by
  rw [isNewline_utf8EncodeChar hc, spaces, utf8_replicate_space, List.map_replicate]
  rfl

/-- Line feeds stay where they are, and no others come about. -/
theorem isNewline_blank (inside : Bool) (cs : List Char) :
    (utf8 (blank inside cs)).map (· == newlineByte) = (utf8 cs).map (· == newlineByte) := by
  induction cs generalizing inside with
  | nil => rfl
  | cons c cs ih =>
    obtain ⟨piece, next, hblank, hpiece⟩ := blank_step inside c cs
    rw [hblank, utf8_append, List.map_append, ih, utf8_cons, List.map_append]
    congr 1
    rcases hpiece with rfl | ⟨hc, rfl⟩
    · rw [utf8_cons, utf8_nil, List.append_nil]
    · exact isNewline_spaces hc

theorem newline_blank_iff (inside : Bool) (cs : List Char) (o : Nat) :
    (utf8 (blank inside cs))[o]? = some newlineByte ↔ (utf8 cs)[o]? = some newlineByte := by
  have hplace : ∀ bytes : List UInt8,
      bytes[o]? = some newlineByte ↔ (bytes.map (· == newlineByte))[o]? = some true := by
    intro bytes
    rw [List.getElem?_map]
    cases bytes[o]? <;> simp
  rw [hplace, hplace, isNewline_blank]

theorem count_newline_blank (inside : Bool) (cs : List Char) (o : Nat) :
    ((utf8 (blank inside cs)).take o).count newlineByte
      = ((utf8 cs).take o).count newlineByte := by
  have hcount : ∀ bytes : List UInt8, (bytes.take o).count newlineByte
      = ((bytes.map (· == newlineByte)).take o).countP id := by
    intro bytes
    rw [← List.map_take, List.countP_map]
    rfl
  rw [hcount, hcount, isNewline_blank]

/-- Where no character was cut, none is. -/
theorem isBoundary_blank (inside : Bool) (h : IsBoundary cs o) :
    IsBoundary (blank inside cs) o := by
  obtain ⟨before, after, rfl, rfl⟩ := h
  induction before generalizing inside with
  | nil => exact ⟨[], _, rfl, rfl⟩
  | cons c before ih =>
    obtain ⟨piece, next, hblank, hpiece⟩ := blank_step inside c (before ++ after)
    obtain ⟨before', after', hrest, hlen⟩ := ih next
    have hsize : byteLength piece = c.utf8Size := by
      rcases hpiece with rfl | ⟨-, rfl⟩
      · rfl
      · exact byteLength_spaces c
    refine ⟨piece ++ before', after', ?_, ?_⟩
    · rw [List.cons_append, hblank, hrest, List.append_assoc]
    · rw [byteLength_append, hsize, hlen, byteLength_cons]

/-! ## Ranges of bytes -/

theorem flatMap_spaces (cs : List Char) :
    cs.flatMap spaces = List.replicate (byteLength cs) ' ' := by
  refine List.eq_replicate_iff.mpr ⟨length_flatMap_spaces cs, fun d hd => ?_⟩
  obtain ⟨c, -, hc⟩ := List.mem_flatMap.mp hd
  exact List.eq_of_mem_replicate hc

theorem blank_true_append (hline : '\n' ∉ line) (hends : ∀ c, rest.head? = some c → c = '\n') :
    blank true (line ++ rest) = line.flatMap spaces ++ blank false rest := by
  induction line with
  | nil =>
    cases rest with
    | nil => rfl
    | cons c rest =>
      cases hends c rfl
      rfl
  | cons c line ih =>
    rw [List.mem_cons, not_or] at hline
    rw [List.cons_append, blank, if_neg (Ne.symm hline.1), Bool.true_or, if_pos rfl, ih hline.2,
      List.flatMap_cons, List.append_assoc]

/-- A declaration is overwritten to the end of its line. -/
theorem blank_of_isDeclaration (h : IsDeclaration line rest) :
    blank false (line ++ rest) = line.flatMap spaces ++ blank false rest := by
  cases line with
  | nil => exact absurd rfl h.ne_nil
  | cons c line =>
    have hline := h.isLine
    rw [List.mem_cons, not_or] at hline
    have hmark : startsWithMark (c :: (line ++ rest)) = true := declares_iff.mp h.declares
    rw [List.cons_append, blank_of_mark hmark, blank_true_append hline.2 h.ends,
      List.flatMap_cons, List.append_assoc]

section Ranges

variable {ranges : List ByteRange} {range : ByteRange} {bytes : List UInt8}
  {f : Nat → UInt8 → UInt8}

/-- The byte that takes the place of `b` at the offset `o`. -/
def overwritten (ranges : List ByteRange) (o : Nat) (b : UInt8) : UInt8 :=
  if ∃ range ∈ ranges, range.Covers o then spaceByte else b

theorem overwritten_of_covers (hrange : range ∈ ranges) (h : range.Covers o) (b : UInt8) :
    overwritten ranges o b = spaceByte := if_pos ⟨range, hrange, h⟩

theorem overwritten_of_not (h : ∀ range ∈ ranges, ¬ range.Covers o) (b : UInt8) :
    overwritten ranges o b = b := if_neg fun ⟨range, hrange, hcovers⟩ => h range hrange hcovers

theorem overwritten_behind (h : range.stop ≤ o) (b : UInt8) :
    overwritten (range :: ranges) o b = overwritten ranges o b := by
  have hnot : ¬ range.Covers o := fun hcovers => Nat.not_lt.mpr h hcovers.2
  simp [overwritten, hnot]

theorem mapIdx_eq_self (h : ∀ i < bytes.length, ∀ b, f i b = b) : bytes.mapIdx f = bytes := by
  refine List.ext_getElem List.length_mapIdx fun i _ hi => ?_
  rw [List.getElem_mapIdx, h i hi]

theorem mapIdx_eq_spaces (h : ∀ i < bytes.length, ∀ b, f i b = spaceByte) :
    bytes.mapIdx f = List.replicate bytes.length spaceByte := by
  refine List.eq_replicate_iff.mpr ⟨List.length_mapIdx, fun b hb => ?_⟩
  obtain ⟨i, hi, rfl⟩ := List.mem_mapIdx.mp hb
  exact h i hi _

theorem Declarations.bounds (h : Declarations offset cs ranges) :
    ∀ range ∈ ranges, offset ≤ range.start ∧ range.stop ≤ offset + byteLength cs := by
  induction h with
  | none => exact fun range hrange => absurd hrange List.not_mem_nil
  | next _ _ _ ih =>
    simp only [byteLength_append] at ih ⊢
    refine List.forall_mem_cons.mpr ⟨⟨by simp only; omega, by simp only; omega⟩, ?_⟩
    intro range hrange
    obtain ⟨hstart, hstop⟩ := ih range hrange
    exact ⟨by omega, by omega⟩

/-- The bytes of the declarations that a search finds are those that are overwritten. -/
theorem Declarations.utf8_blank (h : Declarations offset cs ranges) :
    utf8 (blank false cs) = (utf8 cs).mapIdx fun i b => overwritten ranges (offset + i) b := by
  induction h with
  | @none offset cs hnone =>
    have hmark : hasMark cs = false := by
      refine Bool.eq_false_iff.mpr fun hmark => ?_
      obtain ⟨a, b, hab, hb⟩ := exists_mark hmark
      exact hnone a b hab (declares_iff.mpr hb)
    rw [blank_eq_self hmark]
    exact (mapIdx_eq_self fun i _ b => overwritten_of_not (by simp) b).symm
  | @next offset before line rest ranges hfirst hline hrest ih =>
    generalize hrange : ByteRange.mk (offset + byteLength before)
      (offset + byteLength (before ++ line)) = range
    have hstart : range.start = offset + (utf8 before).length := by rw [← hrange, length_utf8]
    have hstop : range.stop = offset + ((utf8 before).length + (utf8 line).length) := by
      rw [← hrange, byteLength_append, length_utf8, length_utf8]
    have hfront : ∀ i < (utf8 before).length, ∀ b,
        overwritten (range :: ranges) (offset + i) b = b := by
      intro i hi b
      refine overwritten_of_not (List.forall_mem_cons.mpr ⟨fun hcovers => ?_, ?_⟩) b
      · have hge := hcovers.1
        omega
      · intro later hlater hcovers
        have hge := Nat.le_trans (hrest.bounds later hlater).1 hcovers.1
        rw [byteLength_append, ← length_utf8] at hge
        omega
    have hcovered : ∀ i < (utf8 line).length, ∀ b,
        overwritten (range :: ranges) (offset + (i + (utf8 before).length)) b = spaceByte :=
      fun i hi => overwritten_of_covers List.mem_cons_self ⟨by omega, by omega⟩
    have hbehind : ∀ i b, overwritten (range :: ranges)
        (offset + (i + (utf8 line).length + (utf8 before).length)) b
          = overwritten ranges (offset + byteLength (before ++ line) + i) b := by
      intro i b
      rw [overwritten_behind (by omega), byteLength_append, length_utf8, length_utf8]
      congr 1
      omega
    have hkept : blank false (before ++ (line ++ rest)) = before ++ blank false (line ++ rest) :=
      blank_append_of_noMark fun a b hab hb => not_declares_iff.mp (hfirst a b hab hb)
    rw [hkept, blank_of_isDeclaration hline, flatMap_spaces, utf8_append, utf8_append, ih,
      utf8_replicate_space, utf8_append, utf8_append, List.mapIdx_append, List.mapIdx_append,
      mapIdx_eq_self hfront, mapIdx_eq_spaces hcovered, length_utf8 line]
    simp only [← length_utf8 line, hbehind]

end Ranges

end Blanking

open Blanking

/-- What overwriting does to the bytes of a text. The ranges of bytes in which the text is
overwritten are found by one search for declarations from the left; in them every byte becomes a
space, and every other byte stays what it was. The text keeps its length, the places of its line
feeds and all places between characters, and no offset comes to another line. -/
theorem blankDeclarations_layout (text : List Char) : ∃ ranges : List ByteRange,
    (∀ found, Declarations 0 text found ↔ found = ranges) ∧
    (utf8 (blankDeclarations text)).length = (utf8 text).length ∧
    (∀ o : Nat, (utf8 (blankDeclarations text))[o]? = some newlineByte
      ↔ (utf8 text)[o]? = some newlineByte) ∧
    (∀ range ∈ ranges, ∀ o, range.Covers o →
      (utf8 (blankDeclarations text))[o]? = some spaceByte) ∧
    (∀ o : Nat, (∀ range ∈ ranges, ¬ range.Covers o) →
      (utf8 (blankDeclarations text))[o]? = (utf8 text)[o]?) ∧
    (∀ o, IsBoundary text o → IsBoundary (blankDeclarations text) o) ∧
    ∀ o, (Position.ofOffset (blankDeclarations text) o).line = (Position.ofOffset text o).line := by
  obtain ⟨ranges, hranges⟩ := exists_declarations 0 text
  have hbytes := hranges.utf8_blank
  simp only [Nat.zero_add] at hbytes
  have hlength : (utf8 (blankDeclarations text)).length = (utf8 text).length := by
    rw [length_utf8, length_utf8, blankDeclarations, byteLength_blank]
  refine ⟨ranges, fun found => ⟨hranges.unique, fun h => h ▸ hranges⟩, hlength,
    newline_blank_iff false text, fun range hrange o hcovers => ?_, fun o hnot => ?_,
    fun o => isBoundary_blank false, fun o => ?_⟩
  · have ho : o < (utf8 text).length := by
      have hstop := (hranges.bounds range hrange).2
      have hlt := hcovers.2
      rw [length_utf8]
      omega
    rw [blankDeclarations, hbytes, List.getElem?_mapIdx, List.getElem?_eq_getElem ho,
      Option.map_some, overwritten_of_covers hrange hcovers]
  · rw [blankDeclarations, hbytes, List.getElem?_mapIdx]
    cases (utf8 text)[o]? with
    | none => rfl
    | some b => rw [Option.map_some, overwritten_of_not hnot]
  · rw [Position.line_ofOffset, Position.line_ofOffset, blankDeclarations, count_newline_blank]

/-- The declaration on the first line has capital letters and takes the rest of the line, where the
same words stand again. The second line begins with words that are none, and the declaration behind
them ends with the text. Characters of several bytes stand in front of the first and in both. -/
theorem blankDeclarations_layout_example : ∃ text ranges,
    text = "é Declare EXPORT ñ; declare export 😀\ndeclare exports; declare export ß".toList ∧
    (∃ range ∈ ranges, range.Covers 3) ∧
    (∀ found, Declarations 0 text found ↔ found = ranges) ∧
    (utf8 (blankDeclarations text)).length = (utf8 text).length ∧
    (∀ o : Nat, (utf8 (blankDeclarations text))[o]? = some newlineByte
      ↔ (utf8 text)[o]? = some newlineByte) ∧
    (∀ range ∈ ranges, ∀ o, range.Covers o →
      (utf8 (blankDeclarations text))[o]? = some spaceByte) ∧
    (∀ o : Nat, (∀ range ∈ ranges, ¬ range.Covers o) →
      (utf8 (blankDeclarations text))[o]? = (utf8 text)[o]?) ∧
    (∀ o, IsBoundary text o → IsBoundary (blankDeclarations text) o) ∧
    ∀ o, (Position.ofOffset (blankDeclarations text) o).line
      = (Position.ofOffset text o).line := by
  generalize hsource :
    "é Declare EXPORT ñ; declare export 😀\ndeclare exports; declare export ß".toList = text
  have hchanged : (utf8 (blankDeclarations text))[3]? ≠ (utf8 text)[3]? := by
    subst hsource
    decide +kernel
  obtain ⟨ranges, hsearch, hlength, hnewlines, hspaces, hothers, hplaces⟩ :=
    blankDeclarations_layout text
  have hcovered : ∃ range ∈ ranges, range.Covers 3 := by
    refine Decidable.byContradiction fun hnot => hchanged (hothers 3 fun range hrange hcovers => ?_)
    exact hnot ⟨range, hrange, hcovers⟩
  exact ⟨text, ranges, rfl, hcovered, hsearch, hlength, hnewlines, hspaces, hothers, hplaces⟩

end AliasCheck
