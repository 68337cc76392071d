import AliasCheck.Proofs.InsertedSigns

/-!
# The order of places

A byte offset at which no character is cut is a place between the characters of a text. Its line is
found by counting the line feeds in front of it, its column by counting the characters behind the
last of these. A place further on has more line feeds in front of it, or as many and more characters
behind the last one. So positions are in the order of their offsets, and a position tells which
offset it is of.
-/

namespace AliasCheck

/-- No character of the text is cut at this byte offset. -/
def IsBoundary (text : List Char) (offset : Nat) : Prop :=
  ∃ before after, text = before ++ after ∧ byteLength before = offset

namespace Position

/-- An earlier line, or the same line and an earlier column. -/
def Before (p q : Position) : Prop := p.line < q.line ∨ p.line = q.line ∧ p.column < q.column

variable {p q : Position} {before piece after : List Char}

theorem Before.ne (h : Before p q) : p ≠ q := by
  rintro rfl
  rcases h with hline | ⟨-, hcolumn⟩
  · exact Nat.lt_irrefl _ hline
  · exact Nat.lt_irrefl _ hcolumn

theorem Before.asymm (h : Before p q) : ¬ Before q p := by
  unfold Before at h ⊢
  omega

/-! ## Three counts -/

theorem line_foldl_advance (cs : List Char) (p : Position) :
    (cs.foldl advance p).line = p.line + cs.count '\n' := by
  induction cs generalizing p with
  | nil => rfl
  | cons c cs ih =>
    rw [List.foldl_cons, ih, advance]
    by_cases hc : c = '\n'
    · rw [if_pos hc, hc, List.count_cons_self, Nat.add_assoc, Nat.add_comm 1]
    · rw [if_neg hc, List.count_cons_of_ne hc]

/-- What stands on the last line of a text. -/
def lastLine (cs : List Char) : List Char := (cs.reverse.takeWhile (· ≠ '\n')).reverse

theorem lastLine_append_of_line (h : '\n' ∉ piece) :
    lastLine (before ++ piece) = lastLine before ++ piece := by
  have hpiece : ∀ c ∈ piece.reverse, decide (c ≠ '\n') = true := by
    intro c hc
    rw [List.mem_reverse] at hc
    exact decide_eq_true fun heq => h (heq ▸ hc)
  rw [lastLine, List.reverse_append, List.takeWhile_append_of_pos hpiece, List.reverse_append,
    List.reverse_reverse, lastLine]

theorem lastLine_append_newline (lines last : List Char) (h : '\n' ∉ last) :
    lastLine (lines ++ '\n' :: last) = last := by
  have hlines : lastLine (lines ++ ['\n']) = [] := by simp [lastLine]
  rw [← List.singleton_append, ← List.append_assoc, lastLine_append_of_line h, hlines,
    List.nil_append]

/-- The line is that of the last line feed in front of the place and the column is counted from
there. -/
theorem ofOffset_eq_counts (before after : List Char) :
    ofOffset (before ++ after) (byteLength before)
      = ⟨before.count '\n' + 1, (lastLine before).length + 1⟩ := by
  rw [ofOffset_append]
  rcases Blanking.exists_last_line before with hline | ⟨lines, last, rfl, hlast⟩
  · have hlast : lastLine before = before := by
      rw [← List.nil_append before, lastLine_append_of_line hline]
      rfl
    rw [foldl_advance hline, List.count_eq_zero_of_not_mem hline, hlast, start, Nat.zero_add,
      Nat.add_comm]
  · rw [foldl_advance_newline, foldl_advance hlast, line_foldl_advance,
      lastLine_append_newline lines last hlast, List.count_append, List.count_cons_self,
      List.count_eq_zero_of_not_mem hlast]
    simp only [start, Position.mk.injEq]
    omega

/-! ## Places one after the other -/

theorem before_append (hpiece : piece ≠ []) :
    Before (ofOffset (before ++ (piece ++ after)) (byteLength before))
      (ofOffset (before ++ (piece ++ after)) (byteLength (before ++ piece))) := by
  rw [ofOffset_eq_counts, ← List.append_assoc, ofOffset_eq_counts, List.count_append]
  by_cases hline : '\n' ∈ piece
  · have hcount := List.count_pos_iff.mpr hline
    exact .inl (by simp only; omega)
  · have hlength := List.length_pos_iff.mpr hpiece
    rw [List.count_eq_zero_of_not_mem hline, lastLine_append_of_line hline, List.length_append]
    exact .inr ⟨rfl, by simp only; omega⟩

theorem before_of_lt {text : List Char} {o₁ o₂ : Nat} (h₁ : IsBoundary text o₁)
    (h₂ : IsBoundary text o₂) (hlt : o₁ < o₂) : Before (ofOffset text o₁) (ofOffset text o₂) := by
  obtain ⟨before, rest, rfl, rfl⟩ := h₁
  obtain ⟨before', after, hsplit, rfl⟩ := h₂
  obtain ⟨piece, rfl, rfl⟩ := exists_append_of_byteLength_le hsplit (Nat.le_of_lt hlt)
  refine before_append fun hnil => ?_
  rw [hnil, List.append_nil] at hlt
  exact Nat.lt_irrefl _ hlt

end Position

namespace SyntaxError

open Position

/-- The position of an error says at which place between characters it is: a place further on has a
position further on, no two places have the same one, and the first place of a text is the first
column of line 1. -/
theorem position_before_iff (text : List Char) (fault₁ fault₂ : SyntaxFault) :
    (atOffset text 0 fault₁).position = ⟨1, 1⟩ ∧
      ∀ o₁ o₂, IsBoundary text o₁ → IsBoundary text o₂ →
        (Before (atOffset text o₁ fault₁).position (atOffset text o₂ fault₂).position ↔ o₁ < o₂) ∧
        ((atOffset text o₁ fault₁).position = (atOffset text o₂ fault₂).position ↔ o₁ = o₂) := by
  refine ⟨ofOffset_eq_counts [] text, fun o₁ o₂ h₁ h₂ => ?_⟩
  rcases Nat.lt_trichotomy o₁ o₂ with hlt | rfl | hlt
  · have hbefore := before_of_lt h₁ h₂ hlt
    exact ⟨iff_of_true hbefore hlt, iff_of_false hbefore.ne (Nat.ne_of_lt hlt)⟩
  · exact ⟨iff_of_false (fun h => h.ne rfl) (Nat.lt_irrefl o₁), iff_of_true rfl rfl⟩
  · have hbefore := before_of_lt h₂ h₁ hlt
    exact ⟨iff_of_false hbefore.asymm (Nat.lt_asymm hlt),
      iff_of_false hbefore.ne.symm (Nat.ne_of_gt hlt)⟩

/-- The offsets count bytes, of which the characters here have up to four; both stand on the second
line. -/
theorem position_before_iff_example : ∃ text o₁ o₂ fault, text = "é\n\t😀\n".toList ∧
    IsBoundary text o₁ ∧ IsBoundary text o₂ ∧ o₁ = 4 ∧ o₂ = 8 ∧
      (atOffset text 0 fault).position = ⟨1, 1⟩ ∧
      (Before (atOffset text o₁ fault).position (atOffset text o₂ fault).position ↔ o₁ < o₂) ∧
      ((atOffset text o₁ fault).position = (atOffset text o₂ fault).position ↔ o₁ = o₂) := by
  have h₁ : IsBoundary "é\n\t😀\n".toList 4 := ⟨"é\n\t".toList, "😀\n".toList, rfl, rfl⟩
  have h₂ : IsBoundary "é\n\t😀\n".toList 8 := ⟨"é\n\t😀".toList, "\n".toList, rfl, rfl⟩
  obtain ⟨hfirst, horder⟩ := position_before_iff _ .unclosedComment .unclosedComment
  exact ⟨_, 4, 8, _, rfl, h₁, h₂, rfl, rfl, hfirst, horder 4 8 h₁ h₂⟩

end SyntaxError
end AliasCheck
