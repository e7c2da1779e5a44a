import AsioStudy.Core.AsyncRead

/-!
# AsioStudy.Core.Lines

Texts made of lines that end in `"\r\n"`, and where such a text has its delimiters: the
first `"\r\n"` is the end of the first line (`CRLF_not_infix_line`), the first
`"\r\n\r\n"` the empty line after the block (`not_infix_blockEnd`). These are what
`split_at_delim` asks for.
-/

namespace AsioStudy

/-- Lines, each with its end. -/
def line_block (lines : List Bytes) : Bytes := lines.flatMap (· ++ CRLF)

/-- The lines of a block: neither empty nor with a CR. -/
def BlockLines (lines : List Bytes) : Prop := ∀ l ∈ lines, l ≠ [] ∧ CR ∉ l

theorem line_block_cons (line : Bytes) (lines : List Bytes) :
    line_block (line :: lines) = line ++ CR :: LF :: line_block lines := by
  simp [line_block]

theorem length_le_line_block (lines : List Bytes) :
    lines.length ≤ (line_block lines).length := by
  induction lines with
  | nil => exact Nat.le_refl _
  | cons line lines ih =>
      simp only [line_block_cons, List.length_cons, List.length_append]
      omega

/-! ### Where the delimiters are -/

/-- The first `"\r\n"` of a text ends its first line. -/
theorem CRLF_not_infix_line {line : Bytes} (h : CR ∉ line) :
    ¬ CRLF <:+: (line ++ CRLF).dropLast := by
  have hdrop : (line ++ CRLF).dropLast = line ++ [CR] := by
    rw [List.dropLast_append_of_ne_nil (by simp)]
    rfl
  rw [hdrop]
  intro hin
  have hcr : CRLF <:+: [CR] := infix_of_append_of_not_mem h hin
  exact absurd hcr (by decide)

/-- No empty line is among non-empty lines. -/
theorem not_infix_line_block {lines : List Bytes} (hlines : BlockLines lines) :
    ¬ CRLF ++ CRLF <:+: line_block lines ++ [CR] := by
  induction lines with
  | nil => decide
  | cons line lines ih =>
      obtain ⟨-, hcr⟩ := hlines line List.mem_cons_self
      rw [line_block_cons, List.append_assoc]
      intro hin
      have hin' := infix_of_append_of_not_mem hcr hin
      rw [List.cons_append, List.cons_append, List.infix_cons_iff, List.infix_cons_iff] at hin'
      rcases hin' with hp | hp | hin'
      · -- the next line would begin with CR
        have hp' : CRLF <+: line_block lines ++ [CR] :=
          (List.prefix_append_right_inj CRLF).mp hp
        cases lines with
        | nil => exact absurd hp' (by decide)
        | cons next lines =>
            obtain ⟨hne, hcr'⟩ := hlines next (List.mem_cons_of_mem _ List.mem_cons_self)
            obtain ⟨c, cs, rfl⟩ := List.exists_cons_of_ne_nil hne
            have hc : CR = c := (List.cons_prefix_cons.mp hp').1
            exact hcr' (hc ▸ List.mem_cons_self)
      · exact absurd (List.cons_prefix_cons.mp hp).1 (by decide)
      · exact ih (fun l hl => hlines l (List.mem_cons_of_mem _ hl)) hin'

/-- The first empty line ends the block. -/
theorem not_infix_blockEnd {lines : List Bytes} (hlines : BlockLines lines) :
    ¬ CRLF ++ CRLF <:+: (line_block lines ++ CRLF).dropLast := by
  have hdrop : (line_block lines ++ CRLF).dropLast = line_block lines ++ [CR] := by
    rw [List.dropLast_append_of_ne_nil (by simp)]
    rfl
  rw [hdrop]
  exact not_infix_line_block hlines

/-- **When a block is followed by the delimiter.** The end of the last line and the empty
line together make a `"\r\n\r\n"`. Without a line the empty line alone is not enough. -/
theorem infix_emptyLine_iff (lines : List Bytes) (body : Bytes) :
    CRLF ++ CRLF <:+: line_block lines ++ CRLF ++ body ↔
      lines ≠ [] ∨ CRLF <+: body ∨ CRLF ++ CRLF <:+: body := by
  rcases List.eq_nil_or_concat lines with rfl | ⟨init, last, rfl⟩
  · have hnil : line_block [] ++ CRLF ++ body = CR :: LF :: body := rfl
    have hne : ¬ CR = LF := by decide
    rw [hnil, List.infix_cons_iff, List.infix_cons_iff]
    simp [List.cons_prefix_cons, hne]
  · have hlast : line_block (init ++ [last]) ++ CRLF ++ body =
        line_block init ++ last ++ (CRLF ++ CRLF) ++ body := by
      simp [line_block]
    rw [List.concat_eq_append, hlast]
    simp only [ne_eq, List.append_eq_nil_iff, List.cons_ne_self, and_false, not_false_eq_true,
      true_or, iff_true]
    exact ⟨_, _, rfl⟩

end AsioStudy
