import SchemaTypes.Proofs.Text.Comment

namespace SchemaTypes.Text

/-- The bytes of a text up to its first `*/`, with these two. -/
def throughCloser : Text → Text
  | a :: b :: rest => if Apart a b then a :: throughCloser (b :: rest) else [a, b]
  | short => short

/-- The comment that a text begins with, and the byte behind it, which ends its last line. -/
def leadingComment (t : Text) : Text :=
  if ("/**" : Text).isPrefixOf t then t.take ((throughCloser t).length + 1) else []

variable {code front : Text}

theorem throughCloser_append (free : Open (front ++ "*")) (rest : Text) :
    throughCloser (front ++ "*/" ++ rest) = front ++ "*/" := by
  induction front with
  | nil => rfl
  | cons a front ih =>
    -- The next byte is one of the front, or else the star of the closer.
    cases front with
    | nil =>
      have apart : Apart a '*'.toUInt8 := .of_not_slash (by decide)
      exact (if_pos apart).trans (congrArg (a :: ·) (ih (.singleton _)))
    | cons b front =>
      obtain ⟨apart, later⟩ := List.isChain_cons_cons.1 free
      exact (if_pos apart).trans (congrArg (a :: ·) (ih later))

theorem leadingComment_append (description : Text) (noSlash : ∀ b ∈ code.head?, b ≠ '/'.toUInt8) :
    leadingComment (comment description 0 ++ code) = comment description 0 := by
  by_cases empty : description = []
  · subst empty
    refine if_neg fun opened => ?_
    obtain ⟨rest, eq⟩ := List.isPrefixOf_iff_prefix.1 opened
    have eq : '/'.toUInt8 :: ("**" ++ rest) = code := eq
    exact noSlash _ (by rw [← eq]; rfl) rfl
  · obtain ⟨inside, eq, inert⟩ := exists_inside empty 0
    have eq : comment description 0 = "/**" ++ inside ++ "*/" ++ "\n" := by
      rw [eq, List.append_assoc _ ("*/" : Text)]
      rfl
    have opened : ("/**" : Text).isPrefixOf (comment description 0 ++ code) := by
      rw [List.isPrefixOf_iff_prefix, eq]
      exact ⟨inside ++ "*/" ++ "\n" ++ code, by simp only [List.append_assoc]⟩
    have free : Open ("/**" ++ inside ++ "*") := by
      rw [List.append_assoc]
      exact (open_opening 0).append inert
    have closed : throughCloser (comment description 0 ++ code) = "/**" ++ inside ++ "*/" := by
      rw [eq, List.append_assoc (_ ++ _), throughCloser_append free]
    have length : (throughCloser (comment description 0 ++ code)).length + 1 =
        (comment description 0).length := by
      rw [closed, eq]
      simp only [List.length_append]
      rfl
    rw [leadingComment, if_pos opened, length, List.take_left]

end SchemaTypes.Text
