import SchemaTypes.Proofs.TypeExpr.Phrase

namespace SchemaTypes.TypeExpr

open Matches

/-- A move is sound if meeting what it leaves meets the goal. -/
def Move.Sound (g : Goal) (a b : List Lexeme) : Move → Prop
  | take goals => Reads True goals a.tail b → Matches True (.phrase g) a b
  | become goals => Reads True goals a b → Matches True (.phrase g) a b
  | refuse _ => True

section

variable (a b : List Lexeme)

theorem type_sound : (Goal.predict .type a).Sound .type a b := by
  simp only [Goal.predict.eq_def]
  split
  · exact fun h => type_iff.2 (.inl ⟨_, rfl, h⟩)
  · split
    · exact fun h => type_iff.2 (.inr (.inl ⟨_, rfl, h⟩))
    · exact fun h => type_iff.2 (.inr (.inr (.inr ⟨fun _ => id, h⟩)))
  · split
    · subst_vars
      exact fun h => type_iff.2 (.inr (.inr (.inl ⟨_, rfl, h⟩)))
    · rename_i ordinary
      exact fun h => type_iff.2 (.inr (.inr (.inr ⟨fun _ => ordinary, h⟩)))
  · rename_i noWord
    refine fun h => type_iff.2 (.inr (.inr (.inr ⟨fun _ broken => ?_, h⟩)))
    obtain ⟨w, -, t, rfl⟩ := broken.starts
    exact noWord w t rfl

theorem condition_sound : (Goal.predict .condition a).Sound .condition a b := by
  simp only [Goal.predict.eq_def]
  split
  · split
    · subst_vars
      exact fun h => condition_iff.2 (.inl ⟨_, rfl, h⟩)
    · exact fun h => condition_iff.2 (.inr (reads_nil.1 h))
  · exact fun h => condition_iff.2 (.inr (reads_nil.1 h))

theorem moreUnion_sound : (Goal.predict .moreUnion a).Sound .moreUnion a b := by
  simp only [Goal.predict.eq_def]
  split
  · exact fun h => moreUnion_iff.2 (.inl ⟨_, rfl, h⟩)
  · exact fun h => moreUnion_iff.2 (.inr (reads_nil.1 h))

theorem moreIntersection_sound :
    (Goal.predict .moreIntersection a).Sound .moreIntersection a b := by
  simp only [Goal.predict.eq_def]
  split
  · exact fun h => moreIntersection_iff.2 (.inl ⟨_, rfl, h⟩)
  · exact fun h => moreIntersection_iff.2 (.inr (reads_nil.1 h))

theorem operand_sound : (Goal.predict .operand a).Sound .operand a b := by
  simp only [Goal.predict.eq_def]
  split
  · rename_i w rest
    split
    · rename_i operator
      exact fun h => operand_iff.2 (.inl ⟨w, rest, operator.1, rfl, by simpa using h⟩)
    · rename_i plain
      split
      · rename_i next t
        split
        · subst_vars
          exact fun h => operand_iff.2 (.inr (.inl ⟨_, rfl, by simpa using h⟩))
        · rename_i notInfer
          refine fun h => operand_iff.2 (.inr (.inr ⟨fun _ broken => ?_, h⟩))
          exact broken.1.elim (fun operator => plain ⟨operator, rfl⟩) notInfer
      · rename_i noWord
        refine fun h => operand_iff.2 (.inr (.inr ⟨fun _ broken => ?_, h⟩))
        obtain ⟨next, t, rfl⟩ := broken.second
        exact noWord next t rfl
  · rename_i noWord
    refine fun h => operand_iff.2 (.inr (.inr ⟨fun _ broken => ?_, h⟩))
    obtain ⟨w, -, t, rfl⟩ := broken.starts
    exact noWord w t rfl

theorem primary_sound : (Goal.predict .primary a).Sound .primary a b := by
  simp only [Goal.predict.eq_def]
  split
  · split
    · subst_vars
      exact fun h => primary_iff.2 (.inr (.inr (.inr (.inr (.inr (.inl ⟨_, rfl, h⟩))))))
    · rename_i ordinary
      exact fun h =>
        primary_iff.2 (.inr (.inr (.inr (.inr (.inr (.inr ⟨fun _ => ordinary, h⟩))))))
  · exact fun h => primary_iff.2 (.inr (.inl ⟨_, rfl, by simpa using h⟩))
  · exact fun h => primary_iff.2 (.inr (.inr (.inl ⟨_, rfl, h⟩)))
  · exact fun h => primary_iff.2 (.inr (.inr (.inr (.inl ⟨_, rfl, by simpa using h⟩))))
  · exact fun h => primary_iff.2 (.inr (.inr (.inr (.inr (.inl ⟨_, rfl, by simpa using h⟩)))))
  · trivial
  · rename_i l t noWord _ _ _ _ noMark
    rintro ⟨⟩
    refine primary_iff.2 (.inl ⟨l, ?_, rfl⟩)
    cases l <;> simp_all [IsLiteral]
  · trivial

theorem qualifiers_sound : (Goal.predict .qualifiers a).Sound .qualifiers a b := by
  simp only [Goal.predict.eq_def]
  split
  · exact fun h => qualifiers_iff.2 (.inl ⟨_, rfl, h⟩)
  · exact fun h => qualifiers_iff.2 (.inr (.inl ⟨_, rfl, h⟩))
  · exact fun h => qualifiers_iff.2 (.inr (.inr (reads_nil.1 h)))

theorem indices_sound : (Goal.predict .indices a).Sound .indices a b := by
  simp only [Goal.predict.eq_def]
  split
  · exact fun h => indices_iff.2 (.inl ⟨_, rfl, reads_singleton.1 h⟩)
  · exact fun h => indices_iff.2 (.inr (reads_nil.1 h))

theorem index_sound : (Goal.predict .index a).Sound .index a b := by
  simp only [Goal.predict.eq_def]
  split
  · exact fun h => index_iff.2 (.inl ⟨_, rfl, reads_singleton.1 h⟩)
  · exact fun h => index_iff.2 (.inr h)

theorem moreTypeArguments_sound :
    (Goal.predict .moreTypeArguments a).Sound .moreTypeArguments a b := by
  simp only [Goal.predict.eq_def]
  split
  · exact fun h => moreTypeArguments_iff.2 (.inl ⟨_, rfl, h⟩)
  · exact fun h => moreTypeArguments_iff.2 (.inr (mark_iff.1 (reads_singleton.1 h)))

theorem identifier_sound : (Goal.predict .identifier a).Sound .identifier a b := by
  simp only [Goal.predict.eq_def]
  split
  · split
    · trivial
    · rename_i unreserved
      exact fun h => identifier_iff.2 ⟨_, unreserved, congrArg _ (reads_nil.1 h)⟩
  · trivial

theorem numeral_sound : (Goal.predict .numeral a).Sound .numeral a b := by
  simp only [Goal.predict.eq_def]
  split
  · exact fun h => number_iff.2 ⟨_, congrArg _ (reads_nil.1 h)⟩
  · trivial

theorem mark_sound (m : Mark) : (Goal.predict (.mark m) a).Sound (.mark m) a b := by
  simp only [Goal.predict.eq_def]
  split
  · split
    · subst_vars
      exact fun h => mark_iff.2 (congrArg _ (reads_nil.1 h))
    · trivial
  · trivial

theorem optional_sound (m : Mark) :
    (Goal.predict (.optional m) a).Sound (.optional m) a b := by
  simp only [Goal.predict.eq_def]
  split
  · split
    · subst_vars
      exact fun h => optional_iff.2 (.inl (mark_iff.2 (congrArg _ (reads_nil.1 h))))
    · exact fun h => optional_iff.2 (.inr (reads_nil.1 h))
  · exact fun h => optional_iff.2 (.inr (reads_nil.1 h))

theorem moreTypeParameters_sound :
    (Goal.predict .moreTypeParameters a).Sound .moreTypeParameters a b := by
  simp only [Goal.predict.eq_def]
  split
  · exact fun h => moreTypeParameters_iff.2 (.inl ⟨_, rfl, reads_singleton.1 h⟩)
  · exact fun h => moreTypeParameters_iff.2 (.inr (mark_iff.1 (reads_singleton.1 h)))

theorem bound_sound : (Goal.predict .bound a).Sound .bound a b := by
  simp only [Goal.predict.eq_def]
  split
  · split
    · subst_vars
      exact fun h => bound_iff.2 (.inl ⟨_, rfl, reads_singleton.1 h⟩)
    · exact fun h => bound_iff.2 (.inr (reads_nil.1 h))
  · exact fun h => bound_iff.2 (.inr (reads_nil.1 h))

theorem preset_sound : (Goal.predict .preset a).Sound .preset a b := by
  simp only [Goal.predict.eq_def]
  split
  · exact fun h => preset_iff.2 (.inl ⟨_, rfl, reads_singleton.1 h⟩)
  · exact fun h => preset_iff.2 (.inr (reads_nil.1 h))

theorem ascription_sound : (Goal.predict .ascription a).Sound .ascription a b := by
  simp only [Goal.predict.eq_def]
  split
  · exact fun h => ascription_iff.2 (.inl ⟨_, rfl, reads_singleton.1 h⟩)
  · exact fun h => ascription_iff.2 (.inr (reads_nil.1 h))

theorem signature_sound : (Goal.predict .signature a).Sound .signature a b := by
  simp only [Goal.predict.eq_def]
  split
  · exact fun h => signature_iff.2 (.inl h)
  · exact fun h => signature_iff.2 (.inr (reads_singleton.1 h))

theorem parameterList_sound : (Goal.predict .parameterList a).Sound .parameterList a b := by
  simp only [Goal.predict.eq_def]
  split
  · exact fun h => parameterList_iff.2 (.inl (congrArg _ (reads_nil.1 h)))
  · exact fun h => parameterList_iff.2 (.inr h)

theorem moreParameters_sound : (Goal.predict .moreParameters a).Sound .moreParameters a b := by
  simp only [Goal.predict.eq_def]
  split
  · exact fun h => moreParameters_iff.2 (.inl ⟨_, rfl, reads_singleton.1 h⟩)
  · exact fun h => moreParameters_iff.2 (.inr (mark_iff.1 (reads_singleton.1 h)))

theorem label_sound : (Goal.predict .label a).Sound .label a b := by
  simp only [Goal.predict.eq_def]
  split
  · rename_i w t
    intro h
    obtain ⟨⟩ := mark_iff.1 (reads_singleton.1 h)
    exact label_iff.2 (.inl ⟨w, rfl⟩)
  · rename_i w t
    intro h
    obtain ⟨c, question, rest⟩ := reads_cons.1 h
    obtain ⟨⟩ := mark_iff.1 question
    obtain ⟨⟩ := mark_iff.1 (reads_singleton.1 rest)
    exact label_iff.2 (.inr (.inl ⟨w, rfl⟩))
  · exact fun h => label_iff.2 (.inr (.inr (reads_nil.1 h)))

theorem elements_sound : (Goal.predict .elements a).Sound .elements a b := by
  simp only [Goal.predict.eq_def]
  split
  · exact fun h => elements_iff.2 (.inl (congrArg _ (reads_nil.1 h)))
  · exact fun h => elements_iff.2 (.inr h)

theorem moreElements_sound : (Goal.predict .moreElements a).Sound .moreElements a b := by
  simp only [Goal.predict.eq_def]
  split
  · exact fun h => moreElements_iff.2 (.inl ⟨_, rfl, reads_singleton.1 h⟩)
  · exact fun h => moreElements_iff.2 (.inr (mark_iff.1 (reads_singleton.1 h)))

theorem members_sound : (Goal.predict .members a).Sound .members a b := by
  simp only [Goal.predict.eq_def]
  split
  · exact fun h => members_iff.2 (.inl (congrArg _ (reads_nil.1 h)))
  · exact fun h => members_iff.2 (.inr h)

theorem moreMembers_sound : (Goal.predict .moreMembers a).Sound .moreMembers a b := by
  simp only [Goal.predict.eq_def]
  split
  · exact fun h => moreMembers_iff.2 (.inl ⟨_, .inl rfl, reads_singleton.1 h⟩)
  · exact fun h => moreMembers_iff.2 (.inl ⟨_, .inr rfl, reads_singleton.1 h⟩)
  · exact fun h => moreMembers_iff.2 (.inr (mark_iff.1 (reads_singleton.1 h)))

theorem member_sound : (Goal.predict .member a).Sound .member a b := by
  simp only [Goal.predict.eq_def]
  split
  · exact fun h => member_iff.2 (.inl h)
  · exact fun h => member_iff.2 (.inl h)
  · split
    · rename_i readonly
      obtain ⟨rfl, -⟩ := readonly
      exact fun h => member_iff.2 (.inr (.inl ⟨_, rfl, reads_singleton.1 h⟩))
    · exact fun h => member_iff.2 (.inr (.inr (reads_singleton.1 h)))
  · exact fun h => member_iff.2 (.inr (.inr (reads_singleton.1 h)))

theorem memberKey_sound : (Goal.predict .memberKey a).Sound .memberKey a b := by
  simp only [Goal.predict.eq_def]
  split
  · exact fun h => memberKey_iff.2 (.inl ⟨_, rfl, h⟩)
  · trivial
  · trivial
  · rename_i l t _ noMark noTemplate
    refine fun h => memberKey_iff.2 (.inr ⟨l, t, ?_, rfl, h⟩)
    cases l <;> simp_all [IsPropertyName]
  · trivial

theorem keyRest_sound : (Goal.predict .keyRest a).Sound .keyRest a b := by
  simp only [Goal.predict.eq_def]
  split
  · split
    · subst_vars
      exact fun h => keyRest_iff.2 (.inl ⟨_, rfl, h⟩)
    · exact fun h => keyRest_iff.2 (.inr h)
  · exact fun h => keyRest_iff.2 (.inr h)

theorem method_sound : (Goal.predict .method a).Sound .method a b := by
  simp only [Goal.predict.eq_def]
  split
  · exact fun h => method_iff.2 (.inl (reads_singleton.1 h))
  · exact fun h => method_iff.2 (.inl (reads_singleton.1 h))
  · exact fun h => method_iff.2 (.inr (reads_nil.1 h))

end

/-! ## Every goal, and every run -/

/-- Whatever lies ahead, the way in which a goal is met is one that the grammar allows. -/
theorem predict_sound (g : Goal) (a b : List Lexeme) : (g.predict a).Sound g a b := by
  cases g with
  | type => exact type_sound a b
  | condition => exact condition_sound a b
  | union => exact union_iff.2
  | moreUnion => exact moreUnion_sound a b
  | intersection => exact intersection_iff.2
  | moreIntersection => exact moreIntersection_sound a b
  | operand => exact operand_sound a b
  | primary => exact primary_sound a b
  | indices => exact indices_sound a b
  | index => exact index_sound a b
  | numeral => exact numeral_sound a b
  | typeName => exact identifier_sound a b
  | qualifiers => exact qualifiers_sound a b
  | moreTypeArguments => exact moreTypeArguments_sound a b
  | identifier => exact identifier_sound a b
  | typeParameters => exact typeParameters_iff.2
  | typeParameter => exact typeParameter_iff.2
  | moreTypeParameters => exact moreTypeParameters_sound a b
  | bound => exact bound_sound a b
  | preset => exact preset_sound a b
  | signature => exact signature_sound a b
  | parameters => exact parameters_iff.2
  | parameterList => exact parameterList_sound a b
  | moreParameters => exact moreParameters_sound a b
  | ascription => exact ascription_sound a b
  | elements => exact elements_sound a b
  | moreElements => exact moreElements_sound a b
  | label => exact label_sound a b
  | members => exact members_sound a b
  | moreMembers => exact moreMembers_sound a b
  | member => exact member_sound a b
  | memberKey => exact memberKey_sound a b
  | keyRest => exact keyRest_sound a b
  | method => exact method_sound a b
  | mark m => exact mark_sound a b m
  | optional m => exact optional_sound a b m

/-- Goals that are met lead where they do by the grammar alone. -/
theorem meet_sound {goals : List Goal} {a b : List Lexeme} (h : Goal.meet goals a = .ok b) :
    Reads True goals a b := by
  fun_induction Goal.meet goals a with
  | case1 a => exact reads_nil.2 (Except.ok.inj h)
  | case2 a g later first move ih =>
    obtain ⟨c, left, right⟩ := reads_append.1 (ih h)
    have sound := predict_sound g a c
    rw [move] at sound
    exact reads_cons.2 ⟨c, sound left, right⟩
  | case3 a g later first move ih =>
    obtain ⟨c, left, right⟩ := reads_append.1 (ih h)
    have sound := predict_sound g a c
    rw [move] at sound
    exact reads_cons.2 ⟨c, sound left, right⟩
  | case4 a g later cause move => cases h

end SchemaTypes.TypeExpr
