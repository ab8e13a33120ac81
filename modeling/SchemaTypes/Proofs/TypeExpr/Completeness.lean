import SchemaTypes.Proofs.TypeExpr.Lookahead

namespace SchemaTypes.TypeExpr

open Matches

instance : DecidablePred EndsType := fun l =>
  inferInstanceAs (Decidable (∃ m ∈ typeEnds, l = .mark m))

instance : DecidablePred EndsUnion := fun l =>
  inferInstanceAs (Decidable (EndsType l ∨ l = .word "extends"))

instance : DecidablePred EndsIntersection := fun l =>
  inferInstanceAs (Decidable (EndsUnion l ∨ l = .mark .bar))

instance : DecidablePred EndsOperand := fun l =>
  inferInstanceAs (Decidable (EndsIntersection l ∨ l = .mark .ampersand))

instance : DecidablePred EndsPrimary := fun l =>
  inferInstanceAs (Decidable (EndsOperand l ∨ l = .mark .leftBracket))

instance : DecidablePred EndsParameter := fun l =>
  inferInstanceAs (Decidable (l = .mark .comma ∨ l = .mark .greater ∨ l = .mark .rightParen))

/-- The goals are met one after the other, and what comes after each of them may follow it. -/
inductive Foreseen : List Goal → List Lexeme → List Lexeme → Prop where
  | nil {a} : Foreseen [] a a
  | cons {g gs a b c} : Matches True (.phrase g) a b → Follow g b → Foreseen gs b c →
      Foreseen (g :: gs) a c

namespace Foreseen

variable {g : Goal} {gs hs : List Goal} {m : Mark} {a b c d : List Lexeme}

theorem append (first : Foreseen gs a b) (rest : Foreseen hs b c) : Foreseen (gs ++ hs) a c := by
  induction first with
  | nil => exact rest
  | cons met follow _ ih => exact .cons met follow (ih rest)

theorem singleton (met : Matches True (.phrase g) a b) (follow : Follow g b) : Foreseen [g] a b :=
  .cons met follow .nil

theorem mark (rest : Foreseen gs a b) : Foreseen (.mark m :: gs) (.mark m :: a) b :=
  .cons (mark_iff.2 rfl) trivial rest

end Foreseen

/-- A move gets from one place to another if what it leaves does. -/
def Move.Foresees (a b : List Lexeme) : Move → Prop
  | take goals => ∃ l t, a = l :: t ∧ Foreseen goals t b
  | become goals => Foreseen goals a b
  | refuse _ => False

section

variable {a b c t : List Lexeme}

theorem closesBeforeArrow_parameterList (h : Matches True (.phrase .parameterList) a b) :
    closesBeforeArrow 1 a = (b.head? = some (.mark .arrow)) := by
  obtain ⟨c, items, closing⟩ := seq_iff.1 h
  obtain rfl := mark_iff.1 closing
  rw [closesBeforeArrow_eq_of_matches items (by decide) 0]
  simp [closesBeforeArrow]

theorem primary_leftParen (h : Matches True (.phrase .primary) (.mark .leftParen :: t) b) :
    Reads True [.type, .mark .rightParen] t b := by
  rcases primary_iff.1 h with ⟨l, literal, eq⟩ | ⟨_, eq, -⟩ | ⟨_, eq, inner⟩ | ⟨_, eq, -⟩ |
    ⟨_, eq, -⟩ | ⟨_, eq, -⟩ | ⟨-, reference⟩
  · cases eq
    exact literal.elim
  · cases eq
  · cases eq
    exact inner
  · cases eq
  · cases eq
  · cases eq
  · obtain ⟨_, named, -⟩ := reads_cons.1 reference
    obtain ⟨_, -, eq⟩ := identifier_iff.1 named
    cases eq

theorem closesBeforeArrow_union (h : Matches True (.phrase .union) (.mark .leftParen :: t) b)
    (follow : Ahead EndsUnion b) : closesBeforeArrow 1 t = false := by
  simp only [union_iff, intersection_iff, reads_cons, reads_nil, exists_eq_right,
    optionalGoal_iff] at h
  obtain ⟨_, start, _, ⟨_, start', _, operand, moreIntersection⟩, moreUnion⟩ := h
  obtain rfl := start.resolve_left (by simp)
  obtain rfl := start'.resolve_left (by simp)
  obtain ⟨-, plain⟩ := (operand_iff.1 operand).resolve_left (by simp) |>.resolve_left (by simp)
  obtain ⟨u, primary, indices⟩ := reads_cons.1 plain
  obtain ⟨v, inner, closing⟩ := reads_cons.1 (primary_leftParen primary)
  obtain rfl := mark_iff.1 (reads_singleton.1 closing)
  have after : Ahead EndsPrimary u := indices_follow (reads_singleton.1 indices)
    (moreIntersection_follows moreIntersection (moreUnion_follows moreUnion follow))
  rw [closesBeforeArrow_eq_of_matches inner rfl 0]
  -- Were an arrow there, these would be parameters; but nothing that follows a union is one.
  have noArrow : u.head? ≠ some (.mark .arrow) := by
    intro arrow
    obtain ⟨v, rfl⟩ := List.head?_eq_some_iff.1 arrow
    exact absurd (ahead_cons.1 after) (by decide)
  simp [closesBeforeArrow, noArrow]

theorem moreTypeArguments_ends (h : Matches True (.phrase .moreTypeArguments) a b) :
    Ahead EndsType a := by
  rcases moreTypeArguments_iff.1 h with ⟨t, rfl, -⟩ | rfl
  · exact ahead_cons.2 (by decide)
  · exact ahead_cons.2 (by decide)

theorem type_complete (h : Matches True (.phrase .type) a b) (follow : Ahead EndsType b) :
    (Goal.predict .type a).Foresees a b := by
  simp only [Goal.predict.eq_def]
  rcases type_iff.1 h with ⟨t, rfl, generic⟩ | ⟨t, rfl, plain⟩ | ⟨t, rfl, constructed⟩ |
    ⟨kept, rest⟩
  · simp only [reads_cons, reads_nil, markGoal_iff, exists_eq_right] at generic
    obtain ⟨c, parameter, d, parameters, e, rfl, result⟩ := generic
    exact ⟨_, t, rfl, .cons parameter trivial
      (.cons parameters trivial (.mark (.singleton result follow)))⟩
  · simp only [reads_cons, reads_nil, markGoal_iff, exists_eq_right] at plain
    obtain ⟨c, parameters, d, rfl, result⟩ := plain
    have closes : closesBeforeArrow 1 t := by simp [closesBeforeArrow_parameterList parameters]
    simp only [closes, if_true]
    exact ⟨_, t, rfl, .cons parameters trivial (.mark (.singleton result follow))⟩
  · simp only [reads_cons, reads_nil, markGoal_iff, exists_eq_right] at constructed
    obtain ⟨c, signature, d, rfl, result⟩ := constructed
    exact ⟨_, t, rfl, .cons signature trivial (.mark (.singleton result follow))⟩
  · obtain ⟨c, union, conditional⟩ := reads_cons.1 rest
    have condition := reads_singleton.1 conditional
    have after := condition_follows condition follow
    have reading : Foreseen [.union, .condition] a b :=
      .cons union after (.singleton condition follow)
    split
    · obtain ⟨l, t, eq, starts⟩ := union_starts union
      cases eq
      simp [StartsUnion, StartsIntersection, StartsPrimary] at starts
    · simp only [closesBeforeArrow_union union after, Bool.false_eq_true, if_false]
      exact reading
    · split
      · rename_i new
        exact absurd new (kept trivial)
      · exact reading
    · exact reading

theorem condition_complete (h : Matches True (.phrase .condition) a b) (follow : Ahead EndsType b) :
    (Goal.predict .condition a).Foresees a b := by
  simp only [Goal.predict.eq_def]
  rcases condition_iff.1 h with ⟨t, rfl, conditional⟩ | rfl
  · simp only [reads_cons, reads_nil, markGoal_iff, exists_eq_right] at conditional
    obtain ⟨c, union, d, rfl, e, yes, f, rfl, no⟩ := conditional
    exact ⟨_, t, rfl, .cons union (ahead_cons.2 (by decide))
      (.mark (.cons yes (ahead_cons.2 (by decide)) (.mark (.singleton no follow))))⟩
  · split
    · rename_i w t
      split
      · subst_vars
        exact absurd (ahead_cons.1 follow) (by decide)
      · exact .nil
    · exact .nil

theorem union_complete (h : Matches True (.phrase .union) a b) (follow : Ahead EndsUnion b) :
    (Goal.predict .union a).Foresees a b := by
  simp only [union_iff, reads_cons, reads_nil, exists_eq_right] at h
  obtain ⟨c, leading, d, intersection, more⟩ := h
  refine .cons leading ?_
    (.cons intersection (moreUnion_follows more follow) (.singleton more follow))
  rintro l t rfl rfl
  obtain ⟨l, t, eq, starts⟩ := intersection_starts intersection
  cases eq
  simp [StartsIntersection, StartsPrimary] at starts

theorem moreUnion_complete (h : Matches True (.phrase .moreUnion) a b)
    (follow : Ahead EndsUnion b) : (Goal.predict .moreUnion a).Foresees a b := by
  simp only [Goal.predict.eq_def]
  rcases moreUnion_iff.1 h with ⟨t, rfl, rest⟩ | rfl
  · obtain ⟨c, intersection, last⟩ := reads_cons.1 rest
    have more := reads_singleton.1 last
    exact ⟨_, t, rfl, .cons intersection (moreUnion_follows more follow) (.singleton more follow)⟩
  · split
    · exact absurd (ahead_cons.1 follow) (by decide)
    · exact .nil

theorem intersection_complete (h : Matches True (.phrase .intersection) a b)
    (follow : Ahead EndsIntersection b) : (Goal.predict .intersection a).Foresees a b := by
  simp only [intersection_iff, reads_cons, reads_nil, exists_eq_right] at h
  obtain ⟨c, leading, d, operand, more⟩ := h
  refine .cons leading ?_
    (.cons operand (moreIntersection_follows more follow) (.singleton more follow))
  rintro l t rfl rfl
  obtain ⟨l, t, eq, starts⟩ := operand_starts operand
  cases eq
  simp [StartsPrimary] at starts

theorem moreIntersection_complete (h : Matches True (.phrase .moreIntersection) a b)
    (follow : Ahead EndsIntersection b) : (Goal.predict .moreIntersection a).Foresees a b := by
  simp only [Goal.predict.eq_def]
  rcases moreIntersection_iff.1 h with ⟨t, rfl, rest⟩ | rfl
  · obtain ⟨c, operand, last⟩ := reads_cons.1 rest
    have more := reads_singleton.1 last
    exact ⟨_, t, rfl,
      .cons operand (moreIntersection_follows more follow) (.singleton more follow)⟩
  · split
    · exact absurd (ahead_cons.1 follow) (by decide)
    · exact .nil

/-- Whatever an operand starts with shows that a word before it is an operator. -/
theorem startsOperand_of_operand (h : Matches True (.phrase .operand) a b) :
    startsOperand a = true := by
  obtain ⟨l, t, rfl, starts⟩ := operand_starts h
  cases l with
  | mark m => obtain rfl | rfl | rfl | rfl := starts <;> rfl
  | _ => rfl

theorem primary_word {w : Text} (h : Matches True (.phrase .primary) (.word w :: t) b) :
    w = "typeof" ∧ Reads True [.typeName, .qualifiers] t b ∨
      w ≠ "typeof" ∧ Matches True (.phrase .qualifiers) t b := by
  rcases primary_iff.1 h with ⟨l, literal, eq⟩ | ⟨_, eq, -⟩ | ⟨_, eq, -⟩ | ⟨_, eq, -⟩ |
    ⟨_, eq, -⟩ | ⟨_, eq, query⟩ | ⟨kept, reference⟩
  · cases eq
    exact literal.elim
  · cases eq
  · cases eq
  · cases eq
  · cases eq
  · cases eq
    exact .inl ⟨rfl, query⟩
  · obtain ⟨_, named, qualifiers⟩ := reads_cons.1 reference
    obtain ⟨_, -, eq⟩ := identifier_iff.1 named
    cases eq
    exact .inr ⟨kept trivial, reads_singleton.1 qualifiers⟩

/-- What reads as indices reads as a tuple with indices too. -/
theorem operand_of_index (h : Matches True (.phrase .index) t b) :
    Matches True (.phrase .operand) (.mark .leftBracket :: t) b := by
  have tuple {c : List Lexeme} (elements : Matches True (.phrase .elements) t c)
      (indices : Matches True (.phrase .indices) c b) :
      Matches True (.phrase .operand) (.mark .leftBracket :: t) b := by
    have primary := primary_iff.2 (.inr (.inr (.inr (.inr (.inl ⟨t, rfl, elements⟩)))))
    exact operand_iff.2 (.inr (.inr ⟨fun _ => id,
      reads_cons.2 ⟨c, primary, reads_singleton.2 indices⟩⟩))
  rcases index_iff.1 h with ⟨c, rfl, indices⟩ | rest
  · exact tuple (elements_iff.2 (.inl rfl)) indices
  · simp only [reads_cons, reads_nil, markGoal_iff, exists_eq_right] at rest
    obtain ⟨c, element, d, rfl, indices⟩ := rest
    refine tuple (elements_iff.2 (.inr ?_)) indices
    simp only [reads_cons, reads_nil, exists_eq_right]
    exact ⟨t, optionalGoal_iff.2 (.inr rfl), t, label_iff.2 (.inr (.inr rfl)), _, element, _,
      optionalGoal_iff.2 (.inr rfl), moreElements_iff.2 (.inr rfl)⟩

/-- An operator before what may start its operand has that operand, even where it may name a type:
an index behind the name is a tuple behind the operator. -/
theorem operand_of_name {w : Text} (operator : w ∈ operators) (starts : startsOperand t = true)
    (kept : ¬ WordRule.operand.Broken (.word w :: t))
    (plain : Reads True [.primary, .indices] (.word w :: t) b) (follow : Ahead EndsOperand b) :
    Matches True (.phrase .operand) t b := by
  obtain ⟨c, primary, last⟩ := reads_cons.1 plain
  have indices := reads_singleton.1 last
  have ordinary : ∀ w ∈ operators, w ≠ "typeof" := by decide
  obtain ⟨-, qualifiers⟩ := (primary_word primary).resolve_left fun query =>
    ordinary w operator query.1
  rcases qualifiers_iff.1 qualifiers with ⟨_, rfl, -⟩ | ⟨_, rfl, -⟩ | rfl
  · cases starts
  · cases starts
  · rcases indices_iff.1 indices with ⟨u, rfl, index⟩ | rfl
    · exact operand_of_index index
    · rcases t with _ | ⟨l, u⟩
      · cases starts
      · obtain ((⟨m, mem, rfl⟩ | rfl) | rfl) | rfl := ahead_cons.1 follow
        · have noStart : ∀ m ∈ typeEnds, startsOperand (.mark m :: u) = false := by
            simp [typeEnds, startsOperand]
          exact absurd starts (by simp [noStart m mem])
        · exact absurd ⟨.inl operator, rfl⟩ kept
        · cases starts
        · cases starts

theorem operand_complete (h : Matches True (.phrase .operand) a b) (follow : Ahead EndsOperand b) :
    (Goal.predict .operand a).Foresees a b := by
  simp only [Goal.predict.eq_def]
  rcases operand_iff.1 h with ⟨w, t, operator, rfl, inner⟩ | ⟨t, rfl, named⟩ | ⟨kept, plain⟩
  · simp only [operator, startsOperand_of_operand inner, and_self, if_true]
    exact ⟨_, t, rfl, .singleton inner follow⟩
  · obtain ⟨w, unreserved, rfl⟩ := identifier_iff.1 named
    have noOperator : ("infer" : Text) ∉ operators := by decide
    simp only [noOperator, false_and, if_false, if_true]
    exact ⟨_, _, rfl, .singleton named trivial⟩
  · obtain ⟨c, primary, last⟩ := reads_cons.1 plain
    have indices := reads_singleton.1 last
    have reading : Foreseen [.primary, .indices] a b :=
      .cons primary (indices_follow indices follow) (.singleton indices follow)
    split
    · rename_i w t
      split
      · rename_i operator
        exact ⟨_, t, rfl, .singleton
          (operand_of_name operator.1 operator.2 (kept trivial) plain follow) follow⟩
      · split
        · rename_i next u _
          split
          · subst_vars
            exfalso
            -- Right behind a type `infer` stands no word but `extends`, and the rule forbids that.
            obtain ⟨-, qualifiers⟩ := (primary_word primary).resolve_left fun query =>
              absurd query.1 (by decide)
            rcases qualifiers_iff.1 qualifiers with ⟨_, eq, -⟩ | ⟨_, eq, -⟩ | rfl
            · cases eq
            · cases eq
            rcases indices_iff.1 indices with ⟨_, eq, -⟩ | rfl
            · cases eq
            have eq : next = "extends" := by
              simpa [EndsOperand, EndsIntersection, EndsUnion, EndsType] using ahead_cons.1 follow
            exact kept trivial ⟨.inr rfl, eq⟩
          · exact reading
        · exact reading
    · exact reading

theorem indices_complete (h : Matches True (.phrase .indices) a b)
    (follow : Ahead EndsOperand b) : (Goal.predict .indices a).Foresees a b := by
  simp only [Goal.predict.eq_def]
  rcases indices_iff.1 h with ⟨t, rfl, index⟩ | rfl
  · exact ⟨_, t, rfl, .singleton index follow⟩
  · split
    · exact absurd (ahead_cons.1 follow) (by decide)
    · exact .nil

theorem index_complete (h : Matches True (.phrase .index) a b) (follow : Ahead EndsOperand b) :
    (Goal.predict .index a).Foresees a b := by
  simp only [Goal.predict.eq_def]
  rcases index_iff.1 h with ⟨t, rfl, indices⟩ | rest
  · exact ⟨_, t, rfl, .singleton indices follow⟩
  · simp only [reads_cons, reads_nil, markGoal_iff, exists_eq_right] at rest
    obtain ⟨c, inner, d, rfl, indices⟩ := rest
    split
    · obtain ⟨l, u, eq, starts⟩ := type_starts inner
      cases eq
      simp [StartsType, StartsUnion, StartsIntersection, StartsPrimary] at starts
    · exact .cons inner (ahead_cons.2 (by decide)) (.mark (.singleton indices follow))

theorem primary_complete (h : Matches True (.phrase .primary) a b)
    (follow : Ahead EndsPrimary b) : (Goal.predict .primary a).Foresees a b := by
  simp only [Goal.predict.eq_def]
  rcases primary_iff.1 h with ⟨l, literal, rfl⟩ | ⟨t, rfl, numeral⟩ | ⟨t, rfl, inner⟩ |
    ⟨t, rfl, members⟩ | ⟨t, rfl, elements⟩ | ⟨t, rfl, query⟩ | ⟨kept, reference⟩
  · cases l with
    | word | mark => exact literal.elim
    | string | number | template => exact ⟨_, b, rfl, .nil⟩
  · obtain ⟨text, rfl⟩ := number_iff.1 numeral
    exact ⟨_, _, rfl, .singleton numeral trivial⟩
  · simp only [reads_cons, reads_nil, markGoal_iff, exists_eq_right] at inner
    exact ⟨_, t, rfl, .cons inner (ahead_cons.2 (by decide)) (.mark .nil)⟩
  · exact ⟨_, t, rfl, .singleton members trivial⟩
  · exact ⟨_, t, rfl, .singleton elements trivial⟩
  · obtain ⟨c, named, qualifiers⟩ := reads_cons.1 query
    exact ⟨_, t, rfl, .cons named trivial (.singleton (reads_singleton.1 qualifiers) follow)⟩
  · obtain ⟨c, named, last⟩ := reads_cons.1 reference
    have qualifiers := reads_singleton.1 last
    obtain ⟨w, -, rfl⟩ := identifier_iff.1 named
    have ordinary : w ≠ "typeof" := kept trivial
    simp only [ordinary, if_false]
    exact .cons named trivial (.singleton qualifiers follow)

theorem qualifiers_complete (h : Matches True (.phrase .qualifiers) a b)
    (follow : Ahead EndsPrimary b) : (Goal.predict .qualifiers a).Foresees a b := by
  simp only [Goal.predict.eq_def]
  rcases qualifiers_iff.1 h with ⟨t, rfl, dotted⟩ | ⟨t, rfl, generic⟩ | rfl
  · obtain ⟨c, named, qualifiers⟩ := reads_cons.1 dotted
    exact ⟨_, t, rfl, .cons named trivial (.singleton (reads_singleton.1 qualifiers) follow)⟩
  · obtain ⟨c, argument, more⟩ := reads_cons.1 generic
    exact ⟨_, t, rfl, .cons argument (moreTypeArguments_ends (reads_singleton.1 more))
      (.singleton (reads_singleton.1 more) trivial)⟩
  · split
    · exact absurd (ahead_cons.1 follow) (by decide)
    · exact absurd (ahead_cons.1 follow) (by decide)
    · exact .nil

theorem moreTypeArguments_complete (h : Matches True (.phrase .moreTypeArguments) a b) :
    (Goal.predict .moreTypeArguments a).Foresees a b := by
  simp only [Goal.predict.eq_def]
  rcases moreTypeArguments_iff.1 h with ⟨t, rfl, rest⟩ | rfl
  · obtain ⟨c, argument, more⟩ := reads_cons.1 rest
    exact ⟨_, t, rfl, .cons argument (moreTypeArguments_ends (reads_singleton.1 more))
      (.singleton (reads_singleton.1 more) trivial)⟩
  · exact .mark .nil

theorem identifier_complete (h : Matches True (.phrase .identifier) a b) :
    (Goal.predict .identifier a).Foresees a b := by
  obtain ⟨w, unreserved, rfl⟩ := identifier_iff.1 h
  simp only [Goal.predict.eq_def]
  simp only [unreserved, if_false]
  exact ⟨_, b, rfl, .nil⟩

theorem numeral_complete (h : Matches True (.phrase .numeral) a b) :
    (Goal.predict .numeral a).Foresees a b := by
  obtain ⟨text, rfl⟩ := number_iff.1 h
  exact ⟨_, b, rfl, .nil⟩

theorem mark_complete {m : Mark} (h : Matches True (.phrase (.mark m)) a b) :
    (Goal.predict (.mark m) a).Foresees a b := by
  obtain rfl := mark_iff.1 h
  simp only [Goal.predict.eq_def]
  simp only [if_true]
  exact ⟨_, b, rfl, .nil⟩

theorem optional_complete {m : Mark} (h : Matches True (.phrase (.optional m)) a b)
    (follow : Ahead (· ≠ .mark m) b) : (Goal.predict (.optional m) a).Foresees a b := by
  simp only [Goal.predict.eq_def]
  rcases optionalGoal_iff.1 h with rfl | rfl
  · simp only [if_true]
    exact ⟨_, b, rfl, .nil⟩
  · split
    · split
      · subst_vars
        exact absurd rfl (ahead_cons.1 follow)
      · exact .nil
    · exact .nil

theorem moreTypeParameters_complete (h : Matches True (.phrase .moreTypeParameters) a b) :
    (Goal.predict .moreTypeParameters a).Foresees a b := by
  simp only [Goal.predict.eq_def]
  rcases moreTypeParameters_iff.1 h with ⟨t, rfl, rest⟩ | rfl
  · exact ⟨_, t, rfl, .singleton rest trivial⟩
  · exact .mark .nil

theorem moreTypeParameters_ends (h : Matches True (.phrase .moreTypeParameters) a b) :
    Ahead EndsParameter a := by
  rcases moreTypeParameters_iff.1 h with ⟨t, rfl, -⟩ | rfl
  · exact ahead_cons.2 (.inl rfl)
  · exact ahead_cons.2 (.inr (.inl rfl))

theorem endsType_of_endsParameter (l : Lexeme) : EndsParameter l → EndsType l := by
  rintro (rfl | rfl | rfl) <;> decide

theorem preset_ends (h : Matches True (.phrase .preset) a b) (follow : Ahead EndsParameter b) :
    Ahead EndsType a := by
  rcases preset_iff.1 h with ⟨t, rfl, -⟩ | rfl
  · exact ahead_cons.2 (by decide)
  · exact follow.imp endsType_of_endsParameter

theorem typeParameter_complete (h : Matches True (.phrase .typeParameter) a b) :
    (Goal.predict .typeParameter a).Foresees a b := by
  simp only [typeParameter_iff, reads_cons, reads_nil, exists_eq_right] at h
  obtain ⟨c, named, d, bound, e, preset, more⟩ := h
  have ends := moreTypeParameters_ends more
  exact .cons named trivial (.cons bound (preset_ends preset ends)
    (.cons preset ends (.singleton more trivial)))

theorem bound_complete (h : Matches True (.phrase .bound) a b) (follow : Ahead EndsType b) :
    (Goal.predict .bound a).Foresees a b := by
  simp only [Goal.predict.eq_def]
  rcases bound_iff.1 h with ⟨t, rfl, bounding⟩ | rfl
  · exact ⟨_, t, rfl, .singleton bounding follow⟩
  · split
    · split
      · subst_vars
        exact absurd (ahead_cons.1 follow) (by decide)
      · exact .nil
    · exact .nil

theorem preset_complete (h : Matches True (.phrase .preset) a b)
    (follow : Ahead EndsParameter b) : (Goal.predict .preset a).Foresees a b := by
  simp only [Goal.predict.eq_def]
  rcases preset_iff.1 h with ⟨t, rfl, default⟩ | rfl
  · exact ⟨_, t, rfl, .singleton default (follow.imp endsType_of_endsParameter)⟩
  · split
    · exact absurd (ahead_cons.1 follow) (by simp [EndsParameter])
    · exact .nil

theorem ascription_complete (h : Matches True (.phrase .ascription) a b)
    (follow : Ahead EndsParameter b) : (Goal.predict .ascription a).Foresees a b := by
  simp only [Goal.predict.eq_def]
  rcases ascription_iff.1 h with ⟨t, rfl, annotated⟩ | rfl
  · exact ⟨_, t, rfl, .singleton annotated (follow.imp endsType_of_endsParameter)⟩
  · split
    · exact absurd (ahead_cons.1 follow) (by simp [EndsParameter])
    · exact .nil

theorem typeParameters_complete (h : Matches True (.phrase .typeParameters) a b) :
    (Goal.predict .typeParameters a).Foresees a b := by
  simp only [typeParameters_iff, reads_cons, reads_nil, exists_eq_right, markGoal_iff] at h
  obtain ⟨c, rfl, parameter⟩ := h
  exact .mark (.singleton parameter trivial)

theorem parameters_complete (h : Matches True (.phrase .parameters) a b) :
    (Goal.predict .parameters a).Foresees a b := by
  simp only [parameters_iff, reads_cons, reads_nil, exists_eq_right, markGoal_iff] at h
  obtain ⟨c, rfl, list⟩ := h
  exact .mark (.singleton list trivial)

theorem signature_complete (h : Matches True (.phrase .signature) a b) :
    (Goal.predict .signature a).Foresees a b := by
  simp only [Goal.predict.eq_def]
  rcases signature_iff.1 h with generic | plain
  · obtain ⟨c, typeParameters, last⟩ := reads_cons.1 generic
    obtain ⟨t, less, -⟩ := reads_cons.1 (typeParameters_iff.1 typeParameters)
    obtain rfl := mark_iff.1 less
    exact .cons typeParameters trivial (.singleton (reads_singleton.1 last) trivial)
  · obtain ⟨t, paren, -⟩ := reads_cons.1 (parameters_iff.1 plain)
    obtain rfl := mark_iff.1 paren
    exact .singleton plain trivial

theorem parameterList_complete (h : Matches True (.phrase .parameterList) a b) :
    (Goal.predict .parameterList a).Foresees a b := by
  simp only [Goal.predict.eq_def]
  rcases parameterList_iff.1 h with rfl | rest
  · exact ⟨_, b, rfl, .nil⟩
  · simp only [reads_cons, reads_nil, exists_eq_right] at rest
    obtain ⟨c, spread, d, named, e, optional, f, ascription, more⟩ := rest
    obtain ⟨w, -, rfl⟩ := identifier_iff.1 named
    have ends : Ahead EndsParameter f := by
      rcases moreParameters_iff.1 more with ⟨t, rfl, -⟩ | rfl
      · exact ahead_cons.2 (.inl rfl)
      · exact ahead_cons.2 (.inr (.inr rfl))
    have noQuestion : Ahead (· ≠ .mark .question) e := by
      rcases ascription_iff.1 ascription with ⟨t, rfl, -⟩ | rfl
      · exact ahead_cons.2 (by decide)
      · refine ends.imp fun l => ?_
        rintro (rfl | rfl | rfl) <;> decide
    split
    · rcases optionalGoal_iff.1 spread with eq | eq <;> cases eq
    · exact .cons spread (ahead_cons.2 (by simp)) (.cons named trivial
        (.cons optional noQuestion (.cons ascription ends (.singleton more trivial))))

theorem moreParameters_complete (h : Matches True (.phrase .moreParameters) a b) :
    (Goal.predict .moreParameters a).Foresees a b := by
  simp only [Goal.predict.eq_def]
  rcases moreParameters_iff.1 h with ⟨t, rfl, rest⟩ | rfl
  · exact ⟨_, t, rfl, .singleton rest trivial⟩
  · exact .mark .nil

theorem label_complete (h : Matches True (.phrase .label) a b) (follow : ¬ Labelled b) :
    (Goal.predict .label a).Foresees a b := by
  simp only [Goal.predict.eq_def]
  rcases label_iff.1 h with ⟨w, rfl⟩ | ⟨w, rfl⟩ | rfl
  · exact ⟨_, _, rfl, .mark .nil⟩
  · exact ⟨_, _, rfl, .mark (.mark .nil)⟩
  · split
    · exact absurd trivial follow
    · exact absurd trivial follow
    · exact .nil

theorem not_startsPrimary_of_endsType {l : Lexeme} : EndsType l → ¬ StartsPrimary l := by
  rintro ⟨m, mem, rfl⟩
  have : ∀ m ∈ typeEnds, ¬ (m = .minus ∨ m = .leftParen ∨ m = .leftBrace ∨ m = .leftBracket) := by
    decide
  exact this m mem

/-- The goals that may continue a type. -/
def continuations : List Goal :=
  [.condition, .moreUnion, .moreIntersection, .indices, .qualifiers]

/-- Nothing continues a type with what may end it. -/
theorem continuation_ends {g : Goal} {l : Lexeme} (continues : g ∈ continuations)
    (h : Matches True (.phrase g) (l :: t) b) (ends : EndsType l) : b = l :: t := by
  have noOther {k : Lexeme} {u : List Lexeme} (eq : l :: t = k :: u) (goesOn : ¬ EndsType k) :
      b = l :: t := by
    cases eq
    exact absurd ends goesOn
  simp only [continuations, List.mem_cons, List.not_mem_nil, or_false] at continues
  rcases continues with rfl | rfl | rfl | rfl | rfl
  · rcases condition_iff.1 h with ⟨_, eq, -⟩ | eq
    · exact noOther eq (by decide)
    · exact eq.symm
  · rcases moreUnion_iff.1 h with ⟨_, eq, -⟩ | eq
    · exact noOther eq (by decide)
    · exact eq.symm
  · rcases moreIntersection_iff.1 h with ⟨_, eq, -⟩ | eq
    · exact noOther eq (by decide)
    · exact eq.symm
  · rcases indices_iff.1 h with ⟨_, eq, -⟩ | eq
    · exact noOther eq (by decide)
    · exact eq.symm
  · rcases qualifiers_iff.1 h with ⟨_, eq, -⟩ | ⟨_, eq, -⟩ | eq
    · exact noOther eq (by decide)
    · exact noOther eq (by decide)
    · exact eq.symm

theorem operand_word {w : Text} {l : Lexeme}
    (h : Matches True (.phrase .operand) (.word w :: l :: t) b) (ends : EndsType l) :
    b = l :: t := by
  have noStart {c : List Lexeme} : ¬ ∃ k u, l :: c = k :: u ∧ StartsPrimary k := by
    rintro ⟨k, u, eq, starts⟩
    cases eq
    exact not_startsPrimary_of_endsType ends starts
  rcases operand_iff.1 h with ⟨_, _, -, eq, inner⟩ | ⟨_, eq, named⟩ | ⟨-, plain⟩
  · cases eq
    exact (noStart (operand_starts inner)).elim
  · cases eq
    exact (noStart (typeName_starts named)).elim
  · obtain ⟨c, primary, last⟩ := reads_cons.1 plain
    obtain rfl : c = l :: t := by
      rcases primary_word primary with ⟨-, query⟩ | ⟨-, qualifiers⟩
      · obtain ⟨_, named, -⟩ := reads_cons.1 query
        exact (noStart (typeName_starts named)).elim
      · exact continuation_ends (by decide) qualifiers ends
    exact continuation_ends (by decide) (reads_singleton.1 last) ends

theorem type_word {w : Text} {l : Lexeme} (h : Matches True (.phrase .type) (.word w :: l :: t) b)
    (ends : EndsType l) : b = l :: t := by
  rcases type_iff.1 h with ⟨_, eq, -⟩ | ⟨_, eq, -⟩ | ⟨_, eq, constructed⟩ | ⟨-, rest⟩
  · cases eq
  · cases eq
  · cases eq
    obtain ⟨_, signature, -⟩ := reads_cons.1 constructed
    obtain ⟨u, eq | eq⟩ := signature_starts signature
    · cases eq
      exact absurd ends (by decide)
    · cases eq
      exact absurd ends (by decide)
  · simp only [reads_cons, reads_nil, exists_eq_right, union_iff, intersection_iff,
      optionalGoal_iff] at rest
    obtain ⟨c, ⟨_, bar, d, ⟨_, ampersand, e, operand, moreIntersection⟩, moreUnion⟩, condition⟩ :=
      rest
    obtain rfl := bar.resolve_left (by simp)
    obtain rfl := ampersand.resolve_left (by simp)
    obtain rfl := operand_word operand ends
    obtain rfl := continuation_ends (by decide) moreIntersection ends
    obtain rfl := continuation_ends (by decide) moreUnion ends
    exact continuation_ends (by decide) condition ends

theorem moreElements_ends (h : Matches True (.phrase .moreElements) a b) :
    ∃ t, a = .mark .comma :: t ∨ a = .mark .rightBracket :: t := by
  rcases moreElements_iff.1 h with ⟨t, rfl, -⟩ | rfl
  · exact ⟨t, .inl rfl⟩
  · exact ⟨b, .inr rfl⟩

theorem element_not_labelled {d : List Lexeme} (element : Matches True (.phrase .type) a b)
    (optional : Matches True (.phrase (.optional .question)) b c)
    (more : Matches True (.phrase .moreElements) c d) : ¬ Labelled a := by
  intro labelled
  unfold Labelled at labelled
  split at labelled
  · obtain rfl := type_word element (by decide)
    obtain rfl := (optionalGoal_iff.1 optional).resolve_left (by simp)
    obtain ⟨u, eq | eq⟩ := moreElements_ends more <;> cases eq
  · obtain rfl := type_word element (by decide)
    rcases optionalGoal_iff.1 optional with eq | rfl
    · cases eq
      obtain ⟨u, eq | eq⟩ := moreElements_ends more <;> cases eq
    · obtain ⟨u, eq | eq⟩ := moreElements_ends more <;> cases eq
  · exact labelled

theorem elements_complete (h : Matches True (.phrase .elements) a b) :
    (Goal.predict .elements a).Foresees a b := by
  simp only [Goal.predict.eq_def]
  rcases elements_iff.1 h with rfl | rest
  · exact ⟨_, b, rfl, .nil⟩
  · simp only [reads_cons, reads_nil, exists_eq_right] at rest
    obtain ⟨c, spread, d, label, e, element, f, optional, more⟩ := rest
    have noSpread : Ahead (fun l => l ≠ .mark .ellipsis ∧ l ≠ .mark .rightBracket) c := by
      rcases label_iff.1 label with ⟨w, rfl⟩ | ⟨w, rfl⟩ | rfl
      · exact ahead_cons.2 (by simp)
      · exact ahead_cons.2 (by simp)
      · obtain ⟨l, t, rfl, starts⟩ := type_starts element
        refine ahead_cons.2 ⟨?_, ?_⟩ <;> rintro rfl <;>
          simp [StartsType, StartsUnion, StartsIntersection, StartsPrimary] at starts
    have noQuestion : Ahead (· ≠ .mark .question) f := by
      obtain ⟨u, rfl | rfl⟩ := moreElements_ends more <;> exact ahead_cons.2 (by decide)
    have ends : Ahead EndsType e := by
      rcases optionalGoal_iff.1 optional with rfl | rfl
      · exact ahead_cons.2 (by decide)
      · obtain ⟨u, rfl | rfl⟩ := moreElements_ends more <;> exact ahead_cons.2 (by decide)
    split
    · obtain rfl := (optionalGoal_iff.1 spread).resolve_left (by simp)
      exact absurd rfl (ahead_cons.1 noSpread).2
    · exact .cons spread (noSpread.imp fun _ => And.left) (.cons label
        (element_not_labelled element optional more) (.cons element ends
          (.cons optional noQuestion (.singleton more trivial))))

theorem moreElements_complete (h : Matches True (.phrase .moreElements) a b) :
    (Goal.predict .moreElements a).Foresees a b := by
  simp only [Goal.predict.eq_def]
  rcases moreElements_iff.1 h with ⟨t, rfl, rest⟩ | rfl
  · exact ⟨_, t, rfl, .singleton rest trivial⟩
  · exact .mark .nil

theorem moreMembers_ends (h : Matches True (.phrase .moreMembers) a b) : Ahead EndsType a := by
  rcases moreMembers_iff.1 h with ⟨t, rfl | rfl, -⟩ | rfl <;> exact ahead_cons.2 (by decide)

theorem property_starts
    (h : Reads True [.optional .question, .method, .mark .colon, .type] a b) :
    ∃ m t, a = .mark m :: t ∧ m ∈ [Mark.question, .less, .leftParen, .colon] := by
  simp only [reads_cons, reads_nil, exists_eq_right, markGoal_iff] at h
  obtain ⟨c, optional, d, method, e, rfl, -⟩ := h
  rcases optionalGoal_iff.1 optional with rfl | rfl
  · exact ⟨_, c, rfl, by decide⟩
  · rcases method_iff.1 method with signature | rfl
    · obtain ⟨t, rfl | rfl⟩ := signature_starts signature
      · exact ⟨_, t, rfl, by decide⟩
      · exact ⟨_, t, rfl, by decide⟩
    · exact ⟨_, e, rfl, by decide⟩

theorem memberKey_starts (h : Matches True (.phrase .memberKey) a b) :
    ∃ l t, a = l :: t ∧ (l = .mark .leftBracket ∨ IsPropertyName l) := by
  rcases memberKey_iff.1 h with ⟨t, rfl, -⟩ | ⟨l, t, named, rfl, -⟩
  · exact ⟨_, t, rfl, .inl rfl⟩
  · exact ⟨l, t, rfl, .inr named⟩

theorem members_complete (h : Matches True (.phrase .members) a b) :
    (Goal.predict .members a).Foresees a b := by
  simp only [Goal.predict.eq_def]
  rcases members_iff.1 h with rfl | rest
  · exact ⟨_, b, rfl, .nil⟩
  · obtain ⟨c, member, last⟩ := reads_cons.1 rest
    have more := reads_singleton.1 last
    split
    · exfalso
      rcases member_iff.1 member with generic | ⟨t, eq, -⟩ | key
      · obtain ⟨d, signature, -⟩ := reads_cons.1 generic
        obtain ⟨t, eq | eq⟩ := signature_starts signature <;> cases eq
      · cases eq
      · obtain ⟨l, t, eq, bracket | named⟩ := memberKey_starts key
        · cases eq
          cases bracket
        · cases eq
          exact named
    · exact .cons member (moreMembers_ends more) (.singleton more trivial)

theorem moreMembers_complete (h : Matches True (.phrase .moreMembers) a b) :
    (Goal.predict .moreMembers a).Foresees a b := by
  simp only [Goal.predict.eq_def]
  rcases moreMembers_iff.1 h with ⟨t, rfl | rfl, rest⟩ | rfl
  · exact ⟨_, t, rfl, .singleton rest trivial⟩
  · exact ⟨_, t, rfl, .singleton rest trivial⟩
  · exact .mark .nil

theorem member_complete (h : Matches True (.phrase .member) a b) (follow : Ahead EndsType b) :
    (Goal.predict .member a).Foresees a b := by
  simp only [Goal.predict.eq_def]
  rcases member_iff.1 h with generic | ⟨t, rfl, key⟩ | key
  · simp only [reads_cons, reads_nil, exists_eq_right, markGoal_iff] at generic
    obtain ⟨c, signature, d, rfl, result⟩ := generic
    have reading : Foreseen [.signature, .mark .colon, .type] a b :=
      .cons signature trivial (.mark (.singleton result follow))
    obtain ⟨t, rfl | rfl⟩ := signature_starts signature
    · exact reading
    · exact reading
  · have qualified : startsQualified t = true := by
      obtain ⟨l, u, rfl, rfl | named⟩ := memberKey_starts key
      · rfl
      · cases l with
        | mark m => exact named.elim
        | _ => rfl
    simp only [qualified, and_self, if_true]
    exact ⟨_, t, rfl, .singleton key follow⟩
  · have reading : Foreseen [.memberKey] a b := .singleton key follow
    rcases memberKey_iff.1 key with ⟨t, rfl, -⟩ | ⟨l, t, named, rfl, rest⟩
    · exact reading
    · cases l with
      | word w =>
        obtain ⟨m, u, rfl, mem⟩ := property_starts rest
        have unqualified : startsQualified (.mark m :: u) = false := by
          simp only [startsQualified, beq_eq_false_iff_ne]
          rintro rfl
          exact absurd mem (by decide)
        simp only [unqualified, Bool.false_eq_true, and_false, if_false]
        exact reading
      | string | number => exact reading
      | template | mark => exact named.elim

theorem memberKey_complete (h : Matches True (.phrase .memberKey) a b)
    (follow : Ahead EndsType b) : (Goal.predict .memberKey a).Foresees a b := by
  simp only [Goal.predict.eq_def]
  rcases memberKey_iff.1 h with ⟨t, rfl, key⟩ | ⟨l, t, named, rfl, rest⟩
  · obtain ⟨c, identifier, last⟩ := reads_cons.1 key
    exact ⟨_, t, rfl, .cons identifier trivial (.singleton (reads_singleton.1 last) follow)⟩
  · simp only [reads_cons, reads_nil, exists_eq_right, markGoal_iff] at rest
    obtain ⟨c, optional, d, method, e, rfl, result⟩ := rest
    have noQuestion : Ahead (· ≠ .mark .question) c := by
      rcases method_iff.1 method with signature | rfl
      · obtain ⟨u, rfl | rfl⟩ := signature_starts signature <;> exact ahead_cons.2 (by decide)
      · exact ahead_cons.2 (by decide)
    have reading : Foreseen [.optional .question, .method, .mark .colon, .type] t b :=
      .cons optional noQuestion (.cons method (ahead_cons.2 (by decide))
        (.mark (.singleton result follow)))
    cases l with
    | word | string | number => exact ⟨_, t, rfl, reading⟩
    | template | mark => exact named.elim

theorem keyRest_complete (h : Matches True (.phrase .keyRest) a b) (follow : Ahead EndsType b) :
    (Goal.predict .keyRest a).Foresees a b := by
  simp only [Goal.predict.eq_def]
  rcases keyRest_iff.1 h with ⟨t, rfl, mapped⟩ | indexed
  · simp only [reads_cons, reads_nil, exists_eq_right, markGoal_iff] at mapped
    obtain ⟨c, domain, d, rfl, e, optional, f, rfl, result⟩ := mapped
    simp only [if_true]
    exact ⟨_, t, rfl, .cons domain (ahead_cons.2 (by decide))
      (.mark (.cons optional (ahead_cons.2 (by decide)) (.mark (.singleton result follow))))⟩
  · simp only [reads_cons, reads_nil, exists_eq_right, markGoal_iff] at indexed
    obtain ⟨c, rfl, d, key, e, rfl, f, rfl, result⟩ := indexed
    exact .mark (.cons key (ahead_cons.2 (by decide)) (.mark (.mark (.singleton result follow))))

theorem method_complete (h : Matches True (.phrase .method) a b)
    (follow : Ahead (fun l => l ≠ .mark .less ∧ l ≠ .mark .leftParen) b) :
    (Goal.predict .method a).Foresees a b := by
  simp only [Goal.predict.eq_def]
  rcases method_iff.1 h with signature | rfl
  · obtain ⟨t, rfl | rfl⟩ := signature_starts signature
    · exact .singleton signature trivial
    · exact .singleton signature trivial
  · split
    · exact absurd rfl (ahead_cons.1 follow).2
    · exact absurd rfl (ahead_cons.1 follow).1
    · exact .nil

end

/-! ## Every goal, and every run -/

/-- Where the grammar meets a goal, and what comes after may follow it, the look ahead takes a way
that gets there as well. -/
theorem predict_complete {g : Goal} {a b : List Lexeme} (h : Matches True (.phrase g) a b)
    (follow : Follow g b) : (g.predict a).Foresees a b := by
  cases g with
  | type => exact type_complete h follow
  | condition => exact condition_complete h follow
  | union => exact union_complete h follow
  | moreUnion => exact moreUnion_complete h follow
  | intersection => exact intersection_complete h follow
  | moreIntersection => exact moreIntersection_complete h follow
  | operand => exact operand_complete h follow
  | primary => exact primary_complete h follow
  | indices => exact indices_complete h follow
  | index => exact index_complete h follow
  | numeral => exact numeral_complete h
  | typeName => exact identifier_complete h
  | qualifiers => exact qualifiers_complete h follow
  | moreTypeArguments => exact moreTypeArguments_complete h
  | identifier => exact identifier_complete h
  | typeParameters => exact typeParameters_complete h
  | typeParameter => exact typeParameter_complete h
  | moreTypeParameters => exact moreTypeParameters_complete h
  | bound => exact bound_complete h follow
  | preset => exact preset_complete h follow
  | signature => exact signature_complete h
  | parameters => exact parameters_complete h
  | parameterList => exact parameterList_complete h
  | moreParameters => exact moreParameters_complete h
  | ascription => exact ascription_complete h follow
  | elements => exact elements_complete h
  | moreElements => exact moreElements_complete h
  | label => exact label_complete h follow
  | members => exact members_complete h
  | moreMembers => exact moreMembers_complete h
  | member => exact member_complete h follow
  | memberKey => exact memberKey_complete h follow
  | keyRest => exact keyRest_complete h follow
  | method => exact method_complete h follow
  | mark m => exact mark_complete h
  | optional m => exact optional_complete h follow

/-- Goals that the grammar meets are met. -/
theorem meet_complete {goals : List Goal} {a b : List Lexeme} (h : Foreseen goals a b) :
    Goal.meet goals a = .ok b := by
  fun_induction Goal.meet goals a with
  | case1 a =>
    cases h
    rfl
  | case2 a g later first move ih =>
    obtain _ | ⟨met, follow, rest⟩ := h
    have foresees := predict_complete met follow
    rw [move] at foresees
    obtain ⟨l, t, rfl, taken⟩ := foresees
    exact ih (taken.append rest)
  | case3 a g later first move ih =>
    obtain _ | ⟨met, follow, rest⟩ := h
    have foresees := predict_complete met follow
    rw [move] at foresees
    exact ih (foresees.append rest)
  | case4 a g later cause move =>
    obtain _ | ⟨met, follow, rest⟩ := h
    have foresees := predict_complete met follow
    rw [move] at foresees
    exact foresees.elim

end SchemaTypes.TypeExpr
