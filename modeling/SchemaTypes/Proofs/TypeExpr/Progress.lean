import SchemaTypes.Proofs.Results
import SchemaTypes.Proofs.Steps
import SchemaTypes.TypeExpr.Recognizer

/-!
# Progress of recognition

Recognition goes move by move: it stands at a position in the lexemes, and goals wait, each nested
in the goals it came from. The end of the lexemes is a position too, behind the last of them.
-/

namespace SchemaTypes.TypeExpr

namespace Goal

/-- Whether a goal is never met without a lexeme. -/
def solid : Goal → Bool
  | condition | moreUnion | moreIntersection | indices | qualifiers | bound | preset | ascription
  | label | method | optional _ => false
  | _ => true

variable {g : Goal} {goals first : List Goal} {ahead rest : List Lexeme} {failure : Failure}

theorem any_solid_of_become (solid : g.solid = true) (move : g.predict ahead = .become first) :
    first.any Goal.solid = true := by
  revert move
  fun_cases predict g ahead <;> rintro ⟨⟩ <;> simp_all [Goal.solid]

theorem ne_nil_of_take (move : g.predict ahead = .take first) : ahead ≠ [] := by
  have progress := predict_progress g ahead
  rw [move] at progress
  exact progress.1

/-- Goals that are met leave an end of the lexemes, and if one of them is solid, a shorter one. -/
theorem suffix_of_meet (h : meet goals ahead = .ok rest) :
    rest <:+ ahead ∧ (goals.any solid = true → rest.length < ahead.length) := by
  fun_induction meet goals ahead with
  | case1 ahead =>
    cases h
    simp
  | case2 ahead g later first move ih =>
    have tail := (ih h).1
    refine ⟨tail.trans (List.tail_suffix ahead), fun _ => ?_⟩
    have shorter := tail.length_le
    have taken := List.length_pos_iff.2 (ne_nil_of_take move)
    rw [List.length_tail] at shorter
    omega
  | case3 ahead g later first move ih =>
    obtain ⟨suffix, shorter⟩ := ih h
    refine ⟨suffix, fun solid => shorter ?_⟩
    rw [List.any_cons, Bool.or_eq_true] at solid
    rw [List.any_append, Bool.or_eq_true]
    exact solid.imp_left fun solid => any_solid_of_become solid move
  | case4 => cases h

theorem suffix_of_failure (h : meet goals ahead = .error failure) : failure.rest <:+ ahead := by
  fun_induction meet goals ahead with
  | case1 => cases h
  | case2 ahead g later first move ih => exact (ih h).trans (List.tail_suffix ahead)
  | case3 ahead g later first move ih => exact ih h
  | case4 =>
    cases h
    exact List.suffix_rfl

end Goal

/-- The parts of a type expression that are read on their own, one inside another. -/
inductive Part where
  | type
  | union
  | intersection
  | operand
  /-- A primary type with its indices. -/
  | indexed
  | primary
  /-- A type name with its qualifiers and type arguments, perhaps behind `typeof`. -/
  | reference
  | typeArguments
  | tuple
  | objectType
  | member
  | typeParameters
  | parameters

/-- What is to be read for a part when these lexemes are ahead, its brackets included. -/
def Part.goals (ahead : List Lexeme) : Part → List Goal
  | type => [.type]
  | union => [.union]
  | intersection => [.intersection]
  | operand => [.operand]
  | indexed => [.primary, .indices]
  | primary => [.primary]
  | reference =>
    -- With `typeof` ahead, a primary type is a reference behind that word.
    if ahead.head? = some (.word "typeof") then [.primary] else [.typeName, .qualifiers]
  | typeArguments => [.mark .less, .type, .moreTypeArguments]
  | tuple => [.mark .leftBracket, .elements]
  | objectType => [.mark .leftBrace, .members]
  | member => [.member]
  | typeParameters => [.typeParameters]
  | parameters => [.parameters]

theorem Part.any_solid (part : Part) (ahead : List Lexeme) :
    (part.goals ahead).any Goal.solid = true := by
  cases part
  case reference =>
    rw [goals]
    split <;> rfl
  all_goals rfl

/-! ## Moves -/

/-- Goals, each with the number of goals it is nested in. -/
def nestedAt (depth : Nat) (goals : List Goal) : List (Goal × Nat) := goals.map (·, depth)

@[simp] theorem map_fst_nestedAt (depth : Nat) (goals : List Goal) :
    (nestedAt depth goals).map (·.1) = goals := by
  simp [nestedAt, Function.comp_def]

@[simp] theorem map_fst_nestedAt_append (depth : Nat) (goals : List Goal)
    (later : List (Goal × Nat)) :
    (nestedAt depth goals ++ later).map (·.1) = goals ++ later.map (·.1) := by
  rw [List.map_append, map_fst_nestedAt]

/-- Where recognition stands: the goals that wait, each with the number of goals it is nested in,
and the position of the lexeme that is next. -/
structure Stage where
  waiting : List (Goal × Nat)
  position : Nat

namespace Stage

/-- A type is to be read, from the first lexeme on. -/
def start : Stage := ⟨[(.type, 0)], 0⟩

/-- The stage after the next move, if there is a move. -/
def next? (lexemes : List Lexeme) : Stage → Option Stage
  | ⟨[], _⟩ => none
  | ⟨(g, depth) :: later, position⟩ =>
    match g.predict (lexemes.drop position) with
    | .take first => some ⟨nestedAt (depth + 1) first ++ later, position + 1⟩
    | .become first => some ⟨nestedAt (depth + 1) first ++ later, position⟩
    | .refuse _ => none

/-- A move leads from one stage to the other. -/
def Moves (lexemes : List Lexeme) (s t : Stage) : Prop := s.next? lexemes = some t

/-- What the lexemes ahead and the goals that wait leave to be spent on moves. -/
def weight (lexemes : List Lexeme) (s : Stage) : Nat :=
  (lexemes.length - s.position) * Goal.lexemeWeight + Goal.totalWeight (s.waiting.map (·.1))

/-- No goal is nested deeper than what has been spent of a weight. -/
def Shallow (lexemes : List Lexeme) (limit : Nat) (s : Stage) : Prop :=
  ∀ w ∈ s.waiting, w.2 + s.weight lexemes ≤ limit

variable {lexemes : List Lexeme} {s t : Stage} {limit : Nat}

/-- All that a move does: the first goal makes way for what it consists of, and a lexeme is taken or
not. -/
theorem Moves.cases (h : Moves lexemes s t) : ∃ g depth later first,
    s.waiting = (g, depth) :: later ∧ t.waiting = nestedAt (depth + 1) first ++ later ∧
    ((g.predict (lexemes.drop s.position) = .take first ∧ t.position = s.position + 1) ∨
      (g.predict (lexemes.drop s.position) = .become first ∧ t.position = s.position)) := by
  obtain ⟨_ | ⟨⟨g, depth⟩, later⟩, position⟩ := s
  · cases h
  · simp only [Moves, next?] at h
    split at h
    · cases h
      exact ⟨g, depth, later, _, rfl, rfl, .inl ⟨‹_›, rfl⟩⟩
    · cases h
      exact ⟨g, depth, later, _, rfl, rfl, .inr ⟨‹_›, rfl⟩⟩
    · cases h

theorem Moves.position_le (h : Moves lexemes s t) (inside : s.position ≤ lexemes.length) :
    t.position ≤ lexemes.length := by
  obtain ⟨g, depth, later, first, -, -, ⟨move, place⟩ | ⟨-, place⟩⟩ := h.cases
  · have here := mt List.drop_eq_nil_iff.2 (Goal.ne_nil_of_take move)
    omega
  · omega

theorem Moves.lighter (h : Moves lexemes s t) : t.weight lexemes < s.weight lexemes := by
  obtain ⟨g, depth, later, first, before, after, move⟩ := h.cases
  have progress := Goal.predict_progress g (lexemes.drop s.position)
  simp only [weight, before, after, List.map_cons, map_fst_nestedAt_append,
    Goal.totalWeight_append, Goal.totalWeight]
  rcases move with ⟨move, place⟩ | ⟨move, place⟩ <;> rw [move] at progress <;> rw [place]
  · obtain ⟨taken, light⟩ := progress
    have here := mt List.drop_eq_nil_iff.2 taken
    simp only [Goal.lexemeWeight] at light ⊢
    omega
  · have light : Goal.totalWeight first < g.weight := progress
    omega

theorem Moves.shallow (h : Moves lexemes s t) (shallow : Shallow lexemes limit s) :
    Shallow lexemes limit t := by
  have lighter := h.lighter
  obtain ⟨g, depth, later, first, before, after, -⟩ := h.cases
  intro w mem
  rw [after, List.mem_append, nestedAt, List.mem_map] at mem
  rcases mem with ⟨inner, -, rfl⟩ | mem
  · have outer := shallow (g, depth) (by simp [before])
    dsimp only at outer ⊢
    omega
  · have same := shallow w (by simp [before, mem])
    omega

end Stage

open Stage

variable {lexemes ahead : List Lexeme} {waiting : List (Goal × Nat)} {goals : List Goal}
  {position depth : Nat}

/-- The moves lead to where the goals are met, or to the one that is not. What waits behind the
goals stays as it is. -/
theorem exists_run (here : lexemes.drop position = ahead) (these : waiting.map (·.1) = goals)
    (later : List (Goal × Nat)) :
    ∃ n next left, Steps (Moves lexemes) n ⟨waiting ++ later, position⟩ ⟨left ++ later, next⟩ ∧
      ((left = [] ∧ Goal.meet goals ahead = .ok (lexemes.drop next)) ∨
        ∃ g inner below cause, left = (g, inner) :: below ∧
          g.predict (lexemes.drop next) = .refuse cause ∧
          Goal.meet goals ahead = .error ⟨cause, lexemes.drop next⟩) := by
  -- The induction follows `meet`, which has the goals alone; their depths change with every move.
  fun_induction Goal.meet goals ahead generalizing waiting position with
  | case1 ahead =>
    obtain rfl := List.map_eq_nil_iff.1 these
    exact ⟨0, position, [], .none, .inl ⟨rfl, by rw [here]⟩⟩
  | case2 ahead g goals first move ih =>
    obtain ⟨⟨g', depth⟩, rest, rfl, rfl, rfl⟩ := List.map_eq_cons_iff.1 these
    have one : Moves lexemes ⟨(g', depth) :: rest ++ later, position⟩
        ⟨(nestedAt (depth + 1) first ++ rest) ++ later, position + 1⟩ := by
      simp [Moves, next?, here, move]
    have taken : lexemes.drop (position + 1) = ahead.tail := by rw [← List.tail_drop, here]
    obtain ⟨n, next, left, run, result⟩ := ih taken (map_fst_nestedAt_append ..)
    exact ⟨n + 1, next, left, .first one run, result⟩
  | case3 ahead g goals first move ih =>
    obtain ⟨⟨g', depth⟩, rest, rfl, rfl, rfl⟩ := List.map_eq_cons_iff.1 these
    have one : Moves lexemes ⟨(g', depth) :: rest ++ later, position⟩
        ⟨(nestedAt (depth + 1) first ++ rest) ++ later, position⟩ := by
      simp [Moves, next?, here, move]
    obtain ⟨n, next, left, run, result⟩ := ih here (map_fst_nestedAt_append ..)
    exact ⟨n + 1, next, left, .first one run, result⟩
  | case4 ahead g goals cause move =>
    obtain ⟨⟨g', depth⟩, rest, rfl, rfl, rfl⟩ := List.map_eq_cons_iff.1 these
    refine ⟨0, position, (g', depth) :: rest, .none, .inr ⟨g', depth, rest, cause, rfl, ?_, ?_⟩⟩
    · rw [here, move]
    · rw [here]

theorem bounds_of_run {n : Nat} {s : Stage} (run : Steps (Moves lexemes) n .start s) :
    n ≤ Goal.lexemeWeight * (lexemes.length + 1) ∧ s.position ≤ lexemes.length ∧
      ∀ w ∈ s.waiting, w.2 ≤ Goal.lexemeWeight * (lexemes.length + 1) := by
  have full : start.weight lexemes ≤ Goal.lexemeWeight * (lexemes.length + 1) := by
    simp only [weight, start, List.map_cons, List.map_nil, Goal.totalWeight, Goal.weight,
      Goal.lexemeWeight]
    omega
  have moves := run.add_measure_le (weight lexemes) fun _ _ => Moves.lighter
  have inside := run.keeps (p := fun s => s.position ≤ lexemes.length)
    (fun _ _ => Moves.position_le) (Nat.zero_le _)
  have shallow := run.keeps (p := Shallow lexemes (start.weight lexemes))
    (fun _ _ => Moves.shallow) (by simp [Shallow, start])
  refine ⟨by omega, inside, fun w mem => ?_⟩
  have spent := shallow w mem
  omega

/-- A part is read by moves that advance, or there is a goal in it that cannot be met. -/
theorem exists_run_of_part (part : Part) (depth : Nat) (later : List (Goal × Nat))
    (inside : position ≤ lexemes.length) :
    ∃ n next left,
      Steps (Moves lexemes) n
        ⟨nestedAt depth (part.goals (lexemes.drop position)) ++ later, position⟩
        ⟨left ++ later, next⟩ ∧ next ≤ lexemes.length ∧
      ((left = [] ∧ position < next ∧
          Goal.meet (part.goals (lexemes.drop position)) (lexemes.drop position) =
            .ok (lexemes.drop next)) ∨
        ∃ g inner below cause, left = (g, inner) :: below ∧
          g.predict (lexemes.drop next) = .refuse cause ∧
          Goal.meet (part.goals (lexemes.drop position)) (lexemes.drop position) =
            .error ⟨cause, lexemes.drop next⟩) := by
  obtain ⟨n, next, left, run, result⟩ := exists_run (rfl : lexemes.drop position = _)
    (map_fst_nestedAt depth (part.goals (lexemes.drop position))) later
  have within := run.keeps (p := fun s => s.position ≤ lexemes.length)
    (fun _ _ => Moves.position_le) inside
  refine ⟨n, next, left, run, within, result.imp_left fun ⟨done, met⟩ => ⟨done, ?_, met⟩⟩
  have shorter := (Goal.suffix_of_meet met).2 (part.any_solid _)
  simp only [List.length_drop] at shorter
  omega

theorem exists_arrow (h : closesBeforeArrow depth ahead = true) :
    ∃ skipped rest, ahead = skipped ++ .mark .rightParen :: .mark .arrow :: rest := by
  fun_induction closesBeforeArrow depth ahead with
  | case1 => cases h
  | case2 depth rest ih =>
    obtain ⟨skipped, after, rfl⟩ := ih h
    exact ⟨.mark .leftParen :: skipped, after, rfl⟩
  | case3 rest =>
    obtain ⟨after, rfl⟩ := List.head?_eq_some_iff.1 (of_decide_eq_true h)
    exact ⟨[], after, rfl⟩
  | case4 depth rest inside ih =>
    obtain ⟨skipped, after, rfl⟩ := ih h
    exact ⟨.mark .rightParen :: skipped, after, rfl⟩
  | case5 depth l rest _ _ ih =>
    obtain ⟨skipped, after, rfl⟩ := ih h
    exact ⟨l :: skipped, after, rfl⟩

theorem exists_arrow_position (h : closesBeforeArrow depth (lexemes.drop position) = true) :
    ∃ close, position ≤ close ∧ close + 1 < lexemes.length ∧
      lexemes[close]? = some (.mark .rightParen) ∧ lexemes[close + 1]? = some (.mark .arrow) := by
  obtain ⟨skipped, rest, found⟩ := exists_arrow h
  have close : lexemes[position + skipped.length]? = some (.mark .rightParen) := by
    rw [← List.getElem?_drop, found]
    simp
  have arrow : lexemes[position + skipped.length + 1]? = some (.mark .arrow) := by
    rw [Nat.add_assoc, ← List.getElem?_drop, found]
    simp
  exact ⟨_, Nat.le_add_right .., (List.getElem?_eq_some_iff.1 arrow).1, close, arrow⟩

/-- **Recognition stays within the lexemes, advances, and ends.** There are no more moves than a
constant for each lexeme and the end, goals are nested no deeper than that, and the position is
always that of a lexeme or of the end. Each part, whatever waits behind it, is read by moves that
advance the position and come back to what waits, unless they lead to a goal that cannot be met; and
`Goal.meet` says which. An arrow that is looked for ahead is found at a position of a lexeme. -/
theorem recognition_inside (lexemes : List Lexeme) :
    (∀ n s, Steps (Moves lexemes) n .start s →
      n ≤ Goal.lexemeWeight * (lexemes.length + 1) ∧ s.position ≤ lexemes.length ∧
      ∀ w ∈ s.waiting, w.2 ≤ Goal.lexemeWeight * (lexemes.length + 1)) ∧
    (∀ (part : Part) depth later position, position ≤ lexemes.length → ∃ n next left,
      Steps (Moves lexemes) n
        ⟨nestedAt depth (part.goals (lexemes.drop position)) ++ later, position⟩
        ⟨left ++ later, next⟩ ∧ next ≤ lexemes.length ∧
      ((left = [] ∧ position < next ∧
          Goal.meet (part.goals (lexemes.drop position)) (lexemes.drop position) =
            .ok (lexemes.drop next)) ∨
        ∃ g inner below cause, left = (g, inner) :: below ∧
          g.predict (lexemes.drop next) = .refuse cause ∧
          Goal.meet (part.goals (lexemes.drop position)) (lexemes.drop position) =
            .error ⟨cause, lexemes.drop next⟩)) ∧
    ∀ depth position, closesBeforeArrow depth (lexemes.drop position) = true →
      ∃ close, position ≤ close ∧ close + 1 < lexemes.length ∧
        lexemes[close]? = some (.mark .rightParen) ∧ lexemes[close + 1]? = some (.mark .arrow) :=
  ⟨fun _ _ run => bounds_of_run run,
    fun part depth later _ inside => exists_run_of_part part depth later inside,
    fun _ _ closes => exists_arrow_position closes⟩

/-- The function type `(a) => B` is recognized to its end, and the arrow that makes it one is among
its lexemes. -/
theorem recognition_of_arrow :
    ∃ lexemes : List Lexeme,
      lexemes = [.mark .leftParen, .word "a", .mark .rightParen, .mark .arrow, .word "B"] ∧
      (∃ n ≤ 240, Steps (Moves lexemes) n .start ⟨[], 5⟩) ∧
      ∃ close, 1 ≤ close ∧ lexemes[close + 1]? = some (.mark .arrow) := by
  refine ⟨_, rfl, ?_⟩
  generalize made : [_, _, _, _, _] = lexemes
  have length : lexemes.length = 5 := by rw [← made]; rfl
  have met : Goal.meet [.type] lexemes = .ok [] := by
    rw [← made]
    exact eq_ok_of_toOption (by decide +kernel)
  obtain ⟨bounded, parts, arrows⟩ := recognition_inside lexemes
  constructor
  · obtain ⟨n, next, left, run, inside, ⟨rfl, -, result⟩ | ⟨_, _, _, _, -, -, result⟩⟩ :=
      parts .type 0 [] 0 (Nat.zero_le _)
    · have rest : [] = lexemes.drop next := Except.ok.inj (met.symm.trans result)
      have atEnd : next = 5 := by
        have past := List.drop_eq_nil_iff.1 rest.symm
        omega
      subst atEnd
      have few := (bounded n _ run).1
      rw [length] at few
      exact ⟨n, few, run⟩
    · cases met.symm.trans result
  · obtain ⟨close, behind, -, -, arrow⟩ := arrows 1 1 (by rw [← made]; decide +kernel)
    exact ⟨close, behind, arrow⟩

end SchemaTypes.TypeExpr
