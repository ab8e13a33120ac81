import SchemaTypes.TypeExpr.Goal
import SchemaTypes.TypeExpr.Lexer

/-!
# Recognizing type expressions

A stack of goals is met from the top. Every move either takes a lexeme or makes the stack lighter,
so recognition ends on every list of lexemes.
-/

namespace SchemaTypes.TypeExpr

namespace Goal

theorem totalWeight_append (gs hs : List Goal) :
    totalWeight (gs ++ hs) = totalWeight gs + totalWeight hs := by
  induction gs with
  | nil => simp [totalWeight]
  | cons g rest ih => simp [totalWeight, ih, Nat.add_assoc]

/-- Where a goal was not met: the cause, and the lexemes from there on. -/
structure Failure where
  cause : Cause
  rest : List Lexeme
  deriving DecidableEq, Repr

/-- Meets the goals in order, and gives the lexemes after the last of them. -/
def meet (goals : List Goal) (ahead : List Lexeme) : Except Failure (List Lexeme) :=
  match goals with
  | [] => .ok ahead
  | g :: later =>
    match _move : g.predict ahead with
    | .take first => meet (first ++ later) ahead.tail
    | .become first => meet (first ++ later) ahead
    | .refuse cause => .error ⟨cause, ahead⟩
termination_by ahead.length * lexemeWeight + totalWeight goals
decreasing_by
  all_goals
    have progress := predict_progress g ahead
    simp only [_move, Move.Progress] at progress
    simp only [List.length_tail, totalWeight_append, totalWeight]
  · have := List.length_pos_iff.mpr progress.1
    simp only [lexemeWeight] at progress ⊢
    omega
  · omega

theorem meet_nil (ahead : List Lexeme) : meet [] ahead = .ok ahead := by
  rw [meet]

theorem meet_of_take {g : Goal} {first later : List Goal} {ahead : List Lexeme}
    (h : g.predict ahead = .take first) :
    meet (g :: later) ahead = meet (first ++ later) ahead.tail := by
  rw [meet]
  split <;> simp_all

theorem meet_of_become {g : Goal} {first later : List Goal} {ahead : List Lexeme}
    (h : g.predict ahead = .become first) :
    meet (g :: later) ahead = meet (first ++ later) ahead := by
  rw [meet]
  split <;> simp_all

theorem meet_of_refuse {g : Goal} {later : List Goal} {ahead : List Lexeme} {cause : Cause}
    (h : g.predict ahead = .refuse cause) : meet (g :: later) ahead = .error ⟨cause, ahead⟩ := by
  rw [meet]
  split <;> simp_all

end Goal

/-- Whether the lexemes are one complete type. -/
def recognize (lexemes : List Lexeme) : Except Goal.Failure Unit :=
  match lexemes with
  | [] => .error ⟨.emptyExpression, []⟩
  | _ :: _ =>
    match Goal.meet [.type] lexemes with
    | .error failure => .error failure
    | .ok [] => .ok ()
    | .ok (l :: rest) => .error ⟨.unexpected l, l :: rest⟩

/-- The offset of the token that `remaining` tokens from the end start with, or `stop` if there is
none. -/
def offsetFromEnd (tokens : List Token) (stop remaining : Nat) : Nat :=
  match tokens.drop (tokens.length - remaining) with
  | [] => stop
  | t :: _ => t.offset

/-- Whether a source is a type expression. -/
def check (source : Text) : Except SyntaxError Unit :=
  match tokens source with
  | .error e => .error e
  | .ok ts =>
    match recognize (ts.map (·.lexeme)) with
    | .ok () => .ok ()
    | .error failure =>
      .error ⟨failure.cause, offsetFromEnd ts source.length failure.rest.length⟩

/-- The message of what is wrong with a source, if anything is. -/
def problem? (source : Text) : Option Text :=
  match check source with
  | .ok () => none
  | .error e => some e.message

theorem problem?_eq_some_iff {source message : Text} :
    problem? source = some message ↔ ∃ e, check source = .error e ∧ e.message = message := by
  unfold problem?
  cases check source <;> simp

end SchemaTypes.TypeExpr
