import SchemaTypes.Proofs.TypeExpr.Acceptance

namespace SchemaTypes.TypeExpr

namespace Goal

/-- The lexemes that the goals take in order, each with the goal that takes it. -/
def readings (goals : List Goal) (ahead : List Lexeme) : List (Goal × Lexeme) :=
  match goals with
  | [] => []
  | g :: later =>
    match _move : g.predict ahead with
    | .take first => (ahead.take 1).map (g, ·) ++ readings (first ++ later) ahead.tail
    | .become first => readings (first ++ later) ahead
    | .refuse _ => []
termination_by ahead.length * lexemeWeight + totalWeight goals
decreasing_by
  all_goals
    have progress := predict_progress g ahead
    simp only [_move, Move.Progress] at progress
    simp only [List.length_tail, totalWeight_append, totalWeight]
  · have := List.length_pos_iff.mpr progress.1
    simp only [lexemeWeight] at progress ⊢
    omega
  · omega

/-- The goals that take a word as a name: the first identifier of a type name, any other identifier,
the label of a tuple element and the name of a member. -/
def naming : List Goal := [typeName, identifier, label, memberKey]

/-- The words that all other goals take. -/
def keywords : List Text :=
  operators ++ (["new", "extends", "infer", "typeof", "readonly", "in"] : List Text)

variable {g : Goal} {goals first : List Goal} {ahead rest : List Lexeme} {l : Lexeme} {w : Text}

theorem naming_or_keyword (next : ahead.head? = some (.word w))
    (h : g.predict ahead = .take first) : g ∈ naming ∨ w ∈ keywords := by
  revert h
  fun_cases predict g ahead
  case case16 operator =>
    obtain rfl := Lexeme.word.inj (Option.some.inj next)
    exact fun _ => .inr (List.mem_append_left _ operator.1)
  all_goals simp_all [naming, keywords]

theorem predict_of_mem_readings (h : (g, l) ∈ readings goals ahead) :
    ∃ rest first, g.predict (l :: rest) = .take first := by
  fun_induction readings goals ahead with
  | case1 => cases h
  | case2 ahead k later first move ih =>
    rcases List.mem_append.1 h with here | behind
    · cases ahead with
      | nil => cases here
      | cons k rest =>
        obtain ⟨_, eq⟩ := List.mem_singleton.1 here
        exact ⟨rest, first, move⟩
    · exact ih behind
  | case3 ahead k later first move ih => exact ih h
  | case4 => cases h

theorem map_readings (h : meet goals ahead = .ok rest) :
    (readings goals ahead).map (·.2) ++ rest = ahead := by
  fun_induction readings goals ahead with
  | case1 ahead =>
    rw [meet_nil] at h
    cases h
    rfl
  | case2 ahead g later first move ih =>
    rw [meet_of_take move] at h
    have progress := predict_progress g ahead
    rw [move] at progress
    obtain ⟨l, t, rfl⟩ := List.exists_cons_of_ne_nil progress.1
    simpa using ih h
  | case3 ahead g later first move ih =>
    rw [meet_of_become move] at h
    exact ih h
  | case4 ahead g later cause move =>
    rw [meet_of_refuse move] at h
    cases h

/-- In lexemes that are one type, every word but the keywords is read as a name. -/
theorem word_mem_iff (derived : Derives True ahead) (ordinary : w ∉ keywords) :
    .word w ∈ ahead ↔ ∃ g ∈ naming, (g, .word w) ∈ readings [type] ahead := by
  have met : meet [type] ahead = .ok [] := meet_complete (.singleton derived ahead_nil)
  have all := map_readings met
  rw [List.append_nil] at all
  constructor
  · intro mem
    rw [← all] at mem
    obtain ⟨⟨g, l⟩, taken, rfl⟩ := List.mem_map.1 mem
    obtain ⟨rest, first, takes⟩ := predict_of_mem_readings taken
    exact ⟨g, (naming_or_keyword rfl takes).resolve_right ordinary, taken⟩
  · rintro ⟨g, -, taken⟩
    exact all ▸ List.mem_map_of_mem taken

end Goal

/-- While a source is recognized as a type, a goal takes a word. -/
def ReadAs (source : Text) (g : Goal) (w : Text) : Prop :=
  ∃ ts, tokens source = .ok ts ∧ (g, .word w) ∈ Goal.readings [.type] (ts.map (·.lexeme))

instance (source : Text) (g : Goal) (w : Text) : Decidable (ReadAs source g w) :=
  match read : tokens source with
  | .error _ => isFalse fun ⟨_, read', _⟩ => nomatch read.symm.trans read'
  | .ok ts =>
    decidable_of_iff ((g, .word w) ∈ Goal.readings [.type] (ts.map (·.lexeme)))
      ⟨fun taken => ⟨ts, read, taken⟩,
        fun ⟨_, read', taken⟩ => Except.ok.inj (read'.symm.trans read) ▸ taken⟩

end SchemaTypes.TypeExpr
