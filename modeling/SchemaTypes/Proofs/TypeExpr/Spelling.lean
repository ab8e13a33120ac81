import SchemaTypes.Proofs.TypeExpr.Acceptance
import SchemaTypes.Proofs.TypeExpr.Lexing

namespace SchemaTypes.TypeExpr

open Matches

/-- No word comes next. -/
def NoWord (ahead : List Lexeme) : Prop := ∀ w t, ahead ≠ .word w :: t

/-- A text is read as lexemes that the grammar derives from a goal, whatever comes behind it that
goes on with no word. -/
structure Spells (g : Goal) (text : Text) (ls : List Lexeme) : Prop where
  lexes {rest : Text} : Stops rest → Lexes (text ++ rest) ls rest
  derives {more : List Lexeme} : NoWord more → Matches True (.phrase g) (ls ++ more) more
  /-- It does not begin like a constructor type. -/
  free {more : List Lexeme} : NoWord more → ¬ WordRule.constructorType.Broken (ls ++ more)

/-- A word that names a type wherever it stands. -/
structure NamesType (name : Text) : Prop where
  word : isWord name = true
  unreserved : name ∉ reserved
  notNew : name ≠ "new"
  notTypeof : name ≠ "typeof"

variable {text rest w : Text} {ls : List Lexeme} {arms : List Text}

theorem noWord_nil : NoWord [] := by
  intro w t eq
  cases eq

theorem noWord_mark (m : Mark) (t : List Lexeme) : NoWord (.mark m :: t) := by
  intro w t eq
  cases eq

/-- Without a word behind it, an operator word has no operand that it could stand before. -/
theorem not_broken_of_noWord {ahead : List Lexeme} (apart : NoWord ahead) :
    ¬ WordRule.operand.Broken (.word w :: ahead) := by
  intro broken
  obtain ⟨next, t, eq⟩ := broken.second
  exact apart next t eq

theorem problem?_of_spells (h : Spells .type text ls) : problem? text = none := by
  have whole : Lexes text ls [] := by
    have lexes := h.lexes stops_nil
    rwa [List.append_nil] at lexes
  have derived : Derives True ls := by
    have derives := h.derives noWord_nil
    rwa [List.append_nil] at derives
  obtain ⟨ts, read, rfl⟩ := whole.tokensFrom rfl 0
  change tokens text = .ok ts at read
  unfold problem? check
  simp only [read, recognize_iff.2 derived]

theorem spells_type (h : Spells .operand text ls) : Spells .type text ls where
  lexes := h.lexes
  derives apart := type_of_operand (fun _ => h.free apart) (h.derives apart)
  free := h.free

theorem spells_name (named : NamesType w) : Spells .operand w [.word w] where
  lexes := Lexes.word named.word
  derives {more} apart := by
    have primary : Matches True (.phrase .primary) (.word w :: more) more :=
      primary_of_word named.unreserved (fun _ => named.notTypeof) more
    exact operand_of_primary (fun _ => not_broken_of_noWord apart) primary
      (indices_iff.2 (.inr rfl))
  free _ broken := named.notNew broken

theorem spells_template (plain : ∀ b ∈ text, continuesWord b = true) :
    Spells .operand ("`$\x7b" ++ text ++ "\x7d`") [.template ("`$\x7b" ++ text ++ "\x7d`")] where
  lexes _ := Lexes.template plain _
  derives _ := operand_of_literal (by simp [IsLiteral]) _
  free _ broken := broken

theorem spells_index (named : NamesType w) (plain : ∀ b ∈ text, continuesWord b = true) :
    Spells .operand (w ++ "['" ++ text ++ "']")
      [.word w, .mark .leftBracket, .string ("'" ++ text ++ "'"), .mark .rightBracket] where
  lexes {rest} _ := by
    have name (later : Text) : Lexes (w ++ ("[" ++ later)) [.word w] ("[" ++ later) :=
      .word named.word (stops_cons (by decide))
    have opening (later : Text) : Lexes ("[" ++ later) [.mark .leftBracket] later :=
      .mark .leftBracket rfl later
    have closing : Lexes ("]" ++ rest) [.mark .rightBracket] rest := .mark .rightBracket rfl rest
    have key := (Lexes.string plain ("]" ++ rest)).append closing
    have whole := (name _).append ((opening _).append key)
    have pieces : ("['" : Text) = "[" ++ "'" ∧ ("']" : Text) = "'" ++ "]" := ⟨rfl, rfl⟩
    simpa [pieces] using whole
  derives {more} _ := by
    let key : Lexeme := .string ("'" ++ text ++ "'")
    have type : Matches True (.phrase .type) (key :: .mark .rightBracket :: more) _ :=
      type_of_operand (fun _ => id) (operand_of_literal (l := key) trivial _)
    have closing : Reads True [.mark .rightBracket, .indices] (.mark .rightBracket :: more) more :=
      reads_cons.2 ⟨more, markGoal_iff.2 rfl, reads_singleton.2 (indices_iff.2 (.inr rfl))⟩
    have index : Matches True (.phrase .index) (key :: .mark .rightBracket :: more) more :=
      index_iff.2 (.inr (reads_cons.2 ⟨_, type, closing⟩))
    have indices : Matches True (.phrase .indices)
        (.mark .leftBracket :: key :: .mark .rightBracket :: more) more :=
      indices_iff.2 (.inl ⟨_, rfl, index⟩)
    have primary : Matches True (.phrase .primary)
        (.word w :: .mark .leftBracket :: key :: .mark .rightBracket :: more) _ :=
      primary_of_word named.unreserved (fun _ => named.notTypeof) _
    exact operand_of_primary (fun _ => not_broken_of_noWord (noWord_mark _ _)) primary indices
  free _ broken := named.notNew broken

theorem spells_object (key : isWord w = true) (nulFree : 0 ∉ text) :
    Spells .operand ("\x7b " ++ w ++ "?: " ++ Text.quoted text ++ " \x7d")
      [.mark .leftBrace, .word w, .mark .question, .mark .colon, .string (Text.quoted text),
        .mark .rightBrace] where
  lexes {rest} _ := by
    have opening (later : Text) : Lexes ("\x7b " ++ later) [.mark .leftBrace] later :=
      (Lexes.mark .leftBrace rfl _).append (.blank rfl .done)
    have name (later : Text) : Lexes (w ++ ("?: " ++ later)) [.word w] ("?: " ++ later) :=
      .word key (stops_cons (by decide))
    have marks (later : Text) : Lexes ("?: " ++ later) [.mark .question, .mark .colon] later :=
      (Lexes.mark .question rfl _).append ((Lexes.mark .colon rfl _).append (.blank rfl .done))
    have closing : Lexes (" \x7d" ++ rest) [.mark .rightBrace] rest :=
      .blank rfl (.mark .rightBrace rfl rest)
    have value := (Lexes.quoted nulFree (" \x7d" ++ rest)).append closing
    simpa using (opening _).append ((name _).append ((marks _).append value))
  derives {more} _ := by
    let value : Lexeme := .string (Text.quoted text)
    let closing : List Lexeme := .mark .rightBrace :: more
    have type : Matches True (.phrase .type) (value :: closing) closing :=
      type_of_operand (fun _ => id) (operand_of_literal (l := value) trivial _)
    have rest : Reads True [.optional .question, .method, .mark .colon, .type]
        (.mark .question :: .mark .colon :: value :: closing) closing :=
      reads_cons.2 ⟨_, optionalGoal_iff.2 (.inl rfl), reads_cons.2 ⟨_, method_iff.2 (.inr rfl),
        reads_cons.2 ⟨_, markGoal_iff.2 rfl, reads_singleton.2 type⟩⟩⟩
    have member : Matches True (.phrase .member)
        (.word w :: .mark .question :: .mark .colon :: value :: closing) closing :=
      member_iff.2 (.inr (.inr (memberKey_iff.2 (.inr ⟨.word w, _, trivial, rfl, rest⟩))))
    have last : Matches True (.phrase .moreMembers) closing more := moreMembers_iff.2 (.inr rfl)
    have members : Matches True (.phrase .members)
        (.word w :: .mark .question :: .mark .colon :: value :: closing) more :=
      members_iff.2 (.inr (reads_cons.2 ⟨_, member, reads_singleton.2 last⟩))
    have primary : Matches True (.phrase .primary)
        (.mark .leftBrace :: .word w :: .mark .question :: .mark .colon :: value :: closing) more :=
      primary_iff.2 (.inr (.inr (.inr (.inl ⟨_, rfl, members⟩))))
    exact operand_of_primary (fun _ => id) primary (indices_iff.2 (.inr rfl))
  free _ broken := broken

theorem spells_argument (named : NamesType w) (inner : Spells .type text ls) :
    Spells .operand (w ++ "<" ++ text ++ ">")
      (.word w :: .mark .less :: (ls ++ [.mark .greater])) where
  lexes {rest} _ := by
    have name (later : Text) : Lexes (w ++ ("<" ++ later)) [.word w] ("<" ++ later) :=
      .word named.word (stops_cons (by decide))
    have opening (later : Text) : Lexes ("<" ++ later) [.mark .less] later := .mark .less rfl later
    have closing : Lexes (">" ++ rest) [.mark .greater] rest := .mark .greater rfl rest
    have argument : Lexes (text ++ (">" ++ rest)) (ls ++ [.mark .greater]) rest :=
      (inner.lexes (stops_cons (by decide))).append closing
    simpa using (name _).append ((opening _).append argument)
  derives {more} _ := by
    let closing : List Lexeme := .mark .greater :: more
    have argument : Matches True (.phrase .type) (ls ++ closing) closing :=
      inner.derives (noWord_mark .greater more)
    have arguments : Reads True [.type, .moreTypeArguments] (ls ++ closing) more :=
      reads_cons.2 ⟨_, argument, reads_singleton.2 (moreTypeArguments_iff.2 (.inr rfl))⟩
    have primary : Matches True (.phrase .primary)
        (.word w :: .mark .less :: (ls ++ closing)) more :=
      primary_of_name named.unreserved (fun _ => named.notTypeof)
        (qualifiers_iff.2 (.inr (.inl ⟨_, rfl, arguments⟩)))
    have operand := operand_of_primary (fun _ => not_broken_of_noWord (noWord_mark _ _)) primary
      (indices_iff.2 (.inr rfl))
    simpa using operand
  free _ broken := named.notNew broken

/-- Further arms of a union, each behind a bar. -/
def moreArms (arms : List Text) : Text := arms.flatMap ((" | " : Text) ++ ·)

theorem stops_moreArms (stops : Stops rest) : Stops (moreArms arms ++ rest) := by
  cases arms with
  | nil => exact stops
  | cons arm arms => exact stops_cons (b := Text.space) (by decide)

theorem exists_moreArms (each : ∀ arm ∈ arms, ∃ ls, Spells .operand arm ls) :
    ∃ ls, (∀ rest, Stops rest → Lexes (moreArms arms ++ rest) ls rest) ∧
      ∀ more, NoWord more →
        NoWord (ls ++ more) ∧ Matches True (.phrase .moreUnion) (ls ++ more) more := by
  induction arms with
  | nil => exact ⟨[], fun _ _ => .done, fun _ apart => ⟨apart, moreUnion_iff.2 (.inr rfl)⟩⟩
  | cons arm arms ih =>
    obtain ⟨⟨ls, spells⟩, others⟩ := List.forall_mem_cons.1 each
    obtain ⟨ms, lexes, derives⟩ := ih others
    refine ⟨.mark .bar :: (ls ++ ms), fun rest stops => ?_, fun more apart => ?_⟩
    · have bar (later : Text) : Lexes (" | " ++ later) [.mark .bar] later :=
        .blank rfl ((Lexes.mark .bar rfl _).append (.blank rfl .done))
      have later := (spells.lexes (stops_moreArms stops)).append (lexes rest stops)
      simpa [moreArms] using (bar _).append later
    · obtain ⟨apart', later⟩ := derives more apart
      have first : Matches True (.phrase .intersection) (ls ++ (ms ++ more)) (ms ++ more) :=
        intersection_of_operand (spells.derives apart')
      have both : Reads True [.intersection, .moreUnion] (ls ++ (ms ++ more)) more :=
        reads_cons.2 ⟨_, first, reads_singleton.2 later⟩
      exact ⟨noWord_mark .bar _, moreUnion_iff.2 (.inl ⟨_, by simp, both⟩)⟩

theorem spells_union {arm : Text} (each : ∀ a ∈ arm :: arms, ∃ ls, Spells .operand a ls) :
    ∃ ls, Spells .type (Text.joined " | " (arm :: arms)) ls := by
  obtain ⟨⟨ls, first⟩, others⟩ := List.forall_mem_cons.1 each
  obtain ⟨ms, lexes, derives⟩ := exists_moreArms others
  have text : Text.joined " | " (arm :: arms) = arm ++ moreArms arms := Text.joined_cons ..
  rw [text]
  refine ⟨ls ++ ms, fun {rest} stops => ?_, fun {more} apart => ?_, fun {more} apart => ?_⟩
  · rw [List.append_assoc]
    exact (first.lexes (stops_moreArms stops)).append (lexes rest stops)
  · obtain ⟨apart', later⟩ := derives more apart
    rw [List.append_assoc]
    have union : Matches True (.phrase .union) (ls ++ (ms ++ more)) more :=
      union_of_intersection (intersection_of_operand (first.derives apart')) later
    exact type_of_union (fun _ => first.free apart') union (condition_iff.2 (.inr rfl))
  · rw [List.append_assoc]
    exact first.free (derives more apart).1

end SchemaTypes.TypeExpr
