import SchemaTypes.Proofs.Schema.Notation

/-!
# Where a notation goes wrong

A text that is no notation goes wrong at one byte: what stands before it can be continued to a
notation, and with it no more. An error points there, unless a wrong byte stands in place of a `]`;
then it points behind that byte.
-/

namespace SchemaTypes

namespace Notation

/-- A text that can be continued to a notation. -/
def Viable (front : Text) : Prop := ∃ more ref, TypeRef.parse (front ++ more) = .ok ref

/-- The bytes before a place can be continued to a notation, but not with the byte there, if there
is one. -/
structure FirstFault (source : Text) (place : Nat) : Prop where
  inside : place ≤ source.length
  viable : Viable (source.take place)
  stuck : place = source.length ∨ ¬ Viable (source.take (place + 1))

/-- A reference is read off a text up to a byte that is no part of it, whatever stands behind. -/
structure ReadUpTo (front : Text) (ref : TypeRef) (b : UInt8) : Prop where
  named : isName ref.leaf = true
  spaced : Spaced ref.parts front
  reads : ∀ more, ∃ after, read (front ++ b :: more) = .ok (ref, after) ∧
    after.dropWhile isBlank = b :: more

/-- A text is read without fault up to what is left of it, and not with the next byte, whatever
stands behind that. Only the byte in place of a `]` is passed before the fault is noticed. -/
structure Breaks (failure : Failure) (front left : Text) : Prop where
  viable : ∃ (more : Text) (ref : TypeRef), isName ref.leaf = true ∧
    Spaced ref.parts (front ++ more)
  stuck : ∀ b ∈ left.head?, ∀ more, ∃ failure, read (front ++ b :: more) = .error failure
  rest : failure.rest = if failure.cause = .expectedClose then left.tail else left
  wording : failure.cause = .expectedType ∨ failure.cause = .expectedClose

variable {source front after later left rest : Text} {ref : TypeRef} {b : UInt8} {failure : Failure}
  {place place' : Nat}

theorem Viable.of_append {more : Text} (h : Viable (front ++ more)) : Viable front := by
  obtain ⟨rest, ref, made⟩ := h
  exact ⟨more ++ rest, ref, by rwa [← List.append_assoc]⟩

theorem viable_of_spaced {more : Text} (named : isName ref.leaf = true)
    (h : Spaced ref.parts (front ++ more)) : Viable front :=
  ⟨more, ref, TypeRef.parse_eq_ok_iff.2 ⟨named, h⟩⟩

theorem FirstFault.unique (h : FirstFault source place) (h' : FirstFault source place') :
    place = place' := by
  have before {p q : Nat} (h : FirstFault source p) (h' : FirstFault source q) : ¬ p < q := by
    intro less
    have inside : p ≠ source.length := (Nat.lt_of_lt_of_le less h'.inside).ne
    have front : source.take (p + 1) <+: source.take q :=
      List.take_prefix_take_left (Nat.succ_le_of_lt less)
    obtain ⟨more, whole⟩ := front
    have viable := h'.viable
    rw [← whole] at viable
    exact h.stuck.resolve_left inside viable.of_append
  exact Nat.le_antisymm (Nat.le_of_not_lt (before h' h)) (Nat.le_of_not_lt (before h h'))

theorem FirstFault.of_split (whole : source = front ++ left) (viable : Viable front)
    (stuck : ∀ b ∈ left.head?, ¬ Viable (front ++ [b])) : FirstFault source front.length := by
  subst whole
  refine ⟨by simp, by simpa using viable, ?_⟩
  cases left with
  | nil => exact .inl (by simp)
  | cons b later =>
    refine .inr ?_
    have next : (front ++ b :: later).take (front.length + 1) = front ++ [b] := by
      rw [List.take_length_add_append]
      rfl
    rw [next]
    exact stuck b rfl

theorem Spaced.append {parts parts' : List Text} {x y : Text} (h : Spaced parts x)
    (h' : Spaced parts' y) : Spaced (parts ++ parts') (x ++ y) := by
  induction h with
  | nil blank => exact h'.after_blanks blank
  | cons blank _ ih =>
    rw [List.append_assoc, List.append_assoc]
    exact .cons blank ih

theorem Spaced.bracketed {x : Text} (h : Spaced ref.parts x) :
    Spaced (TypeRef.list ref true).parts ('['.toUInt8 :: (x ++ "]")) := by
  have closed : Spaced (ref.parts ++ [("]" : Text)]) (x ++ "]") := h.append (.flatten ["]"])
  exact closed.first "["

theorem visible_of_dropWhile (next : after.dropWhile isBlank = b :: later) :
    isBlank b = false := by
  have first := List.head?_dropWhile_not isBlank after
  rw [next] at first
  simpa using first

theorem readLevelMark_blanks {blanks : Text} (level : Bool → TypeRef) (blank : AllBlank blanks)
    (visible : isBlank b = false) (later : Text) :
    readLevelMark level (blanks ++ b :: later) =
      if b = '!'.toUInt8 then (level false, later) else (level true, b :: later) := by
  rw [readLevelMark, dropWhile_blanks blank, List.dropWhile_cons, visible]
  rfl

theorem exists_markUpTo {level : Bool → TypeRef}
    (h : readLevelMark level source = (ref, after))
    (next : after.dropWhile isBlank = b :: later) :
    ∃ front nullable, source = front ++ b :: later ∧ ref = level nullable ∧
      Spaced (markParts nullable) front ∧
      ∀ more, ∃ after, readLevelMark level (front ++ b :: more) = (level nullable, after) ∧
        after.dropWhile isBlank = b :: more := by
  have visible := visible_of_dropWhile next
  have again {blanks : Text} (blank : AllBlank blanks) (more : Text) :
      (blanks ++ b :: more).dropWhile isBlank = b :: more := by
    rw [dropWhile_blanks blank, List.dropWhile_cons, visible]
    rfl
  obtain ⟨blanks, blank, split⟩ := dropWhile_isBlank source
  cases first : source.dropWhile isBlank with
  | nil =>
    rw [readLevelMark, first] at h
    cases h
    cases next
  | cons c rest =>
    have visible' := visible_of_dropWhile first
    rw [first] at split
    rw [split, readLevelMark_blanks level blank visible'] at h
    split at h
    · rename_i mark
      cases h
      obtain ⟨blanks', blank', split'⟩ := dropWhile_isBlank after
      refine ⟨blanks ++ c :: blanks', false, ?_, rfl, ?_,
        fun more => ⟨blanks' ++ b :: more, ?_, ?_⟩⟩
      · rw [split, split', next, List.append_assoc, List.cons_append]
      · have marked : Spaced ["!"] ("!" ++ blanks') := .first _ (.nil blank')
        exact mark ▸ marked.after_blanks blank
      · rw [List.append_assoc, List.cons_append, readLevelMark_blanks level blank visible',
          if_pos mark]
      · exact again blank' more
    · rename_i other
      cases h
      rw [List.dropWhile_cons, visible'] at next
      obtain ⟨rfl, rfl⟩ := List.cons.inj next
      refine ⟨blanks, true, split, rfl, .nil blank, fun more => ⟨c :: more, ?_, ?_⟩⟩
      · rw [readLevelMark_blanks level blank visible, if_neg other]
      · have none : AllBlank [] := by simp [AllBlank]
        exact again none more

/-- What is read before a byte does not go by what stands behind it. -/
theorem exists_readUpTo (h : read source = .ok (ref, after))
    (next : after.dropWhile isBlank = b :: later) :
    ∃ front, source = front ++ b :: later ∧ ReadUpTo front ref b := by
  fun_induction read source generalizing ref after b later with
  | case1 => cases h
  | case2 c source blank ih =>
    obtain ⟨front, rfl, upTo⟩ := ih h next
    have one : AllBlank [c] := by simpa [AllBlank] using blank
    refine ⟨c :: front, rfl, upTo.named, upTo.spaced.after_blanks one, fun more => ?_⟩
    rw [List.cons_append, read, if_pos blank]
    exact upTo.reads more
  | case3 => cases h
  | case4 => cases h
  | case5 source inner after made close visible behind ih =>
    obtain ⟨front, rfl, upTo⟩ := ih made behind
    obtain ⟨marks, nullable, rfl, rfl, marked, reads⟩ := exists_markUpTo (Except.ok.inj h) next
    refine ⟨'['.toUInt8 :: (front ++ ']'.toUInt8 :: marks), by simp, upTo.named, ?_, fun more => ?_⟩
    · have closed : Spaced ("]" :: markParts nullable) ("]" ++ marks) := marked.first _
      exact (upTo.spaced.append closed).first "["
    · obtain ⟨_, made', behind'⟩ := upTo.reads (marks ++ b :: more)
      obtain ⟨after', mark, last⟩ := reads more
      refine ⟨after', ?_, last⟩
      rw [List.cons_append, List.append_assoc, List.cons_append, read, if_neg (by decide),
        if_pos rfl, made']
      simp only [behind', if_true, mark]
  | case6 => cases h
  | case7 c source visible bracket starts =>
    obtain ⟨marks, nullable, behind, rfl, marked, reads⟩ := exists_markUpTo (Except.ok.inj h) next
    have named : isName (c :: source.takeWhile continuesName) = true := by
      simp only [isName, starts, Bool.true_and, List.all_eq_true]
      exact fun d mem => List.mem_takeWhile_imp mem
    -- The byte behind the name is the same for whatever follows.
    have stops (more : Text) : ∀ d ∈ (marks ++ b :: more).head?, continuesName d = false := by
      have first := List.head?_dropWhile_not continuesName source
      rw [behind] at first
      cases marks <;> simpa using first
    refine ⟨(c :: source.takeWhile continuesName) ++ marks, ?_, named, ?_, fun more => ?_⟩
    · rw [List.append_assoc, ← behind, List.cons_append, List.takeWhile_append_dropWhile]
    · exact marked.first _
    · obtain ⟨after', mark, last⟩ := reads more
      refine ⟨after', ?_, last⟩
      rw [List.append_assoc, read_name named (stops more), mark]
  | case8 => cases h

/-! ## Faults -/

theorem exists_breaks (h : read source = .error failure) :
    ∃ front left, source = front ++ left ∧ Breaks failure front left := by
  fun_induction read source generalizing failure with
  | case1 =>
    cases h
    have name : Spaced ["A"] "A" := .flatten ["A"]
    exact ⟨[], [], rfl, ⟨"A", .named "A" true, by decide, name⟩, by simp, rfl, .inl rfl⟩
  | case2 c source blank ih =>
    obtain ⟨front, left, rfl, ⟨more, ref, named, spaced⟩, stuck, rest, wording⟩ := ih h
    have one : AllBlank [c] := by simpa [AllBlank] using blank
    refine ⟨c :: front, left, rfl, ⟨more, ref, named, spaced.after_blanks one⟩, ?_, rest,
      wording⟩
    intro b mem more
    rw [List.cons_append, read, if_pos blank]
    exact stuck b mem more
  | case3 source failure made visible ih =>
    cases h
    obtain ⟨front, left, rfl, ⟨more, ref, named, spaced⟩, stuck, rest, wording⟩ := ih made
    refine ⟨'['.toUInt8 :: front, left, rfl, ⟨more ++ "]", .list ref true, named, ?_⟩, ?_, rest,
      wording⟩
    · rw [List.cons_append, ← List.append_assoc]
      exact spaced.bracketed
    · intro b mem more
      obtain ⟨failure, made⟩ := stuck b mem more
      refine ⟨failure, ?_⟩
      rw [List.cons_append, read, if_neg (by decide), if_pos rfl, made]
  | case4 source inner after made blank visible ih =>
    cases h
    obtain ⟨named, spaced⟩ := read_sound made (spaced_nil_iff.2 blank)
    rw [List.append_nil] at spaced
    exact ⟨'['.toUInt8 :: source, [], by simp, ⟨"]", .list inner true, named, spaced.bracketed⟩,
      by simp, rfl, .inr rfl⟩
  | case5 => cases h
  | case6 source inner after made c later behind other visible ih =>
    cases h
    obtain ⟨front, rfl, upTo⟩ := exists_readUpTo made behind
    refine ⟨'['.toUInt8 :: front, c :: later, rfl,
      ⟨"]", .list inner true, upTo.named, upTo.spaced.bracketed⟩, ?_, rfl, .inr rfl⟩
    intro b mem more
    obtain rfl : c = b := by simpa using mem
    obtain ⟨_, made, behind⟩ := upTo.reads more
    refine ⟨⟨.expectedClose, more⟩, ?_⟩
    rw [List.cons_append, read, if_neg (by decide), if_pos rfl, made]
    simp only [behind, if_neg other]
  | case7 => cases h
  | case8 c source visible bracket starts =>
    cases h
    have name : Spaced ["A"] "A" := .flatten ["A"]
    refine ⟨[], c :: source, rfl, ⟨"A", .named "A" true, by decide, name⟩, ?_, rfl, .inl rfl⟩
    intro b mem more
    obtain rfl : c = b := by simpa using mem
    refine ⟨⟨.expectedType, c :: more⟩, ?_⟩
    rw [List.nil_append, read, if_neg visible, if_neg bracket, if_neg starts]

/-- A text that breaks where it is read breaks where it is read to its end, and so does one with
more behind a reference. -/
theorem exists_firstFault (h : readAll source = .error failure) :
    ∃ front left, source = front ++ left ∧ FirstFault source front.length ∧
      failure.rest = (if failure.cause = .expectedClose then left.tail else left) ∧
      ∀ b, failure.cause = .unexpected b → b ∈ source := by
  have not_viable {front : Text} {b : UInt8}
      (refused : ∀ more ref, readAll (front ++ b :: more) ≠ .ok ref) : ¬ Viable (front ++ [b]) := by
    rintro ⟨more, ref, made⟩
    rw [List.append_assoc] at made
    exact refused more ref (readAll_eq_ok_iff.2 (TypeRef.parse_eq_ok_iff.1 made))
  unfold readAll at h
  split at h
  · rename_i failure' made
    cases h
    obtain ⟨front, left, whole, breaks⟩ := exists_breaks made
    obtain ⟨more, ref, named, spaced⟩ := breaks.viable
    refine ⟨front, left, whole, .of_split whole (viable_of_spaced named spaced) ?_, breaks.rest, ?_⟩
    · intro b mem
      refine not_viable fun more ref made => ?_
      obtain ⟨failure, broken⟩ := breaks.stuck b mem more
      rw [readAll, broken] at made
      cases made
    · intro b cause
      rcases breaks.wording with other | other <;> rw [other] at cause <;> cases cause
  · rename_i ref after made
    split at h
    · cases h
    · rename_i b later next
      cases h
      obtain ⟨front, rfl, upTo⟩ := exists_readUpTo made next
      have spaced : Spaced ref.parts (front ++ []) := by
        rw [List.append_nil]
        exact upTo.spaced
      have viable : Viable front := viable_of_spaced upTo.named spaced
      refine ⟨front, b :: later, rfl, .of_split rfl viable ?_, rfl, ?_⟩
      · intro c mem
        obtain rfl : b = c := by simpa using mem
        refine not_viable fun more ref made => ?_
        obtain ⟨_, read, behind⟩ := upTo.reads more
        simp only [readAll, read, behind] at made
        cases made
      · intro c cause
        cases cause
        simp

end Notation

open Notation

/-- **The error of a refused text points at the byte where the text goes wrong**, or at its end if
only more is missing. But a wrong byte in place of a `]` is passed first, so that the error points
behind it. -/
theorem TypeRef.parse_points {source : Text} {e : NotationError}
    (h : TypeRef.parse source = .error e) :
    (0 ∉ source → e.message = "Invalid type reference '" ++ source ++ "' at position " ++
      Text.decimal e.position ++ ": " ++ e.cause.text) ∧
    e.position ≤ source.length ∧
    ∃ place, FirstFault source place ∧ (∀ other, FirstFault source other → other = place) ∧
      e.position =
        if e.cause = .expectedClose ∧ place < source.length then place + 1 else place := by
  unfold TypeRef.parse at h
  split at h
  · cases h
  · rename_i failure made
    cases h
    obtain ⟨front, left, rfl, fault, rest, cited⟩ := exists_firstFault made
    have position : (front ++ left).length - failure.rest.length =
        if failure.cause = .expectedClose ∧ front.length < (front ++ left).length then
          front.length + 1 else front.length := by
      rw [rest]
      cases left with
      | nil => simp
      | cons b later =>
        split_ifs <;> simp_all
        omega
    refine ⟨fun free => ?_, Nat.sub_le .., front.length, fault, fun _ other => other.unique fault,
      position⟩
    have wording : 0 ∉ failure.cause.text := by
      cases cause : failure.cause with
      | expectedType => decide
      | expectedClose => decide
      | unexpected b =>
        have other : b ≠ 0 := ne_of_mem_of_not_mem (cited b cause) free
        have quotes : 0 ∉ ("unexpected '" : Text) ∧ 0 ∉ ("'" : Text) := by decide
        simp [Cause.text, quotes, other.symm]
    have parts : 0 ∉ ("Invalid type reference '" : Text) ∧ 0 ∉ ("' at position " : Text) ∧
        0 ∉ (": " : Text) := by decide
    refine Text.untilNul_of_free ?_
    simp only [List.mem_append, not_or] at free ⊢
    exact ⟨⟨⟨⟨⟨parts.1, free⟩, parts.2.1⟩, Text.nul_not_mem_decimal _⟩, parts.2.2⟩, wording⟩

/-- A second mark is the byte that is pointed at. -/
theorem TypeRef.points_at_second_mark :
    TypeRef.parse "Int!!" = .error ⟨"Int!!", 4, .unexpected '!'.toUInt8⟩ ∧
    FirstFault "Int!!" 4 := by
  have refused : TypeRef.parse "Int!!" = .error ⟨"Int!!", 4, .unexpected '!'.toUInt8⟩ := by decide
  obtain ⟨-, -, place, fault, -, position⟩ := TypeRef.parse_points refused
  have same : place = 4 := by simpa using position.symm
  exact ⟨refused, same ▸ fault⟩

/-- A parenthesis in place of a bracket has been passed. -/
theorem TypeRef.points_behind_parenthesis :
    ∃ e, TypeRef.parse "[Int)" = .error e ∧ ¬ FirstFault "[Int)" e.position := by
  refine ⟨⟨"[Int)", 5, .expectedClose⟩, by decide, fun fault => ?_⟩
  obtain ⟨more, ref, made⟩ := fault.viable
  have refused : readAll ("[Int)" ++ more) = .error ⟨.expectedClose, more⟩ := rfl
  have accepted := readAll_eq_ok_iff.2 (parse_eq_ok_iff.1 made)
  cases refused.symm.trans accepted

end SchemaTypes
