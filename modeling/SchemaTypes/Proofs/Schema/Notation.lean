import SchemaTypes.Proofs.Text.Bytes
import SchemaTypes.Schema.Notation

namespace SchemaTypes

namespace Notation

/-- A letter or `_`, then any number of letters, digits and `_`. -/
def isName : Text → Bool
  | [] => false
  | b :: rest => startsName b && rest.all continuesName

/-- Spaces and tabs, or nothing. -/
def AllBlank (blanks : Text) : Prop := ∀ b ∈ blanks, isBlank b = true

/-- The parts one after the other, with blanks before, between and behind them. -/
inductive Spaced : List Text → Text → Prop
  | nil {blanks} : AllBlank blanks → Spaced [] blanks
  | cons {blanks part parts rest} : AllBlank blanks → Spaced parts rest →
      Spaced (part :: parts) (blanks ++ (part ++ rest))

variable {parts : List Text} {part source rest blanks : Text}

theorem not_blank_of_continuesName {b : UInt8} (h : continuesName b = true) :
    isBlank b = false := by
  by_contra blank
  simp only [Bool.not_eq_false, isBlank, Bool.or_eq_true, beq_iff_eq] at blank
  rcases blank with rfl | rfl <;> exact absurd h (by decide)

theorem continuesName_of_startsName {b : UInt8} (h : startsName b = true) :
    continuesName b = true := by
  simp [continuesName, h]

theorem continuesName_of_isName {name : Text} (h : isName name = true) :
    ∀ b ∈ name, continuesName b = true := by
  cases name with
  | nil => cases h
  | cons b rest =>
    simp only [isName, Bool.and_eq_true, List.all_eq_true] at h
    intro c mem
    rcases List.mem_cons.1 mem with rfl | later
    · exact continuesName_of_startsName h.1
    · exact h.2 c later

theorem dropWhile_isBlank (source : Text) :
    ∃ blanks, AllBlank blanks ∧ source = blanks ++ source.dropWhile isBlank :=
  ⟨source.takeWhile isBlank, fun _ mem => List.mem_takeWhile_imp mem,
    List.takeWhile_append_dropWhile.symm⟩

theorem dropWhile_blanks (h : AllBlank blanks) (rest : Text) :
    (blanks ++ rest).dropWhile isBlank = rest.dropWhile isBlank :=
  List.dropWhile_append_of_pos h

namespace Spaced

theorem after_blanks (h : Spaced parts source) (blank : AllBlank blanks) :
    Spaced parts (blanks ++ source) := by
  cases h with
  | nil more => exact .nil (List.forall_mem_append.2 ⟨blank, more⟩)
  | cons more rest =>
    rw [← List.append_assoc]
    exact .cons (List.forall_mem_append.2 ⟨blank, more⟩) rest

theorem of_dropWhile (h : Spaced parts (source.dropWhile isBlank)) : Spaced parts source := by
  obtain ⟨blanks, blank, eq⟩ := dropWhile_isBlank source
  rw [eq]
  exact h.after_blanks blank

theorem first (part : Text) (h : Spaced parts source) : Spaced (part :: parts) (part ++ source) :=
  have none : AllBlank [] := by simp [AllBlank]
  .cons none h

theorem flatten (parts : List Text) : Spaced parts parts.flatten := by
  induction parts with
  | nil => exact .nil (by simp [AllBlank])
  | cons part parts ih => exact ih.first part

theorem filter (h : Spaced parts source) (visible : ∀ part ∈ parts, ∀ b ∈ part, isBlank b = false) :
    source.filter (!isBlank ·) = parts.flatten := by
  induction h with
  | nil blank => simpa [AllBlank] using blank
  | @cons blanks part parts rest blank _ ih =>
    obtain ⟨first, later⟩ := List.forall_mem_cons.1 visible
    have none : blanks.filter (!isBlank ·) = [] := by simpa [AllBlank] using blank
    have all : part.filter (!isBlank ·) = part := by simpa using first
    rw [List.filter_append, List.filter_append, none, all, ih later, List.nil_append,
      List.flatten_cons]

end Spaced

theorem Spaced.split (h : Spaced (part :: parts) source) :
    ∃ blanks rest, AllBlank blanks ∧ source = blanks ++ (part ++ rest) ∧ Spaced parts rest := by
  cases h with
  | cons blank later => exact ⟨_, _, blank, rfl, later⟩

theorem spaced_nil_iff : Spaced [] source ↔ source.dropWhile isBlank = [] := by
  rw [List.dropWhile_eq_nil_iff]
  exact ⟨fun h => by cases h; assumption, .nil⟩

theorem Spaced.byte {b : UInt8} (h : Spaced ([b] :: parts) source) (visible : isBlank b = false) :
    ∃ rest, source.dropWhile isBlank = b :: rest ∧ Spaced parts rest := by
  obtain ⟨blanks, rest, blank, rfl, later⟩ := h.split
  refine ⟨rest, ?_, later⟩
  rw [dropWhile_blanks blank, List.cons_append, List.dropWhile_cons, visible]
  rfl

theorem Spaced.head?_stops (h : Spaced parts source)
    (starts : ∀ part ∈ parts.head?, ∃ b more, part = b :: more ∧ continuesName b = false) :
    ∀ b ∈ source.head?, continuesName b = false := by
  have stop {b : UInt8} (blank : isBlank b = true) : continuesName b = false := by
    cases continues : continuesName b with
    | false => rfl
    | true => rw [not_blank_of_continuesName continues] at blank; cases blank
  cases h with
  | nil blank => exact fun b mem => stop (blank b (List.mem_of_mem_head? mem))
  | @cons blanks part parts rest blank later =>
    cases blanks with
    | nil =>
      obtain ⟨c, more, rfl, first⟩ := starts part rfl
      intro b mem
      obtain rfl : c = b := by simpa using mem
      exact first
    | cons c blanks =>
      intro b mem
      obtain rfl : c = b := by simpa using mem
      exact stop (blank c (.head _))

/-- The part that marks a level. -/
def markParts (nullable : Bool) : List Text := if nullable then [] else ["!"]

/-- What may follow a reference: nothing, or the bracket that closes the list around it. -/
def Ends (parts : List Text) : Prop := parts = [] ∨ ∃ more, parts = ("]" : Text) :: more

theorem Ends.marked (ends : Ends parts) (nullable : Bool) :
    ∀ part ∈ (markParts nullable ++ parts).head?,
      ∃ b more, part = b :: more ∧ continuesName b = false := by
  intro part mem
  cases nullable with
  | false =>
    obtain rfl : "!" = part := by simpa [markParts] using mem
    exact ⟨_, _, rfl, by decide⟩
  | true =>
    rcases ends with rfl | ⟨more, rfl⟩
    · cases mem
    · obtain rfl : "]" = part := by simpa [markParts] using mem
      exact ⟨_, _, rfl, by decide⟩

theorem readLevelMark_sound {level : Bool → TypeRef} {ref : TypeRef}
    (h : readLevelMark level source = (ref, rest)) (later : Spaced parts rest) :
    ∃ nullable, ref = level nullable ∧ Spaced (markParts nullable ++ parts) source := by
  unfold readLevelMark at h
  split at h
  · rename_i blank
    cases h
    exact ⟨true, rfl, .of_dropWhile (blank ▸ later)⟩
  · rename_i b after next
    split at h
    · rename_i mark
      cases h
      refine ⟨false, rfl, .of_dropWhile ?_⟩
      rw [next, mark]
      exact later.first "!"
    · cases h
      exact ⟨true, rfl, .of_dropWhile (next ▸ later)⟩

theorem readLevelMark_complete (level : Bool → TypeRef) {nullable : Bool} (ends : Ends parts)
    (h : Spaced (markParts nullable ++ parts) source) :
    ∃ rest, readLevelMark level source = (level nullable, rest) ∧ Spaced parts rest := by
  unfold readLevelMark
  cases nullable with
  | false =>
    obtain ⟨rest, next, later⟩ := h.byte (b := '!'.toUInt8) (by decide)
    rw [next]
    exact ⟨rest, rfl, later⟩
  | true =>
    change Spaced parts source at h
    rcases ends with rfl | ⟨more, rfl⟩
    · rw [spaced_nil_iff.1 h]
      exact ⟨[], rfl, .nil (by simp [AllBlank])⟩
    · obtain ⟨rest, next, later⟩ := h.byte (b := ']'.toUInt8) (by decide)
      rw [next]
      exact ⟨_, rfl, later.first "]"⟩

end Notation

open Notation

/-- The brackets, the name and the marks of a reference, in the order of its notation. -/
def TypeRef.parts : TypeRef → List Text
  | named name nullable => name :: markParts nullable
  | list inner nullable => ("[" : Text) :: (inner.parts ++ ("]" : Text) :: markParts nullable)

theorem TypeRef.flatten_parts (ref : TypeRef) : ref.parts.flatten = ref.text := by
  have marks (nullable : Bool) : (markParts nullable).flatten = levelMark nullable := by
    cases nullable <;> rfl
  induction ref with
  | named name nullable => rw [parts, text, List.flatten_cons, marks]
  | list inner nullable ih =>
    rw [parts, text, List.flatten_cons, List.flatten_append, List.flatten_cons, ih, marks]
    simp

theorem TypeRef.visible_parts {ref : TypeRef} (named : isName ref.leaf = true) :
    ∀ part ∈ ref.parts, ∀ b ∈ part, isBlank b = false := by
  have byte (c : UInt8) (visible : isBlank c = false) : ∀ b ∈ [c], isBlank b = false := by
    intro b mem
    rwa [List.mem_singleton.1 mem]
  have marks (nullable : Bool) : ∀ part ∈ markParts nullable, ∀ b ∈ part, isBlank b = false := by
    intro part mem
    cases nullable with
    | true => cases mem
    | false =>
      rw [List.mem_singleton.1 mem]
      exact byte '!'.toUInt8 (by decide)
  induction ref with
  | named name nullable =>
    refine List.forall_mem_cons.2 ⟨fun b mem => ?_, marks nullable⟩
    exact not_blank_of_continuesName (continuesName_of_isName named b mem)
  | list inner nullable ih =>
    have opening : ∀ b ∈ ("[" : Text), isBlank b = false := byte '['.toUInt8 (by decide)
    have closing : ∀ b ∈ ("]" : Text), isBlank b = false := byte ']'.toUInt8 (by decide)
    refine List.forall_mem_cons.2 ⟨opening, List.forall_mem_append.2 ⟨ih named, ?_⟩⟩
    exact List.forall_mem_cons.2 ⟨closing, marks nullable⟩

namespace Notation

variable {parts : List Text} {source rest : Text} {ref : TypeRef}

/-- What is read off the front of a text is made of the parts of the reference. -/
theorem read_sound (h : read source = .ok (ref, rest)) (later : Spaced parts rest) :
    isName ref.leaf = true ∧ Spaced (ref.parts ++ parts) source := by
  fun_induction read source generalizing ref rest parts with
  | case1 => cases h
  | case2 b source blank ih =>
    obtain ⟨named, spaced⟩ := ih h later
    have one : AllBlank [b] := by simpa [AllBlank] using blank
    exact ⟨named, spaced.after_blanks one⟩
  | case3 => cases h
  | case4 => cases h
  | case5 source inner after made behind visible next ih =>
    obtain ⟨nullable, rfl, marked⟩ := readLevelMark_sound (Except.ok.inj h) later
    have closing : Spaced ("]" :: (markParts nullable ++ parts)) after :=
      .of_dropWhile (by rw [next]; exact marked.first "]")
    obtain ⟨named, spaced⟩ := ih made closing
    refine ⟨named, ?_⟩
    rw [TypeRef.parts, List.cons_append, List.append_assoc]
    exact spaced.first "["
  | case6 => cases h
  | case7 b source visible bracket starts =>
    obtain ⟨nullable, rfl, marked⟩ := readLevelMark_sound (Except.ok.inj h) later
    constructor
    · simp only [TypeRef.leaf, isName, starts, Bool.true_and, List.all_eq_true]
      exact fun c mem => List.mem_takeWhile_imp mem
    · have whole := marked.first (b :: source.takeWhile continuesName)
      rwa [List.cons_append, List.takeWhile_append_dropWhile] at whole
  | case8 => cases h

theorem read_dropWhile (source : Text) : read (source.dropWhile isBlank) = read source := by
  induction source with
  | nil => rfl
  | cons b source ih =>
    rw [List.dropWhile_cons]
    split
    · rename_i blank
      rw [ih, read, if_pos blank]
    · rfl

theorem read_name {name : Text} (named : isName name = true)
    (stops : ∀ b ∈ rest.head?, continuesName b = false) :
    read (name ++ rest) = .ok (readLevelMark (.named name) rest) := by
  cases name with
  | nil => cases named
  | cons b more =>
    have continues := continuesName_of_isName named
    obtain ⟨first, later⟩ := List.forall_mem_cons.1 continues
    have visible : isBlank b = false := not_blank_of_continuesName first
    have starts : startsName b = true := by simp_all [isName]
    have bracket : b ≠ '['.toUInt8 := by
      rintro rfl
      exact absurd starts (by decide)
    have name : (more ++ rest).takeWhile continuesName = more :=
      Text.takeWhile_append_of_stops later stops
    have behind : (more ++ rest).dropWhile continuesName = rest :=
      Text.dropWhile_append_of_stops later stops
    rw [List.cons_append, read, if_neg (by simp [visible]), if_neg bracket, if_pos starts, name,
      behind]

/-- The parts of a reference are read as it, whatever may follow. -/
theorem read_complete (named : isName ref.leaf = true) (ends : Ends parts)
    (h : Spaced (ref.parts ++ parts) source) :
    ∃ rest, read source = .ok (ref, rest) ∧ Spaced parts rest := by
  induction ref generalizing source parts with
  | named name nullable =>
    change isName name = true at named
    obtain ⟨blanks, rest, blank, rfl, marked⟩ := h.split
    have stops := marked.head?_stops (ends.marked nullable)
    obtain ⟨after, mark, last⟩ := readLevelMark_complete (.named name) ends marked
    refine ⟨after, ?_, last⟩
    rw [← read_dropWhile, dropWhile_blanks blank, read_dropWhile, read_name named stops, mark]
  | list inner nullable ih =>
    rw [TypeRef.parts, List.cons_append, List.append_assoc] at h
    obtain ⟨more, opened, later⟩ := h.byte (b := '['.toUInt8) (by decide)
    obtain ⟨after, made, closing⟩ := ih named (.inr ⟨_, rfl⟩) later
    obtain ⟨behind, closed, marked⟩ := closing.byte (b := ']'.toUInt8) (by decide)
    obtain ⟨rest, mark, last⟩ := readLevelMark_complete (.list inner) ends marked
    refine ⟨rest, ?_, last⟩
    rw [← read_dropWhile, opened, read, if_neg (by decide), if_pos rfl, made]
    simp only [closed, if_true, mark]

theorem readAll_eq_ok_iff :
    readAll source = .ok ref ↔ isName ref.leaf = true ∧ Spaced ref.parts source := by
  unfold readAll
  constructor
  · intro h
    split at h
    · cases h
    · rename_i made
      split at h
      · rename_i blank
        cases h
        have whole := read_sound made (spaced_nil_iff.2 blank)
        rwa [List.append_nil] at whole
      · cases h
  · rintro ⟨named, spaced⟩
    rw [← List.append_nil ref.parts] at spaced
    obtain ⟨rest, made, blank⟩ := read_complete named (.inl rfl) spaced
    simp only [made, spaced_nil_iff.1 blank]

end Notation

/-- A notation is read as a reference exactly if it is made of the parts of that reference, over a
name, and of blanks. -/
theorem TypeRef.parse_eq_ok_iff {source : Text} {ref : TypeRef} :
    TypeRef.parse source = .ok ref ↔ isName ref.leaf = true ∧ Spaced ref.parts source := by
  rw [← readAll_eq_ok_iff, TypeRef.parse]
  split <;> simp_all

/-- **Reading and printing are inverse up to blanks.** A notation is read as a reference exactly if
the reference is over a name and the notation is made of its parts in order, with blanks before,
between and behind them. So what is printed for a reference over a name is read as that reference;
a notation that is read is printed without its blanks; and every other notation is refused. -/
theorem TypeRef.parse_inverse_text :
    (∀ source ref, TypeRef.parse source = .ok ref ↔
      isName ref.leaf = true ∧ Spaced ref.parts source) ∧
    (∀ ref : TypeRef, ref.parts.flatten = ref.text) ∧
    (∀ ref : TypeRef, isName ref.leaf = true → TypeRef.parse ref.text = .ok ref) ∧
    (∀ source ref, TypeRef.parse source = .ok ref → ref.text = source.filter (!isBlank ·)) ∧
    ∀ source, (¬ ∃ ref : TypeRef, isName ref.leaf = true ∧ Spaced ref.parts source) →
      ∃ e, TypeRef.parse source = .error e := by
  refine ⟨fun source ref => parse_eq_ok_iff, flatten_parts, fun ref named => ?_,
    fun source ref made => ?_, fun source none => ?_⟩
  · refine parse_eq_ok_iff.2 ⟨named, ?_⟩
    rw [← flatten_parts]
    exact .flatten ref.parts
  · obtain ⟨named, spaced⟩ := parse_eq_ok_iff.1 made
    rw [spaced.filter (visible_parts named), flatten_parts]
  · cases made : TypeRef.parse source with
    | error e => exact ⟨e, rfl⟩
    | ok ref => exact absurd ⟨ref, parse_eq_ok_iff.1 made⟩ none

/-- A list of lists, with blanks wherever they may stand. -/
example : TypeRef.parse " [ [Int ! ]\t] !" =
    .ok (.list (.list (.named "Int" false) true) false) := by decide

end SchemaTypes
