import SchemaTypes.Text.Basic

namespace SchemaTypes

/-- The generic aliases that field types lean on. -/
inductive Alias where
  /-- An output value that may be null. -/
  | maybe
  /-- An input value that may be null. -/
  | inputMaybe
  /-- The innermost value of an output field. -/
  | fieldWrapper
  /-- The whole type of an output field. -/
  | entireFieldWrapper
  deriving DecidableEq, Repr

namespace Alias

def all : List Alias := [maybe, inputMaybe, fieldWrapper, entireFieldWrapper]

/-- The name that an alias is declared under. -/
def name : Alias → Text
  | maybe => "Maybe"
  | inputMaybe => "InputMaybe"
  | fieldWrapper => "FieldWrapper"
  | entireFieldWrapper => "EntireFieldWrapper"

/-- The option that overrides the body of an alias. -/
def option : Alias → Text
  | maybe => "maybeValue"
  | inputMaybe => "inputMaybeValue"
  | fieldWrapper => "fieldWrapperValue"
  | entireFieldWrapper => "entireFieldWrapperValue"

theorem mem_all (a : Alias) : a ∈ all := by cases a <;> decide

end Alias

/-- A value for each alias. -/
structure PerAlias (α : Type) where
  maybe : α
  inputMaybe : α
  fieldWrapper : α
  entireFieldWrapper : α
  deriving DecidableEq, Repr

namespace PerAlias

variable {α : Type}

/-- The value of an alias. -/
def get (p : PerAlias α) : Alias → α
  | .maybe => p.maybe
  | .inputMaybe => p.inputMaybe
  | .fieldWrapper => p.fieldWrapper
  | .entireFieldWrapper => p.entireFieldWrapper

/-- The values that a function gives. -/
def ofFun (f : Alias → α) : PerAlias α :=
  ⟨f .maybe, f .inputMaybe, f .fieldWrapper, f .entireFieldWrapper⟩

@[simp] theorem get_ofFun (f : Alias → α) (a : Alias) : (ofFun f).get a = f a := by
  cases a <;> rfl

@[ext] theorem ext {p q : PerAlias α} (h : ∀ a, p.get a = q.get a) : p = q := by
  cases p
  cases q
  simp only [PerAlias.mk.injEq]
  exact ⟨h .maybe, h .inputMaybe, h .fieldWrapper, h .entireFieldWrapper⟩

end PerAlias

/-- A set of aliases: for each, whether it is a member. -/
abbrev AliasSet := PerAlias Bool

namespace AliasSet

instance : Membership Alias AliasSet := ⟨fun s a => s.get a = true⟩

instance (a : Alias) (s : AliasSet) : Decidable (a ∈ s) :=
  inferInstanceAs (Decidable (s.get a = true))

def empty : AliasSet := .ofFun fun _ => false

/-- The set with one more member. -/
def insert (s : AliasSet) (a : Alias) : AliasSet := .ofFun fun b => b = a || s.get b

def union (s t : AliasSet) : AliasSet := .ofFun fun a => s.get a || t.get a

/-- The members of any of the sets. -/
def unions (sets : List AliasSet) : AliasSet := sets.foldl union empty

/-- The members in the order of the aliases. -/
def toList (s : AliasSet) : List Alias := Alias.all.filter (· ∈ s)

/-- The names of the members in byte order, which is the reverse of the order of the aliases. -/
def names (s : AliasSet) : List Text := s.toList.reverse.map (·.name)

@[simp] theorem not_mem_empty (a : Alias) : a ∉ empty := by simp [Membership.mem, empty]

@[simp] theorem mem_insert {a b : Alias} {s : AliasSet} : b ∈ s.insert a ↔ b = a ∨ b ∈ s := by
  simp [Membership.mem, insert]

@[simp] theorem mem_union {a : Alias} {s t : AliasSet} : a ∈ s.union t ↔ a ∈ s ∨ a ∈ t := by
  simp [Membership.mem, union]

@[simp] theorem mem_ofFun {a : Alias} {f : Alias → Bool} :
    a ∈ (PerAlias.ofFun f : AliasSet) ↔ f a = true := by
  simp [Membership.mem]

@[simp] theorem mem_toList {a : Alias} {s : AliasSet} : a ∈ s.toList ↔ a ∈ s := by
  simp [toList, Alias.mem_all]

theorem ext_mem {s t : AliasSet} (h : ∀ a, a ∈ s ↔ a ∈ t) : s = t :=
  PerAlias.ext fun a => Bool.eq_iff_iff.2 (h a)

theorem mem_foldl_union {a : Alias} {s : AliasSet} {sets : List AliasSet} :
    a ∈ sets.foldl union s ↔ a ∈ s ∨ ∃ t ∈ sets, a ∈ t := by
  induction sets generalizing s with
  | nil => simp
  | cons t sets ih =>
    rw [List.foldl_cons, ih, mem_union]
    simp [or_assoc]

@[simp] theorem mem_unions {a : Alias} {sets : List AliasSet} :
    a ∈ unions sets ↔ ∃ t ∈ sets, a ∈ t := by
  simp [unions, mem_foldl_union]

end AliasSet

namespace Identifiers

open Text

/-- Where a byte of a type expression stands. -/
inductive Region where
  | code
  /-- In a literal that ends at the given delimiter. -/
  | literal (delimiter : UInt8)
  /-- In such a literal, right behind a backslash. -/
  | escaped (delimiter : UInt8)
  deriving DecidableEq, Repr

/-- The bytes that open a literal. -/
def isDelimiter (b : UInt8) : Bool := b == singleQuote || b == doubleQuote || b == backquote

/-- The bytes of identifiers. -/
def isPart (b : UInt8) : Bool := isLetter b || isDigit b || b == '_'.toUInt8 || b == '$'.toUInt8

/-- Where the byte after `b` stands. -/
def Region.after (b : UInt8) : Region → Region
  | code => if isDelimiter b then literal b else code
  | literal d => if b = d then code else if b = backslash then escaped d else literal d
  | escaped d => literal d

/-- The text with a blank in place of each byte of a literal. -/
def blanked (r : Region) : Text → Text
  | [] => []
  | b :: rest =>
    (if r = .code ∧ ¬ isDelimiter b then b else space) :: blanked (r.after b) rest

/-- The runs of identifier bytes outside literals. Some may be empty. -/
def runs (source : Text) : List Text := (blanked .code source).splitOnP (!isPart ·)

end Identifiers

/-- The aliases whose names are identifiers of a body, in the order of the aliases. -/
def Alias.mentionedIn (body : Text) : List Alias :=
  Alias.all.filter (·.name ∈ Identifiers.runs body)

theorem Alias.length_mentionedIn_le (body : Text) : (Alias.mentionedIn body).length ≤ 4 :=
  List.length_filter_le _ _

end SchemaTypes
