import SchemaTypes.Alias.Basic
import SchemaTypes.Declaration
import SchemaTypes.Options.Error
import SchemaTypes.TypeExpr.Recognizer

/-!
# The registry of aliases

The registry holds the body of each alias and which aliases the output refers to. Those are
declared at the end, each after the aliases its body mentions. An alias is rejected if its body is
no type expression, if its body mentions an alias that is still being declared, or if it mentions
a rejected alias.
-/

namespace SchemaTypes

/-- The bodies of the aliases and the aliases referred to so far. -/
structure Registry where
  bodies : PerAlias Text
  noExport : Bool
  referenced : AliasSet := .empty
  deriving DecidableEq, Repr

/-- How far the aliases have been declared. -/
structure Materialized where
  /-- The declarations, each after those it needs. -/
  declarations : List Declaration := []
  errors : List ConfigurationError := []
  /-- The aliases that are declared. -/
  declared : AliasSet := .empty
  /-- The aliases that are rejected. -/
  failed : AliasSet := .empty
  deriving DecidableEq, Repr

namespace Registry

def body (r : Registry) (a : Alias) : Text := r.bodies.get a

/-- The aliases that the body of an alias mentions. -/
def dependencies (r : Registry) (a : Alias) : List Alias := Alias.mentionedIn (r.body a)

/-- The type text `inner` inside an alias. -/
def wrapped (a : Alias) (inner : Text) : Text := a.name ++ "<" ++ inner ++ ">"

/-- The registry with more aliases referred to. -/
def referring (r : Registry) (used : AliasSet) : Registry :=
  { r with referenced := r.referenced.union used }

@[simp] theorem mem_referenced_referring {r : Registry} {used : AliasSet} {a : Alias} :
    a ∈ (r.referring used).referenced ↔ a ∈ r.referenced ∨ a ∈ used :=
  AliasSet.mem_union

/-- Puts a type text inside an alias, which is referred to from then on. -/
def wrap (r : Registry) (a : Alias) (inner : Text) : Text × Registry :=
  (wrapped a inner, r.referring (AliasSet.empty.insert a))

def declaration (r : Registry) (a : Alias) : Declaration where
  name := a.name
  kind := .wrapperAlias
  body := Declaration.exportQualifier r.noExport ++ "type " ++ a.name ++ "<T> = " ++ r.body a ++ ";"
  wrappers := (r.dependencies a).foldl AliasSet.insert .empty

/-- An error in the option of an alias. -/
def error (r : Registry) (a : Alias) (reason : Reason) : ConfigurationError :=
  ⟨a.option, r.body a, reason⟩

end Registry

namespace Materialized

/-- Whether it is known what becomes of an alias. -/
def settles (m : Materialized) (a : Alias) : Bool := a ∈ m.declared || a ∈ m.failed

/-- An alias is declared. -/
def declare (m : Materialized) (r : Registry) (a : Alias) : Materialized :=
  { m with
    declarations := m.declarations ++ [r.declaration a]
    declared := m.declared.insert a }

/-- An alias is rejected for the sake of another. -/
def reject (m : Materialized) (a : Alias) : Materialized :=
  { m with failed := m.failed.insert a }

/-- An alias is rejected for a reason of its own. -/
def rejectFor (m : Materialized) (r : Registry) (a : Alias) (reason : Reason) : Materialized :=
  { m.reject a with errors := m.errors ++ [r.error a reason] }

end Materialized

namespace Registry

mutual

/-- Settles an alias, where `closed` holds those that are not on the way from the root to it. -/
def settle (r : Registry) (closed : List Alias) (a : Alias) (m : Materialized) : Materialized :=
  if m.settles a then m
  else
    match TypeExpr.check (r.body a) with
    | .error e => m.rejectFor r a (.invalidExpression e)
    | .ok () => settleAfter r closed a (r.dependencies a) m
termination_by closed.length * 6 + 5
decreasing_by
  have := Alias.length_mentionedIn_le (r.body a)
  simp only [dependencies]
  omega

/-- Settles an alias once the given ones are settled, which are the rest of those that its body
mentions. -/
def settleAfter (r : Registry) (closed : List Alias) (a : Alias) (deps : List Alias)
    (m : Materialized) : Materialized :=
  match deps with
  | [] => m.declare r a
  | d :: rest =>
    if d ∈ closed then
      let m := settle r (closed.erase d) d m
      if d ∈ m.failed then m.reject a else settleAfter r closed a rest m
    else m.rejectFor r a (.refersBack a d)
termination_by closed.length * 6 + deps.length
decreasing_by
  · rename_i mem
    have := List.length_erase_of_mem mem
    have := List.length_pos_of_mem mem
    simp only [List.length_cons]
    omega
  · simp only [List.length_cons]
    omega

end

/-- Settles an alias that the output refers to. -/
def settleRoot (r : Registry) (m : Materialized) (a : Alias) : Materialized :=
  settle r (Alias.all.erase a) a m

/-- Declares the aliases referred to, in order, each after those it needs. -/
def materialize (r : Registry) : Materialized :=
  r.referenced.toList.foldl r.settleRoot {}

end Registry

end SchemaTypes
