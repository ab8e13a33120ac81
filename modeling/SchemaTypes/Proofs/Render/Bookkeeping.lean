import SchemaTypes.Proofs.Emission.Walk
import SchemaTypes.Proofs.Render.Mentioned
import SchemaTypes.Render.TypeText

/-!
# Keeping account of aliases

Rendering can be done step by step with a ledger at hand, in which an alias is written down at the
moment when a text is put inside it. What is written down stays there, even if there is an error
later on.
-/

namespace SchemaTypes

/-- Where aliases are written down: in the registry, and in a set of the caller. -/
structure Ledger where
  registry : Registry
  used : AliasSet

namespace Ledger

/-- Puts a text inside an alias, which is written down. -/
def wrap (a : Alias) (inner : Text) (l : Ledger) : Text × Ledger :=
  ((l.registry.wrap a inner).1, ⟨(l.registry.wrap a inner).2, l.used.insert a⟩)

/-- The ledger with more aliases in it. -/
def recording (l : Ledger) (used : AliasSet) : Ledger :=
  ⟨l.registry.referring used, l.used.union used⟩

/-- What is left of a rendering: its text, and the ledger with its aliases in it. -/
def after (l : Ledger) :
    Except UnresolvedReference Rendered → Except UnresolvedReference Text × Ledger
  | .ok r => (.ok r.text, l.recording r.used)
  | .error e => (.error e, l)

theorem recording_empty (l : Ledger) : l.recording .empty = l := by
  have same : l.used.union .empty = l.used := AliasSet.ext_mem (by simp)
  rw [recording, Registry.referring_empty, same]

theorem wrap_recording (l : Ledger) (a : Alias) (r : Rendered) :
    (l.recording r.used).wrap a r.text =
      ((r.wrapped a).text, l.recording (r.wrapped a).used) := by
  have registry : (l.registry.referring r.used).referring (AliasSet.empty.insert a) =
      l.registry.referring (r.used.insert a) := by
    rw [Registry.referring_referring]
    exact l.registry.referring_congr (by simp [or_comm])
  have used : (l.used.union r.used).insert a = l.used.union (r.used.insert a) :=
    AliasSet.ext_mem (by simp [or_left_comm])
  simp only [wrap, recording, Registry.wrap, registry, used]
  rfl

end Ledger

/-- A field as a member, around the text of its type. -/
def Field.framed (f : Field) (s : Settings) (type : Text) : Text :=
  s.comment f.description 2 ++ "  " ++ s.readonlyQualifier ++ f.name ++
    optionalMark (f.isOptional s.avoidOptionals) ++ ": " ++ type ++ ";\n"

/-- Rendering with a ledger, which keeps what was written down before an error. -/
abbrev Recording (α : Type) := ExceptT UnresolvedReference (StateM Ledger) α

namespace Recording

def wrapIf (condition : Bool) (a : Alias) (inner : Text) : Recording Text :=
  if condition then modifyGet (Ledger.wrap a inner) else pure inner

variable (schema : Schema) (s : Settings)

/-- The levels of a reference, each after those inside it. -/
def levels (p : Position) (path : Text) : TypeRef → Recording Text
  | .named name nullable =>
    MonadExcept.ofExcept (leafText schema s name path) >>=
      wrapIf (p == .output && s.wrapFieldDefinitions) .fieldWrapper >>=
      wrapIf nullable p.nullableAlias
  | .list inner nullable =>
    (fun items : Text =>
      (if s.immutableTypes then "ReadonlyArray<" else "Array<") ++ items ++ ">") <$>
      levels p path inner >>= wrapIf nullable p.nullableAlias

/-- The text of a reference at a position. -/
def type (p : Position) (ref : TypeRef) (path : Text) : Recording Text :=
  levels schema s p path ref >>=
    wrapIf (p == .output && s.wrapEntireFieldDefinitions) .entireFieldWrapper

/-- A field as a member of the type of its owner. -/
def member (owner : Text) (f : Field) : Recording Text :=
  f.framed s <$> type schema s f.position f.type (owner ++ "." ++ f.name)

end Recording

/-- Whatever the ledger, some steps come to a rendering and write down its aliases. -/
def Recording.Records (m : Recording Text) (x : Except UnresolvedReference Rendered) : Prop :=
  ∀ l : Ledger, m.run.run l = l.after x

variable {schema : Schema} {s : Settings} {p : Position} {ref : TypeRef} {path : Text}

namespace Recording

variable {m : Recording Text} {x : Except UnresolvedReference Rendered}

theorem run_bind {α β : Type} (m : Recording α) (f : α → Recording β) (l : Ledger) :
    (m >>= f).run.run l =
      match m.run.run l with
      | (.ok a, next) => (f a).run.run next
      | (.error e, next) => (.error e, next) := by
  simp only [ExceptT.run_bind, StateT.run_bind]
  obtain ⟨_ | _, next⟩ : Except UnresolvedReference α × Ledger := m.run.run l
  · rfl
  · rfl

theorem Records.wrapIf (h : m.Records x) (condition : Bool) (a : Alias) :
    (m >>= Recording.wrapIf condition a).Records (x.map (·.wrappedIf condition a)) := by
  intro l
  rw [run_bind, h l]
  cases x with
  | error e => rfl
  | ok r =>
    cases condition with
    | false => rfl
    | true =>
      show (Except.ok ((l.recording r.used).wrap a r.text).1,
        ((l.recording r.used).wrap a r.text).2) = _
      rw [l.wrap_recording a r]
      rfl

theorem Records.map (h : m.Records x) (f : Text → Text) :
    (f <$> m).Records (x.map fun r => { r with text := f r.text }) := by
  intro l
  have mapped : f <$> m = m >>= fun t => pure (f t) := map_eq_pure_bind f m
  rw [mapped, run_bind, h l]
  cases x with
  | error e => rfl
  | ok r => rfl

theorem ofExcept_records (x : Except UnresolvedReference Text) :
    Recording.Records (MonadExcept.ofExcept x) (x.map fun t => ⟨t, .empty⟩) := by
  intro l
  cases x with
  | error e => rfl
  | ok t =>
    show (Except.ok t, l) = (Except.ok t, l.recording .empty)
    rw [l.recording_empty]

end Recording

theorem levels_records (schema : Schema) (s : Settings) (p : Position) (path : Text)
    (ref : TypeRef) :
    (Recording.levels schema s p path ref).Records
      ((leafText schema s ref.leaf path).map fun leaf => levelsText s p leaf ref) := by
  induction ref with
  | named name nullable =>
    have steps := ((Recording.ofExcept_records (leafText schema s name path)).wrapIf
      (p == .output && s.wrapFieldDefinitions) .fieldWrapper).wrapIf nullable p.nullableAlias
    rw [map_map, map_map] at steps
    exact steps
  | list inner nullable ih =>
    have steps := (ih.map fun items =>
      (if s.immutableTypes then "ReadonlyArray<" else "Array<") ++ items ++ ">").wrapIf
        nullable p.nullableAlias
    rw [map_map, map_map] at steps
    exact steps

/-- The steps for a type come to its text and its aliases. -/
theorem type_records (schema : Schema) (s : Settings) (p : Position) (ref : TypeRef)
    (path : Text) :
    (Recording.type schema s p ref path).Records (typeText schema s p ref path) := by
  have steps := (levels_records schema s p path ref).wrapIf
    (p == .output && s.wrapEntireFieldDefinitions) .entireFieldWrapper
  rw [map_map] at steps
  exact steps

theorem member_records (schema : Schema) (s : Settings) (owner : Text) (f : Field) :
    (Recording.member schema s owner f).Records (memberText schema s owner f) :=
  (type_records schema s f.position f.type (owner ++ "." ++ f.name)).map _

/-! ## Calls -/

inductive Call where
  /-- For the text of a reference. -/
  | type (p : Position) (ref : TypeRef) (path : Text)
  /-- For a field as a member of its owner. -/
  | member (owner : Text) (f : Field)

namespace Call

variable (schema : Schema) (s : Settings)

/-- What a call comes to. -/
def result : Call → Except UnresolvedReference Rendered
  | type p ref path => typeText schema s p ref path
  | member owner f => memberText schema s owner f

/-- The type that a call writes. -/
def written : Call → Except UnresolvedReference Rendered
  | type p ref path => typeText schema s p ref path
  | member owner f => typeText schema s f.position f.type (owner ++ "." ++ f.name)

/-- The text that a call returns, around the text of the type that it writes. -/
def framed : Call → Text → Text
  | type .. => id
  | member _ f => f.framed s

/-- The steps of a call. -/
def steps : Call → Recording Text
  | type p ref path => Recording.type schema s p ref path
  | member owner f => Recording.member schema s owner f

variable {schema s}

theorem steps_records (c : Call) : (c.steps schema s).Records (c.result schema s) := by
  cases c with
  | type p ref path => exact type_records schema s p ref path
  | member owner f => exact member_records schema s owner f

theorem result_of_ok {type : Rendered} (c : Call) (made : c.written schema s = .ok type) :
    c.result schema s = .ok { type with text := c.framed s type.text } := by
  cases c with
  | type p ref path => exact made
  | member owner f => exact map_eq_ok.2 ⟨type, made, rfl⟩

theorem result_of_error {e : UnresolvedReference} (c : Call)
    (failed : c.written schema s = .error e) : c.result schema s = .error e := by
  cases c with
  | type p ref path => exact failed
  | member owner f => exact congrArg (Except.map _) failed

theorem mem_used_iff {type : Rendered} {a : Alias}
    (named : schema.ApartFromAliases) (c : Call) (made : c.written schema s = .ok type) :
    a ∈ type.used ↔ a ∈ Alias.mentionedIn type.text := by
  cases c with
  | type p ref path => exact mem_used_iff_mentioned named made
  | member owner f => exact mem_used_iff_mentioned named made

end Call

/-- A renderer with its registry, and the sets of its callers by number. -/
structure Session where
  registry : Registry
  sets : Nat → AliasSet

namespace Session

variable (schema : Schema) (s : Settings)

/-- A call with one of the sets: what it returns, and the session after it. -/
def call (x : Session) (n : Nat) (c : Call) : Except UnresolvedReference Text × Session :=
  let (result, ledger) := (c.steps schema s).run.run ⟨x.registry, x.sets n⟩
  (result, ⟨ledger.registry, Function.update x.sets n ledger.used⟩)

/-- The session after some calls, each with one of the sets. -/
def run (x : Session) (calls : List (Nat × Call)) : Session :=
  calls.foldl (fun x (n, c) => (x.call schema s n c).2) x

variable {schema s} {x : Session} {c : Call} {r type : Rendered} {e : UnresolvedReference}

theorem call_of_ok (made : c.result schema s = .ok r) (x : Session) (n : Nat) :
    x.call schema s n c =
      (.ok r.text,
        ⟨x.registry.referring r.used, Function.update x.sets n ((x.sets n).union r.used)⟩) := by
  rw [call, c.steps_records, made]
  rfl

theorem call_of_error (failed : c.result schema s = .error e) (x : Session) (n : Nat) :
    x.call schema s n c = (.error e, x) := by
  have same : Function.update x.sets n (x.sets n) = x.sets := Function.update_eq_self n x.sets
  rw [call, c.steps_records, failed]
  show (Except.error e, Session.mk x.registry (Function.update x.sets n (x.sets n))) = _
  rw [same]

theorem run_append (x : Session) (calls more : List (Nat × Call)) :
    x.run schema s (calls ++ more) = (x.run schema s calls).run schema s more :=
  List.foldl_append ..

end Session

/-- Among the calls with a set there is one that writes a type whose text mentions an alias. -/
def Mentions (schema : Schema) (s : Settings) (calls : List (Nat × Call)) (n : Nat) (a : Alias) :
    Prop :=
  ∃ c type, (n, c) ∈ calls ∧ c.written schema s = .ok type ∧ a ∈ Alias.mentionedIn type.text

section Calls

variable {x : Session} {n m : Nat} {c : Call} {calls more : List (Nat × Call)} {a : Alias}
  {type : Rendered} {e : UnresolvedReference}

theorem mentions_cons : Mentions schema s ((n, c) :: calls) m a ↔
    Mentions schema s [(n, c)] m a ∨ Mentions schema s calls m a := by
  simp only [Mentions, List.mem_cons, List.not_mem_nil, or_false, or_and_right, exists_or]

theorem mentions_of_ok (made : c.written schema s = .ok type) :
    Mentions schema s [(n, c)] m a ↔ m = n ∧ a ∈ Alias.mentionedIn type.text := by
  constructor
  · rintro ⟨c', type', mem, made', mentioned⟩
    obtain ⟨rfl, rfl⟩ := Prod.mk.inj (List.mem_singleton.1 mem)
    obtain rfl := Except.ok.inj (made.symm.trans made')
    exact ⟨rfl, mentioned⟩
  · rintro ⟨rfl, mentioned⟩
    exact ⟨c, type, .head _, made, mentioned⟩

theorem not_mentions_of_error (failed : c.written schema s = .error e) :
    ¬ Mentions schema s [(n, c)] m a := by
  rintro ⟨c', type', mem, made, -⟩
  obtain ⟨rfl, rfl⟩ := Prod.mk.inj (List.mem_singleton.1 mem)
  cases failed.symm.trans made

theorem call_adds (named : schema.ApartFromAliases) (x : Session) (n : Nat) (c : Call)
    (a : Alias) :
    (a ∈ (x.call schema s n c).2.registry.referenced ↔
      a ∈ x.registry.referenced ∨ ∃ m, Mentions schema s [(n, c)] m a) ∧
    ∀ m, a ∈ (x.call schema s n c).2.sets m ↔
      a ∈ x.sets m ∨ Mentions schema s [(n, c)] m a := by
  cases made : c.written schema s with
  | error e =>
    simp [Session.call_of_error (c.result_of_error made), not_mentions_of_error made]
  | ok type =>
    have used : a ∈ type.used ↔ a ∈ Alias.mentionedIn type.text := c.mem_used_iff named made
    rw [Session.call_of_ok (c.result_of_ok made)]
    refine ⟨?_, fun m => ?_⟩
    · simp [mentions_of_ok made, used]
    · rw [mentions_of_ok made]
      by_cases own : m = n
      · subst own
        simp [used]
      · simp [own]

/-- A run adds the aliases that the types of its calls mention. -/
theorem run_adds (named : schema.ApartFromAliases) (x : Session) (calls : List (Nat × Call))
    (a : Alias) :
    (a ∈ (x.run schema s calls).registry.referenced ↔
      a ∈ x.registry.referenced ∨ ∃ m, Mentions schema s calls m a) ∧
    ∀ m, a ∈ (x.run schema s calls).sets m ↔ a ∈ x.sets m ∨ Mentions schema s calls m a := by
  induction calls generalizing x with
  | nil => simp [Session.run, Mentions]
  | cons first calls ih =>
    obtain ⟨n, c⟩ := first
    obtain ⟨registry, sets⟩ := call_adds (s := s) named x n c a
    obtain ⟨registry', sets'⟩ := ih (x.call schema s n c).2
    have run : x.run schema s ((n, c) :: calls) = (x.call schema s n c).2.run schema s calls := rfl
    have split (m : Nat) : Mentions schema s ((n, c) :: calls) m a ↔
        Mentions schema s [(n, c)] m a ∨ Mentions schema s calls m a := mentions_cons
    simp only [run, registry', sets', registry, sets, split, exists_or, or_assoc, implies_true,
      and_self]

end Calls

/-- **Aliases are accounted for exactly.** If no type of the schema has the name of an alias: a call
that writes a type adds the aliases that its text mentions to the registry and to the set it was
given, a call that fails changes nothing, a run of calls adds what its calls add one by one, and no
alias is ever taken back. -/
theorem calls_keep_account (named : schema.ApartFromAliases) (x : Session) :
    (∀ n c type, c.written schema s = .ok type →
      (x.call schema s n c).1 = .ok (c.framed s type.text) ∧
      ∀ a, (a ∈ (x.call schema s n c).2.registry.referenced ↔
          a ∈ x.registry.referenced ∨ a ∈ Alias.mentionedIn type.text) ∧
        ∀ m, a ∈ (x.call schema s n c).2.sets m ↔
          a ∈ x.sets m ∨ m = n ∧ a ∈ Alias.mentionedIn type.text) ∧
    (∀ n c e, c.written schema s = .error e → x.call schema s n c = (.error e, x)) ∧
    (∀ calls a,
      (a ∈ (x.run schema s calls).registry.referenced ↔
        a ∈ x.registry.referenced ∨ ∃ n, Mentions schema s calls n a) ∧
      ∀ n, a ∈ (x.run schema s calls).sets n ↔ a ∈ x.sets n ∨ Mentions schema s calls n a) ∧
    ∀ calls later a, a ∈ (x.run schema s calls).registry.referenced →
      a ∈ (x.run schema s (calls ++ later)).registry.referenced := by
  refine ⟨fun n c type made => ⟨?_, fun a => ?_⟩, fun n c e failed => ?_, run_adds named x,
    fun calls later a mem => ?_⟩
  · rw [Session.call_of_ok (c.result_of_ok made)]
  · obtain ⟨registry, sets⟩ := call_adds (s := s) named x n c a
    simp only [mentions_of_ok made] at registry sets
    exact ⟨by simpa using registry, sets⟩
  · exact Session.call_of_error (c.result_of_error failed) x n
  · rw [Session.run_append]
    exact (run_adds named _ later a).1.2 (.inl mem)

namespace Sample

def session : Session := ⟨wrapping.registry, fun _ => .empty⟩

def nodesCall : Call := .type .output nodes "Query.nodes"

def strangersCall : Call := .type .output (.list (.named "Stranger" true) true) "Query.strangers"

/-- A list of strangers is not written, so its aliases are left out, while those of a list of nodes
are there after both calls. -/
theorem strangers_left_out :
    Sample.schema.ApartFromAliases ∧
      session.call Sample.schema wrapping 0 strangersCall =
        (.error ⟨"Stranger", "Query.strangers"⟩, session) ∧
      ∀ a, a ∈ (session.call Sample.schema wrapping 0 nodesCall).2.registry.referenced ↔
        a ≠ .inputMaybe := by
  have named : Sample.schema.ApartFromAliases := by decide
  have missing : strangersCall.written Sample.schema wrapping =
      .error ⟨"Stranger", "Query.strangers"⟩ := by decide
  have made : nodesCall.written Sample.schema wrapping = .ok nodesText := ok_get isSome_typeText
  obtain ⟨succeeds, fails, -⟩ := calls_keep_account (s := wrapping) named session
  refine ⟨named, fails 0 strangersCall _ missing, fun a => ?_⟩
  rw [((succeeds 0 nodesCall _ made).2 a).1]
  cases a <;> decide +kernel

end Sample

end SchemaTypes
