import SchemaTypes.Schema.Draft

namespace SchemaTypes.Sample

/-- The steps that write the sample schema. -/
def steps : List Draft.Step := [
  .scalar "DateTime" "ISO-8601 timestamp",
  .enum "Role" ["ADMIN", "EDITOR", "VIEWER"] "Access level of a user",
  .input "UserFilter" "",
  .field "role" "Role" "",
  .field "search" "String" "",
  .field "limit" "Int!" "",
  .defaultValue "20",
  .interface "Node" "",
  .field "id" "ID!" "",
  .object "User" ["Node"] "A registered account",
  .field "id" "ID!" "",
  .field "name" "String" "Display name",
  .field "role" "Role!" "",
  .field "createdAt" "DateTime!" "",
  .field "friends" "[User!]!" "",
  .argument "first" "Int" (some "10"),
  .object "Post" ["Node"] "",
  .field "id" "ID!" "",
  .field "title" "String!" "",
  .field "author" "User" "",
  .object "Query" [] "",
  .field "node" "Node" "",
  .argument "id" "ID!" none,
  .field "users" "[User]" "",
  .argument "filter" "UserFilter" none,
  .field "search" "[SearchResult!]!" "",
  .argument "term" "String!" none,
  .union "SearchResult" ["User", "Post"] ""]

/-- The draft that the steps write, if every one of them fits. -/
def draft? : Option Draft := (steps.foldlM Draft.apply {}).toOption

theorem isSome_draft? : draft?.isSome := by decide

def draft : Draft := draft?.get isSome_draft?

theorem isSome_build : draft.build.toOption.isSome := by decide +kernel

/-- The sample schema. -/
def schema : Schema := draft.build.toOption.get isSome_build

end SchemaTypes.Sample
