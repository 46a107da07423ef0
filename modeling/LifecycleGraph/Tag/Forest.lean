import LifecycleGraph.Collection.Arena
import LifecycleGraph.Collection.Table
import LifecycleGraph.Query.Expression
import LifecycleGraph.Change

/-!
# The forest of tags

Tags stand below one another.  Siblings have different names, and a tag is
found by its own name, with as many names of its ancestors in front as are
needed to tell it from others.  A tag is a kind of each of its ancestors.
Removing a tag removes all that stands below it.
-/

set_option autoImplicit false

namespace LifecycleGraph

structure Tag where
  name : String
  id : TagId
  parent : Option TagId
  children : List TagId
  description : String
  isAbstract : Bool
  /-- A condition for the tag, kept bound but not used to find members. -/
  expression : Option Query

structure Forest where
  arena : Arena Tag
  roots : List TagId
  names : Table String (List TagId)

namespace Forest

def empty : Forest := ⟨.empty, [], .empty⟩

def find? (forest : Forest) (id : TagId) : Option Tag := forest.arena.find? id.index

def contains (forest : Forest) (id : TagId) : Bool := (forest.find? id).isSome

def size (forest : Forest) : Nat := forest.arena.size

def adjust (forest : Forest) (id : TagId) (change : Tag → Tag) : Forest :=
  { forest with arena := forest.arena.modify id.index change }

/-- A tag and its ancestors from the tag upwards; each step goes to an older
tag, so the number of tags is fuel enough. -/
def lineageFrom (forest : Forest) : Nat → TagId → List TagId
  | 0, id => [id]
  | fuel + 1, id =>
      match (forest.find? id).bind Tag.parent with
      | some parent => id :: forest.lineageFrom fuel parent
      | none => [id]

def lineage (forest : Forest) (id : TagId) : List TagId :=
  forest.lineageFrom forest.arena.next id

/-- The names from the root down to a tag; none for a tag that is gone. -/
def path (forest : Forest) (id : TagId) : List String :=
  ((forest.lineage id).filterMap fun member => (forest.find? member).map Tag.name).reverse

def absoluteName (forest : Forest) (id : TagId) : String :=
  Text.joinWith "." (forest.path id)

def isNamed (forest : Forest) (id : TagId) (name : String) : Bool :=
  let path := forest.path id
  !path.isEmpty && Text.parts '.' name == path

/-- The path of a tag ends with the given names. -/
def endsWith (forest : Forest) (id : TagId) (names : List String) : Bool :=
  names.isSuffixOf (forest.path id)

/-- The second tag is the first one or one of its ancestors. -/
def isa (forest : Forest) (id target : TagId) : Bool := (forest.lineage id).contains target

/-- A tag and all that stands below it, each tag before its children; each step
goes to a younger tag, so the number of tags is fuel enough. -/
def walkFrom (forest : Forest) : Nat → TagId → List TagId
  | 0, _ => []
  | fuel + 1, id =>
      match forest.find? id with
      | some tag => id :: tag.children.flatMap (forest.walkFrom fuel)
      | none => []

def walk (forest : Forest) (id : TagId) : List TagId := forest.walkFrom forest.arena.next id

def all (forest : Forest) : List TagId := forest.roots.flatMap forest.walk

def siblings (forest : Forest) : Option TagId → List TagId
  | some parent => ((forest.find? parent).map Tag.children).getD []
  | none => forest.roots

/-- The tag of a name directly below a parent, or among the roots. -/
def child? (forest : Forest) (parent : Option TagId) (name : String) : Option TagId :=
  (forest.siblings parent).find? fun id => (forest.find? id).any fun tag => tag.name == name

/-- The tags whose own name is the last of the given names. -/
def homonyms (forest : Forest) (names : List String) : List TagId :=
  match names.getLast? with
  | some leaf => (forest.names.find? leaf).getD []
  | none => []

/-- Every tag whose path ends with a dotted name, in creation order. -/
def candidates (forest : Forest) (name : String) : List TagId :=
  let names := Text.parts '.' name
  (forest.homonyms names).filter fun id => forest.endsWith id names

/-- The first tag whose path ends with a dotted name. -/
def lookup? (forest : Forest) (name : String) : Option TagId := (forest.candidates name).head?

/-- The first such tag below a namespace. -/
def lookupBelow? (forest : Forest) (ns : TagId) (name : String) : Option TagId :=
  let names := Text.parts '.' name
  (forest.homonyms names).find? fun id =>
    id ≠ ns && forest.isa id ns && forest.endsWith id names

def validName (name : String) : Bool := !name.isEmpty && !name.toList.contains '.'

def attach (forest : Forest) (parent : Option TagId) (name : String) : Forest :=
  let id : TagId := ⟨forest.arena.next⟩
  let linked := match parent with
    | some parent =>
        forest.adjust parent fun tag => { tag with children := tag.children ++ [id] }
    | none => { forest with roots := forest.roots ++ [id] }
  { linked with
    arena := linked.arena.push ⟨name, id, parent, [], "", false, none⟩
    names := linked.names.insert name ((linked.names.find? name).getD [] ++ [id]) }

/-- The tag of a name below a parent, new if there is none yet. -/
def add (parent : Option TagId) (name : String) : Change Forest TagId :=
  .ofFunction fun forest =>
    if !validName name then (.error (.schema (.invalidTagName name)), forest)
    else
      match forest.child? parent name with
      | some existing => (.ok existing, forest)
      | none =>
          match parent with
          | some id =>
              if forest.contains id then
                (.ok ⟨forest.arena.next⟩, forest.attach parent name)
              else (.error (.noTag id), forest)
          | none => (.ok ⟨forest.arena.next⟩, forest.attach none name)

/-- The tags of a path of names, each below the one before. -/
def addPath (parent : Option TagId) : List String → Change Forest (Option TagId)
  | [] => pure parent
  | name :: rest => do
      let id ← add parent name
      addPath (some id) rest

/-- The tag that a dotted name finds, or else a new one below the parent, with
the tags on the way to it. -/
def tagOrCreate (name : String) (parent : Option TagId) : Change Forest TagId := do
  let forest ← get
  let found := match parent with
    | some ns => forest.lookupBelow? ns name
    | none => forest.lookup? name
  match found with
  | some id => pure id
  | none =>
      match ← addPath parent (Text.parts '.' name) with
      | some id => pure id
      | none => .stop (.schema (.invalidTagName name))

def detach (forest : Forest) (id : TagId) : Forest :=
  match (forest.find? id).bind Tag.parent with
  | some parent =>
      forest.adjust parent fun tag => { tag with children := tag.children.filter (· ≠ id) }
  | none => { forest with roots := forest.roots.filter (· ≠ id) }

def discard (forest : Forest) (id : TagId) : Forest :=
  match forest.find? id with
  | some tag =>
      let left := ((forest.names.find? tag.name).getD []).filter (· ≠ id)
      { forest with
        arena := forest.arena.erase id.index
        names :=
          if left.isEmpty then forest.names.erase tag.name
          else forest.names.insert tag.name left }
  | none => forest

/-- Removes a tag and all below it; the answer tells the removed tags. -/
def remove (forest : Forest) (id : TagId) : List TagId × Forest :=
  let removed := forest.walk id
  if removed.isEmpty then ([], forest)
  else (removed, removed.foldl discard (forest.detach id))

/-! ## Configuration -/

def booleanMember (key : String) (members : Json.Members) : Bool :=
  match Json.member? key members with
  | some (.boolean value) => value
  | _ => false

def textMember (key : String) (members : Json.Members) : String :=
  ((Json.member? key members).bind Json.text?).getD ""

def describe (id : TagId) (members : Json.Members) : Change Forest Unit := do
  modify fun forest => forest.adjust id fun tag =>
    { tag with
      isAbstract := booleanMember "abstract" members
      description := textMember "description" members }
  let expression ← match (Json.member? "expression" members).bind Json.text? with
    | some text => do
        let query ← Change.ask fun _ => Query.parse text
        pure (some query)
    | none => pure none
  modify fun forest => forest.adjust id fun tag => { tag with expression }

def configureNames (parent : Option TagId) : List Json → Change Forest (List TagId)
  | [] => pure []
  | .text name :: rest => do
      let id ← add parent name
      let ids ← configureNames parent rest
      pure (id :: ids)
  | entry :: _ => .stop (.schema (.tagListEntry entry))

mutual
/-- Tags below a parent from configuration: a list of names, or an object that
has for each name nothing, a description or an object about the tag.  The
answer lists the tags, each before those below it. -/
def configure (parent : Option TagId) : Json → Change Forest (List TagId)
  | .null => pure []
  | .array items => configureNames parent items
  | .object members => configureMembers parent members
  | other => .stop (.schema (.tagsShape other))

def configureMembers (parent : Option TagId) :
    List (String × Json) → Change Forest (List TagId)
  | [] => pure []
  | (name, entry) :: rest => do
      let id ← add parent name
      let below ← configureEntry name id entry
      let ids ← configureMembers parent rest
      pure (id :: below ++ ids)

def configureEntry (name : String) (id : TagId) : Json → Change Forest (List TagId)
  | .null => pure []
  | .text description => do
      modify fun forest => forest.adjust id fun tag => { tag with description }
      pure []
  | .object members => do
      describe id members
      configureChildren id members
  | other => .stop (.schema (.tagEntry name other))

/-- The tags below a tag: those of the first member for children. -/
def configureChildren (id : TagId) : List (String × Json) → Change Forest (List TagId)
  | [] => pure []
  | (key, value) :: rest =>
      if key = "children" then configure (some id) value else configureChildren id rest
end

end Forest

end LifecycleGraph
