import Mathlib.Data.List.Basic

/-!
# The protocol messages

The messages of the `api` protobuf package that the expand engine, the memdb
datastore and the schema compiler read or build, as plain Lean data, and the
datastore's revisions.

Three conventions carry over from the generated Go code. A `oneof` becomes an
inductive with one constructor per case and a last constructor for the unset
case, since Go code can always meet a message whose `oneof` nobody filled in. An
enum becomes an inductive whose last constructor keeps any number outside the
declared values, since protobuf enums are open. A pointer that the code may leave
nil becomes an `Option`; the ones it never leaves nil (a tuple's user, a request's
start) are plain fields.

`SetOperation` is flattened into the child list it wraps, so that the rewrite
tree is one mutual inductive.
-/

namespace SpiceDB

/-- `datastore.Revision`, a decimal in Go; the memdb datastore's are changelog ids. -/
abbrev Revision := Nat

/-- `ObjectAndRelation`: an object and one of its relations (`namespace` is a Lean keyword,
hence `namespace_`). -/
structure ObjectAndRelation where
  namespace_ : String
  objectId : String
  relation : String
deriving DecidableEq, Repr

/-- The relation of a terminal subject: the user itself, not a relation of it. -/
def Ellipsis : String := "..."

/-- `User`, whose only `oneof` case is a userset. -/
structure User where
  userset : ObjectAndRelation
deriving DecidableEq, Repr

/-- `RelationTuple`: `user` holds `objectAndRelation`. -/
structure RelationTuple where
  objectAndRelation : ObjectAndRelation
  user : User
deriving DecidableEq, Repr

/-- `RelationTupleUpdate_Operation`. -/
inductive UpdateOperation where
  | create
  | touch
  | delete
  /-- `UNKNOWN` or any undeclared number. -/
  | unknown (value : Int)
deriving DecidableEq, Repr

/-- `RelationTupleUpdate`. -/
structure RelationTupleUpdate where
  operation : UpdateOperation
  tuple : RelationTuple
deriving DecidableEq, Repr

/-! ## Schema rewrites -/

/-- `ComputedUserset_Object`: which object a computed userset is taken on. -/
inductive ComputedUsersetObject where
  | tupleObject
  | tupleUsersetObject
  /-- An undeclared enum number. -/
  | unrecognized (value : Int)
deriving DecidableEq, Repr

/-- `ComputedUserset`. -/
structure ComputedUserset where
  object : ComputedUsersetObject
  relation : String
deriving DecidableEq, Repr

/-- `TupleToUserset_Tupleset`. -/
structure Tupleset where
  relation : String
deriving DecidableEq, Repr

/-- `TupleToUserset`: read `tupleset`, then take `computedUserset` on each result. -/
structure TupleToUserset where
  tupleset : Tupleset
  computedUserset : ComputedUserset
deriving DecidableEq, Repr

mutual

/-- `UsersetRewrite`; each operation holds its `SetOperation`'s children. -/
inductive UsersetRewrite where
  | union (child : List SetOperationChild)
  | intersection (child : List SetOperationChild)
  | exclusion (child : List SetOperationChild)
  /-- The `RewriteOperation` oneof is unset. -/
  | unset

/-- `SetOperation_Child`. -/
inductive SetOperationChild where
  | this
  | computedUserset (cu : ComputedUserset)
  | usersetRewrite (rw : UsersetRewrite)
  | tupleToUserset (ttu : TupleToUserset)
  /-- The `ChildType` oneof is unset. -/
  | unset

end

deriving instance Repr for UsersetRewrite, SetOperationChild

/-- `RelationReference`: a type a relation allows directly. -/
structure RelationReference where
  namespace_ : String
  relation : String
deriving DecidableEq, Repr

/-- `Relation`: a relation or permission of a namespace. No rewrite means direct. -/
structure Relation where
  name : String
  usersetRewrite : Option UsersetRewrite
  allowedDirectRelations : List RelationReference
deriving Repr

/-- `NamespaceDefinition`: a namespace and its relations and permissions. -/
structure NamespaceDefinition where
  name : String
  relation : List Relation
deriving Repr

/-! ## Expansion trees -/

/-- `SetOperationUserset_Operation`. -/
inductive Operation where
  | union
  | intersection
  | exclusion
deriving DecidableEq, Repr

/--
`RelationTupleTreeNode`. Children are pointers in Go, so a child slot may be
nil; `expanded` is nil for the direct-tuple contribution of a rewrite.
-/
inductive RelationTupleTreeNode where
  | intermediateNode (expanded : Option ObjectAndRelation) (operation : Operation)
      (childNodes : List (Option RelationTupleTreeNode))
  | leafNode (expanded : Option ObjectAndRelation) (users : List User)
deriving Repr, Inhabited

end SpiceDB
