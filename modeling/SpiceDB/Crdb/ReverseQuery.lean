import SpiceDB.Api

/-!
# CockroachDB reverse tuple queries

`crdbDatastore.ReverseQueryTuplesFromSubject` and `ReverseQueryTuplesFromSubjectRelation` start
a reverse query from the tuple table's base `SELECT`, and `crdbReverseTupleQuery.WithObjectRelation`
narrows it to an object relation. Each step calls squirrel's `Where(sq.Eq{...})`, which adds a
condition: every listed column equals its value. The statement selects the rows meeting every
condition, as of the query's revision.

The base statement `queryTuples`, the column names and the execution of the statement are
outside the repository snapshot. The columns are an enumeration read off a tuple, the base
statement has no condition, and the rows the database holds at each revision are a parameter.

The code's part is which columns each builder compares, and that `WithObjectRelation` adds to
the statement it is given rather than starting a new one. The lemmas read each builder's
statement back as the rows it selects: the reverse query from a subject selects the tuples whose
user is that subject (`fromSubject_selects`), the one from a subject relation those whose user has
that namespace and relation (`fromSubjectRelation_selects`), and a chain of `WithObjectRelation`
calls keeps those that meet every call (`execute_withObjectRelations`).
-/

namespace SpiceDB.Crdb

/-- The columns of the tuple table the reverse queries compare. -/
inductive Column where
  | namespace_
  | objectID
  | relation
  | usersetNamespace
  | usersetObjectID
  | usersetRelation
deriving DecidableEq, Repr

/-- The value a column holds in the row of a tuple. -/
def Column.read (t : RelationTuple) : Column → String
  | .namespace_ => t.objectAndRelation.namespace_
  | .objectID => t.objectAndRelation.objectId
  | .relation => t.objectAndRelation.relation
  | .usersetNamespace => t.user.userset.namespace_
  | .usersetObjectID => t.user.userset.objectId
  | .usersetRelation => t.user.userset.relation

/-- `sq.Eq`: the columns and the values they must equal. -/
structure SqEq where
  pairs : List (Column × String)

/-- Whether the row of `t` meets an `sq.Eq`: every column equals its value. -/
def SqEq.holds (eq : SqEq) (t : RelationTuple) : Bool :=
  eq.pairs.all fun pair => pair.1.read t == pair.2

/-- A squirrel `SELECT` over the tuple table, with its conditions in order. -/
structure SelectBuilder where
  wheres : List SqEq

/-- `SelectBuilder.Where`: one more condition. -/
def SelectBuilder.where_ (b : SelectBuilder) (pred : SqEq) : SelectBuilder :=
  ⟨b.wheres ++ [pred]⟩

/-- Whether the statement selects the row of `t`: it meets every condition. -/
def SelectBuilder.selects (b : SelectBuilder) (t : RelationTuple) : Bool :=
  b.wheres.all fun pred => pred.holds t

/-- `queryTuples`: the tuple table's columns, with no condition. -/
def queryTuples : SelectBuilder := ⟨[]⟩

/-- `commonTupleQuery`, without its connection. -/
structure CommonTupleQuery where
  query : SelectBuilder
  revision : Revision

/-- What the database answers to a query: the rows it holds as of the query's revision that the
statement selects. -/
def CommonTupleQuery.execute (rows : Revision → List RelationTuple) (q : CommonTupleQuery) :
    List RelationTuple :=
  (rows q.revision).filter q.query.selects

/-- `crdbReverseTupleQuery`. -/
structure CrdbReverseTupleQuery extends CommonTupleQuery

/-- `crdbDatastore.ReverseQueryTuplesFromSubject`. -/
def reverseQueryTuplesFromSubject (subject : ObjectAndRelation) (revision : Revision) :
    CrdbReverseTupleQuery :=
  ⟨⟨queryTuples.where_ ⟨[(.usersetNamespace, subject.namespace_),
      (.usersetRelation, subject.relation), (.usersetObjectID, subject.objectId)]⟩, revision⟩⟩

/-- `crdbDatastore.ReverseQueryTuplesFromSubjectRelation`. -/
def reverseQueryTuplesFromSubjectRelation (subjectNamespace subjectRelation : String)
    (revision : Revision) : CrdbReverseTupleQuery :=
  ⟨⟨queryTuples.where_ ⟨[(.usersetNamespace, subjectNamespace),
      (.usersetRelation, subjectRelation)]⟩, revision⟩⟩

/-- `crdbReverseTupleQuery.WithObjectRelation`. -/
def CrdbReverseTupleQuery.withObjectRelation (crtq : CrdbReverseTupleQuery)
    (namespaceName relationName : String) : CrdbReverseTupleQuery :=
  { crtq with
    query := crtq.query.where_ ⟨[(.namespace_, namespaceName), (.relation, relationName)]⟩ }

/-- A chain of `WithObjectRelation` calls, in order. -/
def CrdbReverseTupleQuery.withObjectRelations (crtq : CrdbReverseTupleQuery) :
    List (String × String) → CrdbReverseTupleQuery
  | [] => crtq
  | (namespaceName, relationName) :: calls =>
    (crtq.withObjectRelation namespaceName relationName).withObjectRelations calls

/-! ## What the statements select -/

@[simp] theorem selects_where {b : SelectBuilder} {pred : SqEq} {t : RelationTuple} :
    (b.where_ pred).selects t = (b.selects t && pred.holds t) := by
  simp [SelectBuilder.selects, SelectBuilder.where_, List.all_append]

@[simp] theorem selects_queryTuples (t : RelationTuple) : queryTuples.selects t = true := rfl

@[simp] theorem fromSubject_revision (subject : ObjectAndRelation) (revision : Revision) :
    (reverseQueryTuplesFromSubject subject revision).revision = revision := rfl

@[simp] theorem fromSubjectRelation_revision (subjectNamespace subjectRelation : String)
    (revision : Revision) :
    (reverseQueryTuplesFromSubjectRelation subjectNamespace subjectRelation revision).revision =
      revision := rfl

theorem fromSubject_selects {subject : ObjectAndRelation} {revision : Revision}
    {t : RelationTuple} :
    (reverseQueryTuplesFromSubject subject revision).query.selects t = true ↔
      t.user.userset = subject := by
  obtain ⟨ns, oid, rel⟩ := subject
  obtain ⟨-, ⟨⟨ns', oid', rel'⟩⟩⟩ := t
  simp [reverseQueryTuplesFromSubject, SqEq.holds, Column.read]
  tauto

theorem fromSubjectRelation_selects {subjectNamespace subjectRelation : String}
    {revision : Revision} {t : RelationTuple} :
    (reverseQueryTuplesFromSubjectRelation subjectNamespace subjectRelation revision).query.selects
      t = true ↔
      t.user.userset.namespace_ = subjectNamespace ∧ t.user.userset.relation = subjectRelation := by
  simp [reverseQueryTuplesFromSubjectRelation, SqEq.holds, Column.read]

/-- One `WithObjectRelation` adds the object's namespace and relation to what the query
selects. -/
theorem withObjectRelation_selects {crtq : CrdbReverseTupleQuery}
    {namespaceName relationName : String} {t : RelationTuple} :
    (crtq.withObjectRelation namespaceName relationName).query.selects t = true ↔
      crtq.query.selects t = true ∧ t.objectAndRelation.namespace_ = namespaceName ∧
        t.objectAndRelation.relation = relationName := by
  simp [CrdbReverseTupleQuery.withObjectRelation, SqEq.holds, Column.read]

@[simp] theorem withObjectRelations_revision :
    ∀ (crtq : CrdbReverseTupleQuery) (calls : List (String × String)),
      (crtq.withObjectRelations calls).revision = crtq.revision
  | _, [] => rfl
  | crtq, (namespaceName, relationName) :: calls =>
    withObjectRelations_revision (crtq.withObjectRelation namespaceName relationName) calls

/-- A chain of `WithObjectRelation` calls selects what the query selected that meets every
call. -/
theorem withObjectRelations_selects {t : RelationTuple} :
    ∀ (crtq : CrdbReverseTupleQuery) (calls : List (String × String)),
      (crtq.withObjectRelations calls).query.selects t = true ↔ crtq.query.selects t = true ∧
        ∀ call ∈ calls, t.objectAndRelation.namespace_ = call.1 ∧
          t.objectAndRelation.relation = call.2
  | _, [] => by simp [CrdbReverseTupleQuery.withObjectRelations]
  | crtq, (namespaceName, relationName) :: calls => by
    rw [CrdbReverseTupleQuery.withObjectRelations, withObjectRelations_selects,
      withObjectRelation_selects, List.forall_mem_cons, and_assoc]

theorem execute_withObjectRelations (rows : Revision → List RelationTuple)
    (crtq : CrdbReverseTupleQuery) (calls : List (String × String)) :
    (crtq.withObjectRelations calls).execute rows = (rows crtq.revision).filter fun t =>
      crtq.query.selects t ∧ ∀ call ∈ calls, t.objectAndRelation.namespace_ = call.1 ∧
        t.objectAndRelation.relation = call.2 := by
  simp only [CommonTupleQuery.execute, withObjectRelations_revision]
  exact List.filter_congr fun t _ => by rw [Bool.eq_iff_iff, withObjectRelations_selects,
    decide_eq_true_iff]

/-- Narrowing to `doc#viewer` and then to `doc#editor` keeps neither relation's tuples. -/
example : ((reverseQueryTuplesFromSubject ⟨"user", "a", "..."⟩ 1).withObjectRelations
    [("doc", "viewer"), ("doc", "editor")]).execute
      (fun _ => [⟨⟨"doc", "1", "viewer"⟩, ⟨⟨"user", "a", "..."⟩⟩⟩,
        ⟨⟨"doc", "1", "editor"⟩, ⟨⟨"user", "a", "..."⟩⟩⟩]) = [] := by
  decide

end SpiceDB.Crdb
