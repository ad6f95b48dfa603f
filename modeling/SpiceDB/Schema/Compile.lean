import SpiceDB.Schema.Meaning
import SpiceDB.Schema.References
import Mathlib.Data.List.Forall2

/-!
# Compiling a schema

`translate` walks the parse tree of a whole schema: each `definition` node becomes a namespace
named `NamespacePath(name)`, and each of its `relation` and `permission` nodes, in order, a
relation of that namespace. A relation allows the references of its type reference trees
(`Schema.References`); a permission's rewrite is the translated expression
(`Schema.Meaning`).

This module states what a schema is as a tree (`SchemaTree`, over `Definition` and `Member`)
and proves the compiler correct on every such tree: `translate` succeeds, gives one namespace per
definition in order, and each member compiles to a relation that keeps its meaning. The two
member lemmas carry the work; definitions and the schema are lists of them, joined by one lemma
about `mapM` over related lists.
-/

namespace SpiceDB

namespace Schema

/-- A member of a definition: a relation with the types it allows, or a permission with its
expression. -/
inductive Member where
  | relation (name : String) (allowedTypes : List TypeRef)
  | permission (name : String) (expression : Expression)

/-- A definition: its name and its members in order. -/
structure Definition where
  name : String
  members : List Member

/-- `MemberTree node m`: `node` is a parse tree of the member. -/
inductive MemberTree : DslNode → Member → Prop
  | relation {node : DslNode} {name : String} {ts : List TypeRef}
      (hty : node.nodeType = .relation) (hname : node.getString .name = .ok name)
      (hts : RefTrees (node.list .allowedTypes) ts) : MemberTree node (.relation name ts)
  | permission {node expressionNode : DslNode} {name : String} {e : Expression}
      (hty : node.nodeType = .permission) (hname : node.getString .name = .ok name)
      (hexpr : node.lookup .computeExpression = .ok expressionNode)
      (he : Parses expressionNode e) : MemberTree node (.permission name e)

/-- `node` is a parse tree of the definition: it names it, and its children are the members'
trees in order. -/
structure DefinitionTree (node : DslNode) (d : Definition) : Prop where
  name : node.getString .definitionName = .ok d.name
  members : List.Forall₂ MemberTree node.getChildren d.members

/-- `root` is a parse tree of the schema: its children are the definitions' trees in order. -/
def SchemaTree (root : DslNode) (defs : List Definition) : Prop :=
  List.Forall₂ DefinitionTree root.getChildren defs

/-! ## What the compiler builds -/

/-- The relation the translator builds for a member. -/
def Member.compile (objectTypePrefix : String) : Member → Relation
  | .relation name ts => Namespace.relation name none (TypeRef.referencesAll objectTypePrefix ts)
  | .permission name e => Namespace.relation name (some e.rewrite) []

/-- The namespace the translator builds for a definition. -/
def Definition.compile (tctx : TranslationContext) (d : Definition) : NamespaceDefinition :=
  Namespace.namespace_ (tctx.namespacePath d.name)
    (d.members.map (Member.compile tctx.objectTypePrefix))

/-- What a member should compile to: a relation of its name that allows the references of its
types, or a permission of its name, with no direct types, whose rewrite means its expression
under every valuation. -/
def Member.CompilesTo (objectTypePrefix : String) : Member → Relation → Prop
  | .relation name ts, r =>
    r.name = name ∧ r.usersetRewrite = none ∧
      r.allowedDirectRelations = TypeRef.referencesAll objectTypePrefix ts
  | .permission name e, r =>
    r.name = name ∧ r.allowedDirectRelations = [] ∧
      ∃ rw, r.usersetRewrite = some rw ∧ ∀ (α : Type) (ρ : Valuation α), rw.denote ρ = e.denote ρ

theorem Member.compilesTo_compile (objectTypePrefix : String) :
    ∀ m : Member, m.CompilesTo objectTypePrefix (m.compile objectTypePrefix)
  | .relation _ _ => ⟨rfl, rfl, rfl⟩
  | .permission _ e => ⟨rfl, rfl, e.rewrite, rfl, fun _ ρ => e.denote_rewrite ρ⟩

/-! ## The translator on schema trees -/

theorem mapM_eq_map_of_forall₂ {α β γ ε : Type} {R : α → γ → Prop} {f : α → Except ε β}
    {g : γ → β} (hf : ∀ a c, R a c → f a = .ok (g c)) :
    ∀ {as : List α} {cs : List γ}, List.Forall₂ R as cs → as.mapM f = .ok (cs.map g)
  | _, _, .nil => rfl
  | _, _, .cons h hs => by
    rw [List.mapM_cons, hf _ _ h, mapM_eq_map_of_forall₂ hf hs]
    rfl

theorem translateRelationOrPermission_of_memberTree (tctx : TranslationContext) {node : DslNode}
    {m : Member} (h : MemberTree node m) :
    translateRelationOrPermission tctx node = .ok (m.compile tctx.objectTypePrefix) := by
  cases h with
  | relation hty hname hts =>
    simp only [translateRelationOrPermission, hty]
    exact translateRelation_of_refTrees hname hts
  | permission hty hname hexpr he =>
    simp only [translateRelationOrPermission, hty]
    exact translatePermission_parses tctx hname hexpr he

theorem translateDefinition_of_tree (tctx : TranslationContext) {node : DslNode}
    {d : Definition} (h : DefinitionTree node d) :
    translateDefinition tctx node = .ok (d.compile tctx) := by
  have hm : node.getChildren.mapM (translateRelationOrPermission tctx) =
      .ok (d.members.map (Member.compile tctx.objectTypePrefix)) :=
    mapM_eq_map_of_forall₂ (fun _ _ hm => translateRelationOrPermission_of_memberTree tctx hm)
      h.members
  simp only [translateDefinition, h.name, hm, Except.mapError, bind, Except.bind]
  split
  · -- no members: the namespace is built without relations, which is the same namespace
    rename_i hempty
    rw [Definition.compile, List.isEmpty_iff.mp hempty]
    rfl
  · rfl

theorem translate_of_schemaTree (tctx : TranslationContext) {root : DslNode}
    {defs : List Definition} (h : SchemaTree root defs) :
    translate tctx root = .ok (defs.map (Definition.compile tctx)) :=
  mapM_eq_map_of_forall₂ (fun _ _ hd => translateDefinition_of_tree tctx hd) h

/-- **The schema compiler keeps the schema's meaning.** On every parse tree of a schema and
under any object type prefix, `translate` succeeds and returns one namespace per definition, in
order, named `NamespacePath` of the definition's name, with one relation per member, in order:
a relation of the member's name allowing the references of its type trees, or a permission of
the member's name with no direct types and a rewrite that means its expression under every
valuation. -/
theorem translate_preserves_schema (tctx : TranslationContext) {root : DslNode}
    {defs : List Definition} (h : SchemaTree root defs) :
    ∃ nss, translate tctx root = .ok nss ∧
      List.Forall₂ (fun d ns => ns.name = tctx.namespacePath d.name ∧
        List.Forall₂ (Member.CompilesTo tctx.objectTypePrefix) d.members ns.relation) defs nss := by
  refine ⟨_, translate_of_schemaTree tctx h, ?_⟩
  refine List.forall₂_map_right_iff.mpr (List.forall₂_same.mpr fun d _ => ⟨rfl, ?_⟩)
  exact List.forall₂_map_right_iff.mpr
    (List.forall₂_same.mpr fun m _ => m.compilesTo_compile tctx.objectTypePrefix)

/-- `relation viewer: user | tenant/group#member`. -/
def viewerRelation : DslNode := .mk .relation [(.name, "viewer")] [(.allowedTypes, viewerTypes)] []

/-- `permission view = viewer + parent->view - banned`. -/
def viewPermission : DslNode :=
  .mk .permission [(.name, "view")] [(.computeExpression, viewerOrParentNotBanned.toNode)] []

/-- A schema of one definition, `document`, with the two members above. -/
def documentSchema : DslNode :=
  .mk .file [] [] [.mk .definition [(.definitionName, "document")] [] [viewerRelation, viewPermission]]

def documentDefinitions : List Definition :=
  [⟨"document", [.relation "viewer" [.typeReference [.specific "user" none,
      .specific "tenant/group" (some "member")]], .permission "view" viewerOrParentNotBanned]⟩]

theorem translate_preserves_schema_document :
    SchemaTree documentSchema documentDefinitions ∧
      ∃ nss, translate ⟨"tenant"⟩ documentSchema = .ok nss ∧
        List.Forall₂ (fun d ns => ns.name = (⟨"tenant"⟩ : TranslationContext).namespacePath d.name ∧
          List.Forall₂ (Member.CompilesTo "tenant") d.members ns.relation) documentDefinitions nss :=
  have h : SchemaTree documentSchema documentDefinitions :=
    .cons ⟨rfl, .cons (.relation rfl rfl (.cons (.typeReference rfl
      (.cons (.specific rfl rfl rfl) (.cons (.specific rfl rfl rfl) .nil))) .nil))
      (.cons (.permission rfl rfl rfl (parses_toNode _)) .nil)⟩ .nil
  ⟨h, translate_preserves_schema ⟨"tenant"⟩ h⟩

end Schema

end SpiceDB
