import SpiceDB.Schema.Translator
import Mathlib.Data.String.Basic
import Mathlib.Data.List.Basic

/-!
# The types a relation allows

A relation lists the types it allows directly as a tree of type references: a type reference node
lists its alternatives, and a specific type reference names a type path and maybe a relation.
`translateTypeReference` returns the specific references of the tree, left to right; each names
the relation written, or `...`, and a namespace read off its path.

The namespace is where two code paths meet. `translateSpecificTypeReference` splits the path with
`stringz.SplitExact(path, "/")`: a path with exactly one `/` gives its two sides, which are joined
again with `/`; any other path is put under the context's prefix. `translateDefinition` names the
namespace of a definition with `NamespacePath`, the prefix, `/` and the name. They agree on a name
without `/` written bare or under a prefix without `/`; under a prefix that contains `/` the
written `prefix/name` has two `/` and is put under the prefix once more.

The string lemma beneath is `splitOn_slash`: `String.splitOn` with the separator `/`, a loop over
byte positions, is `List.splitOn '/'` on the characters. It is proved as Batteries proves the same
fact for `String.split`, on a string `l ++ m ++ r` read at the positions of `l` and `l ++ m`.
-/

namespace SpiceDB

namespace Schema

/-! ## Splitting at `/` -/

section Split

open String

theorem splitOnAux_slash (l m r : List Char) (acc : List String) :
    splitOnAux ⟨l ++ m ++ r⟩ "/" ⟨utf8Len l⟩ ⟨utf8Len l + utf8Len m⟩ 0 acc =
      acc.reverse ++ (List.splitOnP.go (· == '/') r m.reverse).map String.mk := by
  have hend := atEnd_of_valid (l ++ m) r
  rw [utf8Len_append] at hend
  unfold splitOnAux
  rcases r with _ | ⟨c, r⟩
  · rw [if_pos (hend.mpr rfl)]
    simpa [List.splitOnP.go] using extract_of_valid l m []
  · rw [if_neg fun h => nomatch hend.mp h]
    have hget := get_of_valid (l ++ m) (c :: r)
    have hnext := next_of_valid (l ++ m) c r
    rw [utf8Len_append] at hget hnext
    simp only [hget, List.headD_cons, List.splitOnP.go, List.reverse_reverse,
      show "/".get 0 = '/' from rfl]
    by_cases hc : c = '/'
    · -- the separator: the part `m` is done, and the next one starts after it
      subst hc
      simp only [beq_self_eq_true, if_true, hnext, show "/".next 0 = ⟨1⟩ from rfl,
        show "/".atEnd ⟨1⟩ = true from rfl, show Char.utf8Size '/' = 1 from rfl,
        show (⟨utf8Len l + utf8Len m + 1⟩ - ⟨1⟩ : Pos) = ⟨utf8Len l + utf8Len m⟩ from rfl,
        extract_of_valid l m ('/' :: r)]
      simpa [Nat.add_assoc] using splitOnAux_slash (l ++ m ++ ['/']) [] r (⟨m⟩ :: acc)
    · -- any other character joins the part `m`
      simp only [beq_iff_eq, hc, if_false,
        show (⟨utf8Len l + utf8Len m⟩ - 0 : Pos) = ⟨utf8Len l + utf8Len m⟩ from rfl, hnext]
      simpa [Nat.add_assoc] using splitOnAux_slash l (m ++ [c]) r acc

/-- `String.splitOn` at `/` splits the characters at every `/`. -/
theorem splitOn_slash (s : String) : s.splitOn "/" = (s.data.splitOn '/').map String.mk := by
  simpa [String.splitOn, List.splitOn, List.splitOnP] using splitOnAux_slash [] [] s.data []

end Split

/-- A split has one part more than the list has separators. -/
theorem length_splitOn {α : Type} [DecidableEq α] (c : α) :
    ∀ l : List α, (l.splitOn c).length = l.count c + 1
  | [] => rfl
  | x :: l => by
    have ih := length_splitOn c l
    simp only [List.splitOn] at ih ⊢
    rw [List.splitOnP_cons, List.count_cons]
    by_cases hx : x = c <;> simp [hx, ih]

/-- The two parts of a split in two, joined by the separator, give the list back. -/
theorem append_of_splitOn_eq {α : Type} [DecidableEq α] {c : α} {l a b : List α}
    (h : l.splitOn c = [a, b]) : a ++ c :: b = l := by
  simpa [h, List.intercalate] using List.intercalate_splitOn l c

theorem splitExact_slash (s : String) :
    splitExact s "/" = match s.data.splitOn '/' with
      | [a, b] => some (⟨a⟩, ⟨b⟩)
      | _ => none := by
  rw [splitExact, splitOn_slash]
  rcases s.data.splitOn '/' with _ | ⟨a, _ | ⟨b, _ | _⟩⟩ <;> rfl

/-- `SplitExact(path, "/")` succeeds on a path with exactly one `/`, and its two sides joined by
`/` are the path. -/
theorem splitExact_slash_eq_some {s a b : String} (h : splitExact s "/" = some (a, b)) :
    a ++ "/" ++ b = s ∧ s.data.count '/' = 1 := by
  rw [splitExact_slash] at h
  split at h
  · rename_i a' b' hs
    cases h
    have hlen := length_splitOn '/' s.data
    rw [hs] at hlen
    refine ⟨?_, by simpa using hlen.symm⟩
    cases s
    exact congrArg String.mk (by simpa using append_of_splitOn_eq hs)
  · cases h

/-- `SplitExact(path, "/")` fails on a path that has no `/` or more than one. -/
theorem splitExact_slash_eq_none {s : String} (h : splitExact s "/" = none) :
    s.data.count '/' ≠ 1 := by
  intro h1
  have hlen := length_splitOn '/' s.data
  rw [h1] at hlen
  rw [splitExact_slash] at h
  rcases hs : s.data.splitOn '/' with _ | ⟨a, _ | ⟨b, _ | _⟩⟩ <;> simp_all

/-! ## Type reference trees -/

/-- The namespace of a written type path, as the translator should resolve it: the path itself
when it has exactly one `/`, else the path under the object type prefix. -/
def referencedNamespace (objectTypePrefix path : String) : String :=
  if path.data.count '/' = 1 then path else objectTypePrefix ++ "/" ++ path

/-- A type reference tree: a specific reference to a type path, with the relation written if
any, or a type reference listing alternatives. -/
inductive TypeRef where
  | specific (path : String) (relation : Option String)
  | typeReference (refs : List TypeRef)

mutual

/-- The references a tree stands for, left to right. -/
def TypeRef.references (objectTypePrefix : String) : TypeRef → List RelationReference
  | .specific path relation =>
    [⟨referencedNamespace objectTypePrefix path, relation.getD Ellipsis⟩]
  | .typeReference refs => TypeRef.referencesAll objectTypePrefix refs

/-- The references of a list of trees, tree by tree. -/
def TypeRef.referencesAll (objectTypePrefix : String) : List TypeRef → List RelationReference
  | [] => []
  | t :: ts => t.references objectTypePrefix ++ TypeRef.referencesAll objectTypePrefix ts

end

/-- The relation a specific reference node writes: the string of its relation predicate, or
`none` when it has no such predicate. -/
def DslNode.WritesRelation (node : DslNode) : Option String → Prop
  | none => node.has .specificReferenceRelation = false
  | some relation => node.getString .specificReferenceRelation = .ok relation

mutual

/-- `RefTree node t`: the parse tree `node` is a type reference tree standing for `t`. -/
inductive RefTree : DslNode → TypeRef → Prop
  | specific {node : DslNode} {path : String} {relation : Option String}
      (hty : node.nodeType = .specificTypeReference)
      (hpath : node.getString .specificReferenceType = .ok path)
      (hrel : node.WritesRelation relation) : RefTree node (.specific path relation)
  | typeReference {node : DslNode} {refs : List TypeRef}
      (hty : node.nodeType = .typeReference)
      (hrefs : RefTrees (node.list .typeReferenceType) refs) : RefTree node (.typeReference refs)

/-- `RefTrees nodes ts`: each of the parse trees stands for the tree at its place. -/
inductive RefTrees : List DslNode → List TypeRef → Prop
  | nil : RefTrees [] []
  | cons {node : DslNode} {nodes : List DslNode} {t : TypeRef} {ts : List TypeRef} :
      RefTree node t → RefTrees nodes ts → RefTrees (node :: nodes) (t :: ts)

end

/-! ## The translator on type reference trees -/

/-- The namespace the translator writes for a path is `referencedNamespace`. -/
theorem typeNamespace_eq (objectTypePrefix path : String) :
    (match splitExact path "/" with
      | some parts => parts
      | none => (objectTypePrefix, path)).1 ++ "/" ++
    (match splitExact path "/" with
      | some parts => parts
      | none => (objectTypePrefix, path)).2 = referencedNamespace objectTypePrefix path := by
  rcases h : splitExact path "/" with _ | ⟨a, b⟩
  · simp [referencedNamespace, splitExact_slash_eq_none h]
  · obtain ⟨hab, h1⟩ := splitExact_slash_eq_some h
    simp [referencedNamespace, h1, hab]

theorem translateSpecificTypeReference_eq {tctx : TranslationContext} {node : DslNode}
    {path : String} {relation : Option String}
    (hpath : node.getString .specificReferenceType = .ok path) (hrel : node.WritesRelation relation) :
    translateSpecificTypeReference tctx node =
      .ok ⟨referencedNamespace tctx.objectTypePrefix path, relation.getD Ellipsis⟩ := by
  cases relation with
  | none =>
    simp only [DslNode.WritesRelation] at hrel
    simp [translateSpecificTypeReference, hpath, hrel, Except.mapError, bind, Except.bind, pure,
      Except.pure]
    exact typeNamespace_eq _ _
  | some r =>
    have hhas : node.has .specificReferenceRelation = true := by
      obtain ⟨_, strings, _, _⟩ := node
      simp only [DslNode.WritesRelation, DslNode.getString] at hrel
      split at hrel <;> simp_all [DslNode.has]
    simp only [DslNode.WritesRelation] at hrel
    simp [translateSpecificTypeReference, hpath, hrel, hhas, Except.mapError, bind, Except.bind,
      pure, Except.pure]
    exact typeNamespace_eq _ _

theorem mapM_subtype {α β ε : Type} {p : α → Prop} {f : α → Except ε β}
    {g : {x // p x} → Except ε β} (hg : ∀ x, g x = f x.1) :
    ∀ l : List {x // p x}, l.mapM g = (l.map Subtype.val).mapM f
  | [] => rfl
  | x :: l => by rw [List.map_cons, List.mapM_cons, List.mapM_cons, hg, mapM_subtype hg l]

theorem referencesAll_eq (objectTypePrefix : String) :
    ∀ ts : List TypeRef,
      TypeRef.referencesAll objectTypePrefix ts = (ts.map (·.references objectTypePrefix)).flatten
  | [] => rfl
  | t :: ts => by rw [TypeRef.referencesAll, referencesAll_eq objectTypePrefix ts]; rfl

mutual

/-- On a type reference tree, `translateTypeReference` returns the references the tree stands
for. -/
theorem translateTypeReference_of_refTree (tctx : TranslationContext) :
    ∀ {node : DslNode} {t : TypeRef}, RefTree node t →
      translateTypeReference tctx node = .ok (t.references tctx.objectTypePrefix)
  | _, _, .specific hty hpath hrel => by
    rw [translateTypeReference]
    simp [hty, translateSpecificTypeReference_eq hpath hrel, TypeRef.references, bind,
      Except.bind, pure, Except.pure]
  | node, _, .typeReference hty hrefs => by
    rw [translateTypeReference]
    simp only [hty]
    rw [mapM_subtype (fun _ => rfl), List.attach_map_subtype_val,
      mapM_of_refTrees tctx hrefs, TypeRef.references, referencesAll_eq]
    rfl

/-- On a list of type reference trees, the translator returns each tree's references. -/
theorem mapM_of_refTrees (tctx : TranslationContext) :
    ∀ {nodes : List DslNode} {ts : List TypeRef}, RefTrees nodes ts →
      nodes.mapM (translateTypeReference tctx) =
        .ok (ts.map (·.references tctx.objectTypePrefix))
  | _, _, .nil => rfl
  | _, _, .cons ht hts => by
    rw [List.mapM_cons, translateTypeReference_of_refTree tctx ht, mapM_of_refTrees tctx hts]
    rfl

end

/-- A relation whose allowed types are type reference trees allows their references, tree by
tree. -/
theorem translateRelation_of_refTrees {tctx : TranslationContext} {relationNode : DslNode}
    {name : String} {ts : List TypeRef} (hname : relationNode.getString .name = .ok name)
    (hts : RefTrees (relationNode.list .allowedTypes) ts) :
    translateRelation tctx relationNode =
      .ok (Namespace.relation name none (TypeRef.referencesAll tctx.objectTypePrefix ts)) := by
  simp only [translateRelation, hname, mapM_of_refTrees tctx hts, referencesAll_eq,
    Except.mapError, bind, Except.bind]
  rfl

/-- `translateDefinition` names a definition's namespace `NamespacePath(name)`. -/
theorem translateDefinition_name {tctx : TranslationContext} {defNode : DslNode}
    {ns : NamespaceDefinition} {name : String} (h : translateDefinition tctx defNode = .ok ns)
    (hname : defNode.getString .definitionName = .ok name) : ns.name = tctx.namespacePath name := by
  rcases hr : defNode.getChildren.mapM (translateRelationOrPermission tctx) with e | rs <;>
    simp only [translateDefinition, hname, hr, Except.mapError, bind, Except.bind] at h
  · cases h
  · split at h <;> (cases h; rfl)

/-- A name without `/` resolves to its own namespace. -/
theorem referencedNamespace_name {objectTypePrefix n : String} (hn : '/' ∉ n.data) :
    referencedNamespace objectTypePrefix n = (⟨objectTypePrefix⟩ : TranslationContext).namespacePath n := by
  have h0 : n.data.count '/' = 0 := List.count_eq_zero.mpr hn
  rw [referencedNamespace, if_neg (by omega)]
  rfl

/-- A name without `/` under a prefix without `/` resolves to the name's namespace. -/
theorem referencedNamespace_prefixed {objectTypePrefix n : String} (hn : '/' ∉ n.data)
    (hp : '/' ∉ objectTypePrefix.data) :
    referencedNamespace objectTypePrefix (objectTypePrefix ++ "/" ++ n) =
      (⟨objectTypePrefix⟩ : TranslationContext).namespacePath n := by
  have h1 : (objectTypePrefix ++ "/" ++ n).data.count '/' = 1 := by
    simp [List.count_eq_zero.mpr hn, List.count_eq_zero.mpr hp]
  rw [referencedNamespace, if_pos h1]
  rfl

/-- **Type references resolve.** Under any object type prefix, `translateTypeReference` returns
the references of a type reference tree left to right, each with the relation written or `...`,
and a namespace that is the written path when it has exactly one `/` and the path under the
prefix otherwise. A definition name `n` without `/`, written bare, or under the prefix when the
prefix has no `/`, resolves to `NamespacePath(n)`, the namespace `translateDefinition` gives
the definition `n`. -/
theorem translateTypeReference_resolves (objectTypePrefix : String) :
    (∀ (node : DslNode) (t : TypeRef), RefTree node t →
      translateTypeReference ⟨objectTypePrefix⟩ node = .ok (t.references objectTypePrefix)) ∧
    (∀ (node : DslNode) (n : String) (relation : Option String), '/' ∉ n.data →
      (RefTree node (.specific n relation) ∨ ('/' ∉ objectTypePrefix.data ∧
        RefTree node (.specific (objectTypePrefix ++ "/" ++ n) relation))) →
      translateTypeReference ⟨objectTypePrefix⟩ node =
        .ok [⟨(⟨objectTypePrefix⟩ : TranslationContext).namespacePath n, relation.getD Ellipsis⟩]) ∧
    (∀ (defNode : DslNode) (ns : NamespaceDefinition) (n : String),
      translateDefinition ⟨objectTypePrefix⟩ defNode = .ok ns →
      defNode.getString .definitionName = .ok n →
      ns.name = (⟨objectTypePrefix⟩ : TranslationContext).namespacePath n) := by
  refine ⟨fun _ _ => translateTypeReference_of_refTree _, fun node n relation hn h => ?_,
    fun _ _ _ => translateDefinition_name⟩
  rcases h with h | ⟨hp, h⟩
  · rw [translateTypeReference_of_refTree _ h, TypeRef.references, referencedNamespace_name hn]
  · rw [translateTypeReference_of_refTree _ h, TypeRef.references,
      referencedNamespace_prefixed hn hp]

/-- `doc` written under the prefix `a/b`. -/
def docUnderAB : DslNode := .mk .specificTypeReference [(.specificReferenceType, "a/b/doc")] [] []

/-- Under the prefix `a/b`, the reference `a/b/doc` has two `/` and resolves to `a/b/a/b/doc`,
not to `NamespacePath(doc)`, which is `a/b/doc`. -/
theorem prefixed_reference_under_slashed_prefix :
    translateTypeReference ⟨"a/b"⟩ docUnderAB = .ok [⟨"a/b/a/b/doc", Ellipsis⟩] ∧
      (⟨"a/b"⟩ : TranslationContext).namespacePath "doc" = "a/b/doc" := by
  refine ⟨?_, rfl⟩
  rw [@translateTypeReference_of_refTree ⟨"a/b"⟩ docUnderAB (.specific "a/b/doc" none)
    (.specific rfl rfl rfl)]
  rfl

def userType : DslNode := .mk .specificTypeReference [(.specificReferenceType, "user")] [] []

def groupMember : DslNode :=
  .mk .specificTypeReference
    [(.specificReferenceType, "tenant/group"), (.specificReferenceRelation, "member")] [] []

/-- `relation viewer: user | tenant/group#member`, its allowed types. -/
def viewerTypes : DslNode :=
  .mk .typeReference [] [(.typeReferenceType, userType), (.typeReferenceType, groupMember)] []

def groupDefinition : DslNode := .mk .definition [(.definitionName, "group")] [] []

theorem translateTypeReference_resolves_tenant :
    translateTypeReference ⟨"tenant"⟩ viewerTypes =
        .ok ((TypeRef.typeReference
          [.specific "user" none, .specific "tenant/group" (some "member")]).references "tenant") ∧
      translateTypeReference ⟨"tenant"⟩ groupMember =
        .ok [⟨(⟨"tenant"⟩ : TranslationContext).namespacePath "group", "member"⟩] ∧
      (Namespace.namespace_ "tenant/group" []).name =
        (⟨"tenant"⟩ : TranslationContext).namespacePath "group" :=
  ⟨(translateTypeReference_resolves "tenant").1 _ _
      (.typeReference rfl (.cons (.specific rfl rfl rfl) (.cons (.specific rfl rfl rfl) .nil))),
    (translateTypeReference_resolves "tenant").2.1 _ "group" (some "member") (by decide)
      (.inr ⟨by decide, .specific rfl rfl rfl⟩),
    (translateTypeReference_resolves "tenant").2.2 groupDefinition _ "group" rfl rfl⟩

end Schema

end SpiceDB
