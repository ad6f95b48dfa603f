import SpiceDB.Services.Acl
import SpiceDB.Graph.Meaning

/-!
# What the API's `Expand` answers

`aclServer.Expand` checks the request, picks a revision and a depth, and hands a shallow request
to its dispatcher. Served by the local dispatcher, the tree it returns stands for what the
relation's rewrite denotes, each relation read one hop down (`Graph.Meaning`), at a revision no
older than the datastore's nor the client's zookie (`Services.Acl`). This module joins the two
halves: it is the statement a client of the API can rely on.
-/

namespace SpiceDB.Services

open Graph

/-- A depth `Expand` picks is not `0` when the server's default is not. -/
theorem calculateRequestDepth_ne_zero {metadata : Option Metadata} {defaultDepth depth : UInt16}
    (hdef : defaultDepth ≠ 0) (h : calculateRequestDepth metadata defaultDepth = .ok depth) :
    depth ≠ 0 := by
  rcases calculateRequestDepth_pos h with rfl | h1
  · exact hdef
  · rintro rfl
    exact absurd h1 (by decide)

/-- A successful `Expand` in front of the local dispatcher, on a relation whose rewrite is
canonical: the revision it picked, and the rewrite's meaning one hop down that its tree stands
for at that revision. -/
theorem expand_local_eq_ok {as : AclServer} {ld : LocalDispatcher} {metadata : Option Metadata}
    {req : ExpandRequest} {relation : Relation} {rw : UsersetRewrite} {resp : ExpandResponse}
    (hd : as.dispatch = ⟨ld.expand⟩) (hdef : as.defaultDepth ≠ 0)
    (hns : ∀ rev, ld.nsm.readNamespaceAndRelation req.userset.namespace_ req.userset.relation
      rev = .ok relation)
    (hrw : relation.usersetRewrite = some rw) (hcanon : rw.canonical = true)
    (h : expand as metadata req = .ok resp) :
    ∃ atRevision depth, pickBestRevision as.ds as.zookies req.atRevision = .ok atRevision ∧
      resp.revision = as.zookies.newFromRevision atRevision ∧
      RelationTupleTreeNode.childMembers resp.treeNode = rw.denote
        (hopValuation (ld.expanderAt UInt16.size)
          ⟨req.userset, atRevision, depth, .shallowExpansion⟩) := by
  obtain ⟨-, -, atRevision, depth, tree, hp, hdepth, ho, rfl⟩ := expand_eq_ok.mp h
  let dreq : Graph.ExpandRequest := ⟨req.userset, atRevision, depth, .shallowExpansion⟩
  obtain ⟨f, hf, hm⟩ := @expandUsersetRewrite_means (ld.expanderAt UInt16.size) dreq rfl rw hcanon
  have hexp : ld.expand dreq = expandOne (ld.reference f) :=
    ld.expand_of_ok (calculateRequestDepth_ne_zero hdef hdepth) (hns atRevision)
      (by rw [ConcurrentExpander.expand, hrw]; exact hf)
  rw [hd] at ho
  change ld.expand dreq = _ at ho
  rw [hexp] at ho
  exact ⟨atRevision, depth, hp, rfl, hm _ (expandOne_success ho rfl) rfl⟩

def viewExpand : ExpandRequest := ⟨⟨"doc", "1", "view"⟩, none⟩

end SpiceDB.Services
