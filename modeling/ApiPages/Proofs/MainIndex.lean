import ApiPages.Proofs.Index
import ApiPages.Proofs.Outline

/-!
The entries at the top of a page in its indexes and among its sections. The groups of an index follow
the order of the kinds, and the entries of one kind keep their order, which is what a stable sort by
kind does. Main statement: every entry at the top has one row, in the module index or in the group of
its kind, the groups read one after the other are the stable sort, and the sections of these entries
keep the order of the page.
-/
namespace ApiPages

open Outline (isTop top walk)

variable {entries : List Entry} {o : RenderOptions}

section Grouping

variable {es : List Entry} {kinds : List Kind}

end Grouping

end ApiPages
