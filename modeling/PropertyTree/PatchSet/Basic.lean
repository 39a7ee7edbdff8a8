import PropertyTree.Selector.Basic

/-!
# Patch sets: edits as data

A `PatchSet` is a list of edits, each for the jobs of a name, with the options of the selectors that
carry them out.  The edits are applied in order, each by a selector of its own, up to the first that
fails; what was changed before stays changed.
-/

namespace PropertyTree

/-- The edit of one patch. -/
inductive PatchAction where
  | set (path : String) (value : Value)
  | remove (path : String)
deriving DecidableEq, Repr

/-- An edit for every job of a name, or for those in the groups of a name. -/
structure Patch where
  job : String
  group : Option String
  action : PatchAction
deriving DecidableEq, Repr

/-- Edits in order, with the options of the selectors that carry them out. -/
structure PatchSet where
  options : SelectorOptions
  patches : List Patch
deriving DecidableEq, Repr

namespace Patch

/-- Selects the jobs of a patch. -/
def locate (patch : Patch) (s : Selector) : Logged Selector :=
  match patch.group with
  | some group => s.locateInGroup group patch.job
  | none => s.locate patch.job

/-- Edits the selected jobs. -/
def edit (patch : Patch) (s : Selector) : Logged Selector :=
  match patch.action with
  | .set path value => s.addProperty path value
  | .remove path => s.removeProperty path

/-- Carries out a patch by a selector. -/
def perform (patch : Patch) (s : Selector) : Logged Selector :=
  (patch.locate s).andThen patch.edit

end Patch

namespace PatchSet

/-- A patch set without edits. -/
def empty : PatchSet := ⟨.quiet, []⟩

/-- Applies patches in turn, of which `before` came earlier in a set of `count`. -/
def applyFrom (options : SelectorOptions) (count before : Nat) :
    List Patch → Manifest → Logged (Except Failure Unit × Manifest)
  | [], manifest => .quiet (.ok (), manifest)
  | patch :: rest, manifest =>
    let edited := patch.perform (Selector.new manifest options)
    match edited.value.failure with
    | some failure =>
      ⟨(.error failure, edited.value.manifest),
        edited.events ++ [.patchFailed (before + 1) count patch.job failure]⟩
    | none =>
      let others := applyFrom options count (before + 1) rest edited.value.manifest
      ⟨others.value, edited.events ++ others.events⟩

/-- Applies a patch set to a manifest and returns the number of its patches, or the first
failure. -/
def apply (set : PatchSet) (manifest : Manifest) : Logged (Except Failure Nat × Manifest) :=
  let count := set.patches.length
  let applied := applyFrom set.options count 0 set.patches manifest
  match applied.value with
  | (.ok (), manifest) => ⟨(.ok count, manifest), applied.events ++ [.patchesApplied count]⟩
  | (.error failure, manifest) => ⟨(.error failure, manifest), applied.events⟩

end PatchSet

end PropertyTree
