import SeismicHazard.GroundMotion

/-!
# Logic trees

The tectonic regions of a branch are numbered in the order in which they are declared. A realization
of the branch has a ground-motion model for each of them.
-/

namespace SeismicHazard

/-- The names of tectonic regions, each of them once. -/
structure Regions where
  names : List String
  nodup : names.Nodup

namespace Regions

variable {R : Type}

/-- The first element of a list that stands at an earlier place too, or among those `seen`. -/
def firstRepeated? (seen : List String) : List String → Option String
  | [] => none
  | name :: rest => if name ∈ seen then some name else firstRepeated? (name :: seen) rest

/-- Where nothing is repeated every name stands once, and none is among those seen before. -/
theorem nodup_of_firstRepeated?_eq_none {seen names : List String}
    (hnone : firstRepeated? seen names = none) :
    names.Nodup ∧ ∀ name ∈ names, name ∉ seen := by
  induction names generalizing seen with
  | nil => simp
  | cons name rest ih =>
      simp only [firstRepeated?] at hnone
      split at hnone
      next => simp at hnone
      next hseen =>
        obtain ⟨hnodup, hfresh⟩ := ih hnone
        refine ⟨List.nodup_cons.2 ⟨fun hmem => ?_, hnodup⟩, fun other hmem => ?_⟩
        · exact hfresh name hmem List.mem_cons_self
        · rcases List.mem_cons.1 hmem with rfl | hrest
          · exact hseen
          · exact fun h => hfresh other hrest (List.mem_cons_of_mem _ h)

/-- The regions with the given names, in that order. -/
def ofNames (names : List String) : Except (Error R) Regions :=
  match h : firstRepeated? [] names with
  | none => .ok ⟨names, (nodup_of_firstRepeated?_eq_none h).1⟩
  | some name => .error (.config (.repeatedRegion name))

/-- The number of a region. -/
def indexOf (regions : Regions) (name : String) : Except (Error R) Nat :=
  match regions.names.idxOf? name with
  | some i => .ok i
  | none => .error (.config (.unknownRegion name))

/-- The number of regions. -/
def size (regions : Regions) : Nat := regions.names.length

end Regions

/-- One way through the logic tree: a ground-motion model for each tectonic region. -/
structure Realization (R : Type) where
  id : Nat
  weight : R
  models : List (String × GroundMotionModel R)

/-- The model that a realization has for a region. -/
def Realization.model {R : Type} (realization : Realization R) (region : String) :
    Except (Error R) (GroundMotionModel R) :=
  match realization.models.lookup region with
  | some model => .ok model
  | none => .error (.config (.noModel realization.id region))

end SeismicHazard
