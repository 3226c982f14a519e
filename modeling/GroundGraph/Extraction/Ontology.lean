import Mathlib.Data.List.Basic

/-! The ontology: `domain/ontology/loader.py` and `ontology/entity_types.yaml`, as far as
extraction uses it.
-/

set_option autoImplicit false

namespace GroundGraph.Extraction

structure Predicate where
  name : String
  domain : List String
  range : List String
  symmetric : Bool := false
  deriving DecidableEq, Repr

structure Ontology where
  version : String
  predicates : List Predicate
  deriving DecidableEq, Repr

def Ontology.getPredicate (o : Ontology) (name : String) : Option Predicate :=
  o.predicates.find? fun p => decide (p.name = name)

def Ontology.isValidPredicate (o : Ontology) (predicate : String) : Bool :=
  (o.getPredicate predicate).isSome

def ontologyV010 : Ontology where
  version := "v0.1.0"
  predicates :=
    [{ name := "owns"
       domain := ["Person", "SoftwareSystem"]
       range := ["SoftwareSystem", "Repository"] },
     { name := "depends_on"
       domain := ["SoftwareSystem", "Service"]
       range := ["SoftwareSystem", "Service", "Database"] },
     { name := "documents"
       domain := ["Document"]
       range := ["SoftwareSystem", "Service", "Concept"] },
     { name := "implements"
       domain := ["Service", "Repository"]
       range := ["Concept", "Service"] },
     { name := "deploys"
       domain := ["Repository"]
       range := ["Service"] },
     { name := "configures"
       domain := ["Configuration"]
       range := ["SoftwareSystem", "Service"] },
     { name := "references"
       domain := ["Document", "Configuration"]
       range := ["SoftwareSystem", "Service", "Database", "Concept"] },
     { name := "supersedes"
       domain := ["SoftwareSystem", "Configuration"]
       range := ["SoftwareSystem", "Configuration"] }]

theorem Ontology.isValidPredicate_iff {o : Ontology} {name : String} :
    o.isValidPredicate name = true ↔ name ∈ o.predicates.map Predicate.name := by
  simp [isValidPredicate, getPredicate]

end GroundGraph.Extraction
