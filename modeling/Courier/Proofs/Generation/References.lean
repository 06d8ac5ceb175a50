import Courier.Proofs.Code.Names
import Courier.Proofs.Generation.Pairs

/-!
References between models. Where nested names without a model are refused, all types and functions
that generated code refers to are generated with it.
-/
namespace Courier
open Code Emit

/-- The items of a pair define the transfer type of a model and the conversions between the two. -/
structure Emit.Pair.Links (p : Pair) (runtime : Code.Tree) (model : String) : Prop where
  struct : ∃ notes fields, p.transfer = .struct notes publicVisibility (transferName model) fields
  link : ∃ fs, p.link = .impl (some ⟨runtime, .dto⟩) (transferName model) (some ("Model", model)) fs ∧
    "to_model" ∈ fs.map (·.name)
  conformance : ∃ fs, p.conformance = .impl (some ⟨runtime, .convertible⟩) model
    (some ("Dto", transferName model)) fs ∧ "to_dto" ∈ fs.map (·.name)

theorem Emit.Parts.links {q : Parts} {runtime : Code.Tree} {model : String} (hm : q.model = model)
    (ht : q.transfer = transferName model) : (q.pair (.public runtime)).Links runtime model := by
  subst hm
  constructor
  · exact ⟨_, _, by rw [Parts.pair, Parts.struct, ht]; rfl⟩
  · exact ⟨_, by rw [Parts.pair, Names.link, Parts.names, ht]; rfl, by simp⟩
  · exact ⟨_, by rw [Parts.pair, Names.conformance, Parts.names, ht]; rfl, by simp⟩

end Courier
