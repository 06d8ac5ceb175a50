import Courier.Annotate.Arguments
import Courier.Proofs.Code.Blocks
import Courier.Proofs.Code.Operands

/-!
Annotations of the usual form, which give an expression for the nested names and a path for the
runtime. The expression is read as it is on its own: the comma behind it ends it.
-/
namespace Courier.Code

theorem Parser.separated_two {p : Parser Tree} {t u : Tree} {ts us : Tokens} (hts : ts ≠ [])
    (hus : us ≠ []) (ht : p.run ts = .ok (t, .comma :: us)) (hu : p.run us = .ok (u, [])) :
    (separated "," p).run ts = .ok ([t, .sign ",", u], []) := by
  unfold separated
  refine iterate_run fun n hn => ?_
  obtain ⟨n, rfl⟩ : ∃ m, n = m + 2 := by
    obtain ⟨first, r, rfl⟩ := List.exists_cons_of_ne_nil hts
    have hspan : 1 ≤ first.span := by
      rcases first with _ | _ | _ | ⟨_ | _ | _ | _, _⟩ <;> simp [Token.span]
    rw [Token.spanList] at hn
    exact ⟨n - 2, by omega⟩
  refine loop_more (r := us) [t, .sign ","] (bind_run finished_run ?_)
    (loop_stop (bind_run finished_run ?_))
  · rw [if_neg (by simpa using hts)]
    refine bind_run ht (bind_run finished_run ?_)
    rw [if_neg (by simp)]
    refine bind_run (a := .sign ",") (r := us) ?_ rfl
    simp [sign_run, Token.comma]
  · rw [if_neg (by simpa using hus)]
    exact bind_run hu (bind_run finished_run rfl)

namespace Grammar
open Code.Parser Tokens

variable {g : Grammar} {w : String} {v : Tree} {ts r : Tokens} {e : Tree} {p : PlainPath}

/-- A name and a value in an annotation. -/
theorem attributeContent_value (hw : isPathWord w = true)
    (hv : g.attributeValue.run ts = .ok (v, r)) :
    g.attributeContent.run (.ident w :: .punct '=' false :: ts) =
      .ok (.node .metaValue [PlainPath.tree ⟨false, w, []⟩, .sign "=", v], r) := by
  have hpath : modulePath.run (.ident w :: .punct '=' false :: ts) =
      .ok (PlainPath.tree ⟨false, w, []⟩, .punct '=' false :: ts) :=
    modulePath_run [] (by simpa using hw)
      (show startsSign "::" (.punct '=' false :: ts) = false by simp)
  unfold attributeContent
  refine bind_run (word?_other (ne_of_isPathWord hw (by decide))) (bind_run hpath ?_)
  unfold metaAfter
  refine bind_run rest_run ?_
  rw [if_neg (by simp)]
  refine bind_run (a := some (.sign "=")) (r := ts) (by simp [sign?_run]) (bind_run hv rfl)

/-- An expression that no attribute begins, in front of a comma. -/
theorem attributeValue_comma {n : Nat} (hs : startsSign "#" ts = false)
    (h : (ofDepth n).fullExpr.run ts = .ok (e, [])) (after : Tokens) :
    (ofDepth n).attributeValue.run (ts ++ .comma :: after) = .ok (e, .comma :: after) := by
  have hread := ((ofDepth_before after n).expr true) _ _ _ h
  unfold attributeValue
  simp only [StateT.run_bind, StateT.run_get, pure_bind]
  rw [literal?_comma]
  split
  · rename_i hl
    obtain ⟨x, -, hx⟩ := Option.map_eq_some_iff.1 hl
    exact absurd (congrArg Prod.snd hx) (by simp)
  · refine bind_run rest_run ?_
    rw [if_neg (by simp [hs])]
    exact hread

/-! ## Paths as expressions -/

theorem startsHash_path (hp : p.Free) : startsSign "#" p.tokens = false := by
  have h := hp.starts []
  rw [List.append_nil] at h
  generalize p.tokens = ts at h ⊢
  cases h with
  | word hw => exact startsSign_ident (by simp)
  | mark => simp

theorem literal?_path (hp : p.Free) : literal? p.tokens = none := by
  have h := hp.starts []
  rw [List.append_nil] at h
  generalize p.tokens = ts at h ⊢
  cases h with
  | @word name r hw =>
    have hl : startsLiteral (.ident name :: r) = false := by
      rw [startsLiteral_ident]
      simp [ne_of_isPathWord hw (w := "true") (by decide), ne_of_isPathWord hw (w := "false") (by decide)]
    rw [startsLiteral] at hl
    simpa using hl
  | mark => simp [literal?]

/-- A path of plain names at the end of a stream. -/
theorem fullExpr_path (hp : p.Free) (n : Nat) :
    (ofDepth (n + 3)).fullExpr.run p.tokens = .ok (.node .pathExpr [p.tree], []) := by
  have hend : EndsPath ([] : Tokens) := (Trails.ends .nil).endsPath
  have hatom : ((ofDepth (n + 1)).atom true).run (p.tokens ++ []) = .ok (.node .pathExpr [p.tree], []) :=
    atom_run _ true hp hend (by simp)
  have hunary : ((ofDepth (n + 2)).unary true).run (p.tokens ++ []) =
      .ok (.node .pathExpr [p.tree], []) :=
    unaryRule_run _ (.path (hp.starts [])) hatom (trailersRule_stop _ .nil)
  rw [List.append_nil] at hunary
  exact exprRule_run _ hunary (operatorsRule_stop _ (isOperand_path _).isRange .nil)

theorem attributeValue_path (hp : p.Free) (n : Nat) :
    (ofDepth (n + 3)).attributeValue.run p.tokens = .ok (.node .pathExpr [p.tree], []) := by
  unfold attributeValue
  refine bind_run (a := p.tokens) (r := p.tokens) rfl ?_
  simp only [literal?_path hp]
  refine bind_run rest_run ?_
  rw [if_neg (by simp [startsHash_path hp])]
  exact fullExpr_path hp n

end Grammar

end Courier.Code

namespace Courier.Annotate
open Code Code.Tokens Code.Parser Code.Grammar

variable {es : Tokens} {e : Code.Tree} {p : PlainPath}

/-- An annotation that gives the nested names and the runtime. -/
def attachment (nested runtime : Tokens) : Tokens :=
  .ident "nested_dtos" :: .punct '=' false ::
    (nested ++ .comma :: .ident "crate" :: .punct '=' false :: runtime)

/-- What `attachment` is read as. -/
def contents (nested runtime : Code.Tree) : List Code.Tree :=
  [.node .metaValue [PlainPath.tree ⟨false, "nested_dtos", []⟩, .sign "=", nested], .sign ",",
    .node .metaValue [PlainPath.tree ⟨false, "crate", []⟩, .sign "=", .node .pathExpr [runtime]]]

theorem parseMetas_attachment (he : parseExpr es = .ok e) (hs : startsSign "#" es = false)
    (hp : p.Free) : parseMetas (attachment es p.tokens) = .ok (contents e p.tree) := by
  obtain ⟨n, hn⟩ : ∃ n, 8 * Token.weightList (attachment es p.tokens) + 16 = n + 3 := ⟨_, rfl⟩
  have hweight : Token.weightList es ≤ Token.weightList (attachment es p.tokens) := by
    simp only [attachment, Token.weightList, weightList_append]
    omega
  have hexpr : (ofDepth (n + 3)).fullExpr.run es = .ok (e, []) := by
    refine run_of_all (((ofDepth_below ?_).expr true).all_eq_ok he)
    omega
  unfold parseMetas parseAll ofTokens
  rw [hn]
  have hruntime : .ident "crate" :: .punct '=' false :: p.tokens ≠ [] := by simp
  refine all_of_run (separated_two (by simp [attachment]) hruntime ?_ ?_)
  · exact attributeContent_value (by decide) (attributeValue_comma hs hexpr _)
  · exact attributeContent_value (by decide) (attributeValue_path hp n)

/-- The arguments of an annotation: the expression under its label, and the path. -/
theorem readArguments_attachment (he : parseExpr es = .ok e) (hs : startsSign "#" es = false)
    (hp : p.Free) : readArguments (attachment es p.tokens) =
      .ok ⟨[⟨some "nested_dtos", ArgumentValue.ofExpr e⟩], some p.tree⟩ := by
  unfold readArguments
  rw [parseMetas_attachment he hs hp]
  have hkey : isRuntimeKey (PlainPath.tree ⟨false, "nested_dtos", []⟩) = false := by decide
  have hcrate : isRuntimeKey (PlainPath.tree ⟨false, "crate", []⟩) = true := by decide
  have hlabel : (PlainPath.tree ⟨false, "nested_dtos", []⟩).text = "nested_dtos" := by decide
  have hruntime : runtimeOf (.node .pathExpr [p.tree]) = .ok p.tree := rfl
  simp [Except.mapError, contents, Code.Tree.elements, Code.Tree.isComma, addArgument, hkey, hcrate,
    hlabel, hruntime]

end Courier.Annotate
