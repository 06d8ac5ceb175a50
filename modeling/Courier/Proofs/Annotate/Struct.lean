import Courier.Annotate.Expansion
import Courier.Proofs.Annotate.Arguments
import Courier.Proofs.Code.Faithful
import Courier.Proofs.Code.TypeTrees
import Courier.Proofs.Generation.Respelling

/-!
An annotated struct and a schema of one model. Both declare the same fields, but an annotation gives
the types as they are printed, a schema as they are written.
-/
namespace Courier

namespace Annotate
open Code Code.Tokens Emit

/-! ## Types without a name for themselves -/

mutual
theorem resolveSelf_eq (name : Code.Tree) (t : Code.Tree) (h : "Self" ∉ Token.wordsIn t.tokens) :
    resolveSelf name t = t := by
  match t with
  | .token _ | .sign _ | .lifetime _ => rfl
  | .group d ps =>
    rw [Code.Tree.tokens, Token.wordsIn, Token.words] at h
    rw [resolveSelf, resolveEach_eq name ps (by simpa [Token.wordsIn] using h)]
  | .node k ps =>
    rw [Code.Tree.tokens] at h
    have hps := resolveEach_eq name ps h
    unfold resolveSelf
    split
    · rename_i heq
      cases heq
      rw [if_neg, hps]
      intro hs
      rw [isSelf, beq_iff_eq] at hs
      cases hs
      exact h (by decide)
    · rename_i heq
      cases heq
      rw [hps, ite_self]
    · rename_i heq
      cases heq
      rw [hps]
    · rename_i heq
      cases heq
    · rfl

theorem resolveEach_eq (name : Code.Tree) (ts : List Code.Tree)
    (h : "Self" ∉ Token.wordsIn (Code.Tree.tokensList ts)) : resolveEach name ts = ts := by
  match ts with
  | [] => rfl
  | t :: ts =>
    rw [Code.Tree.tokensList, Token.wordsIn_append, List.mem_append, not_or] at h
    rw [resolveEach, resolveSelf_eq name t h.1, resolveEach_eq name ts h.2]
end

/-! ## Structs -/

/-- The named fields of a struct with their types. -/
def fieldsOf (ps : List Code.Tree) : List (Code.Tree × Code.Tree) :=
  ps.filterMap fun
    | .node .field [_, _, name, _, type] => some (name, type)
    | _ => none

/-- The visibility, name and fields of a struct with named fields. -/
def namedStruct? : Code.Tree → Option (Code.Tree × Code.Tree × List (Code.Tree × Code.Tree))
  | .node .structItem
      (_ :: visibility :: _ :: name :: _ :: _ :: .node .fields [.group .brace ps] :: _) =>
    some (visibility, name, fieldsOf ps)
  | _ => none

theorem membersOf_eq (name : Code.Tree) (ps : List Code.Tree) : membersOf name ps =
    (fieldsOf ps).map fun f => .stored f.1.text (some (resolveSelf name f.2).text) := by
  rw [membersOf, fieldsOf, List.map_filterMap]
  congr 1
  funext t
  split <;> simp

variable {item visibility name : Code.Tree} {fields : List (Code.Tree × Code.Tree)}

theorem declarationOf_struct (h : namedStruct? item = some (visibility, name, fields)) :
    declarationOf item = ⟨.struct, name.text,
      fields.map fun f => .stored f.1.text (some (resolveSelf name f.2).text)⟩ ∧
    structVisibility? item = some visibility := by
  unfold namedStruct? at h
  split at h
  · cases h
    exact ⟨congrArg _ (membersOf_eq ..), rfl⟩
  · cases h

/-! ## Types and their texts -/

/-- A text is a way to write a type. It is read as the type, and is nothing but the letters of its
tokens and white space. Unless the text has a shape, what is printed of the type is read as a type
with the same tokens. -/
structure Written (text : String) (type : Code.Tree) : Prop where
  reads : typeOf text = some type
  spacing : (lex text).map (fun ts => solid ts.text) = some (solid text)
  again : TypeShape.of? text = none → (typeOf type.text).map Code.Tree.tokens = some type.tokens
  noSelf : "Self" ∉ Token.wordsIn type.tokens

instance (text : String) (type : Code.Tree) : Decidable (Written text type) :=
  decidable_of_iff (typeOf text = some type ∧
      (lex text).map (fun ts => solid ts.text) = some (solid text) ∧
      (TypeShape.of? text = none → (typeOf type.text).map Code.Tree.tokens = some type.tokens) ∧
      "Self" ∉ Token.wordsIn type.tokens)
    ⟨fun h => ⟨h.1, h.2.1, h.2.2.1, h.2.2.2⟩, fun h => ⟨h.reads, h.spacing, h.again, h.noSelf⟩⟩

theorem fieldType_of_typeOf {field text : String} {t : Code.Tree} (h : typeOf text = some t) :
    fieldType field text = .ok t := by
  rw [fieldType, ← typeOf, h]

theorem Written.shape {text : String} {type : Code.Tree} (h : Written text type) :
    TypeShape.of? type.text = TypeShape.of? text := by
  obtain ⟨ts, hlex, hparse⟩ := Option.bind_eq_some_iff.1 h.reads
  have hspacing := h.spacing
  rw [hlex, Option.map_some, Option.some.injEq] at hspacing
  cases hp : parseType ts with
  | ok t =>
    rw [hp] at hparse
    cases hparse
    exact shape_of_parseType hp hspacing
  | error =>
    rw [hp] at hparse
    cases hparse

/-- A mark of direction separates tokens as white space does, but a shape is not found around it. -/
example : typeOf "Vec<\u200eOrder>" = typeOf "Vec<Order>" ∧
    TypeShape.of? "Vec<\u200eOrder>" = none := by
  decide +kernel

theorem Written.interchangeable {text : String} {type : Code.Tree} (h : Written text type) :
    Interchangeable type.text text := by
  cases hs : TypeShape.of? text with
  | some s => exact .inl ⟨s, h.shape.trans hs, hs⟩
  | none =>
    refine .inr ⟨h.shape.trans hs, hs, fun field => ?_⟩
    obtain ⟨t, ht, htokens⟩ := Option.map_eq_some_iff.1 (h.again hs)
    rw [fieldType_of_typeOf ht, fieldType_of_typeOf h.reads]
    exact .ok htokens

theorem runtimePath_of_lex {runtime : String} {p : PlainPath} (hp : p.Free)
    (hl : lex runtime = some p.tokens) : runtimePath runtime = .ok p.tree := by
  have hpath : parsePath p.tokens = .ok p.tree := by
    have hrun := (Grammar.ofTokens p.tokens).path_run false hp.valid
      (show startsSign "::" [] = false from rfl) rfl
    rw [List.append_nil] at hrun
    exact Parser.all_of_run hrun
  simp [runtimePath, hl, hpath, Except.toOption]

/-! ## The two ways to the code -/

/-- The model that a schema may have in place of an annotated struct. -/
def modelOf (name : String) (fields : List (String × String)) (nested : String) : Model :=
  ⟨⟨.struct, name, fields.map fun f => .stored f.1 (some f.2)⟩,
    [⟨some "nestedDTOs", ArgumentValue.parse nested⟩]⟩

end Annotate

/-- The code with another visibility of the transfer type. -/
def Emit.Item.withVisibility (visibility : Code.Tree) : Emit.Item → Emit.Item
  | .struct notes _ name fields => .struct notes visibility name fields
  | i => i

def Emit.Pair.withVisibility (visibility : Code.Tree) (p : Emit.Pair) : Emit.Pair :=
  { p with transfer := p.transfer.withVisibility visibility }

namespace Annotate
open Code Code.Tokens Emit

variable {item visibility name e path : Code.Tree} {fields : List (Code.Tree × Code.Tree)}
  {texts : List String} {nested runtime package : String} {es ts us : Tokens} {p : PlainPath}
  {as : List Argument}

/-- The code for an annotated struct, by the parts that its declaration has. -/
theorem expand_struct (ha : readArguments ts = .ok ⟨as, some path⟩) (hi : parseItem us = .ok item)
    (hs : namedStruct? item = some (visibility, name, fields)) (hg : hasParameters item = false) :
    (expand ts us).result = ((extract (declarationOf item) as).result.mapError .extract >>= fun x =>
        (parts x).mapError .generate >>= fun q => .ok ⟨item, q.pair ⟨path, visibility⟩⟩) := by
  have hitem : readItem us = .ok item := by rw [readItem, hi, Except.mapError]
  have ho : optionsFor ⟨as, some path⟩ item = ⟨path, visibility⟩ := by
    rw [optionsFor, (declarationOf_struct hs).2]
    rfl
  rw [expand, Traced.result_bind, Traced.result_ofExcept, ha, ok_bind, Traced.result_bind,
    Traced.result_ofExcept, hitem, ok_bind, expandItem, hg, if_neg (by simp), Traced.result_bind,
    Traced.result_mapError, ho]
  congr 1
  funext x
  rw [Traced.result_bind, Traced.result_mapError, expand_result, pairOf]
  cases parts x <;> rfl

/-- Models with the same fields have the same parts, whatever is made of them. -/
theorem expansion_alike {x y : Except ExtractError Extracted} (h : Alike SameModel x y)
    (item : Code.Tree) (o : Options) :
    Alike (fun e q => ∃ r, e = ⟨item, r.pair o⟩ ∧ SameParts r q)
      (x.mapError AnnotationError.extract >>= fun x =>
        (parts x).mapError .generate >>= fun r => .ok (⟨item, r.pair o⟩ : Expansion))
      (y.mapError GenerateError.extract >>= parts) := by
  refine (h.mapError _ _).bind fun x y h => ?_
  have hparts := parts_alike h
  generalize parts x = a, parts y = b at hparts
  cases hparts with
  | ok h => exact .ok ⟨_, rfl, h⟩
  | error => exact .error

/-- The members of the two declarations. -/
theorem members_alike (h : List.Forall₂ (fun text f => Written text f.2) texts fields) :
    List.Forall₂ SameMember
      (fields.map fun f => .stored f.1.text (some (resolveSelf name f.2).text))
      (((fields.map fun f => f.1.text).zip texts).map fun f => .stored f.1 (some f.2)) := by
  induction h with
  | nil => exact .nil
  | cons h _ ih =>
    refine .cons ?_ ih
    dsimp only
    rw [resolveSelf_eq name _ h.noSelf]
    exact .stored h.interchangeable

/-- An annotated struct and the schema with a model in its place give the same code, but for the
visibility of the transfer type, or both fail. A schema gives the types as they are written, with
white space of its own, an annotation as they are printed. -/
theorem expand_generateTokens (hitem : parseItem us = .ok item)
    (hstruct : namedStruct? item = some (visibility, name, fields))
    (hplain : hasParameters item = false)
    (htexts : List.Forall₂ (fun text f => Written text f.2) texts fields)
    (hnested : lex (String.ofList (Text.trim nested.toList)) = some es) (he : parseExpr es = .ok e)
    (hattr : startsSign "#" es = false) (hp : p.Free) (hruntime : lex runtime = some p.tokens) :
    let m := modelOf name.text ((fields.map fun f => f.1.text).zip texts) nested
    Alike (fun x ts => x.item = item ∧ x.pair.withVisibility visibility = x.pair ∧
        ts = (x.pair.withVisibility publicVisibility).tokens)
      (expand (attachment es p.tokens) us).result
      (Schema.generateTokens ⟨package, [m]⟩ ⟨runtime, false⟩).result := by
  intro m
  rw [expand_struct (readArguments_attachment he hattr hp) hitem hstruct hplain,
    (declarationOf_struct hstruct).1, Schema.generateTokens, Traced.result_bind]
  have hextract : Alike SameModel
      (extract ⟨.struct, name.text,
          fields.map fun f => .stored f.1.text (some (resolveSelf name f.2).text)⟩
        [⟨some "nested_dtos", ArgumentValue.ofExpr e⟩]).result
      (extract m.declaration m.arguments).result :=
    extract_alike name.text (members_alike htexts) (parse_sameValue hnested he) (by decide)
      (by decide)
  have hpairs := (expansion_alike hextract item ⟨p.tree, visibility⟩).trans
    (generatePairs_alike (runtimePath_of_lex hp hruntime) package m)
  refine hpairs.bind_right fun x ps hx => ?_
  obtain ⟨q, ⟨r, rfl, hsame⟩, rfl⟩ := hx
  refine ⟨_, rfl, rfl, rfl, ?_⟩
  rw [List.flatMap_singleton]
  exact (hsame.tokens (.public p.tree)).symm

/-- A field of a struct, as it is read. -/
def plainField (name : String) (type : Code.Tree) : Code.Tree :=
  .node .field [.node .attributes [], .node .visibility [], Tree.word name, .sign ":", type]

/-- Lines that may be missing. -/
def cartLines : Code.Tree :=
  Grammar.genericTree "Option" (Grammar.genericTree "Vec"
    (.node .pathType [PlainPath.tree ⟨false, "Line", []⟩]))

/-- A borrowed note. -/
def cartNote : Code.Tree :=
  .node .referenceType [.sign "&", .lifetime "static", Tree.none,
    .node .pathType [PlainPath.tree ⟨false, "str", []⟩]]

/-- A struct that only its crate sees. -/
def cart : Code.Tree :=
  .node .structItem [.node .attributes [],
    .node .visibility [Tree.word "pub", .group .paren [Tree.word "crate"]], Tree.word "struct",
    Tree.word "Cart", Tree.none, Tree.none,
    .node .fields [.group .brace
      [plainField "lines" cartLines, .sign ",", plainField "note" cartNote]],
    Tree.none, Tree.none]

theorem expand_generateTokens_of_cart :
    let es : Tokens := [.group .bracket [.literal "\"Line\""]]
    let texts := [("lines", "Option< Vec<Line>>"), ("note", "&\n'static str")]
    let m := modelOf "Cart" texts " [\"Line\"]"
    ∃ x, (expand (attachment es (PlainPath.tokens ⟨true, "dtogen", []⟩)) cart.tokens).result =
        .ok x ∧
      (Schema.generateTokens ⟨"shop", [m]⟩ ⟨"::dtogen", false⟩).result =
        .ok (x.pair.withVisibility publicVisibility).tokens := by
  intro es texts m
  have hitem : parseItem cart.tokens = .ok cart := by decide +kernel
  have hlines : Written "Option< Vec<Line>>" cartLines := by decide +kernel
  have hnote : Written "&\n'static str" cartNote := by decide +kernel
  have hnested : lex (String.ofList (Text.trim " [\"Line\"]".toList)) = some es := by decide +kernel
  have he : parseExpr es = .ok (.node .arrayExpr
      [.group .bracket [.node .literalExpr [.token (.literal "\"Line\"")]]]) := by
    decide +kernel
  have hp : PlainPath.Free ⟨true, "dtogen", []⟩ := ⟨by decide, .inl rfl⟩
  have hruntime : lex "::dtogen" = some (PlainPath.tokens ⟨true, "dtogen", []⟩) := by
    decide +kernel
  obtain ⟨x, hx⟩ := exists_eq_ok
    (x := (expand (attachment es (PlainPath.tokens ⟨true, "dtogen", []⟩)) cart.tokens).result)
    (by decide +kernel)
  obtain ⟨ts, hts, -, -, rfl⟩ := (expand_generateTokens hitem (rfl : namedStruct? cart = some _) rfl
    (.cons hlines (.cons hnote .nil)) hnested he rfl hp hruntime).of_ok hx
  exact ⟨x, hx, hts⟩

end Annotate

end Courier
