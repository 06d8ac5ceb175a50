import Courier.Proofs.Annotate.Struct
import Courier.Proofs.Code.Structs
import Courier.Proofs.Generation.Identifiers

/-!
What becomes of an annotated item. A struct with named fields, or without any, stays as it is and gets
the pair for its declaration; anything else is refused, for the first thing that is wrong.
-/
namespace Courier.Annotate
open Code Emit

/-! ## Arguments -/

/-- The value that an element of an annotation has for the runtime. -/
def runtimeValue? : Code.Tree → Option Code.Tree
  | .node .metaValue [path, _, value] => if isRuntimeKey path then some value else none
  | _ => none

/-- The argument that an element of an annotation is, unless it is for the runtime. -/
def argument? : Code.Tree → Option Argument
  | .node .metaValue [path, _, value] =>
    if isRuntimeKey path then none else some ⟨some path.text, ArgumentValue.ofExpr value⟩
  | t => some ⟨none, .code t.text⟩

variable {attached us ts : Tokens} {as : Arguments} {e : AnnotationError}

theorem addArgument_eq (as : Arguments) (t : Code.Tree) :
    (∃ v, runtimeValue? t = some v ∧ argument? t = none ∧
      addArgument as t = (runtimeOf v).map fun p => { as with runtime := some p }) ∨
    ∃ a, runtimeValue? t = none ∧ argument? t = some a ∧
      addArgument as t = .ok { as with arguments := as.arguments ++ [a] } := by
  unfold runtimeValue? argument?
  split
  · rename_i path _ value
    cases hk : isRuntimeKey path with
    | true =>
      refine .inl ⟨value, by simp, by simp, ?_⟩
      rw [addArgument, if_pos hk]
      cases runtimeOf value <;> rfl
    | false =>
      refine .inr ⟨⟨some path.text, ArgumentValue.ofExpr value⟩, by simp, by simp, ?_⟩
      simp [addArgument, hk]
  · rename_i hother
    refine .inr ⟨_, rfl, rfl, ?_⟩
    unfold addArgument
    split
    · exact (hother _ _ _ rfl).elim
    · rfl

/-- The paths of the runtime are read in order, and the last one counts. -/
theorem foldlM_addArgument (as : Arguments) (es : List Code.Tree) : es.foldlM addArgument as =
    ((es.filterMap runtimeValue?).mapM runtimeOf).map fun paths =>
      ⟨as.arguments ++ es.filterMap argument?, paths.getLast?.or as.runtime⟩ := by
  induction es generalizing as with
  | nil => simp [Except.map, pure, Except.pure]
  | cons t es ih =>
    rw [List.foldlM_cons]
    rcases addArgument_eq as t with ⟨v, hv, ha, h⟩ | ⟨a, hv, ha, h⟩
    · rw [h, List.filterMap_cons_some hv, List.filterMap_cons_none ha, List.mapM_cons]
      cases runtimeOf v with
      | error => rfl
      | ok p =>
        simp only [Except.map, ok_bind, ih]
        cases (es.filterMap runtimeValue?).mapM runtimeOf with
        | error => rfl
        | ok paths =>
          simp only [bind, Except.bind, pure, Except.pure, List.getLast?_cons]
          cases paths.getLast? <;> rfl
    · rw [h, List.filterMap_cons_none hv, List.filterMap_cons_some ha, ok_bind, ih]
      simp

theorem readArguments_eq_ok : readArguments ts = .ok as ↔ ∃ contents paths,
    parseMetas ts = .ok contents ∧
    List.Forall₂ (fun v p => runtimeOf v = .ok p)
      ((Code.Tree.elements contents).filterMap runtimeValue?) paths ∧
    as.arguments = (Code.Tree.elements contents).filterMap argument? ∧
    as.runtime = paths.getLast? := by
  obtain ⟨arguments, runtime⟩ := as
  simp only [readArguments, bind_eq_ok, Except.mapError_eq_ok, foldlM_addArgument, ← mapM_eq_ok]
  refine exists_congr fun contents => ?_
  cases ((Code.Tree.elements contents).filterMap runtimeValue?).mapM runtimeOf with
  | error => simp [Except.map]
  | ok paths => simp [Except.map, eq_comm]

theorem readArguments_eq_error : readArguments ts = .error e ↔
    (∃ fault, parseMetas ts = .error fault ∧ e = .malformed fault) ∨ ∃ contents,
      parseMetas ts = .ok contents ∧
        FirstError runtimeOf ((Code.Tree.elements contents).filterMap runtimeValue?) e := by
  simp only [readArguments, bind_eq_error, Except.mapError_eq_ok, Except.mapError_eq_error,
    foldlM_addArgument, ← mapM_eq_error]
  refine or_congr (exists_congr fun _ => and_congr_right fun _ => eq_comm)
    (exists_congr fun contents => and_congr_right fun _ => ?_)
  cases ((Code.Tree.elements contents).filterMap runtimeValue?).mapM runtimeOf <;> simp [Except.map]

/-! ## Structs -/

/-- A struct without generic parameters that has named fields or none: its visibility, its name, and
the names and types of its fields. Angle brackets with nothing between them are no parameters. -/
inductive PlainStruct : Code.Tree → Code.Tree → String → List (Code.Tree × Code.Tree) → Prop
  | named {attributes visibility parameters requirements : Code.Tree} {name : String}
      {fields : List Code.Tree} (hp : parameters = Tree.none ∨ parameters = .node .parameters [])
      (hf : ∀ t ∈ fields, Grammar.IsField t ∨ t = .sign ",") :
      PlainStruct (.node .structItem [attributes, visibility, Tree.word "struct", Tree.word name,
        parameters, requirements, .node .fields [.group .brace fields], Tree.none, Tree.none])
        visibility name (fieldsOf fields)
  | unit {attributes visibility parameters requirements semi : Code.Tree} {name : String}
      (hp : parameters = Tree.none ∨ parameters = .node .parameters []) :
      PlainStruct (.node .structItem [attributes, visibility, Tree.word "struct", Tree.word name,
        parameters, requirements, Tree.none, Tree.none, semi]) visibility name []

theorem mem_wordsIn_tokensList {t : Code.Tree} {ps : List Code.Tree} {w : String} (ht : t ∈ ps)
    (hw : w ∈ Token.wordsIn t.tokens) : w ∈ Token.wordsIn (Tree.tokensList ps) := by
  induction ps with
  | nil => cases ht
  | cons p ps ih =>
    rw [Tree.tokensList, Token.wordsIn_append, List.mem_append]
    rcases List.mem_cons.1 ht with rfl | ht
    · exact .inl hw
    · exact .inr (ih ht)

/-- The fields of a struct as they are declared. -/
def declaredBy (name : String) (fields : List (Code.Tree × Code.Tree)) : List Field :=
  fields.map fun f => ⟨f.1.text, (resolveSelf (Tree.word name) f.2).text⟩

variable {item visibility : Code.Tree} {name : String} {fields : List (Code.Tree × Code.Tree)}

namespace PlainStruct

theorem declarationOf_eq (h : PlainStruct item visibility name fields) :
    (declarationOf item).kind = .struct ∧ (declarationOf item).name = name ∧
      declaredFields (declarationOf item).members = declaredBy name fields := by
  cases h with
  | named hp hf =>
    refine ⟨rfl, rfl, ?_⟩
    show declaredFields (membersOf _ _) = _
    rw [membersOf_eq, declaredFields, List.filterMap_map, declaredBy, ← List.filterMap_eq_map]
    rfl
  | unit hp => exact ⟨rfl, rfl, rfl⟩

theorem hasParameters_eq (h : PlainStruct item visibility name fields) :
    hasParameters item = false := by
  cases h with
  | named hp => rcases hp with rfl | rfl <;> rfl
  | unit hp => rcases hp with rfl | rfl <;> rfl

theorem structVisibility?_eq (h : PlainStruct item visibility name fields) :
    structVisibility? item = some visibility := by
  cases h <;> rfl

/-- The names of the fields are words of the struct. -/
theorem text_mem (h : PlainStruct item visibility name fields) : ∀ f ∈ fields,
    f.1.text ∈ Token.wordsIn item.tokens := by
  cases h with
  | unit => exact List.forall_mem_nil _
  | @named attributes visibility parameters requirements name ps hp hf =>
    intro f hmem
    obtain ⟨t, ht, hfield⟩ := List.mem_filterMap.1 hmem
    obtain hfield' | rfl := hf t ht
    · cases hfield' with
      | mk attributes visibility colon type w =>
        cases hfield
        have hw : w ∈ Token.wordsIn (Tree.tokensList ps) := by
          refine mem_wordsIn_tokensList ht ?_
          simp [Code.Tree.tokens, Tree.tokensList, Token.wordsIn_append, Tree.word, Tree.printed,
            Token.wordsIn, Token.words]
        show w ∈ _
        simp [Code.Tree.tokens, Tree.tokensList, Token.wordsIn_append, Token.wordsIn, Token.words, hw]
    · cases hfield

end PlainStruct

/-- An item that is declared as a struct is one without generic parameters, unless it has some. -/
theorem exists_plainStruct (hi : parseItem us = .ok item) (hg : hasParameters item = false)
    (hk : (declarationOf item).kind = .classType ∨ (declarationOf item).kind = .struct) :
    ∃ visibility name fields, PlainStruct item visibility name fields := by
  obtain ⟨ps, rfl⟩ : ∃ ps, item = .node .structItem ps := by
    unfold declarationOf at hk
    split at hk
    all_goals first
      | exact ⟨_, rfl⟩
      | simp at hk
  have absent : ∀ {parameters : Code.Tree}, Grammar.IsParameters parameters →
      (∀ p ps, parameters ≠ .node .parameters (p :: ps)) →
      parameters = Tree.none ∨ parameters = .node .parameters [] := by
    rintro _ (rfl | ⟨_ | ⟨p, ps⟩, rfl⟩) hne
    · exact .inl rfl
    · exact .inr rfl
    · exact absurd rfl (hne p ps)
  cases Grammar.shaped_of_parseItem hi _ rfl with
  | named hn hp hf =>
    refine ⟨_, _, _, .named (absent hp ?_) hf⟩
    rintro p ps rfl
    cases hg
  | tuple => simp [declarationOf] at hk
  | unit hn hp =>
    refine ⟨_, _, _, .unit (absent hp ?_)⟩
    rintro p ps rfl
    cases hg

/-! ## Outcome -/

/-- The ways for an annotated item to be refused, in the order in which they are looked for. -/
inductive Refused (attached us : Tokens) : AnnotationError → Prop
  | arguments {fault : Fault} (h : parseMetas attached = .error fault) :
      Refused attached us (.malformed fault)
  /-- A value for the runtime is no path. -/
  | runtime {contents : List Code.Tree} {e : AnnotationError} (hc : parseMetas attached = .ok contents)
      (h : FirstError runtimeOf ((Code.Tree.elements contents).filterMap runtimeValue?) e) :
      Refused attached us e
  | item {as : Arguments} {fault : Fault} (ha : readArguments attached = .ok as)
      (h : parseItem us = .error fault) : Refused attached us (.malformed fault)
  | generic {as : Arguments} {item : Code.Tree} (ha : readArguments attached = .ok as)
      (hi : parseItem us = .ok item) (h : hasParameters item = true) : Refused attached us .generic
  | kind {as : Arguments} {item : Code.Tree} (ha : readArguments attached = .ok as)
      (hi : parseItem us = .ok item) (hg : hasParameters item = false)
      (h : ∀ visibility name fields, ¬PlainStruct item visibility name fields) :
      Refused attached us
        (.extract (.unsupportedKind (declarationOf item).name (declarationOf item).kind.tag))
  | nested {as : Arguments} {item visibility : Code.Tree} {name : String}
      {fields : List (Code.Tree × Code.Tree)} {v : ArgumentValue}
      (ha : readArguments attached = .ok as) (hi : parseItem us = .ok item)
      (hs : PlainStruct item visibility name fields) (h : FirstOffence as.arguments v) :
      Refused attached us (.extract (.invalidNestedList name v.display))
  | duplicate {as : Arguments} {item visibility : Code.Tree} {name : String}
      {fields : List (Code.Tree × Code.Tree)} {f : Field}
      (ha : readArguments attached = .ok as) (hi : parseItem us = .ok item)
      (hs : PlainStruct item visibility name fields) (hn : ListStrings as.arguments)
      (h : FirstRepeat [] (declaredBy name fields) f) :
      Refused attached us (.extract (.duplicateField name f.name))
  | emission {as : Arguments} {item visibility : Code.Tree} {name : String}
      {fields : List (Code.Tree × Code.Tree)} {x : Extracted} {e : GenerateError}
      (ha : readArguments attached = .ok as) (hi : parseItem us = .ok item)
      (hs : PlainStruct item visibility name fields)
      (hx : (extract (declarationOf item) as.arguments).result = .ok x)
      (h : (Emit.expand x ⟨as.runtime.getD defaultRuntime, visibility⟩).result = .error e) :
      Refused attached us (.generate e)

/-- A struct that stands with the pair for it: the one that is emitted for its declaration, with its
own visibility and the runtime that the annotation gives last. -/
inductive Expands (attached us : Tokens) : Expansion → Prop
  | mk {as : Arguments} {item visibility : Code.Tree} {name : String}
      {fields : List (Code.Tree × Code.Tree)} {x : Extracted} {p : Pair}
      (ha : readArguments attached = .ok as) (hi : parseItem us = .ok item)
      (hs : PlainStruct item visibility name fields)
      (hx : (extract (declarationOf item) as.arguments).result = .ok x)
      (hp : (Emit.expand x ⟨as.runtime.getD defaultRuntime, visibility⟩).result = .ok p) :
      Expands attached us ⟨item, p⟩

/-! ### Stages -/

theorem expand_eq_bind : (expand attached us).result =
    (readArguments attached >>= fun as => readItem us >>= fun item => (expandItem as item).result) := by
  simp only [expand, Traced.result_bind, Traced.result_ofExcept]

theorem expandItem_eq_bind : (expandItem as item).result =
    if hasParameters item then .error .generic
    else
      (extract (declarationOf item) as.arguments).result.mapError .extract >>= fun x =>
        (Emit.expand x (optionsFor as item)).result.mapError .generate >>= fun p => .ok ⟨item, p⟩ := by
  rw [expandItem]
  split
  · rfl
  · simp only [Traced.result_bind, Traced.result_mapError, Traced.result_pure]

theorem optionsFor_eq (h : PlainStruct item visibility name fields) :
    optionsFor as item = ⟨as.runtime.getD defaultRuntime, visibility⟩ := by
  rw [optionsFor, h.structVisibility?_eq]
  rfl

theorem expandItem_eq_error : (expandItem as item).result = .error e ↔
    hasParameters item = true ∧ e = .generic ∨ hasParameters item = false ∧
      ((∃ e', (extract (declarationOf item) as.arguments).result = .error e' ∧ .extract e' = e) ∨
        ∃ x, (extract (declarationOf item) as.arguments).result = .ok x ∧
          ∃ e', (Emit.expand x (optionsFor as item)).result = .error e' ∧ .generate e' = e) := by
  rw [expandItem_eq_bind]
  cases hasParameters item with
  | true => simp [eq_comm]
  | false =>
    simp only [Bool.false_eq_true, if_false, false_and, false_or, true_and, bind_eq_error,
      Except.mapError_eq_ok, Except.mapError_eq_error, reduceCtorEq, and_false, exists_false, or_false]

/-- What is wrong with the declaration of an item without generic parameters. -/
theorem refused_of_extract {error : ExtractError} (ha : readArguments attached = .ok as)
    (hi : parseItem us = .ok item) (hg : hasParameters item = false)
    (h : (extract (declarationOf item) as.arguments).result = .error error) :
    Refused attached us (.extract error) := by
  rcases extract_eq_error.1 h with ⟨hk, rfl⟩ | ⟨hk, hn⟩
  · exact .kind ha hi hg fun _ _ _ hs => hk (.inr hs.declarationOf_eq.1)
  · obtain ⟨visibility, name, fields, hs⟩ := exists_plainStruct hi hg hk
    obtain ⟨-, hname, hfields⟩ := hs.declarationOf_eq
    rw [hname, hfields] at hn
    rcases hn with ⟨v, hv, rfl⟩ | ⟨hl, f, hf, rfl⟩
    · exact .nested ha hi hs hv
    · exact .duplicate ha hi hs hl hf

theorem expand_eq_error : (expand attached us).result = .error e ↔ Refused attached us e := by
  rw [expand_eq_bind, bind_eq_error, readArguments_eq_error]
  simp only [bind_eq_error, readItem, Except.mapError_eq_ok, Except.mapError_eq_error,
    expandItem_eq_error]
  constructor
  · rintro ((⟨fault, hf, rfl⟩ | ⟨contents, hc, hf⟩) | ⟨as, ha, ⟨fault, hi, rfl⟩ | ⟨item, hi, h⟩⟩)
    · exact .arguments hf
    · exact .runtime hc hf
    · exact .item ha hi
    rcases h with ⟨hg, rfl⟩ | ⟨hg, ⟨error, he, rfl⟩ | ⟨x, hx, error, he, rfl⟩⟩
    · exact .generic ha hi hg
    · exact refused_of_extract ha hi hg he
    · obtain ⟨visibility, name, fields, hs⟩ := exists_plainStruct hi hg (extract_eq_ok.1 hx).1
      exact .emission ha hi hs hx (optionsFor_eq hs ▸ he)
  · intro h
    cases h with
    | arguments h => exact .inl (.inl ⟨_, h, rfl⟩)
    | runtime hc h => exact .inl (.inr ⟨_, hc, h⟩)
    | item ha h => exact .inr ⟨_, ha, .inl ⟨_, h, rfl⟩⟩
    | generic ha hi h => exact .inr ⟨_, ha, .inr ⟨_, hi, .inl ⟨h, rfl⟩⟩⟩
    | kind ha hi hg h =>
      refine .inr ⟨_, ha, .inr ⟨_, hi, .inr ⟨hg, .inl ⟨_, extract_eq_error.2 (.inl ⟨?_, rfl⟩), rfl⟩⟩⟩⟩
      intro hk
      obtain ⟨visibility, name, fields, hs⟩ := exists_plainStruct hi hg hk
      exact h visibility name fields hs
    | nested ha hi hs h =>
      obtain ⟨hk, rfl, -⟩ := hs.declarationOf_eq
      refine .inr ⟨_, ha, .inr ⟨_, hi, .inr ⟨hs.hasParameters_eq, .inl ⟨_, ?_, rfl⟩⟩⟩⟩
      exact extract_eq_error.2 (.inr ⟨.inr hk, .inl ⟨_, h, rfl⟩⟩)
    | duplicate ha hi hs hn h =>
      obtain ⟨hk, rfl, hf⟩ := hs.declarationOf_eq
      refine .inr ⟨_, ha, .inr ⟨_, hi, .inr ⟨hs.hasParameters_eq, .inl ⟨_, ?_, rfl⟩⟩⟩⟩
      exact extract_eq_error.2 (.inr ⟨.inr hk, .inr ⟨hn, _, hf ▸ h, rfl⟩⟩)
    | emission ha hi hs hx h =>
      refine .inr ⟨_, ha, .inr ⟨_, hi, .inr ⟨hs.hasParameters_eq, .inr ⟨_, hx, _, ?_, rfl⟩⟩⟩⟩
      exact (optionsFor_eq hs).symm ▸ h

theorem expand_eq_ok {x : Expansion} :
    (expand attached us).result = .ok x ↔ Expands attached us x := by
  rw [expand_eq_bind]
  simp only [bind_eq_ok, readItem, Except.mapError_eq_ok, expandItem_eq_bind]
  constructor
  · rintro ⟨as, ha, item, hi, h⟩
    cases hg : hasParameters item with
    | true => simp [hg] at h
    | false =>
      rw [hg, if_neg (by simp)] at h
      obtain ⟨d, hd, h⟩ := bind_eq_ok.1 h
      obtain ⟨p, hp, h⟩ := bind_eq_ok.1 h
      cases h
      have hd := Except.mapError_eq_ok.1 hd
      obtain ⟨visibility, name, fields, hs⟩ := exists_plainStruct hi hg (extract_eq_ok.1 hd).1
      exact .mk ha hi hs hd (optionsFor_eq hs ▸ Except.mapError_eq_ok.1 hp)
  · rintro ⟨ha, hi, hs, hx, hp⟩
    refine ⟨_, ha, _, hi, ?_⟩
    simp [hs.hasParameters_eq, hx, optionsFor_eq hs, hp, Except.mapError]

/-- What an expansion holds: the item and then its pair, whose transfer type is as visible as the item
and has its fields. That an item is printed as it was read is not known here, and words are solid where
they come from a text. -/
theorem Expands.keeps {x : Expansion} (h : Expands attached us x) : ∃ visibility name fields,
    PlainStruct x.item visibility name fields ∧
    (∃ notes transfer fs, x.pair.transfer = .struct notes visibility transfer fs) ∧
    (x.item.tokens = us → x.tokens = us ++ x.pair.tokens ∧
      ((∀ w ∈ Token.wordsIn us, w.toList.all isSolid = true) →
        x.pair.fieldNames = fields.map fun f => f.1.text)) := by
  cases h with
  | @mk as item visibility name fields x p ha hi hs hx hp =>
    obtain ⟨q, hq, rfl⟩ := Emit.expand_eq_ok.1 hp
    refine ⟨visibility, name, fields, hs, ⟨_, _, _, rfl⟩, fun ht => ⟨?_, fun hw => ?_⟩⟩
    · rw [Expansion.tokens, ht]
    have hfields := (extract_eq_ok.1 hx).2.2.2.2.1
    rw [hs.declarationOf_eq.2.2] at hfields
    have hsolid := (namesFields_of_parts hq ⟨as.runtime.getD defaultRuntime, visibility⟩).solid
    rw [hfields, declaredBy, List.map_map, List.forall_mem_map] at hsolid
    exact hsolid fun f hf => hw _ (ht ▸ hs.text_mem f hf)

/-- An annotation leaves its item as it is and adds the pair for it. It takes nothing but a struct with
named fields or none and without generic parameters; the pair is the one that is emitted for its
declaration, with the visibility of the struct and the last runtime that is given. Anything else is
refused for the first thing that is wrong. -/
theorem expand_keeps_item (attached us : Tokens) :
    (∀ x, (expand attached us).result = .ok x ↔ Expands attached us x) ∧
    (∀ x, (expand attached us).result = .ok x → ∃ visibility name fields,
      PlainStruct x.item visibility name fields ∧
      (∃ notes transfer fs, x.pair.transfer = .struct notes visibility transfer fs) ∧
      (x.item.tokens = us → x.tokens = us ++ x.pair.tokens ∧
        ((∀ w ∈ Token.wordsIn us, w.toList.all isSolid = true) →
          x.pair.fieldNames = fields.map fun f => f.1.text))) ∧
    (∀ e, (expand attached us).result = .error e ↔ Refused attached us e) ∧
    ∀ as, readArguments attached = .ok as ↔ ∃ contents paths, parseMetas attached = .ok contents ∧
      List.Forall₂ (fun v p => runtimeOf v = .ok p)
        ((Code.Tree.elements contents).filterMap runtimeValue?) paths ∧
      as.arguments = (Code.Tree.elements contents).filterMap argument? ∧
      as.runtime = paths.getLast? :=
  ⟨fun _ => expand_eq_ok, fun _ h => (expand_eq_ok.1 h).keeps, fun _ => expand_eq_error,
    fun _ => readArguments_eq_ok⟩

/-- Two paths for the runtime, and the nested names between them. -/
def twoRuntimes : Tokens :=
  [.ident "crate", .punct '=' false, .ident "first", .comma,
    .ident "nested_dtos", .punct '=' false, .group .bracket [.literal "\"Line\""], .comma,
    .ident "crate", .punct '=' false, .literal "\"::second\""]

theorem expand_keeps_item_of_cart :
    (∃ x, (expand twoRuntimes cart.tokens).result = .ok x ∧ x.tokens = cart.tokens ++ x.pair.tokens ∧
      x.pair.fieldNames = ["lines", "note"]) ∧
    readArguments twoRuntimes = .ok ⟨[⟨some "nested_dtos", .list [.text "Line"]⟩],
      some (PlainPath.tree ⟨true, "second", []⟩)⟩ := by
  obtain ⟨hok, hkeeps, -, hargs⟩ := expand_keeps_item twoRuntimes cart.tokens
  constructor
  · obtain ⟨x, h⟩ := exists_eq_ok (x := (expand twoRuntimes cart.tokens).result) (by decide +kernel)
    obtain ⟨visibility, name, fields, hs, -, htokens⟩ := hkeeps x h
    have hcart : x.item = cart := by
      obtain ⟨-, hi, -⟩ := (hok x).1 h
      exact Except.ok.inj (hi.symm.trans (by decide +kernel))
    obtain ⟨ht, hnames⟩ := htokens (congrArg Code.Tree.tokens hcart)
    refine ⟨x, h, ht, (hnames (by decide +kernel)).trans ?_⟩
    rw [hcart] at hs
    cases hs
    decide +kernel
  · let entry (label : String) (value : Code.Tree) : Code.Tree :=
      .node .metaValue [PlainPath.tree ⟨false, label, []⟩, .sign "=", value]
    let first : PlainPath := ⟨false, "first", []⟩
    let string (text : String) : Code.Tree := .node .literalExpr [.token (.literal text)]
    have hsecond : runtimeOf (string "\"::second\"") = .ok (PlainPath.tree ⟨true, "second", []⟩) := by
      have hvalue : (runtimeOf (string "\"::second\"")).toOption =
        some (PlainPath.tree ⟨true, "second", []⟩) := by decide +kernel
      generalize runtimeOf (string "\"::second\"") = x at hvalue ⊢
      cases x with
      | error => cases hvalue
      | ok t => rw [Option.some.inj hvalue]
    refine (hargs _).2 ⟨[entry "crate" (.node .pathExpr [first.tree]), .sign ",",
      entry "nested_dtos" (.node .arrayExpr [.group .bracket [string "\"Line\""]]), .sign ",",
      entry "crate" (string "\"::second\"")], [first.tree, _], by decide +kernel,
      .cons rfl (.cons hsecond .nil), by decide +kernel, rfl⟩

end Courier.Annotate
