import Courier.Proofs.Code.Generic
import Courier.Proofs.Emit.Linking

/-!
What the options change in emitted code. The code for a model is a stencil: its own tokens, the names
and types of the model, and places for the runtime and the visibility. The stencil is the same under
all options.
-/
namespace Courier.Emit
open Code

/-! ## Stencils -/

/-- A token, or a place for an option. -/
inductive Stencil where
  | token (t : Token)
  | runtime
  | visibility
  | group (d : Delimiter) (body : List Stencil)

namespace Stencil

mutual
/-- The tokens of a stencil under some options. -/
def fill (o : Options) : Stencil → Tokens
  | .token t => [t]
  | .runtime => o.runtime.tokens
  | .visibility => o.visibility.tokens
  | .group d body => [.group d (fillAll o body)]

def fillAll (o : Options) : List Stencil → Tokens
  | [] => []
  | s :: ss => s.fill o ++ fillAll o ss
end

/-- Tokens without a place for an option. -/
def plain (ts : Tokens) : List Stencil := ts.map .token

theorem fillAll_plain_append (o : Options) (ts : Tokens) (ss : List Stencil) :
    fillAll o (plain ts ++ ss) = ts ++ fillAll o ss := by
  induction ts with
  | nil => rfl
  | cons t ts ih => exact congrArg (t :: ·) ih

end Stencil

open Stencil

/-! ## Tokens of emitted code itself -/

/-- Is the word no trait, and no part of the runtime's path unless another one is given? -/
def isOwnWord (w : String) : Bool :=
  !(["Dto", "DtoConvertible", "dtogen"].contains w)

/-- May the token be part of emitted code where no path goes through it? -/
def isOwn : Token → Bool
  | .ident w => isOwnWord w
  | .punct c joint => !(c == ':' && joint)
  | .literal _ => true
  | .group .. => false

mutual
/-- Tokens of emitted code itself, with all that is in them. A path goes on with words of its own. -/
def isFixed : Token → Bool
  | .group _ body => areFixed body
  | t => isOwn t

def areFixed : Tokens → Bool
  | [] => true
  | .punct ':' true :: .punct ':' false :: .ident w :: ts => isOwnWord w && areFixed ts
  | t :: ts => isFixed t && areFixed ts
end

/-! ## Places -/

namespace Parts

/-- The names of the model, of its transfer type and of its fields. -/
def identifiers (q : Parts) : List String := q.model :: q.transfer :: q.fields.map (·.1)

variable {q : Parts}

theorem model_mem : q.model ∈ q.identifiers := List.mem_cons_self ..

theorem transfer_mem : q.transfer ∈ q.identifiers := List.mem_cons_of_mem _ (List.mem_cons_self ..)

theorem mem_identifiers {p : String × Code.Tree × FieldShape} (hp : p ∈ q.fields) :
    p.1 ∈ q.identifiers :=
  List.mem_cons_of_mem _ (List.mem_cons_of_mem _ (List.mem_map_of_mem hp))

end Parts

/-- A stencil for the code of a model, with the traits that it refers to and the number of its places
for the visibility. The runtime has its places in front of traits, and traits are referred to nowhere
else; the visibility has its place in front of the transfer type. Names stand alone, and a type ends at
a comma or with the stencil. -/
inductive Placed (q : Parts) : List Trait → Nat → List Stencil → Prop
  | nil : Placed q [] 0 []
  | own {ts n t ss} (h : isOwn t = true) (hs : Placed q ts n ss) : Placed q ts n (.token t :: ss)
  | name {ts n x ss} (h : x ∈ q.identifiers) (hs : Placed q ts n ss) :
      Placed q ts n (.token (.ident x) :: ss)
  /-- A function of a type, or of a trait. -/
  | inPath {ts n w ss} (h : isOwnWord w = true) (hs : Placed q ts n ss) :
      Placed q ts n (plain (Tokens.sign "::" ++ Tokens.word w) ++ ss)
  /-- The type that a trait asks for. -/
  | related {ts n ss} (w : String) (hs : Placed q ts n ss) :
      Placed q ts n (plain (Tokens.word "type" ++ Tokens.word w) ++ ss)
  | reference {ts n ss} (t : Trait) (hs : Placed q ts n ss) :
      Placed q (t :: ts) n (.runtime :: (plain (Tokens.sign "::" ++ Tokens.word t.name) ++ ss))
  | struct {ts n ss} (hs : Placed q ts n ss) :
      Placed q ts (n + 1) (.visibility ::
        (plain (Tokens.word "struct" ++ Tokens.word q.transfer) ++ ss))
  | type {ts n f ss} (h : f ∈ q.fields) (hs : Placed q ts n ss) :
      Placed q ts n (plain (f.2.1.tokens ++ comma) ++ ss)
  | lastType {f} (h : f ∈ q.fields) : Placed q [] 0 (plain f.2.1.tokens ++ [])
  | group {ts us n ss us'} (d : Delimiter) (hb : Placed q ts 0 ss) (hs : Placed q us n us') :
      Placed q (ts ++ us) n (.group d ss :: us')

variable {q : Parts} {ts us : List Trait} {n : Nat} {w x : String} {t : Token}

/-- Tokens that depend on the options as a stencil does. -/
def Framed (q : Parts) (ts : List Trait) (n : Nat) (f : Options → Tokens) : Prop :=
  ∃ ss, Placed q ts n ss ∧ ∀ o, fillAll o ss = f o

namespace Framed

variable {f g : Options → Tokens}

theorem nil : Framed q [] 0 fun _ => [] := ⟨[], .nil, fun _ => rfl⟩

theorem own (ht : isOwn t = true) (h : Framed q ts n f) : Framed q ts n fun o => t :: f o := by
  obtain ⟨ss, hs, hf⟩ := h
  exact ⟨_, .own ht hs, fun o => congrArg (t :: ·) (hf o)⟩

theorem name (hx : x ∈ q.identifiers) (h : Framed q ts n f) :
    Framed q ts n fun o => .ident x :: f o := by
  obtain ⟨ss, hs, hf⟩ := h
  exact ⟨_, .name hx hs, fun o => congrArg (_ :: ·) (hf o)⟩

theorem inPath (hw : isOwnWord w = true) (h : Framed q ts n f) :
    Framed q ts n fun o => Tokens.sign "::" ++ .ident w :: f o := by
  obtain ⟨ss, hs, hf⟩ := h
  refine ⟨_, .inPath hw hs, fun o => ?_⟩
  rw [fillAll_plain_append, hf]
  rfl

theorem related (w : String) (h : Framed q ts n f) :
    Framed q ts n fun o => .ident "type" :: .ident w :: f o := by
  obtain ⟨ss, hs, hf⟩ := h
  exact ⟨_, .related w hs, fun o => congrArg (_ :: _ :: ·) (hf o)⟩

theorem reference (t : Trait) (h : Framed q ts n f) :
    Framed q (t :: ts) n fun o => (TraitPath.mk o.runtime t).tokens ++ f o := by
  obtain ⟨ss, hs, hf⟩ := h
  refine ⟨_, .reference t hs, fun o => ?_⟩
  rw [fillAll, fillAll_plain_append, hf]
  simp only [TraitPath.tokens, fill, List.append_assoc]

theorem struct (h : Framed q ts n f) : Framed q ts (n + 1) fun o =>
    o.visibility.tokens ++ .ident "struct" :: .ident q.transfer :: f o := by
  obtain ⟨ss, hs, hf⟩ := h
  refine ⟨_, .struct hs, fun o => ?_⟩
  rw [fillAll, fillAll_plain_append, hf]
  rfl

theorem type {p : String × Code.Tree × FieldShape} (hp : p ∈ q.fields) (h : Framed q ts n f) :
    Framed q ts n fun o => p.2.1.tokens ++ (comma ++ f o) := by
  obtain ⟨ss, hs, hf⟩ := h
  refine ⟨_, .type hp hs, fun o => ?_⟩
  rw [fillAll_plain_append, hf, List.append_assoc]

theorem lastType {p : String × Code.Tree × FieldShape} (hp : p ∈ q.fields) :
    Framed q [] 0 fun _ => p.2.1.tokens := by
  refine ⟨_, .lastType hp, fun o => ?_⟩
  rw [fillAll_plain_append]
  exact List.append_nil _

theorem group (d : Delimiter) (hb : Framed q ts 0 g) (h : Framed q us n f) :
    Framed q (ts ++ us) n fun o => .group d (g o) :: f o := by
  obtain ⟨ss, hs, hg⟩ := hb
  obtain ⟨ss', hs', hf⟩ := h
  refine ⟨_, .group d hs hs', fun o => ?_⟩
  rw [fillAll, fill, hg, hf]
  rfl

theorem congr (h : Framed q ts n f) (hg : ∀ o, g o = f o) : Framed q ts n g := by
  obtain ⟨ss, hs, hf⟩ := h
  exact ⟨ss, hs, fun o => (hf o).trans (hg o).symm⟩

mutual
theorem fixedToken {t : Token} {ts : List Trait} {n : Nat} {f : Options → Tokens}
    (ht : isFixed t = true) (h : Framed q ts n f) : Framed q ts n fun o => t :: f o := by
  cases t with
  | group d body =>
    have hb : Framed q [] 0 fun _ => body := (fixed ht nil).congr fun _ => (List.append_nil _).symm
    exact hb.group d h
  | _ => exact h.own ht

/-- Tokens of emitted code itself may be written in front. -/
theorem fixed {front : Tokens} {ts : List Trait} {n : Nat} {f : Options → Tokens}
    (ht : areFixed front = true) (h : Framed q ts n f) : Framed q ts n fun o => front ++ f o := by
  unfold areFixed at ht
  split at ht
  · exact h
  · rw [Bool.and_eq_true] at ht
    exact inPath ht.1 (fixed ht.2 h)
  · rw [Bool.and_eq_true] at ht
    exact fixedToken ht.1 (fixed ht.2 h)
end

end Framed

/-! ## Expressions -/

/-- The trait whose function converts a nested value. -/
def Direction.trait : Direction → Trait
  | .toTransfer => .convertible
  | .toModel => .dto

/-- The traits that the value of a field refers to. -/
def Direction.traits (d : Direction) (shape : FieldShape) : List Trait :=
  if shape.isConvertible then [d.trait] else []

namespace Framed

variable {f g : Options → Tokens}

theorem convert (d : Direction) (h : Framed q ts n f) :
    Framed q (d.trait :: ts) n fun o => (d.convert o.runtime).tokens ++ f o := by
  cases d with
  | toTransfer =>
    refine ((h.inPath (w := "to_dto") (by decide)).reference .convertible).congr fun o => ?_
    simp [Direction.convert, FunctionName.tokens, Tokens.word]
  | toModel =>
    refine ((h.inPath (w := "to_model") (by decide)).reference .dto).congr fun o => ?_
    simp [Direction.convert, FunctionName.tokens, Tokens.word]

/-- The function that converts, alone. -/
theorem converter (d : Direction) :
    Framed q [d.trait] 0 fun o => (d.convert o.runtime).tokens :=
  (convert d nil).congr fun _ => (List.append_nil _).symm

theorem place (d : Direction) (hx : x ∈ q.identifiers) (h : Framed q ts n f) :
    Framed q ts n fun o => .ident d.source :: (Tokens.sign "." ++ .ident x :: f o) := by
  refine (fixed (by decide) (h.name hx)).own ?_
  cases d <;> decide

theorem method (hw : isOwnWord w = true) (h : Framed q ts n f) :
    Framed q ts n fun o => Tokens.sign "." ++ .ident w :: .group .paren [] :: f o :=
  fixed (by decide) ((group .paren nil h).own hw)

theorem map (hb : Framed q ts 0 g) (h : Framed q us n f) : Framed q (ts ++ us) n fun o =>
    Tokens.sign "." ++ .ident "map" :: .group .paren (g o) :: f o :=
  fixed (by decide) ((group .paren hb h).own (by decide))

/-- A converted value refers to the trait that converts it, and any other to none. -/
theorem converted (d : Direction) (shape : FieldShape) (hx : x ∈ q.identifiers)
    (h : Framed q ts n f) : Framed q (d.traits shape ++ ts) n fun o =>
      (Emit.converted shape (d.convert o.runtime) (.field (.variable d.source) x)).tokens ++ f o := by
  cases shape with
  | scalar =>
    refine (place d hx (method (w := "clone") (by decide) h)).congr fun o => ?_
    simp [Emit.converted, Expr.tokens, Tokens.word]
  | direct =>
    have hb : Framed q [] 0 fun _ => Tokens.sign "&" ++
        .ident d.source :: (Tokens.sign "." ++ [.ident x]) := fixed (by decide) (place d hx nil)
    refine (convert d (group .paren hb h)).congr fun o => ?_
    simp [Emit.converted, Expr.tokens, Tokens.word]
  | optional =>
    refine (place d hx (method (w := "as_ref") (by decide) (map (converter d) h))).congr fun o => ?_
    simp [Emit.converted, Expr.tokens, Tokens.word]
  | array =>
    refine (place d hx (method (w := "iter") (by decide) (map (converter d)
      (method (w := "collect") (by decide) h)))).congr fun o => ?_
    simp [Emit.converted, Expr.tokens, Tokens.word]
  | optionalArray =>
    have hfront : areFixed (Tokens.sign "|" ++ Tokens.word "elements" ++ Tokens.sign "|" ++
        Tokens.word "elements") = true := by decide
    have hb := fixed hfront (method (q := q) (w := "iter") (by decide)
      (map (converter d) (method (w := "collect") (by decide) nil)))
    refine (place d hx (method (w := "as_ref") (by decide) (map hb h))).congr fun o => ?_
    simp [Emit.converted, Expr.tokens, Tokens.word]

end Framed

/-! ## Functions -/

/-- The tokens of a function up to its inputs. -/
def Function.front (notes : List Note) (isPublic : Bool) (name : String) : Tokens :=
  notes.flatMap Note.tokens ++ (if isPublic then Tokens.word "pub" else []) ++ Tokens.word "fn" ++
    Tokens.word name

/-- The type is named, and borrowed at most. -/
def SignatureType.IsNamed (q : Parts) : SignatureType → Prop
  | .self => True
  | .named x | .borrowed x => x ∈ q.identifiers
  | .written _ => False

namespace Framed

variable {f g : Options → Tokens}

theorem signature {type : SignatureType} (ht : type.IsNamed q) (h : Framed q ts n f) :
    Framed q ts n fun o => type.tokens ++ f o := by
  cases type with
  | self => exact h.own (t := .ident "Self") (by decide)
  | named x => exact h.name ht
  | borrowed x => exact (h.name ht).own (t := .punct '&' false) (by decide)
  | written => cases ht

theorem input (w : String) (type : SignatureType) (hw : isOwnWord w = true) (ht : type.IsNamed q) :
    Framed q [] 0 fun _ => separated ([Input.variable w type].map Input.tokens) := by
  refine (own (t := .ident w) hw (own (t := .punct ':' false) (by decide) (signature ht nil))).congr
    fun o => ?_
  rw [List.append_nil]
  rfl

theorem function (notes : List Note) (isPublic : Bool) (w : String) {inputs : List Input}
    (result : SignatureType) {body : Options → Body}
    (hfront : areFixed (Function.front notes isPublic w) = true)
    (hin : Framed q [] 0 fun _ => separated (inputs.map Input.tokens)) (hres : result.IsNamed q)
    (hbody : Framed q us 0 fun o => (body o).tokens) (h : Framed q ts n f) :
    Framed q (us ++ ts) n fun o =>
      (Function.mk notes isPublic w inputs result (body o)).tokens ++ f o := by
  have harrow : areFixed (Tokens.sign "->") = true := by decide
  refine (fixed hfront (group .paren hin (fixed harrow
    (signature hres (group .brace hbody h))))).congr fun o => ?_
  simp [Function.tokens, Function.front]

/-- What is written for each field, with a comma behind it. -/
theorem listed {ps : List (String × Code.Tree × FieldShape)}
    {traits : String × Code.Tree × FieldShape → List Trait}
    {text : Options → String × Code.Tree × FieldShape → Tokens}
    (h : ∀ p ∈ ps, ∀ {ts : List Trait} {f : Options → Tokens}, Framed q ts 0 f →
      Framed q (traits p ++ ts) 0 fun o => text o p ++ (comma ++ f o)) :
    Framed q (ps.flatMap traits) 0 fun o => Emit.listed (ps.map (text o)) := by
  induction ps with
  | nil => exact nil
  | cons p ps ih =>
    obtain ⟨hp, hps⟩ := List.forall_mem_cons.1 h
    refine (hp (ih hps)).congr fun o => ?_
    simp only [Emit.listed, List.map_cons, List.flatMap_cons, List.append_assoc]

theorem comma (h : Framed q ts n f) : Framed q ts n fun o => Emit.comma ++ f o :=
  h.fixed (by decide)

theorem build {fields : Options → List Initializer}
    (h : Framed q ts 0 fun o => Emit.listed ((fields o).map Initializer.tokens)) :
    Framed q ts 0 fun o => (Body.build (fields o)).tokens := by
  have hbody := (group .brace h nil).own (t := .ident "Self") (by decide)
  rwa [List.append_nil] at hbody

theorem initializers (d : Direction) : Framed q (q.fields.flatMap fun p => d.traits p.2.2) 0 fun o =>
    (Body.build (q.names.initializers d o.runtime)).tokens := by
  have hfields : Framed q (q.fields.flatMap fun p => d.traits p.2.2) 0 fun o =>
      Emit.listed (q.fields.map fun p => (initializerOf d o.runtime p.2.2 p.1).tokens) := by
    refine listed fun p hp {ts f} h => ?_
    have hx := Parts.mem_identifiers hp
    refine (name hx (own (t := .punct ':' false) (by decide)
      (converted d p.2.2 hx h.comma))).congr fun o => ?_
    simp only [initializerOf, Initializer.tokens, Tokens.word, List.append_assoc, List.cons_append,
      List.nil_append]
    rfl
  refine build (hfields.congr fun o => ?_)
  simp only [Names.initializers, Parts.names, List.map_map, Function.comp_def]

end Framed

/-! ## Items -/

namespace Framed

variable {f g : Options → Tokens}

/-- The transfer type, behind the place for the visibility. -/
theorem transfer (h : Framed q ts n f) :
    Framed q ts (n + 1) fun o => (q.struct o.visibility).tokens ++ f o := by
  have hfields : Framed q (q.fields.flatMap fun _ => []) 0 fun _ =>
      Emit.listed (q.fields.map fun p => Tokens.word "pub" ++ Tokens.word p.1 ++ Tokens.sign ":" ++
        p.2.1.tokens) := by
    refine listed fun p hp {ts f} h => ?_
    refine (own (t := .ident "pub") (by decide) (name (Parts.mem_identifiers hp)
      (own (t := .punct ':' false) (by decide) (type hp h)))).congr fun o => ?_
    simp only [List.append_assoc]
    rfl
  rw [List.flatMap_eq_nil_iff.2 fun _ _ => rfl] at hfields
  have hnotes : areFixed ([Note.doc (String.ofList
      (Text.quoteLiteral ("Transfer representation of [`" ++ q.title ++ "`].").toList)),
      .derive ["Debug", "Clone", "PartialEq"]].flatMap Note.tokens) = true := rfl
  refine (fixed hnotes (struct (group .brace hfields h))).congr fun o => ?_
  simp [Parts.struct, Item.tokens, Tokens.word, Function.comp_def]

/-- The inputs of the transfer type's constructor. -/
theorem inputs {ps : List (String × Code.Tree × FieldShape)} (hps : ∀ p ∈ ps, p ∈ q.fields) :
    Framed q [] 0 fun _ => separated ((ps.map fun p =>
      Input.variable p.1 (.written p.2.1)).map Input.tokens) := by
  induction ps with
  | nil => exact nil
  | cons p ps ih =>
    obtain ⟨hp, hps⟩ := List.forall_mem_cons.1 hps
    have hx := Parts.mem_identifiers hp
    cases ps with
    | nil => exact name hx (own (t := .punct ':' false) (by decide) (lastType hp))
    | cons p' ps =>
      refine (name hx (own (t := .punct ':' false) (by decide) (type hp (ih hps)))).congr fun o => ?_
      simp only [List.map_cons, separated, Input.tokens, SignatureType.tokens, List.append_assoc]
      rfl

theorem new (h : Framed q ts n f) : Framed q ts n fun o => q.new.tokens ++ f o := by
  have hfields : Framed q (q.fields.flatMap fun _ => []) 0 fun _ =>
      Emit.listed ((q.fields.map fun p => (⟨p.1, none⟩ : Initializer)).map Initializer.tokens) := by
    simp only [List.map_map, Function.comp_def, Initializer.tokens]
    exact listed fun p hp {ts f} h => name (Parts.mem_identifiers hp) h.comma
  rw [List.flatMap_eq_nil_iff.2 fun _ _ => rfl] at hfields
  have hnew := function [.doc "r\" Creates a transfer value from all of its fields.\"",
      .allow [["clippy", "too_many_arguments"], ["clippy", "new_without_default"]], .mustUse]
    true "new" .self rfl (inputs fun _ => id) trivial (build hfields) nil
  refine (own (t := .ident "impl") (by decide) (name Parts.transfer_mem
    (group .brace hnew h))).congr fun o => ?_
  simp [Parts.new, Item.tokens, Tokens.word]

/-- The call of a function of the model itself. -/
theorem inherent (hw : isOwnWord w = true) (hx : isOwnWord x = true) :
    Framed q [] 0 fun _ =>
      (Body.expr (.call (.inherent q.model w) (.variable x))).tokens := by
  have hargument : Framed q [] 0 fun _ => Tokens.word x := own (t := .ident x) hx nil
  refine (name Parts.model_mem (inPath hw (group .paren hargument nil))).congr fun o => ?_
  simp [Body.tokens, Expr.tokens, FunctionName.tokens, path, Tokens.word]

theorem qualified (hw : isOwnWord w = true) (hx : isOwnWord x = true) :
    Framed q [.dto] 0 fun o =>
      (Body.expr (.call (.qualified q.transfer ⟨o.runtime, .dto⟩ w) (.variable x))).tokens := by
  have hargument : Framed q [] 0 fun _ => Tokens.word x := own (t := .ident x) hx nil
  refine (own (t := .punct '<' false) (by decide) (name Parts.transfer_mem (own (t := .ident "as")
    (by decide) (reference .dto (own (t := .punct '>' false) (by decide)
      (inPath hw (group .paren hargument nil))))))).congr fun o => ?_
  simp [Body.tokens, Expr.tokens, FunctionName.tokens, Tokens.word]
  rfl

theorem self : Framed q [] 0 fun _ => separated ([Input.self].map Input.tokens) :=
  own (t := .punct '&' false) rfl (own (t := .ident "self") rfl nil)

/-- The link of the transfer type to the model: it refers to the trait that it is for, and to the other
one wherever it converts a field. -/
theorem link (h : Framed q ts n f) :
    Framed q (.dto :: ((q.fields.flatMap fun p => Direction.traits .toTransfer p.2.2) ++ ts)) n
      fun o => (q.names.link o.runtime).tokens ++ f o := by
  have hto : Framed q [] 0 _ := function [] false "to_model" (.named q.model) rfl self
    Parts.model_mem (inherent (w := "from_dto") (x := "self") rfl rfl) nil
  have hfrom := function [Names.conversionNote] false "from_model" .self rfl
    (input "model" (.borrowed q.model) rfl Parts.model_mem) trivial (initializers .toTransfer) hto
  have hbody := related "Model" (own (t := .punct '=' false) rfl (name Parts.model_mem
    (own (t := .punct ';' false) rfl hfrom)))
  rw [List.append_nil (q.fields.flatMap _)] at hbody
  refine (own (t := .ident "impl") rfl (reference .dto (own (t := .ident "for") rfl
    (name Parts.transfer_mem (group .brace hbody h))))).congr fun o => ?_
  simp [Names.link, Item.tokens, Tokens.word, Parts.names]
  rfl

/-- The constructor of the model. -/
theorem constructor (h : Framed q ts n f) :
    Framed q ((q.fields.flatMap fun p => Direction.traits .toModel p.2.2) ++ ts) n
      fun o => (q.names.constructor o.runtime).tokens ++ f o := by
  have hfrom := function [.doc "r\" Rebuilds a model value from its transfer representation.\"",
      Names.conversionNote, .mustUse] true "from_dto" .self rfl
    (input "dto" (.borrowed q.transfer) rfl Parts.transfer_mem) trivial (initializers .toModel) nil
  rw [List.append_nil (q.fields.flatMap _)] at hfrom
  refine (own (t := .ident "impl") rfl (name Parts.model_mem
    (group .brace hfrom h))).congr fun o => ?_
  simp [Names.constructor, Item.tokens, Tokens.word, Parts.names]

/-- The link of the model to the transfer type. -/
theorem conformance (h : Framed q ts n f) : Framed q (.convertible :: .dto :: ts) n fun o =>
    (q.names.conformance o.runtime).tokens ++ f o := by
  have hfrom := function [] false "from_dto" .self rfl
    (input "dto" (.borrowed q.transfer) rfl Parts.transfer_mem) trivial
    (inherent (w := "from_dto") (x := "dto") rfl rfl) nil
  have hto := function [] false "to_dto" (.named q.transfer) rfl self Parts.transfer_mem
    (qualified (w := "from_model") (x := "self") rfl rfl) hfrom
  have hbody := related "Dto" (own (t := .punct '=' false) rfl (name Parts.transfer_mem
    (own (t := .punct ';' false) rfl hto)))
  refine (own (t := .ident "impl") rfl (reference .convertible (own (t := .ident "for") rfl
    (name Parts.model_mem (group .brace hbody h))))).congr fun o => ?_
  simp [Names.conformance, Item.tokens, Tokens.word, Parts.names]
  rfl

/-- The places in the code for a model, in order: the head of the link, the fields in both directions,
and the head and the call of the conformance. -/
theorem pair (q : Parts) : Framed q
    (.dto :: ((q.fields.flatMap fun p => Direction.traits .toTransfer p.2.2) ++
      ((q.fields.flatMap fun p => Direction.traits .toModel p.2.2) ++ [.convertible, .dto]))) 1
    fun o => (q.pair o).tokens := by
  refine (transfer (new (link (constructor (conformance nil))))).congr fun o => ?_
  simp [Pair.tokens, Pair.items, Pair.transferItems, Pair.modelItems, itemTokens, Parts.pair]

end Framed

/-! ## The default path -/

/-- The tokens stand one behind the other in a stream, or in a group of it. -/
inductive Occurs (pattern : Tokens) : Tokens → Prop
  | here {xs : Tokens} (h : pattern <:+: xs) : Occurs pattern xs
  | inside {xs : Tokens} {d : Delimiter} {body : Tokens} (hm : Token.group d body ∈ xs)
      (h : Occurs pattern body) : Occurs pattern xs

theorem tokens_defaultRuntime :
    defaultRuntime.tokens = [.punct ':' true, .punct ':' false, .ident "dtogen"] := rfl

variable {xs ys : Tokens}

theorem not_occurs_nil : ¬Occurs defaultRuntime.tokens [] := by
  intro h
  cases h with
  | here h => exact absurd (List.infix_nil.1 h) (by decide)
  | inside hm => cases hm

theorem wordsIn_of_occurs (h : Occurs defaultRuntime.tokens xs) : "dtogen" ∈ Token.wordsIn xs := by
  induction h with
  | here h =>
    obtain ⟨s, t, rfl⟩ := h
    simp [Token.wordsIn_append, tokens_defaultRuntime, Token.wordsIn, Token.words]
  | @inside ts d body hm _ ih =>
    obtain ⟨s, t, rfl⟩ := List.append_of_mem hm
    simp [Token.wordsIn_append, Token.wordsIn, Token.words, ih]

/-- The path does not begin with any other token. -/
theorem occurs_of_cons (ht : t ≠ .punct ':' true) (h : Occurs defaultRuntime.tokens (t :: xs)) :
    Occurs defaultRuntime.tokens xs ∨ ∃ d body, t = .group d body ∧
      Occurs defaultRuntime.tokens body := by
  cases h with
  | here h =>
    rcases List.infix_cons_iff.1 h with h | h
    · rw [tokens_defaultRuntime, List.cons_prefix_cons] at h
      exact absurd h.1.symm ht
    · exact .inl (.here h)
  | @inside _ d body hm h =>
    rcases List.mem_cons.1 hm with rfl | hm
    · exact .inr ⟨d, body, rfl, h⟩
    · exact .inl (.inside hm h)

theorem occurs_of_own (ht : isOwn t = true) (h : Occurs defaultRuntime.tokens (t :: xs)) :
    Occurs defaultRuntime.tokens xs := by
  refine (occurs_of_cons ?_ h).resolve_right ?_
  · rintro rfl
    cases ht
  · rintro ⟨d, body, rfl, -⟩
    cases ht

theorem occurs_of_word (h : Occurs defaultRuntime.tokens (.ident x :: xs)) :
    Occurs defaultRuntime.tokens xs :=
  (occurs_of_cons (by simp) h).resolve_right (by simp)

/-- A path of another word is not the default one. -/
theorem occurs_of_sign (hw : x ≠ "dtogen")
    (h : Occurs defaultRuntime.tokens (Tokens.sign "::" ++ .ident x :: xs)) :
    Occurs defaultRuntime.tokens xs := by
  have hcolons : Tokens.sign "::" = [.punct ':' true, .punct ':' false] := by decide
  rw [hcolons] at h
  have hrest : Occurs defaultRuntime.tokens (.punct ':' false :: .ident x :: xs) := by
    cases h with
    | here h =>
      rcases List.infix_cons_iff.1 h with h | h
      · simp [tokens_defaultRuntime, List.cons_prefix_cons, Ne.symm hw] at h
      · exact .here h
    | inside hm h => exact .inside (by simpa using hm) h
  exact occurs_of_word (occurs_of_own rfl hrest)

/-- Where the second stream does not begin with the end of the path, the path is in one of both. -/
theorem occurs_of_append (hcolon : ys.head? ≠ some (.punct ':' false))
    (hword : ys.head? ≠ some (.ident "dtogen")) (h : Occurs defaultRuntime.tokens (xs ++ ys)) :
    Occurs defaultRuntime.tokens xs ∨ Occurs defaultRuntime.tokens ys := by
  cases h with
  | inside hm h =>
    rcases List.mem_append.1 hm with hm | hm
    · exact .inl (.inside hm h)
    · exact .inr (.inside hm h)
  | here h =>
    induction xs with
    | nil => exact .inr (.here h)
    | cons a xs ih =>
      rw [List.cons_append] at h
      rcases List.infix_cons_iff.1 h with hp | h
      · left
        rw [tokens_defaultRuntime, List.cons_prefix_cons] at hp
        obtain ⟨rfl, hp⟩ := hp
        rcases xs with _ | ⟨b, _ | ⟨c, xs⟩⟩
        · obtain ⟨zs, rfl⟩ := hp
          exact absurd rfl hcolon
        · rw [List.cons_append, List.cons_prefix_cons] at hp
          obtain ⟨zs, rfl⟩ := hp.2
          exact absurd rfl hword
        · rw [List.cons_append, List.cons_append, List.cons_prefix_cons, List.cons_prefix_cons] at hp
          obtain ⟨rfl, rfl, -⟩ := hp
          exact .here ⟨[], xs, rfl⟩
      · rcases ih h with h | h
        · cases h with
          | here h => exact .inl (.here (List.infix_cons h))
          | inside hm h => exact .inl (.inside (List.mem_cons_of_mem _ hm) h)
        · exact .inr h

/-- The default path is nowhere in the code for a model unless it is in an option or in a type. -/
theorem Placed.not_occurs {ss : List Stencil} {o : Options} (h : Placed q ts n ss)
    (hr : ¬Occurs defaultRuntime.tokens o.runtime.tokens)
    (hv : ¬Occurs defaultRuntime.tokens o.visibility.tokens)
    (ht : ∀ p ∈ q.fields, ¬Occurs defaultRuntime.tokens p.2.1.tokens) :
    ¬Occurs defaultRuntime.tokens (fillAll o ss) := by
  have hne : ∀ {w : String}, isOwnWord w = true → w ≠ "dtogen" := by
    rintro w hw rfl
    revert hw
    decide
  induction h with
  | nil => exact not_occurs_nil
  | own h _ ih => exact fun ho => ih (occurs_of_own h ho)
  | name _ _ ih => exact fun ho => ih (occurs_of_word ho)
  | inPath hw _ ih =>
    rw [fillAll_plain_append, List.append_assoc]
    exact fun ho => ih (occurs_of_sign (hne hw) ho)
  | related w _ ih =>
    rw [fillAll_plain_append]
    exact fun ho => ih (occurs_of_word (occurs_of_word ho))
  | reference t _ ih =>
    rw [fillAll, fillAll_plain_append, List.append_assoc]
    intro ho
    rcases occurs_of_append (by rintro ⟨⟩) (by rintro ⟨⟩) ho with ho | ho
    · exact hr ho
    · exact ih (occurs_of_sign (by cases t <;> decide) ho)
  | struct _ ih =>
    rw [fillAll, fillAll_plain_append]
    intro ho
    rcases occurs_of_append (by rintro ⟨⟩) (by simp [Tokens.word]) ho with ho | ho
    · exact hv ho
    · exact ih (occurs_of_word (occurs_of_word ho))
  | type hf _ ih =>
    rw [fillAll_plain_append, List.append_assoc]
    intro ho
    rcases occurs_of_append (by rintro ⟨⟩) (by rintro ⟨⟩) ho with ho | ho
    · exact ht _ hf ho
    · exact ih (occurs_of_own rfl ho)
  | lastType hf =>
    rw [fillAll_plain_append, fillAll, List.append_nil]
    exact ht _ hf
  | group d _ _ ihb ih =>
    intro ho
    rcases occurs_of_cons (by simp) ho with ho | ⟨_, _, heq, ho⟩
    · exact ih ho
    · cases heq
      exact ihb ho

/-! ## Options -/

theorem flatMap_traits (d : Direction) (ps : List (String × Code.Tree × FieldShape)) :
    (ps.flatMap fun p => d.traits p.2.2) =
      List.replicate (ps.countP fun p => p.2.2.isConvertible) d.trait := by
  induction ps with
  | nil => rfl
  | cons p ps ih =>
    rw [List.flatMap_cons, ih, Direction.traits, List.countP_cons]
    cases p.2.2.isConvertible <;> simp [List.replicate_succ]

theorem countP_parts {x : Extracted} (h : parts x = .ok q) :
    (q.fields.countP fun p => p.2.2.isConvertible) = x.classified.countP (·.isConvertible) := by
  obtain ⟨-, -, -, hf⟩ := parts_eq_ok.1 h
  rw [Extracted.classified, List.countP_map]
  clear h
  generalize x.fields = fs, q.fields = ps at hf ⊢
  induction hf with
  | nil => rfl
  | cons h _ ih => rw [List.countP_cons, List.countP_cons, ih, ← h.2.2]; rfl

/-- The options of generation are filled into one stencil. Whether a model has code, and why it has
none, does not depend on them. The runtime stands in front of each trait and nowhere else: once for the
link, once for each converted field in either direction, and twice for the conformance. The visibility
stands once, in front of the transfer type. The default path of the runtime is in the code only where
an option or the type of a field has it. -/
theorem expand_stencil (x : Extracted) :
    (∃ e, ∀ o, (expand x o).result = .error e) ∨
    ∃ q ss, parts x = .ok q ∧
      (let converted := x.classified.countP (·.isConvertible)
       Placed q (.dto :: (List.replicate converted .convertible ++
         (List.replicate converted .dto ++ [.convertible, .dto]))) 1 ss) ∧
      (∀ o, ∃ p, (expand x o).result = .ok p ∧ p.tokens = fillAll o ss) ∧
      ∀ o, ¬Occurs defaultRuntime.tokens o.runtime.tokens →
        ¬Occurs defaultRuntime.tokens o.visibility.tokens →
        (∀ f ∈ q.fields, ¬Occurs defaultRuntime.tokens f.2.1.tokens) →
        ¬Occurs defaultRuntime.tokens (fillAll o ss) := by
  cases h : parts x with
  | error e =>
    refine .inl ⟨e, fun o => ?_⟩
    rw [expand_result, pairOf, h]
    rfl
  | ok q =>
    obtain ⟨ss, hs, hfill⟩ := Framed.pair q
    rw [flatMap_traits, flatMap_traits, countP_parts h] at hs
    exact .inr ⟨q, ss, rfl, hs, fun o => ⟨q.pair o, expand_eq_ok.2 ⟨q, h, rfl⟩, (hfill o).symm⟩,
      fun o hr hv ht => hs.not_occurs hr hv ht⟩

/-- An order with a number and its lines. -/
def order : Extracted :=
  ⟨"Order", [⟨"id", "u64"⟩, ⟨"lines", "[Line]"⟩], NestedNames.ofList ["Line"]⟩

/-- Private code for a runtime in the crate itself. -/
def inCrate : Options :=
  ⟨.node .path [.node .segment [Code.Tree.word "crate"], .sign "::",
    .node .segment [Code.Tree.word "wire"]], .node .visibility []⟩

theorem expand_stencil_of_order : ∃ q ss,
    Placed q [.dto, .convertible, .dto, .convertible, .dto] 1 ss ∧
    (∃ p, (expand order .default).result = .ok p ∧ p.tokens = fillAll .default ss) ∧
    ∃ p, (expand order inCrate).result = .ok p ∧ p.tokens = fillAll inCrate ss ∧
      ¬Occurs defaultRuntime.tokens p.tokens := by
  rcases expand_stencil order with ⟨e, he⟩ | ⟨q, ss, hq, hs, hfill, hpath⟩
  · obtain ⟨p, hp⟩ := exists_eq_ok (x := (expand order .default).result) (by decide +kernel)
    rw [he] at hp
    cases hp
  · have hconverted : order.classified.countP (·.isConvertible) = 1 := by decide +kernel
    rw [hconverted] at hs
    have htypes : ((parts order).toOption.all fun q => q.fields.all fun f =>
        !(Token.wordsIn f.2.1.tokens).contains "dtogen") = true := by decide +kernel
    rw [hq] at htypes
    have hnone : ∀ f ∈ q.fields, "dtogen" ∉ Token.wordsIn f.2.1.tokens := by
      simpa [Except.toOption] using htypes
    obtain ⟨p, hp, hpfill⟩ := hfill inCrate
    refine ⟨q, ss, hs, hfill .default, p, hp, hpfill, hpfill ▸ hpath inCrate ?_ ?_ ?_⟩
    · exact fun h => absurd (wordsIn_of_occurs h) (by decide)
    · exact fun h => absurd (wordsIn_of_occurs h) (by decide)
    · exact fun f hf h => hnone f hf (wordsIn_of_occurs h)

end Courier.Emit
