import Courier.Proofs.Code.Enclosed

/-!
What the grammar reads as a struct. No other item is read as one.
-/
namespace Courier.Code

namespace Parser
open Code.Tree hiding none

variable {p : Parser Tree} {P : Tree → Prop}

theorem gives_eqWord (w : String) : Gives (· = .word w) (word w) := by
  refine (gives_word? w).bind fun o ho => ?_
  cases o with
  | none => exact gives_missing _
  | some t => exact gives_pure (ho t rfl)

theorem gives_someWord : Gives (fun t => ∃ w, t = .word w) anyIdent := by
  intro ts a r hr
  simp only [anyIdent, StateT.run_bind, StateT.run_get, pure_bind] at hr
  split at hr <;> cases hr
  exact ⟨_, rfl⟩

theorem gives_name : Gives (fun t => ∃ w, t = .word w ∧ Tokens.isIdent w) ident := by
  intro ts a r hr
  simp only [ident, StateT.run_bind, StateT.run_get, pure_bind] at hr
  split at hr
  · split at hr <;> cases hr
    exact ⟨_, rfl, ‹_›⟩
  · cases hr

theorem Gives.group {α : Type} {P : α → Prop} {p : Parser α} (d : Delimiter) (h : Gives P p) :
    Gives P (group d p) := by
  intro ts a r hr
  simp only [Parser.group, StateT.run_bind, StateT.run_get, pure_bind] at hr
  split at hr
  · split at hr
    · obtain ⟨⟨b, left⟩, hb, hr⟩ := bind_eq_ok.1 hr
      cases hr
      exact gives_liftM_all h _ _ _ hb
    · cases hr
  · cases hr

theorem Gives.grouped {P : List Tree → Prop} {p : Parser (List Tree)} (d : Delimiter)
    (h : Gives P p) : Gives (fun t => ∃ ts, t = .group d ts ∧ P ts) (grouped d p) :=
  (h.group d).bind fun ts hts => gives_pure ⟨ts, rfl, hts⟩

theorem Gives.separated (sep : String) (h : Gives P p) :
    Gives (fun ts => ∀ t ∈ ts, P t ∨ t = .sign sep) (separated sep p) := by
  refine .iterate (fun ts us hts hus => List.forall_mem_append.2 ⟨hts, hus⟩) (.then fun b => .ite ?_ ?_)
  · exact gives_pure (List.forall_mem_nil _)
  refine h.bind fun t ht => .then fun b => ?_
  refine .ite (gives_pure (List.forall_mem_singleton.2 (.inl ht))) ((gives_sign sep).bind fun s hs => ?_)
  exact gives_pure (List.forall_mem_cons.2 ⟨.inl ht, List.forall_mem_singleton.2 (.inr hs)⟩)

end Parser

namespace Grammar
open Code.Parser
open Code.Tree hiding none

/-- A field with a name. An underscore is read as a name too. -/
inductive IsField : Tree → Prop
  | mk (attributes visibility colon type : Tree) (name : String) :
    IsField (.node .field [attributes, visibility, .word name, colon, type])

/-- Generic parameters between angle brackets, or none. -/
def IsParameters (t : Tree) : Prop := t = Tree.none ∨ ∃ ps, t = .node .parameters ps

/-- A struct: with named fields, with fields by position, or without fields. -/
inductive IsStruct : Tree → Prop
  | named {attributes visibility parameters requirements : Tree} {name : String} {fields : List Tree}
      (hn : Tokens.isIdent name) (hp : IsParameters parameters)
      (hf : ∀ t ∈ fields, IsField t ∨ t = .sign ",") :
      IsStruct (.node .structItem [attributes, visibility, .word "struct", .word name, parameters,
        requirements, .node .fields [.group .brace fields], Tree.none, Tree.none])
  | tuple {attributes visibility parameters requirements later semi : Tree} {name : String}
      {fields : List Tree} (hn : Tokens.isIdent name) (hp : IsParameters parameters) :
      IsStruct (.node .structItem [attributes, visibility, .word "struct", .word name, parameters,
        requirements, .node .fields [.group .paren fields], later, semi])
  | unit {attributes visibility parameters requirements semi : Tree} {name : String}
      (hn : Tokens.isIdent name) (hp : IsParameters parameters) :
      IsStruct (.node .structItem [attributes, visibility, .word "struct", .word name, parameters,
        requirements, Tree.none, Tree.none, semi])

/-- The tree is a struct as it is read, or another item. -/
def Shaped (t : Tree) : Prop := ∀ ps, t = .node .structItem ps → IsStruct t

variable {g : Grammar} {attributes visibility modifier : Tree} {start : Tokens}

theorem shaped_node {k : Kind} (hk : k ≠ .structItem) (ps : List Tree) : Shaped (.node k ps) := by
  intro qs h
  cases h
  exact absurd rfl hk

theorem gives_node {k : Kind} (hk : k ≠ .structItem) (ps : List Tree) :
    Gives Shaped (pure (.node k ps)) :=
  gives_pure (shaped_node hk ps)

/-! ## Other items -/

theorem verbatim_shaped : Gives Shaped (verbatim start) :=
  .then fun _ => gives_node (by decide) _

theorem functionRest_shaped {safe : Bool} :
    Gives Shaped (g.functionRest attributes visibility modifier safe) := by
  refine .then fun _ => .then fun semi => ?_
  cases semi <;> exact .then fun _ => gives_node (by decide) _

theorem constRest_shaped : Gives Shaped (g.constRest attributes visibility modifier) := by
  refine .then fun _ => .then fun _ => .then fun _ => .then fun _ => .then fun _ => .then fun mark => ?_
  cases mark <;> repeat refine .then fun _ => ?_
  all_goals exact gives_node (by decide) _

theorem typeRest_shaped {before after : Bool} :
    Gives Shaped (g.typeRest attributes visibility modifier before after) := by
  refine .then fun _ => .then fun _ => .then fun _ => .then fun colon => ?_
  cases colon with
  | none =>
    refine .then fun _ => .then fun _ => .then fun mark => ?_
    cases mark <;> repeat refine .then fun _ => ?_
    all_goals exact gives_node (by decide) _
  | some =>
    refine .then fun _ => .then fun _ => .then fun _ => .then fun mark => ?_
    cases mark <;> repeat refine .then fun _ => ?_
    all_goals exact gives_node (by decide) _

theorem staticRest_shaped : Gives Shaped (g.staticRest start attributes visibility) := by
  refine .then fun _ => .then fun _ => .then fun _ => .then fun mark => ?_
  cases mark with
  | some => exact .then fun _ => .then fun _ => verbatim_shaped
  | none =>
    refine .then fun _ => .then fun _ => .then fun semi => ?_
    cases semi with
    | some => exact verbatim_shaped
    | none => exact .then fun _ => .then fun _ => .then fun _ => gives_node (by decide) _

theorem macroItem_shaped {named : Bool} : Gives Shaped (macroItem attributes named) := by
  refine .then fun _ => .then fun _ => .then fun ts => .ite ?_ ?_
  all_goals
    refine .then fun name => .then fun body => .ite ?_ ?_
    all_goals repeat refine .then fun _ => ?_
    all_goals exact gives_node (by decide) _

theorem enumRest_shaped : Gives Shaped (g.enumRest attributes visibility) :=
  .then fun _ => .then fun _ => .then fun _ => .then fun _ => .then fun _ => gives_node (by decide) _

theorem unionRest_shaped : Gives Shaped (g.unionRest attributes visibility) :=
  .then fun _ => .then fun _ => .then fun _ => .then fun _ => .then fun _ => gives_node (by decide) _

theorem traitRest_shaped : Gives Shaped (g.traitRest attributes visibility) := by
  refine .then fun _ => .then fun _ => .then fun _ => .then fun _ => .then fun _ =>
    .then fun _ => .ite ?_ ?_
  · exact .then fun _ => .then fun _ => .then fun _ => .then fun _ => gives_node (by decide) _
  · refine .then fun colon => ?_
    cases colon <;> repeat refine .then fun _ => ?_
    all_goals exact gives_node (by decide) _

theorem moduleRest_shaped : Gives Shaped (g.moduleRest attributes visibility) := by
  refine .then fun _ => .then fun _ => .then fun _ => .then fun semi => ?_
  cases semi <;> exact .then fun _ => gives_node (by decide) _

theorem externCrateRest_shaped : Gives Shaped (externCrateRest attributes visibility) := by
  refine .then fun _ => .then fun _ => .then fun _ => .ite ?_ ?_
  all_goals
    refine .then fun _ => .then fun renamed => ?_
    cases renamed <;> repeat refine .then fun _ => ?_
    all_goals exact gives_node (by decide) _

theorem foreignRest_shaped : Gives Shaped (g.foreignRest attributes) := by
  refine .then fun _ => .then fun _ => .ite ?_ ?_
  all_goals repeat refine .then fun _ => ?_
  all_goals exact gives_node (by decide) _

theorem macroDeclaration_shaped : Gives Shaped (macroDeclaration start) := by
  have body : Gives Shaped (sees (Tokens.startsGroup .brace) >>= fun b =>
      if b then delimited >>= fun _ => verbatim start else missing "curly braces") :=
    .then fun _ => .ite (.then fun _ => verbatim_shaped) (gives_missing _)
  refine .then fun _ => .then fun _ => .then fun _ => .ite ?_ ?_
  · exact .then fun _ => body
  · exact body

theorem gives_someNode {k : Kind} (hk : k ≠ .structItem) (ps : List Tree) :
    Gives (fun o => ∀ t ∈ o, Shaped t) (pure (some (.node k ps))) := by
  refine gives_pure fun t ht => ?_
  cases ht
  exact shaped_node hk ps

theorem implRest_shaped : Gives (fun o => ∀ t ∈ o, Shaped t) (g.implRest attributes) := by
  refine .then fun _ => .then fun _ => .then fun _ => .then fun _ => .then fun _ => .then fun _ =>
    .then fun _ => .ite ?_ ?_
  all_goals repeat refine .then fun _ => ?_
  all_goals refine .ite ?_ ?_
  all_goals
    refine .then fun _ => .then fun _ => .then fun trait => ?_
    cases trait <;> repeat refine .then fun _ => ?_
    all_goals exact .ite (gives_pure nofun) (gives_someNode (by decide) _)

theorem useRest_shaped : Gives (fun o => ∀ t ∈ o, Shaped t) (g.useRest attributes visibility) :=
  .then fun _ => .then fun _ => .then fun _ => .then fun _ =>
    .ite (gives_pure nofun) (gives_someNode (by decide) _)

/-! ## Structs -/

theorem namedField_gives : Gives IsField g.namedField := by
  have hname : Gives (fun t => ∃ w, t = .word w) nameOrBlank :=
    .then fun _ => .ite gives_someWord (gives_name.mono fun _ ⟨w, hw, _⟩ => ⟨w, hw⟩)
  refine .then fun _ => .then fun _ => .then fun blank => hname.bind fun name hn => ?_
  obtain ⟨w, rfl⟩ := hn
  refine .then fun _ => .then fun _ => .ite ?_ ?_
  all_goals repeat refine .then fun _ => ?_
  all_goals exact gives_pure (.mk ..)

theorem namedFields_gives : Gives (fun t => ∃ fields : List Tree,
    t = .node .fields [.group .brace fields] ∧ ∀ f ∈ fields, IsField f ∨ f = .sign ",") g.namedFields := by
  refine ((namedField_gives.separated ",").grouped .brace).bind fun t ht => ?_
  obtain ⟨fields, rfl, hf⟩ := ht
  exact gives_pure ⟨fields, rfl, hf⟩

theorem plainFields_gives : Gives (fun t => ∃ fields : List Tree,
    t = .node .fields [.group .paren fields]) g.plainFields := by
  have hany : Gives (fun _ => True) (separated "," g.plainField) := fun _ _ _ _ => trivial
  refine (hany.grouped .paren).bind fun t ht => ?_
  obtain ⟨fields, rfl, -⟩ := ht
  exact gives_pure ⟨fields, rfl⟩

theorem parameters_gives : Gives IsParameters g.parameters := by
  refine .then fun opening => ?_
  cases opening with
  | none => exact gives_pure (.inl rfl)
  | some => exact .then fun _ => .then fun _ => .ite (gives_pure (.inr ⟨_, rfl⟩)) (gives_pure (.inr ⟨_, rfl⟩))

theorem structRest_shaped : Gives Shaped (g.structRest attributes visibility) := by
  refine (gives_eqWord "struct").bind fun _ hw => gives_name.bind fun _ hn => ?_
  obtain ⟨name, rfl, hn⟩ := hn
  subst hw
  refine parameters_gives.bind fun parameters hp => .then fun _ => .then fun _ => .then fun _ =>
    .ite ?_ (.ite ?_ ?_)
  · refine plainFields_gives.bind fun _ hf => .then fun _ => .then fun _ => gives_pure fun _ _ => ?_
    obtain ⟨fields, rfl⟩ := hf
    exact .tuple hn hp
  · refine namedFields_gives.bind fun _ hf => gives_pure fun _ _ => ?_
    obtain ⟨fields, rfl, hf⟩ := hf
    exact .named hn hp hf
  · exact .then fun _ => gives_pure fun _ _ => .unit hn hp

/-! ## All items -/

theorem orVerbatim_shaped (o : Option Tree) : (∀ t ∈ o, Shaped t) →
    Gives Shaped (match o with
      | some t => pure t
      | none => verbatim start) := by
  cases o with
  | none => exact fun _ => verbatim_shaped
  | some t => exact fun h => gives_pure (h t rfl)

theorem itemRest_shaped : Gives Shaped (g.itemRest start attributes) := by
  refine .then fun front => .then fun visibility => .then fun ts => .ite ?_ (.ite ?_ (.ite ?_ (.ite ?_
    (.ite ?_ (.ite ?_ (.ite ?_ (.ite ?_ (.ite ?_ (.ite ?_ (.ite ?_ (.ite ?_ (.ite ?_ (.ite ?_ (.ite ?_
    ?_))))))))))))))
  · exact functionRest_shaped.bind fun f hf => .ite (gives_pure hf) verbatim_shaped
  · exact .ite externCrateRest_shaped (.then fun _ => foreignRest_shaped)
  · exact useRest_shaped.bind orVerbatim_shaped
  · exact staticRest_shaped
  · exact constRest_shaped.bind fun c hc => .ite (gives_pure hc) verbatim_shaped
  · refine .ite traitRest_shaped (.ite ?_ (.ite ?_ (.ite moduleRest_shaped (gives_missing _))))
    · exact .then fun _ => implRest_shaped.bind orVerbatim_shaped
    · exact .then fun _ => foreignRest_shaped
  · exact moduleRest_shaped
  · exact typeRest_shaped.bind fun t ht => .ite (gives_pure ht) verbatim_shaped
  · exact structRest_shaped
  · exact enumRest_shaped
  · exact unionRest_shaped
  · exact traitRest_shaped
  · exact .then fun _ => implRest_shaped.bind orVerbatim_shaped
  · exact macroDeclaration_shaped
  · exact macroItem_shaped
  · exact gives_missing _

theorem shaped_of_parseItem {ts : Tokens} {item : Tree} (h : parseItem ts = .ok item) :
    Shaped item := by
  have hg : Gives Shaped (Grammar.ofTokens ts).item := .then fun _ => .then fun _ => itemRest_shaped
  exact hg.all h

end Grammar

end Courier.Code
