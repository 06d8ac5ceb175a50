import Courier.Proofs.Code.Items
import Courier.Emit.Pair
import Courier.Proofs.Emit.Expressions

/-! Emitted items are read as items, as long as their types and names are. -/
namespace Courier.Emit
open Code Code.Parser Code.Tokens Code.Grammar

variable {n : Nat} {name : String} {after : Tokens}

/-! ## Types -/

theorem fullType_path {p : PlainPath} (hp : p.Free) (ha : EndsPath after) :
    (ofDepth (n + 1)).fullType.run (p.tokens ++ after) = .ok (.node .pathType [p.tree], after) :=
  (ofDepth n).typeRule_run true true hp ha

theorem readsPaths : (ofDepth (n + 1)).ReadsPaths := fun _ _ hp ha => fullType_path hp ha

theorem fullType_word (hn : isPathWord name = true) (ha : EndsPath after) :
    ∃ t, (ofDepth (n + 1)).fullType.run (.ident name :: after) = .ok (t, after) :=
  ⟨_, fullType_path (PlainPath.free_word hn) ha⟩

/-- A tree whose tokens are read as a type where a field or an input ends behind them. -/
def ReadsType (n : Nat) (t : Code.Tree) : Prop := ∃ u, ∀ after, EndsExpr after →
  (ofDepth n).fullType.run (t.tokens ++ after) = .ok (u, after)

theorem readsType_of_parseType {t u : Code.Tree} (h : parseType t.tokens = .ok u)
    (hn : 8 * Token.weightList t.tokens + 16 ≤ n) : ReadsType n t := by
  have hrun : (ofDepth n).fullType.run t.tokens = .ok (u, []) :=
    run_of_all (((ofDepth_below hn).type true true).all_eq_ok h)
  refine ⟨u, fun after ha => ?_⟩
  cases ha with
  | nil => rwa [List.append_nil]
  | @comma r => exact ((ofDepth_before r n).type true true) _ _ _ hrun

theorem fullType_borrowed (hn : isPathWord name = true) (ha : EndsPath after) :
    ∃ t, (ofDepth (n + 2)).fullType.run (.punct '&' false :: .ident name :: after) = .ok (t, after) :=
  ⟨_, typeRule_borrowed (ofDepth (n + 1)) (.word hn)
    ((ofDepth n).typeRule_run false true (PlainPath.free_word hn) ha) true true⟩

namespace SignatureType

/-- The type is read where an input or the head of a function ends. -/
inductive Plain (n : Nat) : SignatureType → Prop
  | self : Plain n .self
  | named {name : String} (hn : isIdent name = true) : Plain n (.named name)
  | borrowed {name : String} (hn : isIdent name = true) : Plain n (.borrowed name)
  | written {t : Code.Tree} (h : ReadsType n t) : Plain n (.written t)

variable {t : SignatureType}

theorem Plain.input (h : t.Plain n) (hn : 2 ≤ n) (ha : EndsExpr after) :
    ∃ u, (ofDepth n).fullType.run (t.tokens ++ after) = .ok (u, after) := by
  obtain ⟨m, rfl⟩ := Nat.exists_eq_add_of_le' hn
  have hp := (Trails.ends ha).endsPath
  cases h with
  | self => exact fullType_word (by decide) hp
  | named h => exact fullType_word (isPathWord_of_isIdent h) hp
  | borrowed h => exact fullType_borrowed (isPathWord_of_isIdent h) hp
  | written h =>
    obtain ⟨u, hu⟩ := h
    exact ⟨u, hu after ha⟩

/-- The result of an emitted function is a name. -/
inductive IsName : SignatureType → Prop
  | self : IsName .self
  | named {name : String} (hn : isIdent name = true) : IsName (.named name)

theorem IsName.result (h : t.IsName) (hn : 1 ≤ n) (body after : Tokens) :
    ∃ u, (ofDepth n).fullType.run (t.tokens ++ .group .brace body :: after) =
      .ok (u, .group .brace body :: after) := by
  obtain ⟨m, rfl⟩ := Nat.exists_eq_add_of_le' hn
  have hp : EndsPath (.group .brace body :: after) := by constructor <;> simp
  cases h with
  | self => exact fullType_word (by decide) hp
  | named h => exact fullType_word (isPathWord_of_isIdent h) hp

end SignatureType

/-! ## Inputs -/

/-- An input with a name and a type that are read. -/
inductive Input.Plain (n : Nat) : Input → Prop
  | variable {name : String} {t : SignatureType} (hn : isIdent name = true) (ht : t.Plain n) :
      Plain n (.variable name t)

/-- Inputs of a function: its receiver, or others. -/
def PlainInputs (n : Nat) (is : List Input) : Prop := is = [.self] ∨ ∀ i ∈ is, i.Plain n

theorem Input.Plain.run {i : Input} (h : i.Plain n) (hn : 2 ≤ n) (first : Bool) (ha : EndsExpr after) :
    ∃ as, ((ofDepth n).input first).run (i.tokens ++ after) =
      .ok ((as, !after.isEmpty), after.tail) := by
  obtain ⟨hname, ht⟩ := h
  obtain ⟨u, hu⟩ := ht.input hn ha
  obtain ⟨m, rfl⟩ := Nat.exists_eq_add_of_le' hn
  have hp := (ofDepth (m + 2)).input_named first hname
    ((ofDepth (m + 1)).patternRule_name hname (.inr rfl)) hu
    (beginsType_of_run hu).no_dots ha
  simpa [Input.tokens, Tokens.word, Tokens.sign, joined] using hp

theorem comma_eq : comma = [Token.comma] := by
  simp [comma, Tokens.sign, joined, Token.comma]

theorem separated_cons (t u : Tokens) (ts : List Tokens) :
    separated (t :: u :: ts) = t ++ .comma :: separated (u :: ts) := by
  change t ++ comma ++ separated (u :: ts) = _
  rw [comma_eq, List.append_assoc, List.singleton_append]

theorem moreInputs_run {is : List Input} (h : ∀ i ∈ is, i.Plain n) (hn : 2 ≤ n) :
    ∃ as, (iterate ((ofDepth n).input false)).run (separated (is.map Input.tokens)) = .ok (as, []) := by
  have hloop : ∃ as, ∀ k, Token.spanList (separated (is.map Input.tokens)) < k →
      (iterate.loop ((ofDepth n).input false) k).run (separated (is.map Input.tokens)) =
        .ok (as, []) := by
    induction is with
    | nil =>
      refine ⟨[], fun k hk => ?_⟩
      cases k with
      | zero => contradiction
      | succ k => exact loop_stop (bind_run finished_run rfl)
    | cons i is ih =>
      have hi := h i (List.mem_cons_self ..)
      cases is with
      | nil =>
        obtain ⟨as, ha⟩ := hi.run hn false .nil
        rw [List.append_nil] at ha
        refine ⟨as, fun k hk => ?_⟩
        cases k with
        | zero => contradiction
        | succ k => exact loop_stop ha
      | cons j is =>
        obtain ⟨bs, hb⟩ := ih fun i hi => h i (List.mem_cons_of_mem _ hi)
        obtain ⟨as, ha⟩ := hi.run hn false (.comma (r := separated ((j :: is).map Input.tokens)))
        refine ⟨as ++ bs, fun k hk => ?_⟩
        rw [List.map_cons, List.map_cons, separated_cons] at hk ⊢
        cases k with
        | zero => contradiction
        | succ k =>
          refine loop_more as ha (hb k ?_)
          rw [spanList_append] at hk
          simp only [Token.comma, Token.spanList, Token.span] at hk
          rw [List.map_cons]
          omega
  obtain ⟨as, h⟩ := hloop
  exact ⟨as, iterate_run h⟩

theorem inputs_run {is : List Input} (h : PlainInputs n is) (hn : 2 ≤ n) :
    ∃ as, (ofDepth n).inputs.run (separated (is.map Input.tokens)) = .ok (as, []) := by
  rcases h with rfl | h
  · exact ⟨_, bind_run (ofDepth n).input_self rfl⟩
  cases is with
  | nil => exact ⟨[], bind_run (bind_run finished_run rfl) rfl⟩
  | cons i is =>
    have hi := h i (List.mem_cons_self ..)
    cases is with
    | nil =>
      obtain ⟨as, ha⟩ := hi.run hn true .nil
      rw [List.append_nil] at ha
      exact ⟨as, bind_run ha rfl⟩
    | cons j is =>
      obtain ⟨bs, hb⟩ := moreInputs_run (fun i hi => h i (List.mem_cons_of_mem _ hi)) hn
      obtain ⟨as, ha⟩ := hi.run hn true (.comma (r := separated ((j :: is).map Input.tokens)))
      rw [List.map_cons, List.map_cons, separated_cons]
      exact ⟨as ++ bs, bind_run ha (bind_run hb rfl)⟩

/-! ## Bodies -/

/-- The value of a field is an expression that is read. -/
def Initializer.Plain (i : Initializer) : Prop :=
  isIdent i.name = true ∧ ∀ e ∈ i.value, e.Plain false ∧ e.depth ≤ 24

/-- The body of a function: a call of a function of a given type, or a struct literal. -/
inductive Body.Plain : Body → Prop
  | inherent {type name v : String} (ht : isIdent type = true) (hn : isIdent name = true)
      (hv : isPathWord v = true) : Plain (.expr (.call (.inherent type name) (.variable v)))
  | qualified {type name v : String} {p : PlainPath} {t : Trait} (ht : isIdent type = true)
      (hp : p.Free) (hn : isIdent name = true) (hv : isPathWord v = true) :
      Plain (.expr (.call (.qualified type ⟨p.tree, t⟩ name) (.variable v)))
  | build {fields : List Initializer} (h : ∀ i ∈ fields, i.Plain) : Plain (.build fields)

/-- An operand that makes up a block of its own. -/
theorem statements_of_unary {ts : Tokens} {e : Code.Tree} (hs : StartsAtom ts)
    (hi : startsItem ts = false) (hm : macroForm.run ts = .ok (.notMacro, ts))
    (hu : ((ofDepth (n + 1)).unary true).run ts = .ok (e, [])) (he : goesOn e = true)
    (hr : isRange e = false) : ∃ as, (ofDepth (n + 3)).statements.run ts = .ok (as, []) := by
  have hl : (ofDepth (n + 2)).leading.run ts = .ok (e, []) :=
    leadingRule_run (ofDepth (n + 1)) hs hu he (operatorsRule_stop (ofDepth n) hr .nil)
  exact statementsRule_run (ofDepth (n + 2)) hs hi hm hl

theorem goesOn_of_isOperand {t : Code.Tree} (h : IsOperand t) : goesOn t = true := by
  obtain ⟨k, ps, rfl, hk⟩ := h
  simp only [List.mem_cons, List.not_mem_nil, or_false] at hk
  rcases hk with rfl | rfl | rfl | rfl <;> rfl

theorem call_statements {f : FunctionName} {v : String} (hf : f.Plain) (hv : isPathWord v = true)
    (hi : startsItem (Expr.call f (.variable v)).tokens = false)
    (hm : macroForm.run (Expr.call f (.variable v)).tokens =
      .ok (.notMacro, (Expr.call f (.variable v)).tokens)) (hn : 13 ≤ n) :
    ∃ as, (ofDepth n).statements.run (Expr.call f (.variable v)).tokens = .ok (as, []) := by
  have hplain : (Expr.call f (.variable v)).Plain true := .call hf (.named hv)
  obtain ⟨t, ht, h⟩ := hplain.reads.2 rfl
  have hu := h 4 true [] (t, []) (Nat.le_refl _) (.ends .nil) (trailersRule_stop (ofDepth 3) .nil)
  have hs := hplain.starts []
  rw [List.append_nil] at hu hs
  obtain ⟨m, rfl⟩ := Nat.exists_eq_add_of_le' (show 3 ≤ n by omega)
  refine statements_of_unary hs hi hm ?_ (goesOn_of_isOperand ht) ht.isRange
  exact ((ofDepth_below (by simp [Expr.depth]; omega)).unary true).run_eq_ok hu

theorem initializers_run {fields : List Initializer} (h : ∀ i ∈ fields, i.Plain) (hn : 52 ≤ n) :
    ∃ as, (ofDepth n).fieldValues.run (listed (fields.map Initializer.tokens)) = .ok (as, []) := by
  rw [listed, comma_eq]
  refine fieldValues_run _ fun t ht => ?_
  obtain ⟨i, hi, rfl⟩ := List.mem_map.1 ht
  obtain ⟨hname, hv⟩ := h i hi
  obtain ⟨name, _ | e⟩ := i
  · exact ⟨name, [], rfl, hname, .inl rfl⟩
  · obtain ⟨he, hd⟩ := hv e rfl
    obtain ⟨value, hvalue⟩ := he.reads.1
    refine ⟨name, .punct ':' false :: e.tokens, ?_, hname, .inr ⟨e.tokens, value, rfl, fun r => ?_⟩⟩
    · simp [Initializer.tokens, Tokens.word, Tokens.sign, joined]
    · exact hvalue n _ .comma (by omega)

theorem build_statements {fields : List Initializer} (h : ∀ i ∈ fields, i.Plain) (hn : 56 ≤ n) :
    ∃ as, (ofDepth n).statements.run (Body.build fields).tokens = .ok (as, []) := by
  obtain ⟨m, rfl⟩ := Nat.exists_eq_add_of_le' (show 4 ≤ n by omega)
  obtain ⟨as, ha⟩ := initializers_run (n := m + 1) h (by omega)
  have hfree : PlainPath.Free ⟨false, "Self", []⟩ := PlainPath.free_word (by decide)
  have hu := unaryRule_run (ofDepth (m + 1)) (.path (.word (by decide)))
    ((ofDepth (m + 1)).atom_struct hfree ha) (trailersRule_stop (ofDepth m) .nil)
  exact statements_of_unary (.path (.word (by decide))) startsItem_self
    (macroForm_path [] (by decide) (by simp) (by simp)) hu rfl rfl

theorem Body.Plain.run {b : Body} (h : b.Plain) (hn : 56 ≤ n) :
    startsSign "#" b.tokens = false ∧ ∃ as, (ofDepth n).statements.run b.tokens = .ok (as, []) := by
  cases h with
  | @inherent type name v ht hfn hv =>
    have htokens : (Expr.call (.inherent type name) (.variable v)).tokens =
        .ident type :: (PlainPath.behind [name] ++ [.group .paren [.ident v]]) := by
      rw [Expr.tokens, inherent_tokens]
      rfl
    refine ⟨?_, call_statements (.inherent ht hfn) hv ?_ ?_ (by omega)⟩
    · rw [tokens, htokens]
      simp
    · rw [htokens]
      exact startsItem_path ht
    · rw [htokens]
      refine macroForm_path _ ?_ (by simp) (by simp)
      simp [isPathWord_of_isIdent ht, isPathWord_of_isIdent hfn]
  | @qualified type name v p t ht hp hfn hv =>
    have htokens : ∃ r, (Expr.call (.qualified type ⟨p.tree, t⟩ name) (.variable v)).tokens =
        .punct '<' false :: r := by
      simp [Expr.tokens, FunctionName.tokens, Tokens.sign, joined]
    obtain ⟨r, htokens⟩ := htokens
    refine ⟨?_, call_statements (.qualified ht hp hfn) hv ?_ ?_ (by omega)⟩
    · rw [tokens, htokens]
      simp
    · rw [htokens]
      exact startsItem_angle
    · rw [htokens]
      exact macroForm_angle
  | build h => exact ⟨by simp [tokens, Tokens.word], build_statements h hn⟩

/-! ## Notes and functions -/

theorem Note.reads (a : Note) : ReadsAttribute a.content := by
  have he : Tokens.sign "=" = [.punct '=' false] := by simp [Tokens.sign, joined]
  cases a with
  | doc literal =>
    rw [content, he]
    exact readsAttribute_value (by decide) literal
  | derive => exact readsAttribute_list (by decide) _
  | allow => exact readsAttribute_list (by decide) _
  | mustUse => exact readsAttribute_name (by decide)

theorem notes_tokens (ns : List Note) : ns.flatMap Note.tokens =
    (ns.map Note.content).flatMap fun c => [.punct '#' false, .group .bracket c] := by
  rw [List.flatMap_map]
  congr

/-- All names of a function are identifiers, and its types are read. -/
structure Function.Plain (n : Nat) (f : Function) : Prop where
  name : isIdent f.name = true
  inputs : PlainInputs n f.inputs
  result : f.result.IsName
  body : f.body.Plain

theorem Function.Plain.run {f : Function} (h : f.Plain n) (hn : 56 ≤ n) (after : Tokens) :
    ∃ t, (ofDepth n).implMember.run (f.tokens ++ after) = .ok (t, after) := by
  obtain ⟨is, hi⟩ := inputs_run h.inputs (by omega)
  obtain ⟨u, hu⟩ := h.result.result (by omega : 1 ≤ n) f.body.tokens after
  obtain ⟨hhash, as, hb⟩ := h.body.run hn
  obtain ⟨t, ht⟩ := (ofDepth n).implMember_function (f.notes.map Note.content) f.isPublic
    (by simpa using fun a _ => a.reads) h.name hi hu ((ofDepth n).fullBlock_run hhash hb)
  refine ⟨t, ?_⟩
  have htokens : f.tokens ++ after = (f.notes.map Note.content).flatMap
      (fun c => [.punct '#' false, .group .bracket c]) ++
        ((if f.isPublic then [.ident "pub"] else []) ++ .ident "fn" :: .ident f.name ::
          signatureEnd (separated (f.inputs.map Input.tokens))
            (f.result.tokens ++ .group .brace f.body.tokens :: after)) := by
    rw [Function.tokens, notes_tokens]
    cases f.isPublic <;>
      simp [Tokens.word, Tokens.sign, joined, signatureEnd]
  rw [htokens]
  exact ht

theorem Function.second_not_bang (f : Function) (after : Tokens) :
    startsSign "!" (skip (f.tokens ++ after)) = false := by
  rw [Function.tokens]
  cases f.notes with
  | nil => cases f.isPublic <;> simp [Tokens.word]
  | cons a as => simp [Note.tokens, Tokens.sign, joined]

/-! ## Items -/

/-- All names of an item are identifiers, its types are read, and its trait is a plain path. -/
inductive Item.Plain (n : Nat) : Item → Prop
  | struct {notes : List Note} {name : String} {fields : List (String × Code.Tree)}
      (hn : isIdent name = true) (hf : ∀ f ∈ fields, isIdent f.1 = true ∧ ReadsType n f.2) :
      Plain n (.struct notes publicVisibility name fields)
  | impl {trait : Option TraitPath} {type : String} {related : Option (String × String)}
      {functions : List Function} (htrait : ∀ t ∈ trait, ∃ p : PlainPath, p.Free ∧ t.runtime = p.tree)
      (ht : isIdent type = true) (hr : ∀ r ∈ related, isIdent r.1 = true ∧ isIdent r.2 = true)
      (hf : ∀ f ∈ functions, f.Plain n) : Plain n (.impl trait type related functions)

theorem struct_run {notes : List Note} {fields : List (String × Code.Tree)} (hname : isIdent name = true)
    (hf : ∀ f ∈ fields, isIdent f.1 = true ∧ ReadsType n f.2) (after : Tokens) :
    ∃ t, (ofDepth (n + 1)).item.run
      ((Item.struct notes publicVisibility name fields).tokens ++ after) = .ok (t, after) := by
  obtain ⟨fs, hfields⟩ : ∃ fs, (Parser.separated "," (ofDepth n).namedField).run
      (listed (fields.map fun f => Tokens.word "pub" ++ Tokens.word f.1 ++ Tokens.sign ":" ++
        f.2.tokens)) = .ok (fs, []) := by
    rw [listed, comma_eq]
    refine separated_run fun t ht => ?_
    obtain ⟨f, hmem, rfl⟩ := List.mem_map.1 ht
    obtain ⟨hn, u, hu⟩ := hf f hmem
    refine ⟨by simp [Tokens.word], fun r => ?_⟩
    obtain ⟨a, ha⟩ := (ofDepth n).namedField_run hn (hu _ (.comma (r := r)))
    refine ⟨a, ?_⟩
    simpa [Tokens.word, Tokens.sign, joined] using ha
  obtain ⟨t, ht⟩ := (ofDepth n).itemRule_struct (notes.map Note.content) after
    (by simpa using fun a _ => a.reads) hname hfields
  refine ⟨t, ?_⟩
  have htokens : (Item.struct notes publicVisibility name fields).tokens ++ after =
      (notes.map Note.content).flatMap (fun c => [.punct '#' false, .group .bracket c]) ++
        .ident "pub" :: .ident "struct" :: .ident name :: .group .brace
          (listed (fields.map fun f => Tokens.word "pub" ++ Tokens.word f.1 ++ Tokens.sign ":" ++
            f.2.tokens)) :: after := by
    have hv : publicVisibility.tokens = [.ident "pub"] := rfl
    rw [Item.tokens, notes_tokens, hv]
    simp [Tokens.word]
  rw [htokens]
  exact ht

/-- The related type of an implementation, if it gives one. -/
def relation : Option (String × String) → List Tokens
  | some (name, target) =>
    [[.ident "type", .ident name, .punct '=' false, .ident target, .punct ';' false]]
  | none => []

theorem implMembers_run {related : Option (String × String)} {functions : List Function}
    (hr : ∀ r ∈ related, isIdent r.1 = true ∧ isIdent r.2 = true)
    (hf : ∀ f ∈ functions, f.Plain n) (hn : 56 ≤ n) (after : Tokens) :
    ∃ b, ((ofDepth n).members (ofDepth n).implMember).run
      (.group .brace (relation related ++ functions.map Function.tokens).flatten :: after) =
        .ok (b, after) := by
  refine Grammar.members_run _ ?_ fun t ht => ?_
  · rcases related with _ | ⟨a, b⟩
    · cases functions with
      | nil => rfl
      | cons f fs => exact f.second_not_bang _
    · simp [relation]
  rcases List.mem_append.1 ht with ht | ht
  · obtain ⟨m, rfl⟩ := Nat.exists_eq_add_of_le' (show 1 ≤ n by omega)
    rcases related with _ | ⟨a, b⟩
    · cases ht
    obtain rfl := List.mem_singleton.1 ht
    obtain ⟨ha, hb⟩ := hr _ rfl
    refine ⟨by simp, fun r => ?_⟩
    have hend : EndsPath (.punct ';' false :: r) := by constructor <;> simp
    obtain ⟨u, hu⟩ := fullType_word (n := m) (isPathWord_of_isIdent hb) hend
    exact implMember_type (ofDepth (m + 1)) [.ident b] ha hu
  · obtain ⟨f, hmem, rfl⟩ := List.mem_map.1 ht
    refine ⟨by simp [Function.tokens, Tokens.word], (hf f hmem).run hn⟩

section
variable (type : String) (related : Option (String × String)) (functions : List Function)

theorem relation_flatten : (relation related ++ functions.map Function.tokens).flatten =
    (match related with
      | some (name, target) => Tokens.word "type" ++ Tokens.word name ++ Tokens.sign "=" ++
          Tokens.word target ++ Tokens.sign ";"
      | none => []) ++ functions.flatMap Function.tokens := by
  rcases related with _ | ⟨a, b⟩ <;>
    simp [relation, List.flatMap_def, Tokens.word, Tokens.sign, joined]

theorem own_tokens (after : Tokens) : (Item.impl none type related functions).tokens ++ after =
    .ident "impl" :: .ident type ::
      .group .brace (relation related ++ functions.map Function.tokens).flatten :: after := by
  rw [relation_flatten]
  rfl

theorem trait_tokens (p : PlainPath) (t : Trait) (after : Tokens) :
    (Item.impl (some ⟨p.tree, t⟩) type related functions).tokens ++ after =
      .ident "impl" :: ((p.append t.name).tokens ++ .ident "for" :: .ident type ::
        .group .brace (relation related ++ functions.map Function.tokens).flatten :: after) := by
  have hflat : ∀ header body : Tokens,
      Tokens.word "impl" ++ (header ++ Tokens.word "for" ++ Tokens.word type) ++
          [.group .brace body] ++ after =
        .ident "impl" :: (header ++ .ident "for" :: .ident type :: .group .brace body :: after) := by
    simp [Tokens.word]
  rw [relation_flatten, ← TraitPath.tokens_tree]
  exact hflat _ _

end

theorem Item.Plain.run {i : Item} (h : i.Plain n) (hn : 56 ≤ n) (after : Tokens) :
    ∃ t, (ofDepth (n + 1)).item.run (i.tokens ++ after) = .ok (t, after) := by
  cases h with
  | struct hname hf => exact struct_run hname hf after
  | @impl trait type related functions htrait ht hr hf =>
    obtain ⟨b, hb⟩ := implMembers_run hr hf hn after
    have hreads : (ofDepth n).ReadsPaths := by
      obtain ⟨m, rfl⟩ := Nat.exists_eq_add_of_le' (show 1 ≤ n by omega)
      exact readsPaths
    rcases trait with _ | ⟨runtime, t⟩
    · obtain ⟨t, hrest⟩ := implRest_own (ofDepth n) (.node .attributes []) ht hreads hb
      rw [own_tokens]
      exact ⟨t, itemRule_impl (ofDepth n) hrest⟩
    · obtain ⟨p, hp, hruntime⟩ := htrait _ rfl
      obtain rfl : runtime = p.tree := hruntime
      obtain ⟨t, hrest⟩ := implRest_trait (ofDepth n) (.node .attributes [])
        (hp.append (Trait.isIdent_name t)) ht hreads hb
      rw [trait_tokens]
      exact ⟨t, itemRule_impl (ofDepth n) hrest⟩

/-! ## Files -/

theorem Item.second_not_bang {i : Item} (h : i.Plain n) (after : Tokens) :
    startsSign "!" (skip (i.tokens ++ after)) = false := by
  cases h with
  | @struct notes name fields =>
    rw [Item.tokens, show publicVisibility.tokens = [.ident "pub"] from rfl]
    cases notes <;> simp [Note.tokens, Tokens.word, Tokens.sign, joined]
  | @impl trait type related functions htrait =>
    rcases trait with _ | ⟨runtime, t⟩
    · rw [own_tokens]
      simp
    · obtain ⟨p, hp, hruntime⟩ := htrait _ rfl
      obtain rfl : runtime = p.tree := hruntime
      rw [trait_tokens, skip_ident]
      have hs := (hp.append (Trait.isIdent_name t)).starts (.ident "for" :: .ident type ::
        .group .brace (relation related ++ functions.map Function.tokens).flatten :: after)
      generalize (p.append t.name).tokens ++ _ = ts at hs ⊢
      cases hs <;> simp

theorem parseFile_itemTokens {is : List Item} (h : ∀ i ∈ is, i.Plain n)
    (hn : n ≤ 8 * Token.weightList (itemTokens is) + 15) (hd : 56 ≤ n) :
    ∃ ts, parseFile (itemTokens is) = .ok ts ∧ ts.length = is.length := by
  have hdepth : n + 1 ≤ 8 * Token.weightList (itemTokens is) + 16 := by omega
  have hbegin : startsSign "!" (skip (is.map Item.tokens).flatten) = false := by
    cases is with
    | nil => rfl
    | cons i is => exact Item.second_not_bang (h i (List.mem_cons_self ..)) _
  obtain ⟨ts, hlength, hts⟩ := (ofDepth (8 * Token.weightList (itemTokens is) + 16)).file_run hbegin
    fun t ht => by
      obtain ⟨i, hi, rfl⟩ := List.mem_map.1 ht
      refine ⟨by cases i <;> simp [Item.tokens, Tokens.word], fun r => ?_⟩
      obtain ⟨t, ht⟩ := (h i hi).run hd r
      exact ⟨t, (ofDepth_below hdepth).item.run_eq_ok ht⟩
  rw [← List.flatMap_def] at hts
  exact ⟨ts, all_of_run hts, by rw [hlength, List.length_map]⟩

end Courier.Emit
