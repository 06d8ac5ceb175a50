import Courier.Proofs.Code.Suffix
import Courier.Proofs.Emit.Items
import Courier.Proofs.Generation.Pairs

/-!
Generated code makes up a file. Names are identifiers, and paths and types are what they were read
as, so each is read again at the places to which the code takes it.
-/
namespace Courier.Emit
open Code Code.Tokens Code.Grammar

variable {n : Nat} {name : String} {p : PlainPath} {f : FunctionName} {e : Expr} {q : Parts}

/-! ## Conversions -/

theorem startsWord_source (d : Direction) (name : String) (after : Tokens) :
    startsWord "raw" ((Expr.field (.variable d.source) name).tokens ++ after) = false := by
  cases d <;> simp [Expr.tokens, Tokens.word, Direction.source]

theorem converted_plain (shape : FieldShape) (hf : f.Plain) (he : e.Plain true)
    (hr : ∀ after, startsWord "raw" (e.tokens ++ after) = false) :
    (converted shape f e).Plain false ∧ (converted shape f e).depth ≤ e.depth + 21 := by
  cases shape with
  | scalar => exact ⟨.method he (by decide), by simp [converted, Expr.depth]⟩
  | direct => exact ⟨.call hf (.borrow he hr), by simp [converted, Expr.depth]⟩
  | optional => exact ⟨.map (.method he (by decide)) hf, by simp [converted, Expr.depth]⟩
  | array =>
    exact ⟨.method (.map (.method he (by decide)) hf) (by decide), by simp [converted, Expr.depth]⟩
  | optionalArray =>
    refine ⟨.mapEach (.method he (by decide)) (by decide) ?_, by simp [converted, Expr.depth]⟩
    exact .method (.map (.method (.named (by decide)) (by decide)) hf) (by decide)

theorem convert_plain (hp : p.Free) (d : Direction) : (d.convert p.tree).Plain := by
  cases d <;> exact .ofTrait hp (by decide)

theorem initializerOf_plain (hp : p.Free) (d : Direction) (shape : FieldShape)
    (hn : isIdent name = true) : (initializerOf d p.tree shape name).Plain := by
  refine ⟨hn, fun v hv => ?_⟩
  cases hv
  have hsource : isPathWord d.source = true := by cases d <;> decide
  obtain ⟨hplain, hdepth⟩ := converted_plain shape (convert_plain hp d)
    (.field (.named hsource) hn) (startsWord_source d name)
  exact ⟨hplain, by simpa [Expr.depth] using hdepth.trans (by simp [Expr.depth])⟩

/-! ## The code of a model -/

/-- Names are identifiers, and the types of fields are read. -/
structure Parts.Plain (n : Nat) (q : Parts) : Prop where
  model : isIdent q.model = true
  transfer : isIdent q.transfer = true
  fields : ∀ f ∈ q.fields, isIdent f.1 = true ∧ ReadsType n f.2.1

theorem Parts.Plain.struct (h : q.Plain n) : (q.struct publicVisibility).Plain n := by
  refine .struct h.transfer fun f hf => ?_
  obtain ⟨g, hg, rfl⟩ := List.mem_map.1 hf
  exact h.fields g hg

theorem Parts.Plain.new (h : q.Plain n) : q.new.Plain n := by
  refine .impl (by simp) h.transfer (by simp) ?_
  rw [List.forall_mem_singleton]
  refine ⟨show isIdent "new" = true by decide, .inr fun i hi => ?_, .self, .build fun i hi => ?_⟩
  · obtain ⟨g, hg, rfl⟩ := List.mem_map.1 hi
    obtain ⟨hn, ht⟩ := h.fields g hg
    exact .variable hn (.written ht)
  · obtain ⟨g, hg, rfl⟩ := List.mem_map.1 hi
    exact ⟨(h.fields g hg).1, by simp⟩

/-- All initializers of a conversion are read. -/
theorem Parts.Plain.build (h : q.Plain n) (hp : p.Free) (d : Direction) :
    (Body.build (q.names.initializers d p.tree)).Plain := by
  refine .build fun i hi => ?_
  obtain ⟨g, hg, rfl⟩ := List.mem_map.1 hi
  obtain ⟨k, hk, rfl⟩ := List.mem_map.1 hg
  exact initializerOf_plain hp d k.2.2 (h.fields k hk).1

theorem Parts.Plain.link (h : q.Plain n) (hp : p.Free) : (q.names.link p.tree).Plain n := by
  refine .impl ?_ h.transfer ?_ ?_
  · rintro t ht
    cases ht
    exact ⟨p, hp, rfl⟩
  · rintro r hr
    cases hr
    exact ⟨show isIdent "Model" = true by decide, h.model⟩
  · rw [List.forall_mem_cons, List.forall_mem_singleton]
    refine ⟨⟨show isIdent "from_model" = true by decide, .inr ?_, .self, h.build hp .toTransfer⟩,
      ⟨show isIdent "to_model" = true by decide, .inl rfl, .named h.model,
        .inherent h.model (by decide) (by decide)⟩⟩
    rw [List.forall_mem_singleton]
    exact .variable (by decide) (.borrowed h.model)

theorem Parts.Plain.constructor (h : q.Plain n) (hp : p.Free) :
    (q.names.constructor p.tree).Plain n := by
  refine .impl (by simp) h.model (by simp) ?_
  rw [List.forall_mem_singleton]
  refine ⟨show isIdent "from_dto" = true by decide, .inr ?_, .self, h.build hp .toModel⟩
  rw [List.forall_mem_singleton]
  exact .variable (by decide) (.borrowed h.transfer)

theorem Parts.Plain.conformance (h : q.Plain n) (hp : p.Free) :
    (q.names.conformance p.tree).Plain n := by
  refine .impl ?_ h.model ?_ ?_
  · rintro t ht
    cases ht
    exact ⟨p, hp, rfl⟩
  · rintro r hr
    cases hr
    exact ⟨show isIdent "Dto" = true by decide, h.transfer⟩
  · rw [List.forall_mem_cons, List.forall_mem_singleton]
    refine ⟨⟨show isIdent "to_dto" = true by decide, .inl rfl, .named h.transfer,
        .qualified h.transfer hp (by decide) (by decide)⟩,
      ⟨show isIdent "from_dto" = true by decide, .inr ?_, .self,
        .inherent h.model (by decide) (by decide)⟩⟩
    rw [List.forall_mem_singleton]
    exact .variable (by decide) (.borrowed h.transfer)

theorem Parts.Plain.items (h : q.Plain n) (hp : p.Free) :
    ∀ i ∈ (q.pair (.public p.tree)).items, i.Plain n := by
  intro i hi
  rcases List.mem_append.1 hi with hi | hi
  · simp only [Pair.transferItems, List.mem_cons, List.not_mem_nil, or_false] at hi
    rcases hi with rfl | rfl | rfl
    · exact h.struct
    · exact h.new
    · exact h.link hp
  · simp only [Pair.modelItems, List.mem_cons, List.not_mem_nil, or_false] at hi
    rcases hi with rfl | rfl
    · exact h.constructor hp
    · exact h.conformance hp

/-! ## Depth -/

theorem weightList_le_flatMap {α : Type} {g : α → Tokens} {as : List α} {a : α} (h : a ∈ as) :
    Token.weightList (g a) ≤ Token.weightList (as.flatMap g) := by
  obtain ⟨before, after, rfl⟩ := List.append_of_mem h
  rw [List.flatMap_append, List.flatMap_cons, weightList_append, weightList_append]
  omega

theorem four_le_weight (i : Item) : 4 ≤ Token.weightList i.tokens := by
  cases i with
  | struct =>
    simp only [Item.tokens, weightList_append, Token.weightList, Token.weight, Tokens.word]
    omega
  | impl trait =>
    cases trait <;>
      simp only [Item.tokens, weightList_append, Token.weightList, Token.weight, Tokens.word] <;> omega

theorem weight_field_lt {notes : List Note} {visibility : Code.Tree}
    {fields : List (String × Code.Tree)} {f : String × Code.Tree} (h : f ∈ fields) :
    Token.weightList f.2.tokens < Token.weightList (Item.struct notes visibility name fields).tokens := by
  have hfield : ∀ ts : List Tokens, ∀ t ∈ ts, Token.weightList t ≤ Token.weightList (listed ts) := by
    intro ts t ht
    have hle := weightList_le_flatMap (g := (· ++ comma)) ht
    rw [weightList_append] at hle
    exact (Nat.le_add_right ..).trans hle
  have hmem : Tokens.word "pub" ++ Tokens.word f.1 ++ Tokens.sign ":" ++ f.2.tokens ∈
      fields.map fun f => Tokens.word "pub" ++ Tokens.word f.1 ++ Tokens.sign ":" ++ f.2.tokens :=
    List.mem_map_of_mem h
  have hlisted := hfield _ _ hmem
  rw [weightList_append] at hlisted
  simp only [Item.tokens, weightList_append, Token.weightList, Token.weight]
  omega

theorem Parts.weight_lt_struct (q : Parts) {f : String × Code.Tree × FieldShape} (h : f ∈ q.fields)
    (visibility : Code.Tree) :
    Token.weightList f.2.1.tokens < Token.weightList (q.struct visibility).tokens :=
  weight_field_lt (List.mem_map_of_mem (f := fun f => (f.1, f.2.1)) h)

end Courier.Emit

namespace Courier
open Code Emit

variable {s : Schema} {c : Config} {x : Extracted} {q : Parts} {n : Nat}

/-- The types of all fields of transfer types, once printed, are types again. -/
def Schema.TypesRead (s : Schema) : Prop :=
  ∀ m ∈ s.models, ∀ x ∈ (extract m.declaration m.arguments).result.toOption, ∀ y ∈ x.classified,
    ∀ t ∈ (fieldType y.field.name y.transferText).toOption, (parseType t.tokens).isOk = true

instance : Decidable s.TypesRead :=
  inferInstanceAs (Decidable (∀ m ∈ s.models,
    ∀ x ∈ (extract m.declaration m.arguments).result.toOption, ∀ y ∈ x.classified,
      ∀ t ∈ (fieldType y.field.name y.transferText).toOption, (parseType t.tokens).isOk = true))

/-- The path of the runtime is made of plain names. -/
def Config.PlainRuntime (c : Config) : Prop :=
  ∃ p : PlainPath, p.Free ∧ runtimePath c.runtime = .ok p.tree

theorem Emit.parts_plain (h : parts x = .ok q)
    (ht : ∀ y ∈ x.classified, ∀ t ∈ (fieldType y.field.name y.transferText).toOption,
      (parseType t.tokens).isOk = true)
    (hn : ∀ f ∈ q.fields, 8 * Token.weightList f.2.1.tokens + 16 ≤ n) : q.Plain n := by
  have hident : ∀ {text name : String}, identifier? text = some name → Tokens.isIdent name = true :=
    fun h => (lex_of_identifier? h).2
  obtain ⟨-, hm, htr, hf⟩ := parts_eq_ok.1 h
  refine ⟨hident hm, hident htr, fun g hg => ?_⟩
  obtain ⟨f, hfx, hname, htype, -⟩ := forall₂_mem_right hf g hg
  have hread := ht _ (List.mem_map_of_mem hfx) g.2.1 (by rw [classify_field, htype]; rfl)
  obtain ⟨u, hu⟩ := exists_eq_ok hread
  exact ⟨hident hname, readsType_of_parseType hu (hn _ hg)⟩

theorem length_flatMap_items (ps : List Pair) : (ps.flatMap Pair.items).length = 5 * ps.length := by
  have hpair : ps.map (fun p => p.items.length) = ps.map fun _ => 5 :=
    List.map_congr_left fun _ _ => rfl
  rw [List.length_flatMap, hpair, List.map_const', List.sum_replicate_nat, Nat.mul_comm]

/-- Where the path of the runtime is plain and the types of fields are types again, the code of all
models makes up a file, in which each model has five items. -/
theorem Schema.parseFile_of_generateTokens {ts : Tokens} (hr : c.PlainRuntime) (ht : s.TypesRead)
    (h : (s.generateTokens c).result = .ok ts) :
    ∃ items, parseFile ts = .ok items ∧ items.length = 5 * s.models.length := by
  obtain ⟨p, hp, hpath⟩ := hr
  obtain ⟨ps, hps, rfl⟩ := Schema.generateTokens_eq_ok.1 h
  obtain ⟨path, xs, hpath', hx, hpairs⟩ := Schema.generatePairs_eq_ok.1 hps
  obtain rfl := Except.ok.inj (hpath.symm.trans hpath')
  obtain ⟨-, hxs, -⟩ := Schema.extractModels_eq_ok.1 hx
  rw [hxs.length_eq, hpairs.length_eq, ← length_flatMap_items]
  cases ps with
  | nil => exact ⟨_, rfl, rfl⟩
  | cons first rest =>
    have htokens : (first :: rest).flatMap Pair.tokens =
        itemTokens ((first :: rest).flatMap Pair.items) := by
      rw [itemTokens, List.flatMap_assoc]
      rfl
    rw [htokens]
    refine parseFile_itemTokens (n := 8 * Token.weightList
      (itemTokens ((first :: rest).flatMap Pair.items)) + 15) ?_ (Nat.le_refl _) ?_
    · intro i hi
      obtain ⟨pair, hpair, hi⟩ := List.mem_flatMap.1 hi
      obtain ⟨x, hxm, q, hq, rfl⟩ := forall₂_mem_right hpairs pair hpair
      obtain ⟨m, hm, hext⟩ := forall₂_mem_right hxs x hxm
      refine Parts.Plain.items (parts_plain hq (ht m hm x (by rw [hext]; rfl)) fun f hf => ?_) hp i hi
      have hlt := q.weight_lt_struct hf publicVisibility
      have hmem : q.struct publicVisibility ∈ (first :: rest).flatMap Pair.items :=
        List.mem_flatMap.2 ⟨_, hpair, List.mem_cons_self ..⟩
      have hle := weightList_le_flatMap (g := Item.tokens) hmem
      rw [itemTokens]
      omega
    · have hfirst := four_le_weight first.transfer
      have hsecond := four_le_weight first.new
      simp only [List.flatMap_cons, Pair.items, Pair.transferItems, itemTokens, List.cons_append,
        Grammar.weightList_append]
      omega

/-- Where the path of the runtime is plain and the types of fields are types again, generation
succeeds as soon as there are tokens: it fails only as these do. -/
theorem generate_parses (hr : c.PlainRuntime) (ht : s.TypesRead) :
    (∀ ts, (s.generateTokens c).result = .ok ts → ∃ items, parseFile ts = .ok items ∧
      (s.generate c).result = .ok (s.header ++ formatFile items)) ∧
    ∀ e, (s.generate c).result = .error e ↔ (s.generateTokens c).result = .error e := by
  have hok : ∀ ts, (s.generateTokens c).result = .ok ts → ∃ items, parseFile ts = .ok items ∧
      (s.generate c).result = .ok (s.header ++ formatFile items) := by
    intro ts h
    obtain ⟨items, hitems, -⟩ := Schema.parseFile_of_generateTokens hr ht h
    exact ⟨items, hitems, Schema.generate_eq_ok.2 ⟨ts, items, h, hitems, rfl⟩⟩
  refine ⟨hok, fun e => ?_⟩
  cases h : (s.generateTokens c).result with
  | error e' =>
    rw [Schema.generate, Traced.result_bind, h]
    change (Except.error e' : Except GenerateError String) = .error e ↔ _
    simp only [Except.error.injEq]
  | ok ts =>
    obtain ⟨items, -, hg⟩ := hok ts h
    rw [hg]
    exact iff_of_false (by simp) (by simp)

/-- A tree of parts of any type, with spare ones. -/
def machine : Schema :=
  ⟨"", [⟨⟨.struct, "Machine", [.stored "parts" (some "Option<Vec<Part>>"), .stored "key" (some "[u8; 4]")]⟩,
      [⟨some "nestedDTOs", .list [.text "Part"]⟩]⟩,
    ⟨⟨.struct, "Part", [.stored "spare" (some "Part?"), .stored "make" (some "fn(&str) -> dyn Any")]⟩,
      [⟨some "nestedDTOs", .list [.text "Part"]⟩]⟩]⟩

theorem generate_parses_of_machine :
    ∃ text, (machine.generate ⟨"crate::wire", true⟩).result = .ok text := by
  have hr : Config.PlainRuntime ⟨"crate::wire", true⟩ :=
    ⟨⟨false, "crate", ["wire"]⟩, ⟨by decide, .inr (by decide)⟩, by decide +kernel⟩
  obtain ⟨ts, h⟩ := exists_eq_ok
    (x := (machine.generateTokens ⟨"crate::wire", true⟩).result) (by decide +kernel)
  obtain ⟨items, -, hg⟩ := (generate_parses hr (by decide +kernel)).1 ts h
  exact ⟨_, hg⟩

/-- A runtime with arguments is a path, but not in an expression. -/
example : ((machine.generateTokens ⟨"wire<u8>", true⟩).result.isOk,
    (machine.generate ⟨"wire<u8>", true⟩).result.isOk) = (true, false) := by
  decide +kernel

end Courier
