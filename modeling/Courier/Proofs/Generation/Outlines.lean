import Courier.Proofs.Emit.Outline
import Courier.Proofs.Generation.Files
import Courier.Proofs.Generation.Independence

/-! The items of generated code: five for each model, in order. -/
namespace Courier
open Code Emit

variable {x : Extracted} {items : List Outline.Item}

theorem Emit.Outlines.length {o : Options} (h : Outlines x o items) : items.length = 5 := by
  obtain ⟨_, _, _, _, _, -, -, -, -, -, -, -, -, rfl⟩ := h
  rfl

theorem Emit.Options.Plain.of_path (p : PlainPath) : (Options.public p.tree).Plain :=
  ⟨⟨p, rfl⟩, [.ident "pub"], rfl⟩

/-- What a model gives is read as its items. -/
theorem Model.Gives.readAs {runtime : Code.Tree} {m : Model} {q : Pair}
    (ho : (Options.public runtime).Plain) (h : m.Gives runtime q) :
    ∃ items, Outline.ReadAs Outline.item? q.tokens items ∧ ∃ x,
      (extract m.declaration m.arguments).result = .ok x ∧ Outlines x (.public runtime) items := by
  obtain ⟨x, hx, hq⟩ := h
  obtain ⟨items, hread, hitems⟩ := readAs_pair ho (expand_eq_ok.2 hq)
  exact ⟨items, hread, x, hx, hitems⟩

/-- What models give is read as their items, one model behind the other. -/
theorem readAs_pairs {runtime : Code.Tree} {ms : List Model} {qs : List Pair}
    (ho : (Options.public runtime).Plain) (h : List.Forall₂ (Model.Gives runtime) ms qs) :
    ∃ its, Outline.ReadAs Outline.item? (qs.flatMap Pair.tokens) its.flatten ∧
      List.Forall₂ (fun m items => ∃ x, (extract m.declaration m.arguments).result = .ok x ∧
        Outlines x (.public runtime) items) ms its := by
  induction h with
  | nil => exact ⟨[], .nil, .nil⟩
  | cons hq _ ih =>
    obtain ⟨items, hread, hitems⟩ := hq.readAs ho
    obtain ⟨its, hreads, hits⟩ := ih
    exact ⟨items :: its, hread.append hreads, .cons hitems hits⟩

theorem length_flatten_outlines {o : Options} {ms : List Model} {its : List (List Outline.Item)}
    (h : List.Forall₂ (fun m items => ∃ x, (extract m.declaration m.arguments).result = .ok x ∧
      Outlines x o items) ms its) : its.flatten.length = 5 * ms.length := by
  induction h with
  | nil => rfl
  | cons hitems _ ih =>
    obtain ⟨x, -, hx⟩ := hitems
    rw [List.flatten_cons, List.length_append, ih, hx.length, List.length_cons]
    omega

/-- The code for a model is exactly five items, whose lists are those of all fields in order; the
code for a schema is these five for each model in order. Where the types of fields are types again,
a file of it has as many. -/
theorem generateTokens_outline (o : Options) (ho : o.Plain) :
    (∀ (x : Extracted) (p : Pair), (expand x o).result = .ok p →
      ∃ items, Outline.outline p.tokens = some items ∧ Outlines x o items) ∧
    ∀ (s : Schema) (c : Config) (ts : Tokens), Options.ofRuntime c.runtime = .ok o →
      (s.generateTokens c).result = .ok ts →
      (∃ its, Outline.outline ts = some its.flatten ∧ its.flatten.length = 5 * s.models.length ∧
        List.Forall₂ (fun m items => ∃ x, (extract m.declaration m.arguments).result = .ok x ∧
          Outlines x o items) s.models its) ∧
      (c.PlainRuntime → s.TypesRead →
        ∃ items, parseFile ts = .ok items ∧ items.length = 5 * s.models.length) := by
  constructor
  · intro x p h
    obtain ⟨items, hread, hitems⟩ := readAs_pair ho h
    exact ⟨items, hread.eq, hitems⟩
  · intro s c ts hc h
    refine ⟨?_, fun hr ht => Schema.parseFile_of_generateTokens hr ht h⟩
    obtain ⟨path, hpath, -, -, qs, hqs, rfl⟩ := Schema.generateTokens_eq_ok_iff.1 h
    obtain ⟨runtime, hruntime, rfl⟩ := eq_public_of_ofRuntime hc
    obtain rfl := Except.ok.inj (hruntime.symm.trans hpath)
    obtain ⟨its, hread, hits⟩ := readAs_pairs ho hqs
    exact ⟨its, hread.eq, length_flatten_outlines hits, hits⟩

/-- Types with commas and braces of their own, in a model for its crate alone. -/
def valve : Extracted :=
  ⟨"Valve", [⟨"turn", "fn(u8, [u8; { 2 }]) -> Map<u8, Part>"⟩, ⟨"parts", "Vec<Part>?"⟩],
    .ofList ["Part"]⟩

theorem generateTokens_outline_of_valve :
    (∃ o p items, (expand valve o).result = .ok p ∧ Outline.outline p.tokens = some items ∧
      Outlines valve o items) ∧
    ∃ ts its items, (machine.generateTokens ⟨"crate::wire", true⟩).result = .ok ts ∧
      Outline.outline ts = some its ∧ its.length = 10 ∧ parseFile ts = .ok items ∧
      items.length = 10 := by
  constructor
  · let o : Options := ⟨PlainPath.tree ⟨false, "crate", ["wire"]⟩,
      .node .visibility [Code.Tree.word "pub", .group .paren [Code.Tree.word "crate"]]⟩
    have ho : o.Plain := ⟨⟨_, rfl⟩, [.ident "pub", .group .paren [.ident "crate"]], by decide⟩
    obtain ⟨p, h⟩ := exists_eq_ok (x := (expand valve o).result) (by decide +kernel)
    obtain ⟨items, houtline, hitems⟩ := (generateTokens_outline o ho).1 valve p h
    exact ⟨o, p, items, h, houtline, hitems⟩
  · have hpath : runtimePath "crate::wire" = .ok (PlainPath.tree ⟨false, "crate", ["wire"]⟩) := by
      decide +kernel
    have hplain : Config.PlainRuntime ⟨"crate::wire", true⟩ :=
      ⟨⟨false, "crate", ["wire"]⟩, ⟨by decide, .inr (by decide)⟩, hpath⟩
    obtain ⟨ts, h⟩ := exists_eq_ok (x := (machine.generateTokens ⟨"crate::wire", true⟩).result)
      (by decide +kernel)
    obtain ⟨⟨its, houtline, hlength, -⟩, hfile⟩ := (generateTokens_outline _ (.of_path _)).2 machine
      ⟨"crate::wire", true⟩ ts (ofRuntime_eq_ok.2 ⟨hpath, rfl⟩) h
    obtain ⟨items, hitems, hcount⟩ := hfile hplain (by decide +kernel)
    exact ⟨ts, its.flatten, items, h, houtline, hlength, hitems, hcount⟩

end Courier
