import Courier.Proofs.Code.Reads

/-!
Types are printed as they are read. Some parts of a type are printed otherwise than they were
written: among arguments the lifetimes come first, and lifetimes that are bound for nothing are
dropped. But all of these have letters with which no type has a shape.
-/
namespace Courier.Code

namespace Grammar
open Code.Parser Tokens

/-- The types and bounds of a grammar are printed as they are read. -/
structure Faithful (g : Grammar) : Prop where
  type : ∀ plus close, Parser.Faithful (g.type plus close)
  bound : ∀ capture const, Parser.Faithful (g.bound capture const)

variable {g : Grammar} {ts : List Tree} {t : Tree} {u w : List Char}

theorem foreign_paren : Foreign Delimiter.paren.opening := foreign_of_mem (c := '(') rfl (by decide)

theorem foreign_brace : Foreign Delimiter.brace.opening := foreign_of_mem (c := '{') rfl (by decide)

theorem foreign_solid {s : String} (h : (solid s).any (fun c => !isShapeChar c) = true) :
    Foreign (solid s) := by
  obtain ⟨c, hc, hs⟩ := List.any_eq_true.1 h
  exact foreign_of_mem (by simpa using hs) hc

/-! ## Arguments -/

theorem constArgument_faithful : Parser.Faithful g.constArgument := by
  unfold constArgument
  refine .sees fun b => .ite (fun _ => ?_) fun _ => ?_
  · exact reads_literal.bind fun t u h => reads_pure (by simpa [h] using Swappable.refl _)
  refine .sees fun b => .ite (fun _ => ?_) fun _ => reads_missing _
  refine Reads.bind (R := fun u t => Foreign u ∧ Foreign t.letters) ?_ fun t u h => reads_pure ?_
  · refine (reads_grouped _ _).bind fun t u h => reads_pure ?_
    obtain ⟨body, ts, rfl, -, rfl⟩ := h
    simp only [Tree.letters_node, Tree.lettersOf_cons, Tree.lettersOf_nil, Tree.letters_group,
      List.append_nil]
    exact ⟨foreign_brace.append_right _, foreign_brace.append_right _⟩
  · simpa using h.1.swappable h.2

theorem letters_segmentOf (h : isSingleName t = true) :
    (Tree.node .segment (segmentOf t)).letters = t.letters := by
  unfold isSingleName at h
  split at h
  · simp [segmentOf]
  · cases h

theorem genericArgument_faithful (hg : g.Faithful) : Parser.Faithful g.genericArgument := by
  unfold genericArgument
  refine .look fun ts => .ite (fun _ => ?_) fun _ => .ite (fun _ => ?_) fun _ => ?_
  · exact faithful_of_eq reads_lifetime
  · exact constArgument_faithful.bind fun t u h => reads_pure (by simpa using h)
  refine (hg.type _ _).bind fun t u h => .ite (fun hs => ?_) fun _ => reads_pure (by simpa using h)
  refine (reads_sign? _).bind fun o v hv => ?_
  cases hv with
  | present =>
    have hvalue : ∀ w value, Swappable w value.letters →
        Swappable (u ++ ((Tree.sign "=").letters ++ w))
          (Tree.node .bindingArgument [.node .segment (segmentOf t), .sign "=", value]).letters :=
      fun w value hw => by simpa [letters_segmentOf hs] using h.append (hw.append_left _)
    refine .look fun ts => .ite (fun _ => ?_) fun _ => ?_
    · refine constArgument_faithful.bind fun value w hw => reads_pure ?_
      exact hvalue _ _ (by simpa using hw)
    · exact (hg.type _ _).bind fun value w hw => reads_pure (hvalue _ _ (by simpa using hw))
  | absent =>
    refine (reads_sign? _).bind fun o v hv => ?_
    cases hv with
    | absent => exact reads_pure (by simpa using h)
    | present =>
      refine Reads.bind (R := fun u ts => Swappable u (Tree.lettersOf ts)) ?_ fun ts w hw =>
        reads_pure (by simpa [letters_segmentOf hs] using h.append (hw.append_left _))
      refine FaithfulList.iterate (.sees fun b => .ite (fun _ => reads_pure (.refl _)) fun _ => ?_)
      refine (hg.bound _ _).bind fun t u ht => .sees fun b =>
        .ite (fun _ => reads_pure (by simpa using ht)) fun _ => ?_
      refine (reads_sign _).bind fun s v hs => reads_pure ?_
      obtain ⟨rfl, rfl⟩ := hs
      simpa using ht.append_right _

theorem unpair_pairs (ts : List Tree) : unpair (pairs ts) = ts := by
  fun_induction pairs ts with
  | case1 => rfl
  | case2 => rfl
  | case3 t ts ih => simpa [unpair] using ih
  | case4 t ts _ _ ih => simpa [unpair] using ih

theorem mem_pairs (h : t ∈ ts) (hs : t ≠ .sign ",") : ∃ b, (t, b) ∈ pairs ts := by
  rw [← unpair_pairs ts, unpair, List.mem_flatMap] at h
  obtain ⟨⟨u, b⟩, hp, h⟩ := h
  refine ⟨b, ?_⟩
  cases b <;> simp_all

theorem mem_of_mem_pairs {b : Bool} (h : (t, b) ∈ pairs ts) : t ∈ ts := by
  rw [← unpair_pairs ts, unpair, List.mem_flatMap]
  exact ⟨_, h, by cases b <;> simp⟩

theorem letters_subset (h : t ∈ ts) : t.letters ⊆ Tree.lettersOf ts := by
  obtain ⟨l, r, rfl⟩ := List.append_of_mem h
  simp

/-- Only lifetimes are moved, and no type with one of these has a shape. -/
theorem swappable_lifetimesFirst (ts : List Tree) :
    Swappable (Tree.lettersOf ts) (Tree.lettersOf (lifetimesFirst isLifetimeArgument ts)) := by
  by_cases h : ∃ name, .lifetime name ∈ ts
  · obtain ⟨name, hm⟩ := h
    obtain ⟨b, hb⟩ := mem_pairs hm (by simp)
    have hquote : '\'' ∈ (Tree.lifetime name).letters := by simp
    have hfirst : (.lifetime name, b) ∈ (pairs ts).filter fun p => isLifetimeArgument p.1 :=
      List.mem_filter.2 ⟨hb, rfl⟩
    have hmem : .lifetime name ∈ lifetimesFirst isLifetimeArgument ts := by
      rw [lifetimesFirst]
      refine List.mem_append_left _ (List.mem_append_left _ ?_)
      exact List.mem_flatMap.2 ⟨_, hfirst, by cases b <;> simp⟩
    exact (foreign_of_mem rfl (letters_subset hm hquote)).swappable
      (foreign_of_mem rfl (letters_subset hmem hquote))
  · have hnone : ∀ p ∈ pairs ts, isLifetimeArgument p.1 = false := by
      rintro ⟨t, b⟩ hp
      cases t with
      | lifetime name => exact absurd ⟨name, mem_of_mem_pairs hp⟩ h
      | _ => rfl
    have hfirst : (pairs ts).filter (fun p => isLifetimeArgument p.1) = [] :=
      List.filter_eq_nil_iff.2 fun p hp => by simp [hnone p hp]
    have hothers : (pairs ts).filter (fun p => !isLifetimeArgument p.1) = pairs ts :=
      List.filter_eq_self.2 fun p hp => by simp [hnone p hp]
    have hsame : lifetimesFirst isLifetimeArgument ts = ts := by
      simp [lifetimesFirst, hfirst, hothers, unpair_pairs, show unpair [] = [] from rfl]
    exact hsame.symm ▸ .refl _

theorem angleArguments_faithful (hg : g.Faithful) : Parser.Faithful g.angleArguments := by
  unfold angleArguments
  refine (reads_sign? _).bind fun lead u hlead => (reads_sign _).bind fun opening v hopening => ?_
  refine (FaithfulList.untilSign (genericArgument_faithful hg) _ _).bind fun ts w hts => ?_
  refine (reads_sign _).bind fun closing x hclosing => reads_pure ?_
  obtain ⟨rfl, rfl⟩ := hopening
  obtain ⟨rfl, rfl⟩ := hclosing
  have harguments := hts.trans (swappable_lifetimesFirst ts)
  simpa using hlead.swappable.append ((harguments.append_right _).append_left _)

/-! ## Paths -/

theorem segment_faithful (hg : g.Faithful) (inExpr : Bool) :
    Parser.Faithful (g.segment inExpr) := by
  unfold segment
  refine .look fun ts => .ite (fun _ => ?_) fun _ => ?_
  · exact reads_anyIdent.bind fun t u h => reads_pure (by simpa [h] using Swappable.refl _)
  refine .either reads_anyIdent reads_ident fun name u hname => ?_
  refine .look fun ts => .ite (fun _ => ?_) fun _ => ?_
  · refine (angleArguments_faithful hg).bind fun t v h => reads_pure ?_
    simpa [hname] using h.append_left _
  · exact reads_pure (by simpa [hname] using Swappable.refl _)

theorem pathRest_faithful (hg : g.Faithful) (inExpr : Bool) :
    FaithfulList (g.pathRest inExpr) := by
  refine .iterate (.sees fun b => .ite (fun _ => reads_pure (.refl _)) fun _ => ?_)
  refine (reads_sign _).bind fun s u hs => (segment_faithful hg inExpr).bind fun t v ht => ?_
  obtain ⟨rfl, rfl⟩ := hs
  exact reads_pure (by simpa using ht.append_left _)

theorem path_reads (hg : g.Faithful) (inExpr : Bool) : Reads (fun u t => ∃ ps, t = .node .path ps ∧
    Swappable u (Tree.lettersOf ps)) (g.path inExpr) := by
  unfold path
  refine (reads_sign? _).bind fun lead u hlead => (segment_faithful hg _).bind fun first v hv => ?_
  refine (pathRest_faithful hg _).bind fun ts w hts => reads_pure ⟨_, rfl, ?_⟩
  simpa using hlead.swappable.append (hv.append hts)

theorem path_faithful (hg : g.Faithful) (inExpr : Bool) : Parser.Faithful (g.path inExpr) := by
  refine (path_reads hg inExpr).mono fun u t h => ?_
  obtain ⟨ps, rfl, h⟩ := h
  simpa using h

theorem path_leading (hg : g.Faithful) {r : Tokens} (inExpr : Bool)
    (hs : startsSign "::" r = true) : ReadsAt r (fun u t => ∃ ps, t = .node .path ps ∧
      Foreign u ∧ Foreign (Tree.lettersOf ps)) (g.path inExpr) := by
  have hcolon : Foreign (solid "::") := foreign_solid (by decide)
  refine (readsAt_sign? hs).bind fun lead u hlead => ?_
  refine (segment_faithful hg _).takes.bind fun first v => ?_
  refine (pathRest_faithful hg _).takes.bind fun ts w => reads_pure ⟨_, rfl, ?_⟩
  obtain ⟨rfl, rfl⟩ := hlead
  simp only [Option.toList_some, List.singleton_append, Tree.lettersOf_cons, Tree.letters_sign]
  exact ⟨hcolon.append_right _, hcolon.append_right _⟩

/-- A path into a type, behind the type. -/
theorem qualifiedRest_foreign (hg : g.Faithful) (inExpr : Bool) (front : List Tree) :
    ReadsForeign (do
      let closing ← sign ">"
      let separator ← sign "::"
      let first ← g.segment inExpr
      let others ← iterate do
        match ← sign? "::" with
        | none => return ([], false)
        | some s => return ([s, ← g.segment inExpr], true)
      return .node .qualified (front ++ [closing, separator, first] ++ others)) := by
  have hcolon : Foreign (solid "::") := foreign_solid (by decide)
  refine (reads_sign _).bind fun closing u hclosing => (reads_sign _).bind fun separator v hv => ?_
  obtain ⟨rfl, rfl⟩ := hv
  refine (segment_faithful hg _).takes.bind fun first w => ?_
  refine Reads.bind (R := fun _ _ => True) ?_ fun others x _ => reads_pure ⟨?_, ?_⟩
  · refine Takes.iterate ((reads_sign? _).takes.bind fun o w => ?_)
    cases o with
    | none => exact takes_pure _
    | some s => exact (segment_faithful hg _).takes.bind fun _ _ => takes_pure _
  · rw [Tree.letters_sign]
    exact (hcolon.append_right _).append_left _
  · simp only [Tree.letters_node, Tree.lettersOf_append, Tree.lettersOf_cons, Tree.letters_sign,
      List.append_assoc]
    exact ((hcolon.append_right _).append_left _).append_left _

theorem qualifiedPath_reads (hg : g.Faithful) (inExpr : Bool) : Reads (fun u t =>
    Swappable u t.letters ∧ (t.isKind .qualified = true → Foreign u)) (g.qualifiedPath inExpr) := by
  unfold qualifiedPath
  refine (reads_sign? _).bind fun o u ho => ?_
  cases o with
  | none =>
    cases ho
    refine (path_reads hg inExpr).mono fun v t h => ?_
    obtain ⟨ps, rfl, h⟩ := h
    exact ⟨by simpa using h, by simp [Tree.isKind, Tree.kind?]⟩
  | some opening =>
    have hrest := fun front => (qualifiedRest_foreign hg inExpr front).mono
      (S := fun v t => ∀ u, Swappable (u ++ v) t.letters ∧
        (t.isKind .qualified = true → Foreign (u ++ v)))
      fun v t h u => ⟨(h.1.append_left u).swappable h.2, fun _ => h.1.append_left u⟩
    refine (hg.type _ _).takes.bind fun self v => (reads_word? _).takes.bind fun o w => ?_
    cases o with
    | none => exact (hrest _).mono fun x t h => by simpa using h (u ++ (v ++ w))
    | some as =>
      refine (path_faithful hg false).takes.bind fun path x => ?_
      exact (hrest _).mono fun y t h => by simpa using h (u ++ (v ++ (w ++ x)))

/-! ## Lifetimes that are bound -/

theorem plusList_takes {stop : Tokens → Bool} {p : Parser Tree} (h : Takes p) :
    Takes (plusList stop p) := by
  refine Takes.iterate (.sees fun b => .ite (fun _ => takes_pure _) fun _ => h.bind fun t u => ?_)
  refine (reads_sign? _).takes.bind fun o v => ?_
  cases o with
  | none => exact takes_pure _
  | some s => exact takes_pure _

theorem colonBounds_takes {stop : Tokens → Bool} {p : Parser Tree} (h : Takes p) :
    Takes (colonBounds stop p) := by
  refine (reads_sign? _).takes.bind fun o u => ?_
  cases o with
  | none => exact takes_pure _
  | some s => exact (plusList_takes h).bind fun bounds v => takes_pure _

theorem outerAttributes_takes : Takes g.outerAttributes := by
  refine Takes.iterate (.sees fun b => .ite (fun _ => ?_) fun _ => takes_pure _)
  refine Takes.bind ?_ fun t u => takes_pure _
  exact (reads_sign _).takes.bind fun s u => (reads_grouped _ _).takes.bind fun t v => takes_pure _

theorem parameter_takes (hg : g.Faithful) : Takes g.parameter := by
  unfold parameter
  refine outerAttributes_takes.bind fun attributes u => .look fun ts => .ite (fun _ => ?_) fun _ =>
    .ite (fun _ => ?_) fun _ => .ite (fun _ => ?_) fun _ => reads_missing _
  · refine reads_lifetime.takes.bind fun name v => ?_
    exact (colonBounds_takes reads_lifetime.takes).bind fun bounds w => takes_pure _
  · refine reads_anyIdent.takes.bind fun name v => ?_
    refine (colonBounds_takes (hg.bound _ _).takes).bind fun bounds w => ?_
    refine (reads_sign? _).takes.bind fun o x => ?_
    cases o with
    | none => exact takes_pure _
    | some s => exact (hg.type _ _).takes.bind fun t y => takes_pure _
  · refine (reads_word _).takes.bind fun const v => reads_ident.takes.bind fun name w => ?_
    refine (reads_sign _).takes.bind fun colon x => (hg.type _ _).takes.bind fun type y => ?_
    refine (reads_sign? _).takes.bind fun o z => ?_
    cases o with
    | none => exact takes_pure _
    | some s => exact constArgument_faithful.takes.bind fun t z' => takes_pure _

/-- The lifetimes bound in front of a type or trait, if any. -/
inductive Binds : List Char → Tree → Prop
  | absent : Binds [] Tree.none
  | bound {u : List Char} {t : Tree} (absent : isAbsent t = false) (foreign : Foreign u)
    (printed : Foreign t.letters) : Binds u t

theorem Binds.swappable (h : Binds u t) : Swappable u t.letters := by
  cases h with
  | absent => exact .refl _
  | bound _ hu ht => exact hu.swappable ht

theorem reads_binder (hg : g.Faithful) : Reads Binds g.binder := by
  unfold binder
  refine (reads_word _).bind fun for' u hfor => (reads_sign _).bind fun opening v hopening => ?_
  refine (Takes.untilSign (parameter_takes hg) _ _).bind fun ps w => ?_
  refine (reads_sign _).takes.bind fun closing x => reads_pure ?_
  obtain ⟨rfl, rfl⟩ := hfor
  obtain ⟨rfl, rfl⟩ := hopening
  have hbinder : Foreign (solid "for" ++ solid "<") := foreign_for
  refine .bound rfl ?_ ?_
  all_goals
    simp only [Tree.letters_node, Tree.lettersOf_append, Tree.lettersOf_cons, Tree.letters_word,
      Tree.letters_sign, List.cons_append, ← List.append_assoc _ (solid "<")]
    exact hbinder.append_right _

theorem reads_when_binder (hg : g.Faithful) (b : Bool) : Reads Binds (when b g.binder) :=
  .ite (fun _ => reads_binder hg) fun _ => reads_pure .absent

/-! ## Bounds -/

theorem resultType_faithful {p : Parser Tree} (h : Parser.Faithful p) :
    Parser.Faithful (resultType p) := by
  refine (reads_sign? _).bind fun o u ho => ?_
  cases ho with
  | absent => exact reads_pure (.refl _)
  | present => exact h.bind fun t v ht => reads_pure (by simpa using ht.append_left _)

theorem callArguments_foreign (hg : g.Faithful) : ReadsForeign g.callArguments := by
  refine (reads_grouped _ _).bind fun inputs u h => ?_
  obtain ⟨body, ts, rfl, -, rfl⟩ := h
  refine (resultType_faithful (hg.type _ _)).takes.bind fun result v => reads_pure ?_
  simp only [Tree.letters_node, Tree.lettersOf_cons, Tree.letters_group, List.append_assoc]
  exact ⟨foreign_paren.append_right _, foreign_paren.append_right _⟩

theorem traitBound_faithful (hg : g.Faithful) (const : Bool) :
    Parser.Faithful (g.traitBound const) := by
  unfold traitBound
  refine .sees fun b => (reads_when_binder hg b).bind fun lifetimes u hu => .sees fun b => ?_
  extract_lets behindMark
  have hbehind : ∀ mark v, Swappable v mark.letters →
      Reads (fun w t => Swappable (u ++ (v ++ w)) t.letters) (behindMark mark) := by
    intro mark v hmark
    refine (reads_sign? _).bind fun question w hw => .sees fun b => ?_
    refine (reads_when_binder hg _).bind fun inner x hx => ?_
    refine (path_faithful hg _).bind fun path y hy => .look fun ts => ?_
    extract_lets call behindPath
    have hquestion : Swappable w (Tree.ofOption question).letters :=
      hw.letters_ofOption ▸ .refl _
    have hfront := hu.swappable.append (hmark.append (hquestion.append (hx.swappable.append hy)))
    have harguments : ∀ arguments z, Swappable z arguments.letters →
        Reads (fun z' t => Swappable (u ++ (v ++ (w ++ (x ++ (y ++ (z ++ z')))))) t.letters)
          (behindPath arguments) := by
      intro arguments z h
      refine .ite (fun _ => reads_fail_bind _ _) fun _ => reads_pure ?_
      simpa using hfront.append h
    refine .ite (fun _ => ?_) fun _ => harguments Tree.none [] (.refl _)
    -- the separator in front of the parentheses is not printed
    refine (reads_sign? _).takes.bind fun o z => ?_
    refine (callArguments_foreign hg).bind fun arguments z' h => ?_
    simpa using harguments arguments (z ++ z') ((h.1.append_left z).swappable h.2)
  refine .ite (fun _ => ?_) fun _ => ?_
  · have hconst : FaithfulList (do return [← Code.Parser.word "const"]) :=
      (reads_word _).bind fun t u ht => reads_pure (by simpa [ht] using Swappable.refl _)
    refine (hconst.grouped _).bind fun t v ht => .ite (fun _ => reads_fail_bind _ _) fun _ => ?_
    exact hbehind _ _ ht
  · refine (reads_word? _).bind fun o v ho => ?_
    cases ho with
    | absent => exact hbehind Tree.none [] (.refl _)
    | present => exact .ite (fun _ => reads_fail_bind _ _) fun _ => hbehind _ _ (.refl _)

theorem boundRule_faithful (hg : g.Faithful) (capture const : Bool) :
    Parser.Faithful (g.boundRule capture const) := by
  unfold boundRule
  refine .look fun ts => .ite (fun _ => faithful_of_eq reads_lifetime) fun _ =>
    .ite (fun _ => ?_) fun _ => .ite (fun _ => ?_) fun _ => traitBound_faithful hg const
  · refine (reads_word _).bind fun use u huse => (reads_sign _).bind fun opening v hopening => ?_
    refine (FaithfulList.untilSign ?_ _ _).bind fun names w hnames => ?_
    · exact .sees fun b => .ite (fun _ => faithful_of_eq reads_lifetime) fun _ => .sees fun b =>
        .ite (fun _ => faithful_of_eq reads_anyIdent) fun _ => faithful_of_eq reads_ident
    refine (reads_sign _).bind fun closing x hclosing => ?_
    refine .ite (fun _ => reads_fail_bind _ _) fun _ => reads_pure ?_
    obtain ⟨rfl, rfl⟩ := huse
    obtain ⟨rfl, rfl⟩ := hopening
    obtain ⟨rfl, rfl⟩ := hclosing
    simpa using ((hnames.append_right _).append_left _).append_left _
  · have hinner : FaithfulList (do return [← g.traitBound const]) :=
      (traitBound_faithful hg const).bind fun t u ht => reads_pure (by simpa using ht)
    exact (hinner.grouped _).bind fun t u ht => reads_pure (by simpa using ht)

theorem bounds_faithful (hg : g.Faithful) (plus capture const : Bool) :
    FaithfulList (g.bounds plus capture const) := by
  refine .iterate ((hg.bound _ _).bind fun b u hb => ?_)
  refine .ite (fun _ => reads_pure (by simpa using hb)) fun _ => ?_
  refine (reads_sign? _).bind fun o v ho => ?_
  cases ho with
  | absent => exact reads_pure (by simpa using hb)
  | present => exact .sees fun more => reads_pure (by simpa using hb.append_right _)

theorem traitBounds_faithful (hg : g.Faithful) (plus capture const : Bool) (complaint : String) :
    FaithfulList (g.traitBounds plus capture const complaint) :=
  (bounds_faithful hg plus capture const).bind fun bs u hbs =>
    .ite (fun _ => reads_pure (by simpa using hbs)) fun _ => reads_fail _

theorem moreBounds_step_takes (hg : g.Faithful) : Takes (do
    match ← sign? "+" with
    | none => return ([], false)
    | some s => return ([s, ← g.bound false false], true)) := by
  refine (reads_sign? _).takes.bind fun o u => ?_
  cases o with
  | none => exact takes_pure _
  | some s => exact (hg.bound _ _).takes.bind fun b v => takes_pure _

/-- Where a plus sign stands, there is one more bound. -/
theorem moreBounds_foreign (hg : g.Faithful) {r : Tokens} (hs : startsSign "+" r = true) :
    ReadsAt r (fun _ bs => Foreign (Tree.lettersOf bs)) g.moreBounds := by
  have hplus : Foreign (solid "+") := foreign_solid (by decide)
  refine ReadsAt.iterate_more (S := fun bs => Foreign (Tree.lettersOf bs)) ?_
    (moreBounds_step_takes hg) fun ts us h => ?_
  · refine (readsAt_sign? hs).bind fun o u ho => ?_
    obtain ⟨rfl, rfl⟩ := ho
    refine (hg.bound _ _).takes.bind fun b v => reads_pure ⟨rfl, ?_⟩
    simp only [Tree.lettersOf_cons, Tree.letters_sign]
    exact hplus.append_right _
  · rw [Tree.lettersOf_append]
    exact h.append_right _

/-! ## Types -/

theorem convention_faithful : FaithfulList convention := by
  refine (reads_word? _).bind fun o u ho => ?_
  cases ho with
  | absent => exact reads_pure (.refl _)
  | present =>
    intro ts x r hr
    rw [StateT.run_bind, StateT.run_get, pure_bind] at hr
    simp only at hr
    split at hr
    · rename_i text left hn
      split at hr
      · cases hr
        exact ⟨_, lettersOf_of_next? hn, by simpa [Token.letters] using Swappable.refl _⟩
      · cases hr
        exact ⟨[], rfl, by simpa using Swappable.refl _⟩
    · cases hr
      exact ⟨[], rfl, by simpa using Swappable.refl _⟩

theorem functionType_foreign (hg : g.Faithful) (lifetimes : Tree) :
    ReadsForeign (g.functionType lifetimes) := by
  unfold functionType
  refine .sees fun b => .either (reads_binder hg).takes (takes_pure lifetimes) fun _ u _ => ?_
  refine (reads_word? _).takes.bind fun o v => convention_faithful.takes.bind fun ts w => ?_
  refine (reads_word _).takes.bind fun fn x => (reads_grouped _ _).bind fun inputs y h => ?_
  obtain ⟨body, ts, rfl, -, rfl⟩ := h
  refine (resultType_faithful (hg.type _ _)).takes.bind fun result z => reads_pure ?_
  simp only [Tree.letters_node, Tree.lettersOf_cons, Tree.letters_group, List.append_assoc]
  have hparen := fun rest => foreign_paren.append_right rest
  exact ⟨((((hparen _).append_left _).append_left _).append_left _).append_left _,
    ((((hparen _).append_left _).append_left _).append_left _).append_left _⟩

theorem tokensList_addArguments {arguments : Tree} {ts ps : List Tree}
    (h : ts.getLast? = some (.node .segment ps)) :
    Tree.tokensList (addArguments arguments ts) = Tree.tokensList ts ++ arguments.tokens := by
  fun_induction addArguments arguments ts with
  | case1 => cases h
  | case2 qs => simp [Tree.tokensList, Tree.tokens, Tree.tokensList_append]
  | case3 t ts hlast ih =>
    cases ts with
    | nil =>
      cases h
      exact (hlast _ rfl rfl).elim
    | cons s ss =>
      rw [Tree.tokensList, ih (by simpa using h), ← List.append_assoc]
      rfl

theorem lettersOf_addArguments {arguments : Tree} {ps : List Tree}
    (h : ts.getLast? = some (.node .segment ps)) :
    Tree.lettersOf (addArguments arguments ts) = Tree.lettersOf ts ++ arguments.letters := by
  rw [Tree.lettersOf, tokensList_addArguments h, Token.lettersOf_append]
  rfl

theorem groupType_faithful (hg : g.Faithful) (close : Bool) :
    Parser.Faithful (g.groupType close) := by
  unfold groupType
  refine (reads_hidden (hg.type _ _)).bind fun inner u hinner => reads_rest_bind fun ts => ?_
  have hplain : Reads (fun v t => Swappable (u ++ v) t.letters)
      (pure (Tree.node .groupType [.group .hidden [inner]])) :=
    reads_pure (by simpa [Delimiter.opening, Delimiter.closing] using hinner)
  refine .ite (fun h => ?_) fun _ => .ite (fun _ => ?_) fun _ => hplain ts
  · split
    · refine (pathRest_faithful hg false).bind (fun rest v hrest => reads_pure ?_) ts
      simpa using Swappable.append (by simpa using hinner) hrest
    · rw [Bool.and_eq_true] at h
      refine (path_leading hg false h.1).bind fun path v hpath => reads_pure ?_
      obtain ⟨ps, rfl, hv, hps⟩ := hpath
      simp only [Tree.letters_node, Tree.lettersOf_cons, Tree.lettersOf_nil, Tree.parts,
        List.append_nil]
      exact (hv.append_left u).swappable (((hps.append_left _).append_left _).append_left _)
  · split
    · rename_i k ps
      split
      · rename_i hlast
        refine (angleArguments_faithful hg).bind (fun arguments v harguments => ?_) ts
        refine (pathRest_faithful hg false).bind fun rest w hrest => reads_pure ?_
        have hname : Swappable u (Tree.lettersOf ps) := by simpa using hinner
        simpa [lettersOf_addArguments hlast] using hname.append (harguments.append hrest)
      · exact reads_fail _ ts
    · exact hplain ts

theorem parenthesizedType_foreign (hg : g.Faithful) (plus : Bool) :
    ReadsForeign (g.parenthesizedType plus) := by
  intro ts x r hr
  rw [parenthesizedType, StateT.run_bind, StateT.run_get, pure_bind] at hr
  simp only at hr
  split at hr
  · rename_i body left hn
    rw [StateT.run_bind, StateT.run_set, pure_bind] at hr
    refine ReadsAt.after (R := fun u t => Foreign u ∧ Foreign t.letters)
      (lettersOf_of_next? hn) ?_ hr
    have hu : Foreign (Token.group .paren body).letters := by
      rw [Token.letters]
      exact foreign_paren.append_right _
    refine ReadsAt.mono (R := fun _ t => Foreign t.letters) ?_ fun v t ht => ⟨hu.append_right v, ht⟩
    have hgroup : ∀ k ps ts, Foreign (Tree.node k (.group .paren ps :: ts)).letters :=
      fun k ps ts => by simpa using foreign_paren.append_right _
    refine Reads.ite (fun _ => reads_pure (hgroup _ _ _)) (fun _ => .ite (fun _ => ?_) fun _ =>
      .ite (fun _ => ?_) fun _ => ?_) left
    · exact (takes_liftM _).bind fun bs v => reads_pure (hgroup _ _ _)
    · refine (takes_liftM _).bind fun b v => Takes.bind ?_ fun bs w => reads_pure ?_
      · exact (moreBounds_step_takes hg).iterate
      · simpa using foreign_paren.append_right _
    · refine (takes_liftM _).bind fun x v => .ite (fun _ => ?_) fun _ =>
        .ite (fun _ => reads_fail_bind _ _) fun _ => ?_
      · exact (takes_liftM _).bind fun others w => reads_pure (hgroup _ _ _)
      -- the parentheses around a first bound are dropped, but a plus sign follows it
      refine reads_sees_bind fun ts => .ite (fun h => ?_) fun _ => reads_pure (hgroup _ _ _) ts
      split
      · rw [Bool.and_eq_true] at h
        refine (moreBounds_foreign hg h.2).bind fun bs w hbs => reads_pure ?_
        simpa using hbs.append_left _
      · exact reads_pure (hgroup _ _ _) ts
  · cases hr

theorem namedType_reads (hg : g.Faithful) (plus : Bool) (hw : Binds w t) :
    Reads (fun u t => Swappable (w ++ u) t.letters) (g.namedType plus t) := by
  unfold namedType
  refine (qualifiedPath_reads hg _).bind fun path u hpath => ?_
  refine .ite (fun hq => reads_pure ?_) fun _ => ?_
  -- lifetimes bound for such a path are dropped
  · have hu := hpath.2 hq
    simpa using (hu.append_left w).swappable (hu.of_swappable hpath.1)
  have hbang : Foreign (solid "!") := foreign_solid (by decide)
  refine .sees fun b => .ite (fun _ => ?_) fun _ => .sees fun b => .ite (fun _ => ?_) fun ha =>
    reads_pure ?_
  · refine (reads_sign _).bind fun s v hs => reads_delimited.bind fun body x hbody => reads_pure ?_
    obtain ⟨rfl, rfl⟩ := hs
    simp only [Tree.letters_node, Tree.lettersOf_cons, Tree.letters_sign]
    exact (((hbang.append_right _).append_left u).append_left w).swappable
      ((hbang.append_right _).append_left _)
  · refine Reads.bind (R := fun v bs => Swappable v (Tree.lettersOf bs)) ?_ fun others v hothers =>
      reads_pure (by simpa using hw.swappable.append (hpath.1.append hothers))
    refine FaithfulList.iterate (.ite (fun _ => reads_pure (.refl _)) fun _ => ?_)
    refine (reads_sign? _).bind fun o v ho => ?_
    cases ho with
    | absent => exact reads_pure (.refl _)
    | present =>
      refine .sees fun b => .ite (fun _ => ?_) fun _ => reads_pure (by simpa using Swappable.refl _)
      exact (hg.bound _ _).bind fun b x hb => reads_pure (by simpa using hb.append_left _)
  · cases hw with
    | absent => simpa using hpath.1
    | bound habsent => simp [habsent] at ha

/-- What stands in square brackets: the type of the elements, and perhaps their number. -/
theorem swappable_of_elements (hg : g.Faithful) {p : Parser Tree} {body : Tokens}
    (h : all (do
      let element ← g.fullType
      match ← sign? ";" with
      | some s => return [element, s, ← p]
      | none => return [element]) body = .ok ts) :
    Swappable (Token.lettersOf body) (Tree.lettersOf ts) := by
  have hrun := run_of_all h
  rw [StateT.run_bind] at hrun
  obtain ⟨⟨element, left⟩, helement, hrun⟩ := bind_eq_ok.1 hrun
  obtain ⟨u, hu, hswap⟩ := hg.type _ _ _ _ _ helement
  rw [StateT.run_bind] at hrun
  obtain ⟨⟨o, left'⟩, hsign, hrun⟩ := bind_eq_ok.1 hrun
  obtain ⟨v, hv, ho⟩ := reads_sign? _ _ _ _ hsign
  rw [hu, hv]
  cases ho with
  | absent =>
    cases hrun
    simpa using hswap
  | present =>
    obtain ⟨⟨number, left⟩, -, hrun⟩ := bind_eq_ok.1 hrun
    cases hrun
    have hsemicolon : Foreign (solid ";") := foreign_solid (by decide)
    simp only [Tree.lettersOf_cons, Tree.letters_sign]
    exact ((hsemicolon.append_right _).append_left _).swappable
      ((hsemicolon.append_right _).append_left _)

theorem typeRule_faithful (hg : g.Faithful) (plus close : Bool) :
    Parser.Faithful (g.typeRule plus close) := by
  unfold typeRule
  refine .sees fun b => .ite (fun _ => groupType_faithful hg close) fun _ => ?_
  refine .sees fun b => (reads_when_binder hg _).bind fun lifetimes w hw => .look fun ts => ?_
  extract_lets named callable
  refine .ite (fun _ => reads_missing_bind _ _) fun hmissing => ?_
  have hforeign : ∀ {p : Parser Tree}, ReadsForeign p →
      Reads (fun v t => Swappable (w ++ v) t.letters) p :=
    fun h => h.mono fun v t h => (h.1.append_left w).swappable h.2
  refine .ite (fun _ => hforeign (parenthesizedType_foreign hg plus)) fun _ => ?_
  refine .ite (fun _ => hforeign (functionType_foreign hg lifetimes)) fun hcallable => ?_
  refine .ite (fun _ => namedType_reads hg plus hw) fun hnamed => ?_
  -- from here on no lifetimes can be bound
  obtain ⟨rfl, rfl⟩ : w = [] ∧ lifetimes = Tree.none := by
    cases hw with
    | absent => exact ⟨rfl, rfl⟩
    | bound habsent =>
      simp only [Bool.or_eq_true, not_or] at hnamed
      exact absurd (by simp [habsent, hnamed.1, hcallable]) hmissing
  change Parser.Faithful _
  refine .ite (fun _ => ?object) fun _ => .ite (fun _ => ?bracket) fun _ =>
    .ite (fun _ => ?pointer) fun _ => .ite (fun _ => ?reference) fun _ =>
    .ite (fun _ => ?never) fun _ => .ite (fun _ => ?implType) fun _ =>
    .ite (fun _ => ?infer) fun _ => .ite (fun _ => ?lifetime) fun _ => reads_fail _
  case object =>
    refine (reads_word _).bind fun dyn u hdyn => (reads_sign? _).bind fun o v ho => ?_
    obtain ⟨rfl, rfl⟩ := hdyn
    cases ho with
    | present =>
      refine (traitBounds_faithful hg _ _ _ _).bind fun bs w hbs => reads_pure ?_
      simpa using (hbs.append_left _).append_left _
    | absent =>
      refine (traitBounds_faithful hg _ _ _ _).bind fun bs w hbs => reads_pure ?_
      simpa using hbs.append_left _
  case bracket =>
    refine (reads_grouped _ _).bind fun content u h => reads_pure ?_
    obtain ⟨body, ts, rfl, ha, rfl⟩ := h
    simpa using ((swappable_of_elements hg ha).append_right _).append_left _
  case pointer =>
    refine (reads_sign _).bind fun star u hstar => (reads_word? _).bind fun o v ho => ?_
    obtain ⟨rfl, rfl⟩ := hstar
    extract_lets behindKind
    have hbehind : ∀ kind v, Swappable v kind.letters →
        Reads (fun w t => Swappable ((Tree.sign "*").letters ++ (v ++ w)) t.letters)
          (behindKind kind) := fun kind v hkind =>
      (hg.type _ _).bind fun t w ht => reads_pure (by simpa using (hkind.append ht).append_left _)
    cases ho with
    | present => exact hbehind _ _ (.refl _)
    | absent =>
      refine (reads_word? _).bind fun o v ho => ?_
      cases ho with
      | present => exact hbehind _ _ (.refl _)
      | absent => exact reads_missing_bind _ _
  case reference =>
    refine (reads_sign _).bind fun mark u hmark => ?_
    refine Reads.bind (R := fun u o => u = (Tree.ofOption o).letters) ?_ fun life v hlife => ?_
    · exact .sees fun b => .ite (fun _ => reads_lifetime.bind fun t u h =>
        reads_pure (by simpa [Tree.ofOption] using h)) fun _ => reads_pure rfl
    refine (reads_word? _).bind fun o w ho => (hg.type _ _).bind fun t x ht => reads_pure ?_
    obtain ⟨rfl, rfl⟩ := hmark
    simpa [hlife, ho.letters_ofOption] using ((ht.append_left _).append_left _).append_left _
  case never =>
    exact (reads_sign _).bind fun mark u h => reads_pure (by simpa [h] using Swappable.refl _)
  case implType =>
    refine (reads_word _).bind fun impl u himpl => ?_
    refine (traitBounds_faithful hg _ _ _ _).bind fun bs v hbs => reads_pure ?_
    simpa [himpl] using hbs.append_left _
  case infer =>
    exact (reads_word _).bind fun name u h => reads_pure (by simpa [h] using Swappable.refl _)
  case lifetime =>
    exact (traitBounds_faithful hg _ _ _ _).bind fun bs u hbs => reads_pure (by simpa using hbs)

theorem faithful_ofDepth (n : Nat) : (ofDepth n).Faithful := by
  induction n with
  | zero => exact ⟨fun _ _ => reads_throw _, fun _ _ => reads_throw _⟩
  | succ n ih => exact ⟨typeRule_faithful ih, boundRule_faithful ih⟩

end Grammar

variable {ts : Tokens} {t : Tree}

/-- A type is printed with letters that make no difference. -/
theorem swappable_of_parseType (h : parseType ts = .ok t) :
    Swappable (Token.lettersOf ts) t.letters :=
  ((Grammar.faithful_ofDepth _).type _ _).all h

/-- The shape of a text is the shape of the type that its tokens are, as this is printed, if the
text is its tokens and white space. -/
theorem shape_of_parseType {text : String} (h : parseType ts = .ok t)
    (htext : solid ts.text = solid text) : TypeShape.of? t.text = TypeShape.of? text := by
  have hsame := (swappable_of_parseType h).shapeOf
  rw [TypeShape.of?, TypeShape.of?, ← htext, Tree.text, Tokens.text, Tokens.text,
    Token.solid_textList, Token.solid_textList]
  exact hsame.symm

end Courier.Code
