import Courier.Proofs.Code.Faithful
import Courier.Proofs.Code.Outline

/-!
Types and visibilities in an outline. Whatever a type holds beside brackets of its own, the angle
brackets in it are closed again, and a comma stands only between these: no comma cuts a type.
-/
namespace Courier.Code
open Outline

namespace Tree

/-- No comma cuts the tokens of the tree. -/
def Intact (t : Tree) : Prop := Uncut 0 t.tokens

/-- No comma cuts the tokens of the trees, which stand behind each other. -/
def IntactList (ts : List Tree) : Prop := Uncut 0 (tokensList ts)

variable {t : Tree} {ts us : List Tree} {k : Nat}

theorem uncut_tokensList (h : ∀ t ∈ ts, Uncut k t.tokens) : Uncut k (tokensList ts) := by
  induction ts with
  | nil => exact .nil
  | cons t ts ih =>
    rw [List.forall_mem_cons] at h
    exact h.1.append (ih h.2)

theorem IntactList.nil : IntactList [] := Uncut.nil

theorem IntactList.cons (h : t.Intact) (hs : IntactList ts) : IntactList (t :: ts) := Uncut.append h hs

theorem IntactList.append (h : IntactList ts) (h' : IntactList us) : IntactList (ts ++ us) := by
  rw [IntactList, tokensList_append]
  exact Uncut.append h h'

theorem Intact.one (h : t.Intact) : IntactList [t] := .cons h .nil

theorem intact_node {kind : Kind} (h : IntactList ts) : (node kind ts).Intact := h

theorem Intact.inner {kind k : Kind} (h : (node kind [node k ts]).Intact) : IntactList ts := by
  rwa [Intact, tokens, tokensList, tokensList, List.append_nil, tokens] at h

theorem intact_group (d : Delimiter) (ts : List Tree) : (group d ts).Intact := Uncut.group d _

theorem intact_word (name : String) : (word name).Intact := Uncut.ident name

theorem intact_none : none.Intact := Uncut.nil

theorem intact_lifetime (name : String) : (lifetime name).Intact :=
  (Uncut.punct (by decide) true).append (.ident name)

/-- The marks that stand outside of angle brackets. -/
def intactSigns : List String := ["+", ":", "=", "::", "?", "!", "*", "&", "#"]

theorem intact_sign {s : String} (h : s ∈ intactSigns) : (sign s).Intact := by
  have hall : (intactSigns.all fun s => (Tokens.sign s).all isInner) = true := by decide
  have hinner : Inner (Tokens.sign s) := List.all_eq_true.1 (List.all_eq_true.1 hall s h)
  exact hinner.uncut

theorem intact_arrow : (sign "->").Intact := Uncut.arrow

theorem intact_ofOption {o : Option Tree} (h : ∀ t ∈ o, t.Intact) : (ofOption o).Intact := by
  cases o with
  | none => exact intact_none
  | some t => exact h t rfl

/-- Elements between angle brackets, with commas between them. -/
theorem intactList_angle (h : ∀ t ∈ ts, Uncut 1 t.tokens) :
    IntactList (.sign "<" :: ts ++ [.sign ">"]) := by
  have htokens : tokensList (.sign "<" :: ts ++ [.sign ">"]) =
      Tokens.sign "<" ++ (tokensList ts ++ Tokens.sign ">") := by
    rw [List.cons_append, tokensList, tokensList_append, tokensList, tokensList, List.append_nil,
      tokens, tokens]
  rw [IntactList, htokens]
  exact (uncut_tokensList h).angle

end Tree

namespace Parser
open Tokens
open Code.Tree hiding none

variable {α β : Type} {p q : Parser α} {f : α → Parser β} {P Q : α → Prop} {R : β → Prop}

/-- All that the parser gives has a property, whatever it reads. -/
def Gives (P : α → Prop) (p : Parser α) : Prop := ∀ ts a r, p.run ts = .ok (a, r) → P a

theorem Gives.mono (h : Gives P p) (hPQ : ∀ a, P a → Q a) : Gives Q p :=
  fun ts a r hr => hPQ a (h ts a r hr)

theorem Gives.bind (hp : Gives P p) (hf : ∀ a, P a → Gives R (f a)) : Gives R (p >>= f) := by
  intro ts b r hr
  obtain ⟨⟨a, left⟩, ha, hb⟩ := bind_eq_ok.1 hr
  exact hf a (hp ts a left ha) left b r hb

/-- What a first parser gives does not matter. -/
theorem Gives.then (hf : ∀ a, Gives R (f a)) : Gives R (p >>= f) :=
  Gives.bind (P := fun _ => True) (fun _ _ _ _ => trivial) fun a _ => hf a

theorem gives_pure {a : α} (h : P a) : Gives P (pure a) := by
  rintro ts b r hr
  cases hr
  exact h

theorem gives_throw (e : Fault) : Gives P (throw e) := nofun

theorem gives_missing (what : String) : Gives P (missing what) := nofun

theorem Gives.ite {c : Prop} [Decidable c] (hp : Gives P p) (hq : Gives P q) :
    Gives P (if c then p else q) := by
  split
  · exact hp
  · exact hq

theorem Gives.loop {P : List Tree → Prop} {step : Parser (List Tree × Bool)}
    (happend : ∀ ts us, P ts → P us → P (ts ++ us)) (h : Gives (fun x => P x.1) step) (n : Nat) :
    Gives P (iterate.loop step n) := by
  induction n with
  | zero => exact gives_throw _
  | succ n ih =>
    refine h.bind fun x hx => ?_
    obtain ⟨ts, more⟩ := x
    cases more with
    | false => exact gives_pure hx
    | true => exact ih.bind fun us hus => gives_pure (happend _ _ hx hus)

theorem Gives.iterate {P : List Tree → Prop} {step : Parser (List Tree × Bool)}
    (happend : ∀ ts us, P ts → P us → P (ts ++ us)) (h : Gives (fun x => P x.1) step) :
    Gives P (iterate step) :=
  Gives.then fun n => h.loop happend n

theorem gives_sign? (s : String) : Gives (fun o => ∀ t ∈ o, t = .sign s) (sign? s) := by
  intro ts a r hr
  rw [sign?_run] at hr
  split at hr <;> cases hr <;> simp

theorem gives_sign (s : String) : Gives (· = .sign s) (sign s) := by
  refine (gives_sign? s).bind fun o ho => ?_
  cases o with
  | none => exact gives_throw _
  | some t => exact gives_pure (ho t rfl)

theorem gives_intactSign? {s : String} (h : s ∈ intactSigns) :
    Gives (fun o => ∀ t ∈ o, t.Intact) (sign? s) :=
  (gives_sign? s).mono fun _ ho t ht => ho t ht ▸ intact_sign h

theorem gives_intactSign {s : String} (h : s ∈ intactSigns) : Gives Intact (sign s) :=
  (gives_sign s).mono fun _ ht => ht ▸ intact_sign h

theorem gives_word? (w : String) : Gives (fun o => ∀ t ∈ o, t = .word w) (word? w) := by
  intro ts a r hr
  rw [word?_run] at hr
  split at hr
  · split at hr <;> cases hr <;> simp
  · cases hr
    simp

theorem gives_intactWord? (w : String) : Gives (fun o => ∀ t ∈ o, t.Intact) (word? w) :=
  (gives_word? w).mono fun _ ho t ht => ho t ht ▸ intact_word w

theorem gives_word (w : String) : Gives Intact (word w) := by
  refine (gives_intactWord? w).bind fun o ho => ?_
  cases o with
  | none => exact gives_missing _
  | some t => exact gives_pure (ho t rfl)

theorem gives_anyIdent : Gives Intact anyIdent := by
  intro ts a r hr
  simp only [anyIdent, StateT.run_bind, StateT.run_get, pure_bind] at hr
  split at hr <;> cases hr
  exact intact_word _

theorem gives_ident : Gives Intact ident := by
  intro ts a r hr
  simp only [ident, StateT.run_bind, StateT.run_get, pure_bind] at hr
  split at hr
  · split at hr <;> cases hr
    exact intact_word _
  · cases hr

theorem gives_lifetime : Gives Intact lifetime := by
  intro ts a r hr
  simp only [lifetime, StateT.run_bind, StateT.run_get, pure_bind] at hr
  split at hr <;> cases hr
  exact intact_lifetime _

theorem intact_literal (text : String) : (Tree.token (.literal text)).Intact := by
  rw [Intact, Tree.tokens, printed]
  split
  · exact Uncut.minus.append (.literal _)
  · exact .literal text

theorem gives_literal : Gives Intact literal := by
  intro ts a r hr
  simp only [literal, StateT.run_bind, StateT.run_get, pure_bind] at hr
  split at hr <;> cases hr
  rename_i t r h
  rw [literal?] at h
  split at h
  · cases h
    exact intact_literal _
  · split at h <;> cases h
    exact intact_word _
  · split at h
    · split at h <;> cases h
      exact intact_literal _
    · cases h
  · cases h

theorem gives_grouped (d : Delimiter) (p : Parser (List Tree)) : Gives Intact (grouped d p) :=
  Gives.then fun ts => gives_pure (intact_group d ts)

theorem gives_delimited : Gives Intact Grammar.delimited := by
  intro ts a r hr
  simp only [Grammar.delimited, StateT.run_bind, StateT.run_get, pure_bind] at hr
  split at hr <;> cases hr
  exact .group _ _

theorem Gives.all {a : α} {ts : Tokens} (h : Gives P p) (ha : all p ts = .ok a) : P a :=
  h ts a [] (run_of_all ha)

theorem gives_liftM_all {ts : Tokens} (h : Gives P p) : Gives P (liftM (all p ts) : Parser α) := by
  intro us a r hr
  cases ha : Parser.all p ts with
  | error e =>
    rw [ha] at hr
    cases hr
  | ok b =>
    rw [ha] at hr
    cases hr
    exact h.all ha

theorem gives_liftM_run {ts : Tokens} (h : Gives P p) :
    Gives (fun x => P x.1) (liftM (p.run ts) : Parser (α × Tokens)) := by
  intro us x r hr
  cases hx : p.run ts with
  | error e =>
    rw [hx] at hr
    cases hr
  | ok y =>
    rw [hx] at hr
    cases hr
    exact h _ _ _ hx

theorem gives_hidden (h : Gives P p) : Gives P (hidden p) := by
  intro ts a r hr
  simp only [hidden, StateT.run_bind, StateT.run_get, pure_bind] at hr
  split at hr
  · obtain ⟨⟨b, left⟩, hb, hr⟩ := bind_eq_ok.1 hr
    cases hr
    exact gives_liftM_all h _ _ _ hb
  · cases hr

theorem gives_when {p : Parser Tree} (b : Bool) (h : Gives Intact p) : Gives Intact (when b p) :=
  .ite h (gives_pure intact_none)

theorem Gives.iterate_intact {step : Parser (List Tree × Bool)}
    (h : Gives (fun x => IntactList x.1) step) : Gives IntactList (Parser.iterate step) :=
  .iterate (fun _ _ => .append) h

theorem gives_untilSign {p : Parser Tree} (close : String) (h : Gives Intact p) :
    Gives (fun ts => ∀ t ∈ ts, Uncut 1 t.tokens) (untilSign close "," p) := by
  refine .iterate (fun ts us hts hus => List.forall_mem_append.2 ⟨hts, hus⟩) (.then fun b => .ite ?_ ?_)
  · exact gives_pure (List.forall_mem_nil _)
  refine h.bind fun t ht => .then fun b => ?_
  have ht : Uncut 1 t.tokens := ht.mono (Nat.zero_le 1)
  refine .ite (gives_pure (List.forall_mem_singleton.2 ht)) ((gives_sign ",").bind fun s hs => ?_)
  rw [hs]
  exact gives_pure (List.forall_mem_cons.2 ⟨ht, List.forall_mem_singleton.2 (.comma false)⟩)

end Parser

namespace Grammar
open Code.Parser Tokens
open Code.Tree hiding none

/-- No comma cuts the types and bounds of a grammar. -/
structure Intact (g : Grammar) : Prop where
  type : ∀ plus close, Gives Tree.Intact (g.type plus close)
  bound : ∀ capture const, Gives Tree.Intact (g.bound capture const)

variable {g : Grammar}

/-! ## Arguments -/

theorem plainBlock_intact : Gives Tree.Intact g.plainBlock :=
  (gives_grouped .brace _).bind fun _ ht => gives_pure (intact_node ht.one)

theorem constArgument_intact : Gives Tree.Intact g.constArgument := by
  refine .then fun b => .ite ?_ (.then fun b => .ite ?_ (gives_missing _))
  · exact gives_literal.bind fun t ht => gives_pure (intact_node ht.one)
  · exact plainBlock_intact.bind fun t ht => gives_pure (intact_node (.cons intact_none ht.one))

theorem tokens_segmentOf {t : Tree} (h : isSingleName t = true) :
    (Tree.node .segment (segmentOf t)).tokens = t.tokens := by
  unfold isSingleName at h
  split at h
  · simp [segmentOf, Tree.tokens, Tree.tokensList]
  · cases h

theorem genericArgument_intact (hg : g.Intact) : Gives Tree.Intact g.genericArgument := by
  refine .then fun ts => .ite gives_lifetime (.ite ?_ ?_)
  · exact constArgument_intact.bind fun t ht => gives_pure (intact_node ht.one)
  refine (hg.type _ _).bind fun t ht => ?_
  split
  · rename_i hs
    have hname : (Tree.node .segment (segmentOf t)).Intact := by
      rwa [Tree.Intact, tokens_segmentOf hs]
    refine (gives_intactSign? (by decide)).bind fun o ho => ?_
    cases o with
    | some s =>
      have hvalue : ∀ value : Tree, value.Intact →
          (Tree.node .bindingArgument [.node .segment (segmentOf t), s, value]).Intact :=
        fun value hv => intact_node (.cons hname (.cons (ho s rfl) hv.one))
      refine .then fun ts => .ite ?_ ?_
      · exact constArgument_intact.bind fun v hv => gives_pure (hvalue _ (intact_node hv.one))
      · exact (hg.type _ _).bind fun v hv => gives_pure (hvalue v hv)
    | none =>
      refine (gives_intactSign? (by decide)).bind fun o ho => ?_
      cases o with
      | none => exact gives_pure ht
      | some s =>
        refine Gives.bind (P := IntactList) ?_ fun bounds hb =>
          gives_pure (intact_node (.cons hname (.cons (ho s rfl) hb)))
        refine .iterate_intact (.then fun b => .ite (gives_pure .nil) ?_)
        refine (hg.bound _ _).bind fun b hb => .then fun e => .ite (gives_pure hb.one) ?_
        exact (gives_intactSign (by decide)).bind fun s hs => gives_pure (.cons hb hs.one)
  · exact gives_pure ht

theorem uncut_unpair {ps : List (Tree × Bool)} (h : ∀ p ∈ ps, Uncut 1 p.1.tokens) :
    ∀ t ∈ unpair ps, Uncut 1 t.tokens := by
  intro t ht
  obtain ⟨⟨u, b⟩, hp, ht⟩ := List.mem_flatMap.1 ht
  have hu := h _ hp
  cases b with
  | false => exact List.mem_singleton.1 ht ▸ hu
  | true =>
    rcases List.mem_cons.1 ht with rfl | ht
    · exact hu
    · exact List.mem_singleton.1 ht ▸ .comma false

theorem uncut_lifetimesFirst {ts : List Tree} (h : ∀ t ∈ ts, Uncut 1 t.tokens) :
    ∀ t ∈ lifetimesFirst isLifetimeArgument ts, Uncut 1 t.tokens := by
  have hfilter : ∀ keep, ∀ p ∈ (pairs ts).filter keep, Uncut 1 p.1.tokens :=
    fun keep p hp => h _ (mem_of_mem_pairs (List.mem_of_mem_filter hp))
  simp only [lifetimesFirst, List.forall_mem_append]
  refine ⟨⟨uncut_unpair (hfilter _), ?_⟩, uncut_unpair (hfilter _)⟩
  split
  · exact List.forall_mem_singleton.2 (.comma false)
  · exact List.forall_mem_nil _

theorem angleArguments_intact (hg : g.Intact) : Gives Tree.Intact g.angleArguments := by
  refine (gives_intactSign? (by decide)).bind fun lead hlead => (gives_sign "<").bind fun o ho => ?_
  refine (gives_untilSign ">" (genericArgument_intact hg)).bind fun ts hts => ?_
  refine (gives_sign ">").bind fun c hc => gives_pure ?_
  rw [ho, hc]
  have harguments := intactList_angle (uncut_lifetimesFirst hts)
  cases lead with
  | none => exact harguments
  | some s => exact intact_node (.cons (hlead s rfl) harguments)

/-! ## Paths -/

theorem segment_intact (hg : g.Intact) (inExpr : Bool) : Gives Tree.Intact (g.segment inExpr) := by
  unfold segment
  refine .then fun ts => ?_
  split
  · exact gives_anyIdent.bind fun t ht => gives_pure (intact_node ht.one)
  have hbehind : ∀ name : Tree, name.Intact → Gives Tree.Intact (do
      let ts ← rest
      let bare := startsSign "<" ts && !startsSign "<=" ts
      let marked := startsSign "::" ts && startsSign "<" (skip (skip ts))
      if (!inExpr && bare) || marked then
        return .node .segment [name, ← g.angleArguments]
      return .node .segment [name]) := by
    intro name hname
    refine .then fun ts => .ite ?_ (gives_pure (intact_node hname.one))
    exact (angleArguments_intact hg).bind fun t ht => gives_pure (intact_node (.cons hname ht.one))
  split
  · exact gives_anyIdent.bind hbehind
  · exact gives_ident.bind hbehind

theorem pathRest_intact (hg : g.Intact) (inExpr : Bool) : Gives IntactList (g.pathRest inExpr) := by
  refine .iterate_intact (.then fun b => .ite (gives_pure .nil) ?_)
  refine (gives_intactSign (by decide)).bind fun s hs => (segment_intact hg inExpr).bind fun t ht => ?_
  exact gives_pure (.cons hs ht.one)

theorem path_intact (hg : g.Intact) (inExpr : Bool) :
    Gives (fun t => ∃ ps, t = .node .path ps ∧ IntactList ps) (g.path inExpr) := by
  refine (gives_intactSign? (by decide)).bind fun lead hlead => ?_
  refine (segment_intact hg inExpr).bind fun first hfirst => ?_
  refine (pathRest_intact hg inExpr).bind fun ts hts => gives_pure ⟨_, rfl, ?_⟩
  cases lead with
  | none => exact .cons hfirst hts
  | some s => exact .cons (hlead s rfl) (.cons hfirst hts)

theorem segments_intact (hg : g.Intact) (inExpr : Bool) : Gives IntactList (Parser.iterate do
    match ← sign? "::" with
    | none => return ([], false)
    | some s => return ([s, ← g.segment inExpr], true)) := by
  refine .iterate_intact ((gives_intactSign? (by decide)).bind fun o ho => ?_)
  cases o with
  | none => exact gives_pure .nil
  | some s => exact (segment_intact hg inExpr).bind fun t ht => gives_pure (.cons (ho s rfl) ht.one)

theorem qualifiedPath_intact (hg : g.Intact) (inExpr : Bool) :
    Gives Tree.Intact (g.qualifiedPath inExpr) := by
  refine (gives_sign? "<").bind fun o ho => ?_
  cases o with
  | none =>
    refine (path_intact hg inExpr).mono fun t ht => ?_
    obtain ⟨ps, rfl, hps⟩ := ht
    exact intact_node hps
  | some opening =>
    obtain rfl := ho opening rfl
    refine (hg.type _ _).bind fun self hself => ?_
    have hbehind : ∀ trait : List Tree, (∀ t ∈ trait, t.Intact) → Gives Tree.Intact (do
        let closing ← sign ">"
        let separator ← sign "::"
        let first ← g.segment inExpr
        let others ← Parser.iterate do
          match ← sign? "::" with
          | none => return ([], false)
          | some s => return ([s, ← g.segment inExpr], true)
        return .node .qualified
          ([.sign "<", self] ++ trait ++ [closing, separator, first] ++ others)) := by
      intro trait htrait
      refine (gives_sign ">").bind fun closing hc => (gives_intactSign (by decide)).bind fun s hs => ?_
      refine (segment_intact hg inExpr).bind fun first hfirst => ?_
      refine (segments_intact hg inExpr).bind fun others hothers => gives_pure ?_
      subst hc
      have hangle : IntactList (.sign "<" :: (self :: trait) ++ [.sign ">"]) :=
        intactList_angle (List.forall_mem_cons.2 ⟨hself.mono (Nat.zero_le 1),
          fun t ht => (htrait t ht).mono (Nat.zero_le 1)⟩)
      have hsegments := hangle.append (.cons hs (.cons hfirst hothers))
      simpa using intact_node hsegments
    refine (gives_intactWord? "as").bind fun o ho => ?_
    cases o with
    | none => exact hbehind [] (List.forall_mem_nil _)
    | some w =>
      refine (path_intact hg false).bind fun path hpath => ?_
      obtain ⟨ps, rfl, hps⟩ := hpath
      exact hbehind [w, _] (List.forall_mem_cons.2 ⟨ho w rfl,
        List.forall_mem_singleton.2 (intact_node hps)⟩)

/-! ## Parameters -/

theorem plusList_intact {stop : Tokens → Bool} {p : Parser Tree} (h : Gives Tree.Intact p) :
    Gives IntactList (plusList stop p) := by
  refine .iterate_intact (.then fun b => .ite (gives_pure .nil) (h.bind fun t ht => ?_))
  refine (gives_intactSign? (by decide)).bind fun o ho => ?_
  cases o with
  | none => exact gives_pure ht.one
  | some s => exact gives_pure (.cons ht (ho s rfl).one)

theorem colonBounds_intact {stop : Tokens → Bool} {p : Parser Tree} (h : Gives Tree.Intact p) :
    Gives IntactList (colonBounds stop p) := by
  refine (gives_intactSign? (by decide)).bind fun o ho => ?_
  cases o with
  | none => exact gives_pure .nil
  | some s =>
    refine (plusList_intact h).bind fun bounds hb => gives_pure ?_
    split
    · exact .nil
    · exact .cons (ho s rfl) hb

theorem outerAttributes_intact : Gives IntactList g.outerAttributes := by
  refine .iterate_intact (.then fun b => .ite ?_ (gives_pure .nil))
  refine Gives.bind (P := Tree.Intact) ?_ fun t ht => gives_pure ht.one
  refine (gives_intactSign (by decide)).bind fun s hs => (gives_grouped .bracket _).bind fun t ht => ?_
  exact gives_pure (intact_node (.cons hs ht.one))

/-- What is given behind an equals sign, if there is one. -/
theorem default_intact {p : Parser Tree} {f : List Tree → Parser Tree} (h : Gives Tree.Intact p)
    (hf : ∀ ts, IntactList ts → Gives Tree.Intact (f ts)) : Gives Tree.Intact (do
      let default ← match ← sign? "=" with
        | some s => pure [s, ← p]
        | none => pure []
      f default) := by
  refine (gives_intactSign? (by decide)).bind fun o ho => ?_
  cases o with
  | none => exact hf [] .nil
  | some s => exact h.bind fun t ht => hf _ (.cons (ho s rfl) ht.one)

theorem parameter_intact (hg : g.Intact) : Gives Tree.Intact g.parameter := by
  refine outerAttributes_intact.bind fun as has => .then fun ts => .ite ?_ (.ite ?_ (.ite ?_ ?_))
  · refine gives_lifetime.bind fun name hname => ?_
    refine (colonBounds_intact gives_lifetime).bind fun bounds hb => gives_pure ?_
    exact intact_node (.cons (intact_node has) (.cons hname hb))
  · refine gives_anyIdent.bind fun name hname => ?_
    refine (colonBounds_intact (hg.bound _ _)).bind fun bounds hb => ?_
    refine default_intact (hg.type _ _) fun ts hts => gives_pure ?_
    exact intact_node (.append (.cons (intact_node has) (.cons hname hb)) hts)
  · refine (gives_word _).bind fun const hconst => gives_ident.bind fun name hname => ?_
    refine (gives_intactSign (by decide)).bind fun colon hcolon => (hg.type _ _).bind fun t ht => ?_
    refine default_intact constArgument_intact fun ts hts => gives_pure ?_
    exact intact_node (.append (.cons (intact_node has)
      (.cons hconst (.cons hname (.cons hcolon ht.one)))) hts)
  · exact gives_missing _

theorem binder_intact (hg : g.Intact) : Gives Tree.Intact g.binder := by
  refine (gives_word _).bind fun w hw => (gives_sign "<").bind fun o ho => ?_
  refine (gives_untilSign ">" (parameter_intact hg)).bind fun ts hts => ?_
  refine (gives_sign ">").bind fun c hc => gives_pure ?_
  subst ho hc
  exact intact_node (.cons hw (intactList_angle hts))

/-! ## Bounds -/

theorem resultType_intact {p : Parser Tree} (h : Gives Tree.Intact p) :
    Gives Tree.Intact (resultType p) := by
  refine (gives_sign? "->").bind fun o ho => ?_
  cases o with
  | none => exact gives_pure intact_none
  | some s =>
    obtain rfl := ho s rfl
    exact h.bind fun t ht => gives_pure (intact_node (.cons intact_arrow ht.one))

theorem callArguments_intact (hg : g.Intact) : Gives Tree.Intact g.callArguments := by
  refine (gives_grouped .paren _).bind fun inputs hi => ?_
  refine (resultType_intact (hg.type _ _)).bind fun r hr => gives_pure ?_
  exact intact_node (.cons hi hr.one)

theorem traitBound_intact (hg : g.Intact) (const : Bool) :
    Gives Tree.Intact (g.traitBound const) := by
  unfold traitBound
  refine .then fun b => (gives_when b (binder_intact hg)).bind fun lifetimes hl => .then fun b => ?_
  extract_lets behindMark
  have hbehind : ∀ mark : Tree, mark.Intact → Gives Tree.Intact (behindMark mark) := by
    intro mark hmark
    refine (gives_intactSign? (by decide)).bind fun question hq => .then fun b => ?_
    refine (gives_when _ (binder_intact hg)).bind fun inner hi => ?_
    refine (path_intact hg false).bind fun path hpath => .then fun ts => ?_
    obtain ⟨ps, rfl, hps⟩ := hpath
    extract_lets call behindPath
    have harguments : ∀ arguments : Tree, arguments.Intact →
        Gives Tree.Intact (behindPath arguments) := by
      intro arguments ha
      refine .ite nofun (gives_pure (intact_node ?_))
      exact .cons hl (.cons hmark (.cons (intact_ofOption hq) (.cons hi
        (.cons (intact_node hps) ha.one))))
    refine .ite (.then fun o => ?_) (harguments _ intact_none)
    exact (callArguments_intact hg).bind harguments
  split
  · exact (gives_grouped .bracket _).bind fun t ht => .ite nofun (hbehind t ht)
  · refine (gives_intactWord? "const").bind fun o ho => ?_
    cases o with
    | none => exact hbehind _ intact_none
    | some w => exact .ite nofun (hbehind w (ho w rfl))

theorem boundRule_intact (hg : g.Intact) (capture const : Bool) :
    Gives Tree.Intact (g.boundRule capture const) := by
  refine .then fun ts => .ite gives_lifetime (.ite ?_ (.ite ?_ (traitBound_intact hg const)))
  · refine (gives_word _).bind fun use huse => (gives_sign "<").bind fun o ho => ?_
    have hname : Gives Tree.Intact (do
        if ← sees Tokens.startsLifetime then lifetime
        else if ← seesWord "Self" then anyIdent
        else ident) :=
      .then fun b => .ite gives_lifetime (.then fun b => .ite gives_anyIdent gives_ident)
    refine (gives_untilSign ">" hname).bind fun names hnames => (gives_sign ">").bind fun c hc => ?_
    refine .ite nofun (gives_pure ?_)
    subst ho hc
    exact intact_node (.cons huse (intactList_angle hnames))
  · exact (gives_grouped .paren _).bind fun t ht => gives_pure (intact_node ht.one)

theorem bounds_intact (hg : g.Intact) (plus capture const : Bool) :
    Gives IntactList (g.bounds plus capture const) := by
  refine .iterate_intact ((hg.bound _ _).bind fun b hb => .ite (gives_pure hb.one) ?_)
  refine (gives_intactSign? (by decide)).bind fun o ho => ?_
  cases o with
  | none => exact gives_pure hb.one
  | some s => exact .then fun more => gives_pure (.cons hb (ho s rfl).one)

theorem traitBounds_intact (hg : g.Intact) (plus capture const : Bool) (complaint : String) :
    Gives IntactList (g.traitBounds plus capture const complaint) :=
  (bounds_intact hg plus capture const).bind fun _ hbs => .ite (gives_pure hbs) nofun

theorem moreBounds_intact (hg : g.Intact) : Gives IntactList g.moreBounds := by
  refine .iterate_intact ((gives_intactSign? (by decide)).bind fun o ho => ?_)
  cases o with
  | none => exact gives_pure .nil
  | some s => exact (hg.bound _ _).bind fun b hb => gives_pure (.cons (ho s rfl) hb.one)

/-! ## Types -/

theorem convention_intact : Gives IntactList convention := by
  refine (gives_intactWord? "extern").bind fun o ho => ?_
  cases o with
  | none => exact gives_pure .nil
  | some w =>
    have hw := ho w rfl
    refine .then fun ts => ?_
    split
    · exact .ite (.then fun _ => gives_pure (.cons hw (intact_literal _).one)) (gives_pure hw.one)
    · exact gives_pure hw.one

theorem functionType_intact (hg : g.Intact) {lifetimes : Tree} (hl : lifetimes.Intact) :
    Gives Tree.Intact (g.functionType lifetimes) := by
  unfold functionType
  refine .then fun b => ?_
  extract_lets behindLifetimes
  have hbehind : ∀ lifetimes : Tree, lifetimes.Intact → Gives Tree.Intact (behindLifetimes lifetimes) := by
    intro lifetimes hl
    refine (gives_intactWord? "unsafe").bind fun unsafe' hu => convention_intact.bind fun c hc => ?_
    refine (gives_word "fn").bind fun fn hfn => (gives_grouped .paren _).bind fun inputs hi => ?_
    refine (resultType_intact (hg.type _ _)).bind fun r hr => gives_pure (intact_node ?_)
    exact .cons hl (.cons (intact_ofOption hu) (.cons (intact_node hc) (.cons hfn (.cons hi hr.one))))
  exact .ite ((binder_intact hg).bind hbehind) (hbehind lifetimes hl)

theorem groupType_intact (hg : g.Intact) (close : Bool) : Gives Tree.Intact (g.groupType close) := by
  unfold groupType
  refine (gives_hidden (hg.type _ _)).bind fun inner hinner => .then fun ts => ?_
  have hplain : Gives Tree.Intact (pure (Tree.node .groupType [.group .hidden [inner]])) :=
    gives_pure (intact_node (intact_group _ _).one)
  refine .ite ?_ (.ite ?_ hplain)
  · split
    · refine (pathRest_intact hg false).bind fun rest hrest => gives_pure ?_
      exact intact_node (intact_node (hinner.inner.append hrest)).one
    · refine (path_intact hg false).bind fun path hpath => gives_pure ?_
      obtain ⟨ps, rfl, hps⟩ := hpath
      have hangle : IntactList (.sign "<" :: [inner] ++ [.sign ">"]) :=
        intactList_angle (List.forall_mem_singleton.2 (hinner.mono (Nat.zero_le 1)))
      exact intact_node (intact_node (hangle.append hps)).one
  · split
    · split
      · rename_i hlast
        refine (angleArguments_intact hg).bind fun arguments ha => ?_
        refine (pathRest_intact hg false).bind fun rest hrest => gives_pure ?_
        refine intact_node (intact_node (.append ?_ hrest)).one
        rw [IntactList, tokensList_addArguments hlast]
        exact Uncut.append hinner.inner ha
      · exact nofun
    · exact hplain

theorem parenthesizedBound_intact {t b : Tree} (h : t.Intact) (hb : parenthesizedBound t = some b) :
    b.Intact := by
  unfold parenthesizedBound at hb
  split at hb
  · cases hb
    exact intact_node (intact_group _ _).one
  · rename_i c
    have hc : c.Intact := by
      rwa [Tree.Intact, Tree.tokens, tokensList, tokensList, tokensList, Tree.tokens, tokensList,
        List.nil_append, List.append_nil] at h
    cases hb
    split
    · exact intact_node (intact_group _ _).one
    · exact hc
  · cases hb

theorem parenthesizedType_intact (hg : g.Intact) (plus : Bool) :
    Gives Tree.Intact (g.parenthesizedType plus) := by
  have hgroup : ∀ kind ps, (Tree.node kind [.group .paren ps]).Intact :=
    fun kind ps => intact_node (intact_group _ _).one
  refine .then fun ts => ?_
  split
  · refine .then fun _ => .ite (gives_pure (hgroup _ _)) (.ite ?_ (.ite ?_ ?_))
    · exact .then fun bs => gives_pure (hgroup _ _)
    · refine .then fun b => (moreBounds_intact hg).bind fun bs hbs => gives_pure ?_
      exact intact_node (.cons intact_none (.cons (hgroup _ _) hbs))
    · refine (gives_liftM_run (hg.type _ _)).bind fun x hfirst => ?_
      refine .ite (.then fun others => gives_pure (hgroup _ _)) (.ite nofun (.then fun b => ?_))
      refine .ite ?_ (gives_pure (hgroup _ _))
      split
      · rename_i b hb
        refine (moreBounds_intact hg).bind fun bs hbs => gives_pure ?_
        exact intact_node (.cons intact_none (.cons (parenthesizedBound_intact hfirst hb) hbs))
      · exact gives_pure (hgroup _ _)
  · exact gives_missing _

/-- The bounds behind a path, each with the plus sign in front of it. -/
theorem sum_intact (hg : g.Intact) (plus : Bool) : Gives IntactList (Parser.iterate do
    if !plus then return ([], false)
    match ← sign? "+" with
    | none => return ([], false)
    | some s =>
      if ← sees (startsBound false) then return ([s, ← g.bound false false], true)
      else return ([s], false)) := by
  refine .iterate_intact (.ite (gives_pure .nil) ((gives_intactSign? (by decide)).bind fun o ho => ?_))
  cases o with
  | none => exact gives_pure .nil
  | some s =>
    have hs := ho s rfl
    refine .then fun b => .ite ?_ (gives_pure hs.one)
    exact (hg.bound _ _).bind fun b hb => gives_pure (.cons hs hb.one)

theorem namedType_intact (hg : g.Intact) (plus : Bool) {lifetimes : Tree} (hl : lifetimes.Intact) :
    Gives Tree.Intact (g.namedType plus lifetimes) := by
  refine (qualifiedPath_intact hg _).bind fun path hpath => .ite ?_ (.then fun b => .ite ?_ ?_)
  · exact gives_pure (intact_node hpath.one)
  · refine (gives_intactSign (by decide)).bind fun s hs => gives_delimited.bind fun body hbody => ?_
    exact gives_pure (intact_node (.cons hpath (.cons hs hbody.one)))
  · refine .then fun b => .ite ?_ (gives_pure (intact_node hpath.one))
    refine (sum_intact hg plus).bind fun others hothers => gives_pure ?_
    have hfirst : (Tree.node .bound [lifetimes, .none, .none, .none, path, .none]).Intact :=
      intact_node (.cons hl (.cons intact_none (.cons intact_none (.cons intact_none
        (.cons hpath intact_none.one)))))
    exact intact_node (.cons intact_none (.cons hfirst hothers))

theorem typeRule_intact (hg : g.Intact) (plus close : Bool) :
    Gives Tree.Intact (g.typeRule plus close) := by
  unfold typeRule
  refine .then fun b => .ite (groupType_intact hg close) ?_
  refine .then fun b => (gives_when _ (binder_intact hg)).bind fun lifetimes hl => .then fun ts => ?_
  extract_lets named callable
  refine .ite nofun (.ite (parenthesizedType_intact hg plus) (.ite (functionType_intact hg hl)
    (.ite (namedType_intact hg plus hl) (.ite ?object (.ite ?bracket (.ite ?pointer
      (.ite ?reference (.ite ?never (.ite ?implType (.ite ?infer (.ite ?lifetime nofun)))))))))))
  case object =>
    refine (gives_word _).bind fun dyn hdyn => (gives_intactSign? (by decide)).bind fun o ho => ?_
    have hbounds := traitBounds_intact hg plus false false
    cases o with
    | none => exact (hbounds _).bind fun bs hbs => gives_pure (intact_node (.cons hdyn hbs))
    | some s =>
      exact (hbounds _).bind fun bs hbs => gives_pure (intact_node (.cons hdyn (.cons (ho s rfl) hbs)))
  case bracket => exact (gives_grouped .bracket _).bind fun t ht => gives_pure (intact_node ht.one)
  case pointer =>
    refine (gives_intactSign (by decide)).bind fun star hstar => ?_
    have hbehind : ∀ kind : Tree, kind.Intact → Gives Tree.Intact (do
        return .node .pointerType [star, kind, ← g.tightType]) := fun kind hkind =>
      (hg.type _ _).bind fun t ht => gives_pure (intact_node (.cons hstar (.cons hkind ht.one)))
    refine (gives_intactWord? "const").bind fun o ho => ?_
    cases o with
    | some w => exact hbehind w (ho w rfl)
    | none =>
      refine (gives_intactWord? "mut").bind fun o ho => ?_
      cases o with
      | some w => exact hbehind w (ho w rfl)
      | none => exact nofun
  case reference =>
    refine (gives_intactSign (by decide)).bind fun mark hmark => ?_
    refine Gives.bind (P := fun o => ∀ t ∈ o, t.Intact) ?_ fun life hlife => ?_
    · exact .then fun b => .ite (gives_lifetime.bind fun t ht => gives_pure (by simpa)) (gives_pure nofun)
    refine (gives_intactWord? "mut").bind fun o ho => (hg.type _ _).bind fun t ht => gives_pure ?_
    exact intact_node (.cons hmark (.cons (intact_ofOption hlife) (.cons (intact_ofOption ho) ht.one)))
  case never => exact (gives_intactSign (by decide)).bind fun t ht => gives_pure (intact_node ht.one)
  case implType =>
    refine (gives_word _).bind fun impl himpl => ?_
    exact (traitBounds_intact hg _ _ _ _).bind fun bs hbs => gives_pure (intact_node (.cons himpl hbs))
  case infer => exact (gives_word _).bind fun t ht => gives_pure (intact_node ht.one)
  case lifetime =>
    exact (traitBounds_intact hg _ _ _ _).bind fun bs hbs =>
      gives_pure (intact_node (.cons intact_none hbs))

theorem intact_ofDepth (n : Nat) : (ofDepth n).Intact := by
  induction n with
  | zero => exact ⟨fun _ _ => gives_throw _, fun _ _ => gives_throw _⟩
  | succ n ih => exact ⟨typeRule_intact ih, boundRule_intact ih⟩

theorem visibility_gives : Gives (fun v => IsVisibility v.tokens) visibility := by
  refine .then fun ts => ?_
  split
  · exact .then fun _ => gives_pure (.inl rfl)
  · refine (gives_word? "pub").bind fun o ho => ?_
    cases o with
    | none => exact gives_pure (.inl rfl)
    | some w =>
      obtain rfl := ho w rfl
      have hpub : IsVisibility (Tree.node .visibility [Tree.word "pub"]).tokens := .inr (.inl rfl)
      have hscope : ∀ scope,
          IsVisibility (Tree.node .visibility [Tree.word "pub", .group .paren scope]).tokens :=
        fun scope => .inr (.inr ⟨_, rfl⟩)
      refine .then fun ts => ?_
      split
      · split
        · refine .ite (.ite (.then fun _ => gives_pure (hscope _)) (gives_pure hpub)) ?_
          exact .ite (.then fun path => .then fun _ => gives_pure (hscope _)) (gives_pure hpub)
        · exact gives_pure hpub
      · exact gives_pure hpub

end Grammar

theorem intact_of_parseType {ts : Tokens} {t : Tree} (h : parseType ts = .ok t) : t.Intact :=
  ((Grammar.intact_ofDepth _).type _ _).all h

theorem isVisibility_of_parseVisibility {ts : Tokens} {t : Tree} (h : parseVisibility ts = .ok t) :
    IsVisibility t.tokens :=
  Grammar.visibility_gives.all h

end Courier.Code
