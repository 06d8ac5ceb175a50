import Courier.Proofs.Code.Calls

/-! Attributes, statements and struct literals whose parts are known. -/
namespace Courier.Code

namespace Parser
open Tokens

variable {p : Parser (List Tree × Bool)} {ts after : Tokens}

/-- A loop over pieces of a stream: each step reads one, and the last sees that there is none. What
the steps give is in the order of the pieces. -/
theorem iterate_forall₂ {P : Tokens → List Tree → Prop} {pieces : List Tokens}
    (hne : ∀ t ∈ pieces, t ≠ [])
    (h : ∀ t ∈ pieces, ∀ r, ∃ as, P t as ∧ p.run (t ++ r) = .ok ((as, true), r))
    (hend : p.run after = .ok (([], false), after)) :
    ∃ ass, List.Forall₂ P pieces ass ∧
      (iterate p).run (pieces.flatten ++ after) = .ok (ass.flatten, after) := by
  have hspan : ∀ t : Tokens, t ≠ [] → 0 < Token.spanList t := by
    intro t ht
    obtain ⟨a, r, rfl⟩ := List.exists_cons_of_ne_nil ht
    have ha : 0 < a.span := by
      unfold Token.span
      split <;> omega
    rw [Token.spanList]
    omega
  have hloop : ∀ n, Token.spanList (pieces.flatten ++ after) < n →
      ∃ ass, List.Forall₂ P pieces ass ∧
        (iterate.loop p n).run (pieces.flatten ++ after) = .ok (ass.flatten, after) := by
    induction pieces with
    | nil =>
      intro n hn
      cases n with
      | zero => contradiction
      | succ n => exact ⟨[], .nil, loop_stop hend⟩
    | cons t pieces ih =>
      intro n hn
      cases n with
      | zero => contradiction
      | succ n =>
        obtain ⟨as, hP, ha⟩ := h t (List.mem_cons_self ..) (pieces.flatten ++ after)
        have hlt := hspan t (hne t (List.mem_cons_self ..))
        rw [List.flatten_cons, List.append_assoc, spanList_append] at hn
        obtain ⟨ass, hPs, hb⟩ := ih (fun t ht => hne t (List.mem_cons_of_mem _ ht))
          (fun t ht => h t (List.mem_cons_of_mem _ ht)) n (by omega)
        rw [List.flatten_cons, List.append_assoc]
        exact ⟨as :: ass, .cons hP hPs, loop_more as ha hb⟩
  exact hloop _ (Nat.lt_succ_self _)

theorem iterate_pieces {pieces : List Tokens} (hne : ∀ t ∈ pieces, t ≠ [])
    (h : ∀ t ∈ pieces, ∀ r, ∃ as, p.run (t ++ r) = .ok ((as, true), r))
    (hend : p.run after = .ok (([], false), after)) :
    ∃ as, (iterate p).run (pieces.flatten ++ after) = .ok (as, after) := by
  obtain ⟨ass, -, hrun⟩ := iterate_forall₂ (P := fun _ _ => True) hne
    (fun t ht r => (h t ht r).imp fun _ ha => ⟨trivial, ha⟩) hend
  exact ⟨_, hrun⟩

end Parser

namespace Grammar
open Code.Parser Tokens PlainPath

variable (g : Grammar) {name : String} {ts after body : Tokens} {e : Tree} {braces : Bool}

/-! ## Paths of plain names -/

theorem modulePath_segments {first : String} {names : List String}
    (hv : ∀ name ∈ first :: names, isPathWord name = true) (hs : startsSign "::" after = false) :
    modulePath.segments.run (.ident first :: (behind names ++ after)) =
      .ok (PlainPath.segment first :: segments names, after) := by
  have hend : afterSign "::" after = none := by simpa [startsSign] using hs
  have hstart : ∀ name ∈ first :: names, ∀ r,
      modulePath.starts (.ident name :: r) = true := by
    intro name hn r
    have := hv name hn
    simp [isPathWord] at this
    simp [modulePath.starts]
    tauto
  unfold modulePath.segments
  refine iterate_run fun n hn => ?_
  induction names generalizing first n with
  | nil =>
    cases n with
    | zero => contradiction
    | succ n =>
      refine loop_stop (bind_run sees_run ?_)
      rw [hstart _ (List.mem_cons_self ..)]
      refine bind_run anyIdent_run (bind_run (a := none) (r := after) ?_ rfl)
      rw [behind_nil, List.nil_append, sign?_run, hend]
  | cons second names ih =>
    cases n with
    | zero => contradiction
    | succ n =>
      rw [behind_cons]
      refine loop_more [PlainPath.segment first, .sign "::"] (bind_run sees_run ?_)
        (ih (fun n hn => hv n (List.mem_cons_of_mem _ hn))
          (fun n hn => hstart n (List.mem_cons_of_mem _ hn)) n ?_)
      · rw [hstart _ (List.mem_cons_self ..)]
        refine bind_run anyIdent_run ?_
        refine bind_run (a := some (.sign "::")) (r := .ident second :: (behind names ++ after)) ?_ rfl
        simp [sign?_run]
      · simp [Token.spanList, Token.span] at hn ⊢
        omega

theorem getLast_segments (first : String) (names : List String) : ∃ name,
    (PlainPath.segment first :: segments names).getLast? = some (PlainPath.segment name) := by
  induction names generalizing first with
  | nil => exact ⟨first, rfl⟩
  | cons second names ih =>
    obtain ⟨name, h⟩ := ih second
    refine ⟨name, ?_⟩
    rw [← h]
    simp [segments]

theorem modulePath_run {first : String} (names : List String)
    (hv : ∀ name ∈ first :: names, isPathWord name = true) (hs : startsSign "::" after = false) :
    modulePath.run (.ident first :: (behind names ++ after)) =
      .ok (PlainPath.tree ⟨false, first, names⟩, after) := by
  obtain ⟨name, hl⟩ := getLast_segments first names
  unfold modulePath
  refine bind_run (a := none) (r := .ident first :: (behind names ++ after)) (by simp [sign?_run]) ?_
  refine bind_run (modulePath_segments hv hs) ?_
  rw [if_neg (by simp)]
  rw [hl]
  rfl

/-! ## Attributes -/

/-- The content of an attribute is read to its end. -/
def ReadsAttribute (c : Tokens) : Prop := ∀ g : Grammar, ∃ t, g.attributeContent.run c = .ok (t, [])

theorem readsAttribute {w : String} (hw : isIdent w = true) (hs : startsSign "::" after = false)
    (h : ∀ g : Grammar, ∀ path, ∃ t, (g.metaAfter path).run after = .ok (t, [])) :
    ReadsAttribute (.ident w :: after) := by
  intro g
  have hp : isPathWord w = true := by simp [isPathWord, hw]
  have hpath : modulePath.run (.ident w :: after) = .ok (PlainPath.tree ⟨false, w, []⟩, after) :=
    modulePath_run [] (by simpa using hp) hs
  obtain ⟨t, ht⟩ := h g (PlainPath.tree ⟨false, w, []⟩)
  exact ⟨t, bind_run (word?_other (ne_of_isIdent hw (by decide))) (bind_run hpath ht)⟩

theorem readsAttribute_name {w : String} (hw : isIdent w = true) : ReadsAttribute [.ident w] :=
  readsAttribute hw (by simp) fun _ path => ⟨.node .metaPath [path], by
    refine bind_run rest_run ?_
    rw [if_neg (by simp)]
    exact bind_run (a := none) (r := []) (by simp [sign?_run]) rfl⟩

theorem readsAttribute_list {w : String} (hw : isIdent w = true) (body : Tokens) :
    ReadsAttribute [.ident w, .group .paren body] :=
  readsAttribute hw (by simp) fun _ path => ⟨.node .metaList [path, .token (.group .paren body)], by
    refine bind_run rest_run ?_
    rw [if_pos (by simp)]
    refine bind_run (a := .token (.group .paren body)) (r := []) ?_ rfl
    simp only [delimited, StateT.run_bind, StateT.run_get, pure_bind,
      next?_group (by simp : Delimiter.paren ≠ .hidden)]
    rfl⟩

theorem readsAttribute_value {w : String} (hw : isIdent w = true) (text : String) :
    ReadsAttribute [.ident w, .punct '=' false, .literal text] :=
  readsAttribute hw (by simp) fun g path =>
    ⟨.node .metaValue [path, .sign "=", .node .literalExpr [.token (.literal text)]], by
      refine bind_run rest_run ?_
      rw [if_neg (by simp)]
      refine bind_run (a := some (.sign "=")) (r := [.literal text]) (by simp [sign?_run]) ?_
      refine bind_run (a := .node .literalExpr [.token (.literal text)]) (r := []) ?_ rfl
      have hl : literal? [.literal text] = some (.literal text, []) := by simp [literal?]
      simp only [attributeValue, StateT.run_bind, StateT.run_get, pure_bind, hl]
      rfl⟩

theorem outerAttributes_nil (hs : startsSign "#" ts = false) : g.outerAttributes.run ts = .ok ([], ts) :=
  manyWhile_run_of_not hs

theorem outerAttributes_run {cs : List Tokens} (h : ∀ c ∈ cs, ReadsAttribute c) (after : Tokens)
    (hs : startsSign "#" after = false) : ∃ as,
      g.outerAttributes.run (cs.flatMap (fun c => [.punct '#' false, .group .bracket c]) ++ after) =
        .ok (as, after) := by
  unfold outerAttributes manyWhile
  rw [List.flatMap_def]
  refine iterate_pieces (by simp) ?_ ?_
  · intro t ht r
    obtain ⟨c, hc, rfl⟩ := List.mem_map.1 ht
    obtain ⟨a, ha⟩ := h c hc g
    refine ⟨[.node .attributeMark [.sign "#", .group .bracket [a]]], bind_run sees_run ?_⟩
    rw [if_pos (by simp)]
    refine bind_run (a := .node .attributeMark [.sign "#", .group .bracket [a]]) (r := r) ?_ rfl
    refine bind_run (a := .sign "#") (r := .group .bracket c :: r) (by simp [sign_run]) ?_
    refine bind_run (grouped_run [a] (by simp) (bind_run ha rfl)) rfl
  · refine bind_run sees_run ?_
    rw [hs]
    rfl

/-! ## Struct literals -/

/-- A field of a struct literal is read up to the comma behind it. -/
theorem fieldValues_run {pieces : List Tokens}
    (h : ∀ t ∈ pieces, ∃ name r, t = .ident name :: r ∧ isIdent name = true ∧
      (r = [] ∨ ∃ e value, r = .punct ':' false :: e ∧
        ∀ after, g.fullExpr.run (e ++ .comma :: after) = .ok (value, .comma :: after))) :
    ∃ as, g.fieldValues.run (pieces.flatMap (· ++ [.comma])) = .ok (as, []) := by
  unfold fieldValues
  rw [List.flatMap_def, ← List.append_nil (List.flatten _)]
  refine iterate_pieces (by simp) ?_ (bind_run finished_run rfl)
  intro t' ht' r
  obtain ⟨t, ht, rfl⟩ := List.mem_map.1 ht'
  obtain ⟨name, rest, rfl, hn, hr⟩ := h t ht
  have hmember : member.run (.ident name :: (rest ++ .comma :: r)) =
      .ok (Tree.word name, rest ++ .comma :: r) := member_run hn
  have hfield : ∃ f, g.fieldValue.run (.ident name :: (rest ++ .comma :: r)) = .ok (f, .comma :: r) := by
    rcases hr with rfl | ⟨e, value, rfl, he⟩
    · refine ⟨.node .fieldValue [.node .attributes [], Tree.word name], ?_⟩
      refine bind_run (g.outerAttributes_nil (by simp)) (bind_run hmember (bind_run seesSign_run ?_))
      rw [if_neg (by simp [Token.comma, isNamed, Tree.word])]
      rfl
    · refine ⟨.node .fieldValue [.node .attributes [], Tree.word name, .sign ":", value], ?_⟩
      refine bind_run (g.outerAttributes_nil (by simp)) (bind_run hmember (bind_run seesSign_run ?_))
      rw [if_pos (by simp)]
      refine bind_run (a := .sign ":") (r := e ++ .comma :: r) (by simp [sign_run]) ?_
      exact bind_run (he r) rfl
  obtain ⟨f, hf⟩ := hfield
  refine ⟨[f, .sign ","], ?_⟩
  rw [List.append_assoc, List.cons_append, List.singleton_append]
  refine bind_run finished_run ?_
  rw [if_neg (by simp)]
  refine bind_run (a := none) (r := .ident name :: (rest ++ .comma :: r)) (by simp [sign?_run]) ?_
  refine bind_run hf (bind_run finished_run ?_)
  rw [if_neg (by simp)]
  exact bind_run (a := .sign ",") (r := r) (by simp [sign_run, Token.comma]) rfl

theorem atom_struct {p : PlainPath} {fields : List Tree} (hp : p.Free)
    (h : g.fieldValues.run body = .ok (fields, [])) :
    (g.atom true).run (p.tokens ++ [.group .brace body]) =
      .ok (.node .structExpr [p.tree, .group .brace fields], []) := by
  refine g.atom_path hp (by constructor <;> simp) ?_
  refine bind_run rest_run ?_
  rw [if_neg (by simp [startsBang]), if_pos (by simp)]
  exact bind_run (grouped_run _ (by simp) h) rfl

/-! ## Statements -/

theorem startsItem_path (hn : isIdent name = true) :
    startsItem (.ident name :: .punct ':' true :: ts) = false := by
  simp (disch := decide) [startsItem, ne_of_isIdent hn]

theorem startsItem_self : startsItem (.ident "Self" :: .group .brace body :: ts) = false := by
  simp (disch := decide) [startsItem]

theorem startsItem_angle : startsItem (.punct '<' false :: ts) = false := by
  simp (disch := decide) [startsItem]

theorem macroForm_path {first : String} (names : List String)
    (hv : ∀ name ∈ first :: names, isPathWord name = true) (hs : startsSign "::" after = false)
    (hb : startsSign "!" after = false) :
    macroForm.run (.ident first :: (behind names ++ after)) =
      .ok (.notMacro, .ident first :: (behind names ++ after)) := by
  unfold macroForm
  simp only [StateT.run_bind, StateT.run_get, pure_bind]
  rw [modulePath_run names hv hs]
  simp [hb]
  rfl

theorem macroForm_angle : macroForm.run (.punct '<' false :: ts) =
    .ok (.notMacro, .punct '<' false :: ts) := by
  have hp : ∃ f, modulePath.run (.punct '<' false :: ts) = .error f := by
    refine ⟨.expectedHere "identifier" false, ?_⟩
    refine bind_run (a := none) (r := .punct '<' false :: ts) (by simp [sign?_run]) ?_
    refine bind_run (a := []) (r := .punct '<' false :: ts) ?_ ?_
    · exact iterate_stop (bind_run sees_run (by simp [modulePath.starts]; rfl))
    · simp [ident, missing, Tokens.atEnd]
      rfl
  obtain ⟨f, hp⟩ := hp
  unfold macroForm
  simp only [StateT.run_bind, StateT.run_get, pure_bind]
  rw [hp]
  rfl

theorem startsBlockLike_of_startsAtom (hs : StartsAtom ts) : startsBlockLike ts = false := by
  rcases hs with (hw | _) | _ | _
  · simp (disch := decide) [startsBlockLike, ne_of_isPathWord hw]
  all_goals simp [startsBlockLike]

theorem leadingRule_run (hs : StartsAtom ts) (hu : (g.unary true).run ts = .ok (e, after))
    (he : goesOn e = true) (ho : (g.operators e true Level.lowest).run after = .ok (e, after)) :
    g.leadingRule.run ts = .ok (e, after) := by
  have hhash : startsSign "#" ts = false := by
    rcases hs with (_ | _) | _ | _ <;> simp
  have hhidden : startsHidden ts = false := by
    rcases hs with (_ | _) | _ | _ <;> simp
  unfold leadingRule
  refine bind_run (g.exprAttributes_run hhash) (bind_run rest_run ?_)
  rw [if_neg (by simp [hhidden]), if_neg (by simp [startsBlockLike_of_startsAtom hs])]
  refine bind_run hu (bind_run rest_run ?_)
  rw [if_pos he]
  exact ho

theorem statementsRule_run (hs : StartsAtom ts) (hi : startsItem ts = false)
    (hm : macroForm.run ts = .ok (.notMacro, ts)) (hl : g.leading.run ts = .ok (e, [])) :
    ∃ as, g.statementsRule.run ts = .ok (as, []) := by
  have hhash : startsSign "#" ts = false := by
    rcases hs with (_ | _) | _ | _ <;> simp
  have hsemi : (sign? ";").run ts = .ok (none, ts) := by
    rcases hs with (_ | _) | _ | _ <;> simp [sign?_run]
  have hlet : startsWord "let" ts = false := by
    rcases hs with (hw | _) | _ | _
    · rw [startsWord_ident, ne_of_isPathWord hw (by decide)]
    all_goals simp
  have hne : ts ≠ [] := by
    rcases hs with (_ | _) | _ | _ <;> simp
  have hstatement : ∃ s b, g.statement.run ts = .ok ((s, b), []) := by
    refine ⟨.node .exprStmt [attributed [] e],
      isBlockLike (attributed [] e) || isBracedMacro (attributed [] e), ?_⟩
    unfold statement
    refine bind_run rest_run (bind_run (g.outerAttributes_nil hhash) (bind_run hm ?_))
    rw [if_neg (by simp)]
    refine bind_run rest_run ?_
    rw [if_neg (by simp [hlet]), if_neg (by simp [hi])]
    refine bind_run hl (bind_run (a := none) (r := []) ?_ rfl)
    simp [sign?_run]
  obtain ⟨s, b, hstatement⟩ := hstatement
  refine ⟨[s], iterate_stop (bind_run hsemi (bind_run finished_run ?_))⟩
  rw [if_neg (by simpa using hne)]
  exact bind_run hstatement (bind_run finished_run rfl)

theorem fullBlock_run {as : List Tree} (hs : startsSign "#" body = false)
    (h : g.statements.run body = .ok (as, [])) :
    g.fullBlock.run (.group .brace body :: after) = .ok (.node .block [.group .brace as], after) := by
  refine bind_run (grouped_run as (by simp) ?_) rfl
  refine bind_run (a := []) (r := body) (manyWhile_run_of_not (by simp [hs])) (bind_run h ?_)
  rw [List.nil_append]
  rfl

end Grammar

end Courier.Code
