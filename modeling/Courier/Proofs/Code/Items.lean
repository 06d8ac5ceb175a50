import Courier.Proofs.Code.Blocks

/-! Functions, structs and implementations whose parts are known. -/
namespace Courier.Code.Grammar
open Code.Parser Tokens PlainPath

variable (g : Grammar) {name : String} {ts after body : Tokens} {t : Tree}

/-! ## Visibility -/

theorem visibility_private {w : String} (hw : (w == "pub") = false) :
    visibility.run (.ident w :: ts) = .ok (.node .visibility [], .ident w :: ts) := by
  unfold visibility
  refine bind_run (a := .ident w :: ts) (r := .ident w :: ts) rfl ?_
  exact bind_run (word?_other hw) rfl

theorem visibility_public {w : String} :
    visibility.run (.ident "pub" :: .ident w :: ts) =
      .ok (.node .visibility [Tree.word "pub"], .ident w :: ts) := by
  unfold visibility
  refine bind_run (a := .ident "pub" :: .ident w :: ts) (r := .ident "pub" :: .ident w :: ts) rfl ?_
  refine bind_run word?_self ?_
  refine bind_run (a := .ident w :: ts) (r := .ident w :: ts) rfl ?_
  rw [next?_ident]
  rfl

/-! ## Types -/

theorem typeRule_borrowed {t : Tree} (hs : StartsPath ts)
    (h : g.tightType.run ts = .ok (t, after)) (plus close : Bool) :
    (g.typeRule plus close).run (.punct '&' false :: ts) =
      .ok (.node .referenceType [.sign "&", Tree.none, Tree.none, t], after) := by
  have hlife : startsLifetime ts = false := by
    cases hs <;> simp
  have hmut : (word? "mut").run ts = .ok (none, ts) := by
    cases hs with
    | word hw => exact word?_other (ne_of_isPathWord hw (by decide))
    | mark => simp
  unfold typeRule
  refine bind_run sees_run ?_
  rw [if_neg (by simp)]
  refine bind_run seesWord_run ?_
  rw [startsWord_punct]
  refine bind_run (a := Tree.none) rfl (bind_run rest_run ?_)
  simp [isAbsent, Tree.none, sign_run, lifetime?, hlife, hmut, h]
  rfl

/-- The first token is there and no dot. -/
def BeginsType (ts : Tokens) : Prop := ∃ t r, next? ts = some (t, r) ∧ ∀ joint, t ≠ .punct '.' joint

theorem BeginsType.no_dots (h : BeginsType ts) : startsSign "..." ts = false := by
  obtain ⟨t, r, ht, hd⟩ := h
  rw [startsSign, afterSign, show "...".toList = ['.', '.', '.'] by decide, afterMarks, ht]
  cases t with
  | punct m joint =>
    have hm : m ≠ '.' := by
      rintro rfl
      exact hd joint rfl
    simp [hm]
  | _ => rfl

theorem typeRule_dot {g : Grammar} {plus close joint : Bool} :
    (g.typeRule plus close).run (.punct '.' joint :: ts) = .error (.expectedOneOf typeBeginnings false) := by
  unfold typeRule
  refine bind_run sees_run ?_
  rw [if_neg (by simp)]
  refine bind_run seesWord_run ?_
  rw [startsWord_punct]
  refine bind_run (a := Tree.none) rfl (bind_run rest_run ?_)
  simp [isAbsent, Tree.none, Tokens.atEnd]
  rfl

theorem typeRule_nil {g : Grammar} {plus close : Bool} :
    (g.typeRule plus close).run [] = .error (.expectedOneOf typeBeginnings true) := by
  unfold typeRule
  refine bind_run sees_run ?_
  rw [if_neg (by simp [startsHidden])]
  refine bind_run seesWord_run ?_
  rw [startsWord_nil]
  refine bind_run (a := Tree.none) rfl (bind_run rest_run ?_)
  simp [isAbsent, Tree.none, Tokens.atEnd]
  rfl

/-- A hidden group in which a type begins holds a type. -/
theorem hidden_of_typeRule {g : Grammar} {plus close : Bool} {body : Tokens} {x : Tree × Tokens}
    (h : (g.typeRule plus close).run (.group .hidden body :: ts) = .ok x) :
    ∃ y, g.fullType.run body = .ok y := by
  have hg : (g.groupType close).run (.group .hidden body :: ts) = .ok x := h
  unfold groupType at hg
  rw [StateT.run_bind] at hg
  obtain ⟨y, hy, -⟩ := bind_eq_ok.1 hg
  simp only [Parser.hidden, StateT.run_bind, StateT.run_get, pure_bind] at hy
  cases ha : all g.fullType body with
  | error f =>
    rw [ha] at hy
    cases hy
  | ok t => exact ⟨(t, []), run_of_all ha⟩

theorem beginsType_of_run {n : Nat} {plus close : Bool} {x : Tree × Tokens}
    (h : ((ofDepth n).type plus close).run ts = .ok x) : BeginsType ts := by
  induction n generalizing plus close ts x with
  | zero => cases h
  | succ n ih =>
    have h' : ((ofDepth n).typeRule plus close).run ts = .ok x := h
    cases ts with
    | nil =>
      rw [typeRule_nil] at h'
      cases h'
    | cons t ts =>
      by_cases hh : startsHidden (t :: ts) = true
      · unfold startsHidden at hh
        split at hh
        case h_2 => cases hh
        rename_i body r heq
        cases heq
        obtain ⟨a, ha⟩ := hidden_of_typeRule h'
        obtain ⟨u, left, hn, hu⟩ := ih ha
        refine ⟨u, left ++ ts, ?_, hu⟩
        rw [next?] at hn ⊢
        rw [openFront, openToken]
        cases hb : openFront body with
        | nil =>
          rw [hb] at hn
          cases hn
        | cons u' left' =>
          rw [hb] at hn
          cases hn
          rfl
      · refine ⟨t, ts, ?_, ?_⟩
        · cases t with
          | group d body =>
            cases d with
            | hidden => exact absurd rfl hh
            | _ => simp
          | _ => simp
        · rintro joint rfl
          rw [typeRule_dot] at h'
          cases h'

/-! ## Inputs of functions -/

theorem attempt_run {α : Type} {p : Parser α} {a : α} (h : p.run ts = .ok (a, after)) :
    (attempt p).run ts = .ok (some a, after) := by
  simp only [attempt, StateT.run_bind, StateT.run_get, pure_bind, h]
  rfl

theorem attempt_run_error {α : Type} {p : Parser α} {f : Fault} (h : p.run ts = .error f)
    (hf : f ≠ .tooDeep) : (attempt p).run ts = .ok (none, ts) := by
  simp only [attempt, StateT.run_bind, StateT.run_get, pure_bind, h]
  cases f <;> first | contradiction | rfl

/-- The receiver of a method that borrows. -/
def borrowedSelf : Tree :=
  .node .receiver [.sign "&", Tree.none, Tree.none, Tree.word "self"]

theorem receiver_run : g.receiver.run [.punct '&' false, .ident "self"] = .ok (borrowedSelf, []) := by
  unfold receiver
  refine bind_run (a := some (.sign "&")) (r := [.ident "self"]) (by simp [sign?_run]) ?_
  refine bind_run (a := none) (r := [.ident "self"]) (bind_run sees_run ?_) ?_
  · rw [if_neg (by simp)]
    rfl
  exact bind_run (word?_other (by decide)) (bind_run word_self (bind_run seesSign_run rfl))

/-- An input that is the borrowed value itself. -/
theorem input_self : (g.input true).run [.punct '&' false, .ident "self"] =
    .ok (([.node .input [.node .attributes [], borrowedSelf]], false), []) := by
  unfold input
  refine bind_run finished_run ?_
  rw [if_neg (by simp)]
  refine bind_run (g.outerAttributes_nil (by simp)) ?_
  refine bind_run (a := none) (r := [.punct '&' false, .ident "self"]) (by simp [sign?_run]) ?_
  exact bind_run (attempt_run g.receiver_run) rfl

theorem receiver_named (hn : isIdent name = true) (ts : Tokens) :
    ∃ f, f ≠ .tooDeep ∧ g.receiver.run (.ident name :: ts) = .error f := by
  refine ⟨.expectedHere "`self`" false, by simp, ?_⟩
  unfold receiver
  refine bind_run (a := none) (r := .ident name :: ts) (by simp [sign?_run]) ?_
  refine bind_run (a := none) (r := .ident name :: ts) rfl ?_
  refine bind_run (word?_other (ne_of_isIdent hn (by decide))) ?_
  have hw : (Parser.word "self").run (.ident name :: ts) = .error (.expectedHere "`self`" false) := by
    refine bind_run (word?_other (ne_of_isIdent hn (by decide))) ?_
    simp [missing, Tokens.atEnd]
    rfl
  rw [StateT.run_bind, hw]
  rfl

/-- An input with its type; others follow if there is a comma. -/
theorem input_named (first : Bool) {type : Tokens} (hn : isIdent name = true)
    (hp : ∀ ts, g.pattern.run (.ident name :: .punct ':' false :: ts) = .ok (t, .punct ':' false :: ts))
    {T : Tree} (ht : g.fullType.run (type ++ after) = .ok (T, after))
    (hd : startsSign "..." (type ++ after) = false) (h : EndsExpr after) :
    ∃ as, (g.input first).run (.ident name :: .punct ':' false :: (type ++ after)) =
      .ok ((as, !after.isEmpty), after.tail) := by
  obtain ⟨f, hf, hr⟩ := g.receiver_named hn (.punct ':' false :: (type ++ after))
  have hdots : afterSign "..." (type ++ after) = none := by simpa [startsSign] using hd
  let input := Tree.node .input [.node .attributes [], t, .sign ":", T]
  refine ⟨if after.isEmpty then [input] else [input, .sign ","], ?_⟩
  unfold Grammar.input
  refine bind_run finished_run ?_
  rw [if_neg (by simp)]
  refine bind_run (g.outerAttributes_nil (by simp)) ?_
  refine bind_run (a := none) (r := .ident name :: .punct ':' false :: (type ++ after)) (by simp [sign?_run]) ?_
  refine bind_run (attempt_run_error hr hf) (bind_run rest_run ?_)
  rw [if_neg (by simp)]
  refine bind_run (hp _) ?_
  refine bind_run (a := .sign ":") (r := type ++ after) (by simp [sign_run]) ?_
  refine bind_run (a := none) (r := type ++ after) (by rw [sign?_run, hdots]) (bind_run ht ?_)
  refine bind_run finished_run ?_
  cases h with
  | nil => rfl
  | comma => exact bind_run (a := .sign ",") (by simp [sign_run, Token.comma]) rfl

/-! ## Parts that are left out -/

theorem map_run {α β : Type} {p : Parser α} {a : α} {f : α → β} (h : p.run ts = .ok (a, after)) :
    (f <$> p).run ts = .ok (f a, after) := by
  rw [StateT.run_map, h]
  rfl

theorem parameters_absent (h : startsSign "<" ts = false) : g.parameters.run ts = .ok (Tree.none, ts) :=
  bind_run (sign?_absent h) rfl

theorem whereClause_absent : g.whereClause.run (.group .brace body :: after) =
    .ok (Tree.none, .group .brace body :: after) := bind_run (word?_group (by simp)) rfl

theorem convention_absent (h : (name == "extern") = false) :
    convention.run (.ident name :: ts) = .ok ([], .ident name :: ts) := bind_run (word?_other h) rfl

/-! ## Functions -/

/-- What stands between the name of a function and its body. -/
def signatureEnd (inputs result : Tokens) : Tokens :=
  .group .paren inputs :: .punct '-' true :: .punct '>' false :: result

theorem resultType_run {R : Tree} {type : Parser Tree} (h : type.run ts = .ok (R, after)) :
    (resultType type).run (.punct '-' true :: .punct '>' false :: ts) =
      .ok (.node .result [.sign "->", R], after) := by
  refine bind_run (a := some (.sign "->")) (r := ts) (by simp [sign?_run]) ?_
  exact bind_run h rfl

theorem signature_run {inputs result : Tokens} {is : List Tree} {R : Tree}
    (hn : isIdent name = true) (hi : g.inputs.run inputs = .ok (is, []))
    (hr : g.fullType.run (result ++ .group .brace body :: after) = .ok (R, .group .brace body :: after)) :
    ∃ t, (g.signature false).run
        (.ident "fn" :: .ident name :: signatureEnd inputs (result ++ .group .brace body :: after)) =
      .ok (t, .group .brace body :: after) := by
  refine ⟨.node .signature [Tree.none, Tree.none, Tree.none, .node .raw [], Tree.word "fn",
    Tree.word name, Tree.none, .group .paren is, .node .result [.sign "->", R], Tree.none], ?_⟩
  unfold signature
  refine bind_run (word?_other (by decide)) (bind_run (word?_other (by decide)) ?_)
  refine bind_run seesWord_run ?_
  rw [if_neg (by simp)]
  refine bind_run (map_run (word?_other (by decide))) ?_
  refine bind_run (convention_absent (by decide)) (bind_run word_self (bind_run (ident_run hn) ?_))
  refine bind_run (g.parameters_absent (by simp [signatureEnd])) ?_
  refine bind_run (grouped_run _ (by simp) hi) (bind_run (resultType_run hr) ?_)
  exact bind_run g.whereClause_absent rfl

theorem functionRest_run {inputs result : Tokens} {is : List Tree} {R b : Tree}
    (attributes visibility modifier : Tree)
    (hn : isIdent name = true) (hi : g.inputs.run inputs = .ok (is, []))
    (hr : g.fullType.run (result ++ .group .brace body :: after) = .ok (R, .group .brace body :: after))
    (hb : g.fullBlock.run (.group .brace body :: after) = .ok (b, after)) :
    ∃ t, (g.functionRest attributes visibility modifier false).run
        (.ident "fn" :: .ident name :: signatureEnd inputs (result ++ .group .brace body :: after)) =
      .ok (t, after) := by
  obtain ⟨t, ht⟩ := g.signature_run hn hi hr
  refine ⟨.node .functionItem [attributes, visibility, modifier, t, b], bind_run ht ?_⟩
  exact bind_run (sign?_absent (by simp)) (bind_run hb rfl)

/-! ## Members of implementations -/

theorem implMember_function (cs : List Tokens) (isPublic : Bool) {inputs result : Tokens}
    {is : List Tree} {R b : Tree} (hc : ∀ c ∈ cs, ReadsAttribute c) (hn : isIdent name = true)
    (hi : g.inputs.run inputs = .ok (is, []))
    (hr : g.fullType.run (result ++ .group .brace body :: after) = .ok (R, .group .brace body :: after))
    (hb : g.fullBlock.run (.group .brace body :: after) = .ok (b, after)) :
    ∃ t, g.implMember.run (cs.flatMap (fun c => [.punct '#' false, .group .bracket c]) ++
        ((if isPublic then [.ident "pub"] else []) ++ .ident "fn" :: .ident name ::
          signatureEnd inputs (result ++ .group .brace body :: after))) = .ok (t, after) := by
  have hv : ∃ v, visibility.run ((if isPublic then [.ident "pub"] else []) ++ .ident "fn" :: .ident name ::
      signatureEnd inputs (result ++ .group .brace body :: after)) = .ok (v, .ident "fn" ::
        .ident name :: signatureEnd inputs (result ++ .group .brace body :: after)) := by
    cases isPublic with
    | true => exact ⟨_, visibility_public⟩
    | false => exact ⟨_, visibility_private (by decide)⟩
  obtain ⟨v, hv⟩ := hv
  obtain ⟨as, ha⟩ := g.outerAttributes_run hc ((if isPublic then [.ident "pub"] else []) ++
    .ident "fn" :: .ident name :: signatureEnd inputs (result ++ .group .brace body :: after))
    (by cases isPublic <;> simp)
  obtain ⟨t, ht⟩ := g.functionRest_run (.node .attributes as) v Tree.none hn hi hr hb
  refine ⟨t, bind_run ha (bind_run hv (bind_run rest_run ?_))⟩
  rw [if_neg (by simp)]
  refine bind_run (a := Tree.none) rfl (bind_run rest_run ?_)
  rw [if_pos (by simp [startsSignature])]
  exact ht

theorem implMember_type {T : Tree} (type : Tokens) (hn : isIdent name = true)
    (ht : g.fullType.run (type ++ .punct ';' false :: after) = .ok (T, .punct ';' false :: after)) :
    ∃ t, g.implMember.run (.ident "type" :: .ident name :: .punct '=' false ::
      (type ++ .punct ';' false :: after)) = .ok (t, after) := by
  have hrest : ∃ t, (g.typeRest (.node .attributes []) (.node .visibility []) Tree.none false true).run
      (.ident "type" :: .ident name :: .punct '=' false :: (type ++ .punct ';' false :: after)) =
        .ok (t, after) := by
    refine ⟨.node .typeItem [.node .attributes [], .node .visibility [], Tree.none, Tree.word "type",
      Tree.word name, Tree.none, Tree.none, Tree.none, .sign "=", T, Tree.none, .sign ";"], ?_⟩
    unfold typeRest
    refine bind_run word_self (bind_run (ident_run hn) ?_)
    refine bind_run (g.parameters_absent (by simp)) ?_
    refine bind_run (sign?_absent (by simp)) ?_
    refine bind_run (a := Tree.none) rfl (bind_run (a := Tree.none) rfl ?_)
    refine bind_run (a := some (.sign "=")) (r := type ++ .punct ';' false :: after)
      (by simp [sign?_run]) (bind_run ht ?_)
    refine bind_run (a := [Tree.sign "=", T]) rfl ?_
    refine bind_run (a := Tree.none) (bind_run word?_punct rfl) ?_
    exact bind_run (a := .sign ";") (r := after) (by simp [sign_run]) rfl
  obtain ⟨t, hrest⟩ := hrest
  refine ⟨t, bind_run (g.outerAttributes_nil (by simp)) (bind_run (visibility_private (by decide))
    (bind_run rest_run ?_))⟩
  rw [if_neg (by simp)]
  refine bind_run (a := Tree.none) rfl (bind_run rest_run ?_)
  rw [if_neg (by simp [startsSignature]), if_neg (by simp), if_pos (by simp)]
  exact hrest

/-! ## Implementations -/

theorem many_run {p : Parser Tree} {pieces : List Tokens}
    (h : ∀ t ∈ pieces, t ≠ [] ∧ ∀ r, ∃ a, p.run (t ++ r) = .ok (a, r)) :
    ∃ as, as.length = pieces.length ∧ (many p).run pieces.flatten = .ok (as, []) := by
  obtain ⟨ass, hone, hrun⟩ : ∃ ass, List.Forall₂ (fun _ as => as.length = 1) pieces ass ∧
      (many p).run (pieces.flatten ++ []) = .ok (ass.flatten, []) := by
    unfold many
    refine iterate_forall₂ (fun t ht => (h t ht).1) (fun t ht r => ?_) (bind_run finished_run rfl)
    obtain ⟨a, ha⟩ := (h t ht).2 r
    refine ⟨[a], rfl, bind_run finished_run ?_⟩
    rw [if_neg (by simp [(h t ht).1])]
    exact bind_run ha rfl
  rw [List.append_nil] at hrun
  refine ⟨ass.flatten, ?_, hrun⟩
  have hlengths : ass.map List.length = ass.map fun _ => 1 :=
    List.map_congr_left fun as has => by
      obtain ⟨t, -, ht⟩ := forall₂_mem_right hone as has
      exact ht
  rw [List.length_flatten, hlengths, hone.length_eq]
  simp

theorem members_run {pieces : List Tokens} (hi : startsSign "!" (skip pieces.flatten) = false)
    (h : ∀ t ∈ pieces, t ≠ [] ∧ ∀ r, ∃ m, g.implMember.run (t ++ r) = .ok (m, r)) :
    ∃ b, (g.members g.implMember).run (.group .brace pieces.flatten :: after) = .ok (b, after) := by
  obtain ⟨ms, -, hmany⟩ := many_run h
  refine ⟨.group .brace ms, grouped_run _ (by simp) ?_⟩
  refine bind_run (a := []) (manyWhile_run_of_not (by simp [hi])) (bind_run hmany rfl)

/-- The types of a head are read as paths. -/
def ReadsPaths : Prop := ∀ (p : PlainPath) (after : Tokens), p.Free → EndsPath after →
  g.fullType.run (p.tokens ++ after) = .ok (.node .pathType [p.tree], after)

theorem startsParameters_of_startsPath (hs : StartsPath ts) : startsParameters ts = false := by
  cases hs <;> simp [startsParameters]

theorem startsConst_of_startsPath (hs : StartsPath ts) : (startsWord "const" ts ||
    (startsSign "?" ts && startsWord "const" (skip ts))) = false := by
  cases hs with
  | word hw => simp [ne_of_isPathWord hw (show isPathWord "const" = false by decide)]
  | mark => simp

theorem startsNegative_of_startsPath (hs : StartsPath ts) :
    (startsSign "!" ts && !startsGroup .brace (skip ts)) = false := by
  cases hs <;> simp

theorem implRest_own {b : Tree} (attributes : Tree) (hn : isIdent name = true) (htype : g.ReadsPaths)
    (hb : (g.members g.implMember).run (.group .brace body :: after) = .ok (b, after)) :
    ∃ t, (g.implRest attributes).run (.ident "impl" :: .ident name :: .group .brace body :: after) =
      .ok (some t, after) := by
  have hname := htype ⟨false, name, []⟩ (.group .brace body :: after)
    (free_word (isPathWord_of_isIdent hn)) (by constructor <;> simp)
  have hs : StartsPath (.ident name :: .group .brace body :: after) :=
    .word (isPathWord_of_isIdent hn)
  refine ⟨.node .implItem [attributes, Tree.none, Tree.none, Tree.word "impl", Tree.none, Tree.none,
    Tree.none, Tree.none, .node .pathType [PlainPath.tree ⟨false, name, []⟩], Tree.none, b], ?_⟩
  unfold implRest
  refine bind_run (visibility_private (by decide)) (bind_run (word?_other (by decide)) ?_)
  refine bind_run (word?_other (by decide)) (bind_run word_self (bind_run sees_run ?_))
  rw [startsParameters_of_startsPath hs]
  refine bind_run (a := Tree.none) rfl (bind_run rest_run ?_)
  rw [if_neg (by rw [startsConst_of_startsPath hs]; simp)]
  refine bind_run rest_run ?_
  rw [if_neg (by rw [startsNegative_of_startsPath hs]; simp)]
  refine bind_run (a := none) rfl (bind_run hname (bind_run (word?_group (by simp)) ?_))
  refine bind_run (a := ([Tree.none, Tree.none, Tree.none, _], true)) rfl ?_
  refine bind_run g.whereClause_absent (bind_run hb ?_)
  rw [startsConst_of_startsPath hs]
  rfl

theorem implRest_trait {b : Tree} {p : PlainPath} (attributes : Tree) (hp : p.Free)
    (hn : isIdent name = true) (htype : g.ReadsPaths)
    (hb : (g.members g.implMember).run (.group .brace body :: after) = .ok (b, after)) :
    ∃ t, (g.implRest attributes).run
      (.ident "impl" :: (p.tokens ++ .ident "for" :: .ident name :: .group .brace body :: after)) =
        .ok (some t, after) := by
  have htrait := htype p (.ident "for" :: .ident name :: .group .brace body :: after) hp
    (by constructor <;> simp)
  have hname := htype ⟨false, name, []⟩ (.group .brace body :: after)
    (free_word (isPathWord_of_isIdent hn)) (by constructor <;> simp)
  have hs := hp.starts (.ident "for" :: .ident name :: .group .brace body :: after)
  refine ⟨.node .implItem [attributes, Tree.none, Tree.none, Tree.word "impl", Tree.none, Tree.none,
    p.tree, Tree.word "for", .node .pathType [PlainPath.tree ⟨false, name, []⟩], Tree.none, b], ?_⟩
  unfold implRest
  refine bind_run (visibility_private (by decide)) (bind_run (word?_other (by decide)) ?_)
  refine bind_run (word?_other (by decide)) (bind_run word_self (bind_run sees_run ?_))
  rw [startsParameters_of_startsPath hs]
  refine bind_run (a := Tree.none) rfl (bind_run rest_run ?_)
  rw [if_neg (by rw [startsConst_of_startsPath hs]; simp)]
  refine bind_run rest_run ?_
  rw [if_neg (by rw [startsNegative_of_startsPath hs]; simp)]
  refine bind_run (a := none) rfl (bind_run htrait (bind_run word?_self ?_))
  refine bind_run hname ?_
  refine bind_run (a := ([Tree.none, p.tree, Tree.word "for", _], true)) rfl ?_
  refine bind_run g.whereClause_absent (bind_run hb ?_)
  rw [startsConst_of_startsPath hs]
  rfl

theorem itemRule_impl {t : Tree}
    (h : (g.implRest (.node .attributes [])).run (.ident "impl" :: ts) = .ok (some t, after)) :
    g.itemRule.run (.ident "impl" :: ts) = .ok (t, after) := by
  unfold itemRule
  refine bind_run rest_run (bind_run (g.outerAttributes_nil (by simp)) ?_)
  unfold itemRest
  refine bind_run rest_run (bind_run (visibility_private (by decide)) (bind_run rest_run ?_))
  simp [startsSignature]
  rw [h]
  rfl

/-! ## Structs -/

theorem separated_run {p : Parser Tree} {pieces : List Tokens} (h : ∀ t ∈ pieces, t ≠ [] ∧
    ∀ r, ∃ a, p.run (t ++ .comma :: r) = .ok (a, .comma :: r)) :
    ∃ as, (separated "," p).run (pieces.flatMap (· ++ [.comma])) = .ok (as, []) := by
  unfold separated
  rw [List.flatMap_def, ← List.append_nil (List.flatten _)]
  refine iterate_pieces (by simp) ?_ (bind_run finished_run rfl)
  intro t' ht' r
  obtain ⟨t, ht, rfl⟩ := List.mem_map.1 ht'
  obtain ⟨hne, hp⟩ := h t ht
  obtain ⟨a, ha⟩ := hp r
  refine ⟨[a, .sign ","], ?_⟩
  rw [List.append_assoc, List.singleton_append]
  refine bind_run finished_run ?_
  rw [if_neg (by simp)]
  refine bind_run ha (bind_run finished_run ?_)
  rw [if_neg (by simp)]
  exact bind_run (a := .sign ",") (r := r) (by simp [sign_run, Token.comma]) rfl

theorem namedField_run {T : Tree} {type : Tokens} (hn : isIdent name = true)
    (ht : g.fullType.run (type ++ after) = .ok (T, after)) :
    ∃ f, g.namedField.run (.ident "pub" :: .ident name :: .punct ':' false :: (type ++ after)) =
      .ok (f, after) := by
  have hlow := ne_of_isIdent hn (show isIdent "_" = false by decide)
  refine ⟨.node .field [.node .attributes [], .node .visibility [Tree.word "pub"], Tree.word name,
    .sign ":", T], ?_⟩
  unfold namedField
  refine bind_run (g.outerAttributes_nil (by simp)) (bind_run visibility_public ?_)
  refine bind_run seesWord_run ?_
  rw [startsWord_ident, hlow]
  refine bind_run (a := Tree.word name) (r := .punct ':' false :: (type ++ after)) ?_ ?_
  · refine bind_run seesWord_run ?_
    rw [startsWord_ident, hlow]
    exact ident_run hn
  refine bind_run (a := .sign ":") (r := type ++ after) (by simp [sign_run]) (bind_run rest_run ?_)
  rw [if_neg (by simp)]
  exact bind_run ht rfl

theorem itemRule_struct (cs : List Tokens) {fields : List Tree} (after : Tokens)
    (hc : ∀ c ∈ cs, ReadsAttribute c) (hn : isIdent name = true)
    (hf : (separated "," g.namedField).run body = .ok (fields, [])) :
    ∃ t, g.itemRule.run (cs.flatMap (fun c => [.punct '#' false, .group .bracket c]) ++
      .ident "pub" :: .ident "struct" :: .ident name :: .group .brace body :: after) =
        .ok (t, after) := by
  obtain ⟨as, ha⟩ := g.outerAttributes_run hc
    (.ident "pub" :: .ident "struct" :: .ident name :: .group .brace body :: after) (by simp)
  have hrest : ∃ t, (g.structRest (.node .attributes as) (.node .visibility [Tree.word "pub"])).run
      (.ident "struct" :: .ident name :: .group .brace body :: after) = .ok (t, after) := by
    refine ⟨.node .structItem [.node .attributes as, .node .visibility [Tree.word "pub"],
      Tree.word "struct", Tree.word name, Tree.none, Tree.none,
      .node .fields [.group .brace fields], Tree.none, Tree.none], ?_⟩
    unfold structRest
    refine bind_run word_self (bind_run (ident_run hn) (bind_run (g.parameters_absent (by simp)) ?_))
    refine bind_run seesWord_run (bind_run g.whereClause_absent (bind_run rest_run ?_))
    rw [if_neg (by simp), if_pos (by simp)]
    refine bind_run (a := .node .fields [.group .brace fields]) (r := after) ?_ rfl
    exact bind_run (grouped_run _ (by simp) hf) rfl
  obtain ⟨t, hrest⟩ := hrest
  refine ⟨t, ?_⟩
  unfold itemRule
  refine bind_run rest_run (bind_run ha ?_)
  unfold itemRest
  refine bind_run rest_run (bind_run visibility_public (bind_run rest_run ?_))
  simp [startsSignature]
  exact hrest

/-! ## Files -/

theorem file_run {pieces : List Tokens} (hi : startsSign "!" (skip pieces.flatten) = false)
    (h : ∀ t ∈ pieces, t ≠ [] ∧ ∀ r, ∃ i, g.item.run (t ++ r) = .ok (i, r)) :
    ∃ is, is.length = pieces.length ∧
      (do return (← g.innerAttributes) ++ (← many g.item) : Parser (List Tree)).run pieces.flatten =
        .ok (is, []) := by
  obtain ⟨is, hlength, hmany⟩ := many_run h
  exact ⟨[] ++ is, hlength, bind_run (manyWhile_run_of_not (by simp [hi])) (bind_run hmany rfl)⟩

end Courier.Code.Grammar
