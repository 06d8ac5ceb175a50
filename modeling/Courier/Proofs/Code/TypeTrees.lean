import Courier.Proofs.Code.Generic
import Courier.Proofs.Code.Plain

/-!
Types in the generic spelling as trees: what their tokens are read as. A name may be a keyword, and
only some of those are types.
-/
namespace Courier.Code

namespace Parser

variable {α β γ : Type} {p : Parser α} {f : α → Parser β} {ts r r' : Tokens} {a : α} {o : Option γ}

/-- What a parser takes and leaves, if it takes anything. -/
def takes (p : Parser α) (ts : Tokens) : Option (α × Tokens) := (p.run ts).toOption

theorem takes_eq_some : p.takes ts = some (a, r) ↔ p.run ts = .ok (a, r) := by
  rw [takes]
  cases p.run ts <;> simp [Except.toOption]

theorem bind_takes {x : Option (β × Tokens)} (hp : p.run ts = .ok (a, r)) (hf : (f a).takes r = x) :
    (p >>= f).takes ts = x := by
  rw [takes, StateT.run_bind, hp]
  exact hf

theorem bind_takes_none (hp : p.takes ts = none) : (p >>= f).takes ts = none := by
  rw [takes] at hp ⊢
  rw [StateT.run_bind]
  cases h : p.run ts with
  | error => rfl
  | ok x =>
    rw [h] at hp
    cases hp

/-- A step that may fail, before others that do not. -/
theorem bind_takes_map {m : γ → α} {k : γ → β} (hp : p.takes ts = o.map fun c => (m c, r))
    (hf : ∀ c ∈ o, (f (m c)).run r = .ok (k c, r')) : (p >>= f).takes ts = o.map fun c => (k c, r') := by
  cases o with
  | none => exact bind_takes_none hp
  | some c => exact bind_takes (takes_eq_some.1 hp) (takes_eq_some.2 (hf c rfl))

end Parser

namespace Tokens

variable {name s : String} {after : Tokens}

/-- A type ends here, with all tokens or in front of a bracket. -/
inductive EndsType : Tokens → Prop
  | nil : EndsType []
  | angle {joint : Bool} {r : Tokens} : EndsType (.punct '>' joint :: r)

theorem EndsType.startsSign (h : EndsType after) (hs : s.toList.head?.any (· != '>') = true) :
    startsSign s after = false := by
  have hne : s.toList ≠ [] := by
    intro hs'
    rw [hs'] at hs
    cases hs
  cases h with
  | nil => exact startsSign_nil hne
  | angle =>
    rw [startsSign_punct]
    cases hl : s.toList with
    | nil => exact absurd hl hne
    | cons c cs =>
      rw [hl, List.head?_cons, Option.any_some, bne_iff_ne] at hs
      rw [afterMarks_cons_punct, if_neg]
      · rfl
      · simp [hs.symm]

theorem EndsType.endsPath (h : EndsType after) : EndsPath after where
  separator := h.startsSign (by decide)
  angle := h.startsSign (by decide)
  bang := h.startsSign (by decide)
  plus := h.startsSign (by decide)
  hash := h.startsSign (by decide)

theorem EndsType.next? (h : EndsType after) :
    next? after = none ∨ ∃ joint r, next? after = some (.punct '>' joint, r) := by
  cases h with
  | nil => exact .inl rfl
  | angle => exact .inr ⟨_, _, next?_punct⟩

theorem EndsType.startsWord (h : EndsType after) (w : String) : startsWord w after = false := by
  cases h with
  | nil => rfl
  | angle => exact startsWord_punct

theorem EndsType.startsGroup (h : EndsType after) (d : Delimiter) : startsGroup d after = false := by
  cases h with
  | nil => rfl
  | angle => exact startsGroup_punct

theorem EndsType.startsLifetime (h : EndsType after) : startsLifetime after = false := by
  cases h with
  | nil => rfl
  | angle => exact startsLifetime_punct (by decide)

end Tokens

namespace Parser
open Tokens

variable {after : Tokens} {s w : String}

theorem sign?_run_none (h : EndsType after) (hs : s.toList.head?.any (· != '>') = true) :
    (sign? s).run after = .ok (none, after) :=
  sign?_absent (h.startsSign hs)

theorem sign_takes_none (h : EndsType after) (hs : s.toList.head?.any (· != '>') = true) :
    (sign s).takes after = none :=
  bind_takes (sign?_run_none h hs) rfl

theorem word?_run_none (h : EndsType after) : (word? w).run after = .ok (none, after) := by
  cases h with
  | nil => rfl
  | angle => exact word?_punct

theorem word_takes_none (h : EndsType after) : (word w).takes after = none :=
  bind_takes (word?_run_none h) rfl

theorem ident_takes_none (h : EndsType after) : ident.takes after = none := by
  cases h with
  | nil => rfl
  | angle =>
    rw [takes, ident, StateT.run_bind, StateT.run_get, pure_bind, next?_punct]
    rfl

theorem grouped_takes_none {p : Parser (List Tree)} {d : Delimiter} (h : EndsType after) :
    (grouped d p).takes after = none := by
  refine bind_takes_none ?_
  cases h with
  | nil => rfl
  | angle =>
    rw [takes, group, StateT.run_bind, StateT.run_get, pure_bind, next?_punct]
    rfl

end Parser

namespace Grammar
open Code.Parser Tokens

variable (g : Grammar) {name : String} {ts after : Tokens} {t : Tree} {n : Nat} {s : TypeShape}

/-! ## Keywords -/

theorem segment_takes_none (inExpr : Bool) (h : EndsType after) :
    (g.segment inExpr).takes after = none := by
  unfold segment
  refine bind_takes rest_run ?_
  rw [if_neg (by simp [h.startsWord]), if_neg (by simp [h.startsWord])]
  exact bind_takes_none (ident_takes_none h)

theorem path_takes_none (inExpr : Bool) (h : EndsType after) : (g.path inExpr).takes after = none :=
  bind_takes (sign?_run_none h (by decide)) (bind_takes_none (g.segment_takes_none inExpr h))

theorem traitBound_takes_none (const : Bool) (h : EndsType after) :
    (g.traitBound const).takes after = none := by
  unfold traitBound
  refine bind_takes seesWord_run ?_
  rw [h.startsWord]
  refine bind_takes (a := Tree.none) rfl (bind_takes sees_run ?_)
  rw [if_neg (by simp [h.startsGroup])]
  refine bind_takes (word?_run_none h) (bind_takes (a := Tree.none) rfl ?_)
  refine bind_takes (sign?_run_none h (by decide)) ?_
  refine bind_takes seesWord_run (bind_takes (a := Tree.none) rfl ?_)
  exact bind_takes_none (g.path_takes_none false h)

theorem boundRule_takes_none (capture const : Bool) (h : EndsType after) :
    (g.boundRule capture const).takes after = none := by
  unfold boundRule
  refine bind_takes rest_run ?_
  rw [if_neg (by simp [h.startsLifetime]), if_neg (by simp [h.startsWord]),
    if_neg (by simp [h.startsGroup])]
  exact g.traitBound_takes_none const h

theorem bound_takes_none (n : Nat) (capture const : Bool) (h : EndsType after) :
    ((ofDepth n).bound capture const).takes after = none := by
  cases n with
  | zero => rfl
  | succ n => exact (ofDepth n).boundRule_takes_none capture const h

theorem traitBounds_takes_none (n : Nat) (plus capture const : Bool) (complaint : String)
    (h : EndsType after) :
    ((ofDepth n).traitBounds plus capture const complaint).takes after = none :=
  bind_takes_none (bind_takes budget_run (bind_takes_none
    (bind_takes_none (bound_takes_none n capture const h))))

theorem binder_takes_none (h : EndsType after) : g.binder.takes (.ident "for" :: after) = none :=
  bind_takes word_self (bind_takes_none (sign_takes_none h (by decide)))

theorem iterate_takes {p : Parser (List Tree × Bool)} {o : Option Tree} {r : Tokens}
    (h : p.takes ts = o.map fun t => (([t], false), r)) :
    (iterate p).takes ts = o.map fun t => ([t], r) := by
  refine bind_takes budget_run ?_
  rw [iterate.loop]
  exact bind_takes_map h fun t _ => rfl

theorem untilSign_takes {p : Parser Tree} {o : Option Tree} {close sep : String} {r : Tokens}
    (hs : startsSign close ts = false) (hr : startsSign close r = true)
    (h : p.takes ts = o.map fun t => (t, r)) :
    (untilSign close sep p).takes ts = o.map fun t => ([t], r) := by
  refine iterate_takes (bind_takes seesSign_run ?_)
  rw [if_neg (by simp [hs])]
  refine bind_takes_map h fun t _ => bind_run seesSign_run ?_
  rw [if_pos hr]
  rfl

theorem convention_run_none (h : (word? "extern").run ts = .ok (none, ts)) :
    convention.run ts = .ok ([], ts) :=
  bind_run h rfl

theorem convention_extern_run (h : EndsType after) :
    convention.run (.ident "extern" :: after) = .ok ([Tree.word "extern"], after) := by
  refine bind_run word?_self (bind_run (a := after) (r := after) rfl ?_)
  rcases h.next? with hn | ⟨joint, r, hn⟩
  all_goals
    rw [hn]
    rfl

theorem functionType_takes_none (h : EndsType after)
    (hn : name = "fn" ∨ name = "unsafe" ∨ name = "extern") :
    (g.functionType Tree.none).takes (.ident name :: after) = none := by
  unfold functionType
  refine bind_takes seesWord_run ?_
  rcases hn with rfl | rfl | rfl
  · refine bind_takes (a := Tree.none) rfl (bind_takes (word?_other (by decide)) ?_)
    refine bind_takes (convention_run_none (word?_other (by decide))) (bind_takes word_self ?_)
    exact bind_takes_none (grouped_takes_none h)
  · refine bind_takes (a := Tree.none) rfl (bind_takes word?_self ?_)
    refine bind_takes (convention_run_none (word?_run_none h)) ?_
    exact bind_takes_none (word_takes_none h)
  · refine bind_takes (a := Tree.none) rfl (bind_takes (word?_other (by decide)) ?_)
    exact bind_takes (convention_extern_run h) (bind_takes_none (word_takes_none h))

theorem typeRule_callable (plus close : Bool) (hn : name = "fn" ∨ name = "unsafe" ∨ name = "extern") :
    (g.typeRule plus close).run (.ident name :: ts) =
      (g.functionType Tree.none).run (.ident name :: ts) := by
  unfold typeRule
  refine bind_run sees_run (bind_run seesWord_run ?_)
  rcases hn with rfl | rfl | rfl
  all_goals exact bind_run (a := Tree.none) rfl (bind_run rest_run rfl)

theorem typeRule_named (plus close : Bool) (hn : isPathWord name = true) :
    (g.typeRule plus close).run (.ident name :: ts) =
      (g.namedType plus Tree.none).run (.ident name :: ts) := by
  unfold typeRule
  refine bind_run sees_run (bind_run seesWord_run ?_)
  rw [startsWord_ident, ne_of_isPathWord hn (by decide)]
  refine bind_run (a := Tree.none) rfl (bind_run rest_run ?_)
  simp (disch := decide) [isAbsent, Tree.none, ne_of_isPathWord hn]
  rw [isPathWord] at hn
  simp at hn
  simp [hn]

theorem typeRule_infer (plus close : Bool) :
    (g.typeRule plus close).run (.ident "_" :: after) = .ok (.node .inferType [Tree.word "_"], after) := by
  unfold typeRule
  refine bind_run sees_run (bind_run seesWord_run ?_)
  refine bind_run (a := Tree.none) rfl (bind_run rest_run ?_)
  exact bind_run word_self rfl

theorem typeRule_other (plus close : Bool) (hp : isPathWord name = false)
    (hn : ∀ w ∈ ["for", "fn", "unsafe", "extern", "dyn", "impl", "_"], name ≠ w) :
    (g.typeRule plus close).takes (.ident name :: ts) = none := by
  simp only [List.forall_mem_cons, ← beq_eq_false_iff_ne] at hn
  unfold typeRule
  refine bind_takes sees_run (bind_takes seesWord_run ?_)
  rw [startsWord_ident, hn.1]
  refine bind_takes (a := Tree.none) rfl (bind_takes rest_run ?_)
  rw [isPathWord, Bool.or_eq_false_iff] at hp
  simp at hp
  simp (disch := decide) [isAbsent, Tree.none, hn, hp]
  rfl

theorem typeRule_takes_none (n : Nat) (plus close : Bool) (h : EndsType after)
    (hp : isPathWord name = false) (hl : name ≠ "_") :
    ((ofDepth n).typeRule plus close).takes (.ident name :: after) = none := by
  by_cases hcall : name = "fn" ∨ name = "unsafe" ∨ name = "extern"
  · rw [takes, typeRule_callable _ plus close hcall]
    exact (ofDepth n).functionType_takes_none h hcall
  by_cases hfor : name = "for"
  · subst hfor
    exact bind_takes sees_run (bind_takes seesWord_run
      (bind_takes_none ((ofDepth n).binder_takes_none h)))
  by_cases hdyn : name = "dyn"
  · subst hdyn
    unfold typeRule
    refine bind_takes sees_run (bind_takes seesWord_run ?_)
    refine bind_takes (a := Tree.none) rfl (bind_takes rest_run ?_)
    refine bind_takes word_self (bind_takes (sign?_run_none h (by decide)) ?_)
    exact bind_takes_none (traitBounds_takes_none n _ _ _ _ h)
  by_cases himpl : name = "impl"
  · subst himpl
    unfold typeRule
    refine bind_takes sees_run (bind_takes seesWord_run ?_)
    refine bind_takes (a := Tree.none) rfl (bind_takes rest_run ?_)
    refine bind_takes word_self ?_
    exact bind_takes_none (traitBounds_takes_none n _ _ _ _ h)
  · refine (ofDepth n).typeRule_other plus close hp ?_
    simp only [not_or] at hcall
    simp [hcall, hfor, hdyn, himpl, hl]

/-! ## Types -/

/-- A type with one argument between angle brackets. -/
def genericTree (name : String) (argument : Tree) : Tree :=
  .node .pathType [.node .path [.node .segment
    [Tree.word name, .node .arguments [.sign "<", argument, .sign ">"]]]]

/-- A truth value as an argument. -/
def literalTree (name : String) : Tree :=
  .node .constArgument [.node .literalExpr [Tree.word name]]

/-- A shape as an argument, by what it is as a type. Only there may it be a truth value. -/
def argumentTree? (s : TypeShape) (type : Option Tree) : Option Tree :=
  if s = .bare "true" then some (literalTree "true")
  else if s = .bare "false" then some (literalTree "false")
  else type

theorem eq_of_argumentTree? {o : Option Tree} (h : argumentTree? s o = some t) :
    (∃ w, s = .bare w ∧ t = literalTree w) ∨ o = some t := by
  unfold argumentTree? at h
  split at h
  · rename_i hs
    cases h
    exact .inl ⟨_, hs, rfl⟩
  split at h
  · rename_i hs
    cases h
    exact .inl ⟨_, hs, rfl⟩
  · exact .inr h

theorem isSome_argumentTree? {o : Option Tree} (h : o.isSome = true) :
    (argumentTree? s o).isSome = true := by
  unfold argumentTree?
  split
  · rfl
  split
  · rfl
  · exact h

/-- A shape as a type. -/
def typeTree? : TypeShape → Option Tree
  | .bare name =>
    if isPathWord name then some (.node .pathType [PlainPath.tree ⟨false, name, []⟩])
    else if name = "_" then some (.node .inferType [Tree.word "_"])
    else none
  | .array s => (argumentTree? s (typeTree? s)).map (genericTree "Vec")
  | .optional s => (argumentTree? s (typeTree? s)).map (genericTree "Option")
  | .foreign _ => none

theorem typeTree?_kind (h : t ∈ typeTree? s) : ∃ k ps, t = .node k ps := by
  cases s with
  | bare name =>
    simp only [typeTree?, Option.mem_def] at h
    split at h
    · cases h
      exact ⟨_, _, rfl⟩
    · split at h <;> cases h
      exact ⟨_, _, rfl⟩
  | array | optional =>
    obtain ⟨a, -, rfl⟩ := Option.map_eq_some_iff.1 h
    exact ⟨_, _, rfl⟩
  | foreign => cases h

/-- Behind an argument nothing is said of it. -/
theorem genericArgument_takes {o : Option Tree} {joint : Bool} {r : Tokens}
    (hl : startsLifetime ts = false) (ht : startsLiteral ts = false)
    (hb : startsGroup .brace ts = false)
    (h : g.fullType.takes ts = o.map fun t => (t, .punct '>' joint :: r)) :
    g.genericArgument.takes ts = o.map fun t => (t, .punct '>' joint :: r) := by
  have hends : EndsType (.punct '>' joint :: r) := .angle
  unfold genericArgument
  refine bind_takes rest_run ?_
  rw [if_neg (by simp [hl]), if_neg (by simp [ht, hb])]
  refine bind_takes_map h fun t _ => ?_
  split
  · refine bind_run (sign?_run_none hends (by decide)) ?_
    exact bind_run (sign?_run_none hends (by decide)) rfl
  · rfl

theorem lifetimesFirst_single (h : isLifetimeArgument t = false) :
    lifetimesFirst isLifetimeArgument [t] = [t] := by
  simp [lifetimesFirst, pairs, unpair, h]

section
variable {o : Option Tree} {w : String} {i j : Bool}
  (h : g.genericArgument.takes (.ident w :: ts) = o.map fun t => (t, .punct '>' j :: after))
  (ho : ∀ t ∈ o, isLifetimeArgument t = false)

include h ho in
theorem angleArguments_takes : g.angleArguments.takes (.punct '<' i :: .ident w :: ts) =
    o.map fun t => (.node .arguments [.sign "<", t, .sign ">"], after) := by
  unfold angleArguments
  refine bind_takes (a := none) (r := .punct '<' i :: .ident w :: ts) (by simp [sign?_run]) ?_
  refine bind_takes (a := .sign "<") (r := .ident w :: ts) (by simp [sign_run]) ?_
  refine bind_takes_map (untilSign_takes (by simp) (by simp) h) fun t ht => ?_
  refine bind_run (a := .sign ">") (r := after) (by simp [sign_run]) ?_
  rw [lifetimesFirst_single (ho t ht)]
  rfl

include h ho in
theorem segment_takes (hn : isIdent name = true) :
    (g.segment false).takes (.ident name :: .punct '<' i :: .ident w :: ts) =
      o.map fun t => (.node .segment [Tree.word name, .node .arguments [.sign "<", t, .sign ">"]], after) := by
  have hne : ∀ v, isIdent v = false → (name == v) = false := fun v => ne_of_isIdent hn
  unfold segment
  refine bind_takes rest_run ?_
  rw [if_neg (by simp (disch := decide) [hne, -beq_eq_false_iff_ne])]
  rw [if_neg (by simp (disch := decide) [hne])]
  refine bind_takes (ident_run hn) (bind_takes rest_run ?_)
  rw [if_pos (by simp)]
  exact bind_takes_map (g.angleArguments_takes h ho) fun t _ => rfl

include h ho in
theorem path_takes (hn : isIdent name = true) (ha : EndsType after) :
    (g.path false).takes (.ident name :: .punct '<' i :: .ident w :: ts) =
      o.map fun t => (.node .path [.node .segment
        [Tree.word name, .node .arguments [.sign "<", t, .sign ">"]]], after) := by
  refine bind_takes (sign?_absent (by simp)) ?_
  refine bind_takes_map (g.segment_takes h ho hn) fun t _ => ?_
  have hnames : ∀ name ∈ ([] : List String), isSegment name = true := List.forall_mem_nil _
  have hrest := g.pathRest_run false hnames ha.endsPath.separator ha.endsPath.angle
  exact bind_run hrest rfl

include h ho in
/-- A type with one argument is read where the argument is. -/
theorem typeRule_takes_generic (plus close : Bool) (hn : isIdent name = true) (ha : EndsType after) :
    (g.typeRule plus close).takes (.ident name :: .punct '<' i :: .ident w :: ts) =
      o.map fun t => (genericTree name t, after) := by
  rw [takes, typeRule_named g plus close (isPathWord_of_isIdent hn)]
  refine bind_takes_map (bind_takes (sign?_absent (by simp)) (g.path_takes h ho hn ha)) fun t _ => ?_
  rw [if_neg (by simp [Tree.isKind, Tree.kind?])]
  refine bind_run sees_run ?_
  rw [startsBang_of_endsPath ha.endsPath, if_neg (by simp)]
  refine bind_run seesSign_run ?_
  rw [ha.endsPath.plus, if_neg (by simp [isAbsent, Tree.none])]
  rfl

end

theorem starts_of_genericTokens (h : GenericTokens s ts) :
    ∃ w r, ts = .ident w :: r ∧ (s = .bare w ∨ isIdent w = true) := by
  cases h with
  | bare => exact ⟨_, _, rfl, .inl rfl⟩
  | array => exact ⟨_, _, rfl, .inr (by decide)⟩
  | optional => exact ⟨_, _, rfl, .inr (by decide)⟩

theorem constArgument_run {w : String} (hw : w = "true" ∨ w = "false") :
    g.genericArgument.run (.ident w :: after) =
      .ok (literalTree w, after) := by
  rcases hw with rfl | rfl <;> exact bind_run rest_run rfl

/-- An argument is read as a type, unless it is a truth value. -/
theorem argument_takes {j : Bool} (h : GenericTokens s ts)
    (ht : g.fullType.takes (ts ++ .punct '>' j :: after) =
      (typeTree? s).map fun t => (t, .punct '>' j :: after)) :
    g.genericArgument.takes (ts ++ .punct '>' j :: after) =
      (argumentTree? s (typeTree? s)).map fun t => (t, .punct '>' j :: after) := by
  unfold argumentTree?
  split
  · rename_i hs
    subst hs
    cases h
    exact takes_eq_some.2 (g.constArgument_run (.inl rfl))
  split
  · rename_i hs
    subst hs
    cases h
    exact takes_eq_some.2 (g.constArgument_run (.inr rfl))
  · rename_i htrue hfalse
    obtain ⟨w, r, rfl, hw⟩ := starts_of_genericTokens h
    refine g.genericArgument_takes startsLifetime_ident ?_ startsGroup_ident ht
    rw [List.cons_append, startsLiteral_ident]
    rcases hw with rfl | hw
    · simp only [TypeShape.bare.injEq] at htrue hfalse
      simp [htrue, hfalse]
    · rw [ne_of_isIdent hw (by decide), ne_of_isIdent hw (by decide)]
      rfl

theorem fullType_name (n : Nat) (ha : EndsType after) :
    (ofDepth (n + 1)).fullType.takes (.ident name :: after) =
      (typeTree? (.bare name)).map fun t => (t, after) := by
  rw [typeTree?]
  by_cases hp : isPathWord name = true
  · rw [if_pos hp]
    exact takes_eq_some.2 ((ofDepth n).typeRule_run true true (PlainPath.free_word hp) ha.endsPath)
  rw [if_neg hp]
  by_cases hl : name = "_"
  · subst hl
    exact takes_eq_some.2 ((ofDepth n).typeRule_infer true true)
  · rw [if_neg hl]
    exact typeRule_takes_none n true true ha (Bool.eq_false_iff.2 hp) hl

theorem not_lifetime_of_argumentTree? (h : t ∈ argumentTree? s (typeTree? s)) :
    isLifetimeArgument t = false := by
  rcases eq_of_argumentTree? h with ⟨w, -, rfl⟩ | h
  · rfl
  · obtain ⟨k, ps, rfl⟩ := typeTree?_kind h
    rfl

theorem fullType_layer {i j : Bool} (hn : isIdent name = true) (h : GenericTokens s ts)
    (ht : (ofDepth n).fullType.takes (ts ++ .punct '>' j :: after) =
      (typeTree? s).map fun t => (t, .punct '>' j :: after)) (ha : EndsType after) :
    (ofDepth (n + 1)).fullType.takes (.ident name :: .punct '<' i :: (ts ++ [.punct '>' j]) ++ after) =
      ((argumentTree? s (typeTree? s)).map (genericTree name)).map fun t => (t, after) := by
  have harg := (ofDepth n).argument_takes h ht
  obtain ⟨w, r, rfl, -⟩ := starts_of_genericTokens h
  rw [List.cons_append] at harg
  have htype := (ofDepth n).typeRule_takes_generic (i := i) harg
    (fun t => not_lifetime_of_argumentTree?) true true hn ha
  have happ : .ident name :: .punct '<' i :: (.ident w :: r ++ [.punct '>' j]) ++ after =
      .ident name :: .punct '<' i :: .ident w :: (r ++ .punct '>' j :: after) := by simp
  rw [happ, Option.map_map]
  exact htype

/-- The tokens of a shape are read as the type that the shape is, if it is one. -/
theorem fullType_takes (h : GenericTokens s ts) (hn : ts.length ≤ n) (ha : EndsType after) :
    (ofDepth n).fullType.takes (ts ++ after) = (typeTree? s).map fun t => (t, after) := by
  induction h generalizing n after with
  | bare =>
    cases n with
    | zero => contradiction
    | succ n => exact fullType_name n ha
  | array h ih | optional h ih =>
    cases n with
    | zero => contradiction
    | succ n =>
      simp only [List.length_cons, List.length_append] at hn
      exact fullType_layer (by decide) h (ih (by omega) .angle) ha

/-- The words of the type are those of the shape. -/
theorem wordsIn_typeTree? (h : typeTree? s = some t) : Token.wordsIn t.tokens = genericWords s := by
  induction s generalizing t with
  | bare name =>
    rw [typeTree?] at h
    split at h
    · cases h
      rfl
    · rename_i hp
      split at h <;> cases h
      rename_i hl
      rw [hl]
      rfl
  | array s ih | optional s ih =>
    obtain ⟨a, ha, rfl⟩ := Option.map_eq_some_iff.1 h
    have hwords : Token.wordsIn a.tokens = genericWords s := by
      rcases eq_of_argumentTree? ha with ⟨w, rfl, rfl⟩ | ha
      · rfl
      · exact ih ha
    simp [genericTree, Tree.tokens, Tree.tokensList, Tree.word, Tree.printed_ident, Token.wordsIn,
      Token.wordsIn_append, Token.words, genericWords, hwords, Tokens.sign, Tokens.joined]
  | foreign => cases h

end Grammar

namespace Parser

theorem toOption_all {α : Type} {p : Parser α} {ts : Tokens} {o : Option α}
    (h : p.takes ts = o.map fun a => (a, [])) : (all p ts).toOption = o := by
  cases o with
  | some a => rw [all_of_run (takes_eq_some.1 h), Except.toOption]
  | none =>
    cases hall : all p ts with
    | error e => rfl
    | ok a =>
      rw [takes_eq_some.2 (run_of_all hall)] at h
      cases h

end Parser

theorem length_le_weightList (ts : Tokens) : ts.length ≤ Token.weightList ts := by
  induction ts with
  | nil => exact Nat.zero_le _
  | cons t ts ih =>
    have ht : 1 ≤ t.weight := by cases t <;> simp [Token.weight]
    rw [Token.weightList, List.length_cons]
    omega

/-- The tokens of a shape, as a type. -/
theorem parseType_toOption {s : TypeShape} {ts : Tokens} (h : GenericTokens s ts) :
    (parseType ts).toOption = Grammar.typeTree? s := by
  refine Parser.toOption_all ?_
  have hlen := length_le_weightList ts
  have htakes := Grammar.fullType_takes h (n := 8 * Token.weightList ts + 16) (by omega) .nil
  rwa [List.append_nil] at htakes

/-! ## Texts -/

section
variable {s : TypeShape} {text : String}

/-- The type that a text spells, if it is one. -/
def typeOf (text : String) : Option Code.Tree := (lex text).bind fun ts => (parseType ts).toOption

/-- A text in the generic spelling is the type that its shape is. -/
theorem typeOf_of_spellsGeneric (h : SpellsGeneric s (solid text))
    (hs : splitsName text.toList = false) : typeOf text = Grammar.typeTree? s := by
  obtain ⟨ts, hts, hlex⟩ := lexesAs_of_spellsGeneric h text.toList [] rfl hs endsName_nil
  have htext : lex text = some ts := by
    rw [List.append_nil] at hlex
    rw [lex, lexChars_eq_lexPlain h.head?_ne, hlex]
    simp [lexPlain_nil]
  rw [typeOf, htext]
  exact parseType_toOption hts

theorem typeOf_render (h : s.IsPlain) : typeOf (s.render .generic) = Grammar.typeTree? s := by
  have hspells := spellsGeneric_render h
  have hblank := (TypeShape.spells_render h .generic).not_isBlank
  rw [← TypeShape.solid_render h] at hspells
  exact typeOf_of_spellsGeneric hspells (splitsName_of_solid hblank)

end

end Courier.Code
