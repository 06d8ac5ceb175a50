import Courier.Model.Argument
import Courier.Proofs.Code.Literals

/-!
Values that are shown and read again. A value of arrays and strings is shown as the text of a single
token, and the token is read as an expression of the value.
-/
namespace Courier
open Code Code.Tokens Code.Parser Text

namespace ArgumentValue

/-- A value of arrays and strings alone. -/
inductive IsLiteral : ArgumentValue → Prop
  | list {es : List ArgumentValue} (h : ∀ e ∈ es, IsLiteral e) : IsLiteral (.list es)
  | text (value : String) : IsLiteral (.text value)

mutual
/-- A value as a token. -/
def token : ArgumentValue → Token
  | .list es => .group .bracket ((tokens es).intersperse .comma)
  | v => .literal v.display

def tokens : List ArgumentValue → Tokens
  | [] => []
  | e :: es => e.token :: tokens es
end

mutual
/-- A value as an expression. -/
def tree : ArgumentValue → Code.Tree
  | .list es => .node .arrayExpr [.group .bracket ((trees es).intersperse (.sign ","))]
  | v => .node .literalExpr [.token v.token]

def trees : List ArgumentValue → List Code.Tree
  | [] => []
  | e :: es => e.tree :: trees es
end

variable {v : ArgumentValue} {es : List ArgumentValue}

@[simp] theorem isLiteral_list : (ArgumentValue.list es).IsLiteral ↔ ∀ e ∈ es, e.IsLiteral :=
  ⟨fun | .list h => h, .list⟩

@[simp] theorem isLiteral_text (value : String) : (ArgumentValue.text value).IsLiteral := .text value

theorem tokens_eq_map (es : List ArgumentValue) : tokens es = es.map token := by
  induction es with
  | nil => rfl
  | cons e es ih => rw [tokens, ih, List.map_cons]

theorem trees_eq_map (es : List ArgumentValue) : trees es = es.map tree := by
  induction es with
  | nil => rfl
  | cons e es ih => rw [trees, ih, List.map_cons]

theorem display_text (value : String) :
    (ArgumentValue.text value).display.toList = quote value.toList := by
  rw [display, String.toList_ofList]

theorem display_list (es : List ArgumentValue) :
    (ArgumentValue.list es).display.toList = '[' :: ((displayList es).toList ++ [']']) := by
  simp [display]

/-! ## Tokens -/

/-- The value's text is one token in front of whatever ends a value. -/
def LexesAlone (v : ArgumentValue) : Prop := ∀ r, EndsValue r →
  lexFrom (v.display.toList ++ r) = (lexFrom r).map fun p => (v.token :: p.1, p.2)

theorem lexFrom_displayList (h : ∀ e ∈ es, e.LexesAlone) (r : List Char) :
    lexFrom ((displayList es).toList ++ ']' :: r) = some ((tokens es).intersperse .comma, ']' :: r) := by
  -- each element ends a value: the bracket follows the last, a comma every other
  induction es with
  | nil => exact lexFrom_closing r
  | cons e es ih =>
    have he := h e (List.mem_cons_self ..)
    have ih := ih fun e he => h e (List.mem_cons_of_mem _ he)
    cases es with
    | nil => simp [displayList, tokens, he _ (.bracket r), lexFrom_closing]
    | cons f fs =>
      have hsplit : (displayList (e :: f :: fs)).toList ++ ']' :: r =
          e.display.toList ++ ',' :: ' ' :: ((displayList (f :: fs)).toList ++ ']' :: r) := by
        simp [displayList]
      rw [hsplit, he _ (.comma _), lexFrom_comma, ih]
      rfl

theorem IsLiteral.lexesAlone (h : v.IsLiteral) : v.LexesAlone := by
  induction h with
  | text value =>
    intro r hr
    rw [display_text, lexFrom_quote _ hr]
    rfl
  | @list es h ih =>
    intro r _
    have happend : (ArgumentValue.list es).display.toList ++ r =
        '[' :: ((displayList es).toList ++ ']' :: r) := by
      rw [display_list]
      simp
    rw [happend, lexFrom_array (lexFrom_displayList ih r)]
    rfl

/-! ## Expressions -/

theorem weight_le_intersperse {ts : Tokens} {t : Token} (h : t ∈ ts) :
    t.weight ≤ Token.weightList (ts.intersperse .comma) := by
  induction ts with
  | nil => cases h
  | cons u us ih =>
    cases us with
    | nil =>
      obtain rfl := List.mem_singleton.1 h
      simp [Token.weightList]
    | cons s us =>
      rw [List.intersperse_cons_cons]
      simp only [Token.weightList]
      rcases List.mem_cons.1 h with rfl | h
      · omega
      · have := ih h
        omega

/-- A value is read from its token by a grammar that is deep enough for it. -/
theorem IsLiteral.readsAlone (h : v.IsLiteral) {n : Nat} (hn : 2 * v.token.weight + 1 ≤ n) :
    ReadsAlone (Grammar.ofDepth n).fullExpr v.token v.tree := by
  induction h generalizing n with
  | text value =>
    obtain ⟨k, rfl⟩ := Nat.exists_eq_add_of_le' hn
    exact Grammar.readsAlone_literal k _
  | @list es h ih =>
    -- an array takes two calls of the grammar, and its brackets weigh two
    have hweight : (ArgumentValue.list es).token.weight =
        Token.weightList ((tokens es).intersperse .comma) + 2 := rfl
    obtain ⟨k, rfl⟩ := Nat.exists_eq_add_of_le' (show 3 ≤ n by omega)
    refine Grammar.readsAlone_array ?_
    rw [tokens_eq_map, trees_eq_map, List.forall₂_map_left_iff, List.forall₂_map_right_iff,
      List.forall₂_same]
    intro e he
    have hle : e.token.weight ≤ Token.weightList ((tokens es).intersperse .comma) :=
      weight_le_intersperse (by rw [tokens_eq_map]; exact List.mem_map_of_mem he)
    exact ih e he (by omega)

theorem isComma_tree (v : ArgumentValue) : v.tree.isComma = false := by
  cases v <;> rfl

theorem ofElements_trees (h : ∀ e ∈ es, ofExpr e.tree = e) :
    ofElements ((trees es).intersperse (.sign ",")) = es := by
  induction es with
  | nil => rfl
  | cons e es ih =>
    have he := h e (List.mem_cons_self ..)
    have ih := ih fun e he => h e (List.mem_cons_of_mem _ he)
    cases es with
    | nil => simp [trees, ofElements, isComma_tree, he]
    | cons f fs =>
      have hcomma : (Code.Tree.sign ",").isComma = true := by simp [Code.Tree.isComma]
      rw [trees, trees, List.intersperse_cons_cons, ofElements, if_neg (by simp [isComma_tree]), he,
        ofElements, if_pos hcomma, ← trees, ih]

theorem ofLiteral_quote (value : String) :
    ofLiteral (String.ofList (quote value.toList)) = some (.text value) := by
  have hread : readQuoted .value (value.toList.flatMap escapeChar ++ ['"']) = some (value.toList, []) :=
    readQuoted_quote QuoteForm.full_value _ _
  simp [ofLiteral, stringValue?, stringParts?, quote, hread]

/-- An expression of a value is read as the value. -/
theorem IsLiteral.ofExpr_tree (h : v.IsLiteral) : ofExpr v.tree = v := by
  induction h with
  | text value => simp [tree, token, display, ofExpr, ofLiteral_quote]
  | list h ih => rw [tree, ofExpr, ofElements_trees ih]

/-! ## Whole texts -/

/-- A value's text begins and ends with a quote or a bracket. -/
theorem IsLiteral.exists_display (h : v.IsLiteral) : ∃ c cs d, v.display.toList = c :: (cs ++ [d]) ∧
    c ≠ '\ufeff' ∧ isBlank c = false ∧ isBlank d = false := by
  cases h with
  | text value => exact ⟨'"', _, '"', display_text value, by decide, by decide, by decide⟩
  | @list es h => exact ⟨'[', _, ']', display_list es, by decide, by decide, by decide⟩

theorem IsLiteral.trim_display (h : v.IsLiteral) : trim v.display.toList = v.display.toList := by
  obtain ⟨c, cs, d, hcs, -, hc, hd⟩ := h.exists_display
  simp [trim, trimBy, hcs, hc, hd]

theorem IsLiteral.lex_display (h : v.IsLiteral) : lex v.display = some [v.token] := by
  obtain ⟨c, cs, d, hcs, hmark, -, -⟩ := h.exists_display
  have hfrom : lexFrom v.display.toList = some ([v.token], []) := by
    have := h.lexesAlone [] .nil
    rwa [List.append_nil, lexFrom_nil] at this
  rw [lex, lexChars_eq_lexPlain (by simp [hcs, hmark]), lexPlain_eq, hfrom]

theorem IsLiteral.expression_display (h : v.IsLiteral) : expression? v.display = some v.tree := by
  have hparse : parseExpr [v.token] = .ok v.tree := by
    refine all_of_run (h.readsAlone ?_ [] .nil)
    simp only [Token.weightList]
    omega
  simp [expression?, h.lex_display, hparse, Except.toOption]

/-- A value of arrays and strings is read back from what it is shown as, so no two are shown alike. -/
theorem parse_display : (∀ v : ArgumentValue, v.IsLiteral → parse v.display = v) ∧
    ∀ v w : ArgumentValue, v.IsLiteral → w.IsLiteral → v.display = w.display → v = w := by
  have hread : ∀ v : ArgumentValue, v.IsLiteral → parse v.display = v := by
    intro v h
    unfold parse
    simp only [h.trim_display, String.ofList_toList, h.expression_display, Option.map_some, h.ofExpr_tree]
    cases h <;> rfl
  -- a value that is read back is known from its text
  refine ⟨hread, fun v w hv hw h => ?_⟩
  rw [← hread v hv, h, hread w hw]

/-- Arrays within arrays, and strings with all that is escaped in them. -/
def nestedValue : ArgumentValue :=
  .list [.list [], .text "", .text "a\"b\\c\n\x00\u200b", .list [.list [.text "[], \\", .text "é"]]]

theorem parse_display_of_nested : nestedValue.IsLiteral ∧ parse nestedValue.display = nestedValue ∧
    (ArgumentValue.list []).display ≠ (ArgumentValue.text "[]").display := by
  have hnested : nestedValue.IsLiteral := by simp [nestedValue]
  refine ⟨hnested, parse_display.1 nestedValue hnested, fun h => ?_⟩
  cases parse_display.2 (.list []) (.text "[]") (by simp) (by simp) h

end ArgumentValue

end Courier
