import Courier.Proofs.Code.Progress
import Courier.Proofs.Generation.Pairs
import Mathlib.Data.List.TakeWhile

/-!
The header of a generated file is nothing but a comment, as long as the package is a single line.
What follows the first line of a package is read as code.
-/
namespace Courier.Code

/-! ## Skipping -/

theorem lexPlain_newline (cs : List Char) : lexPlain ('\n' :: cs) = lexPlain cs :=
  lexPlain_skip rfl

/-- A comment reaches up to the end of its line. -/
theorem lexPlain_comment (cs : List Char) :
    lexPlain ("// ".toList ++ cs) = lexPlain (cs.dropWhile (· != '\n')) := by
  have hs : "// ".toList ++ cs = '/' :: '/' :: ' ' :: cs := by simp
  rw [hs, lexPlain_skip (r := (lineComment (' ' :: cs)).2) rfl, lineComment_rest]
  rfl

end Courier.Code

namespace Courier
open Code

/-- The items of a file. -/
def readFile (text : String) : Option (List Code.Tree) :=
  (lex text).bind fun ts => (parseFile ts).toOption

/-- Does a text have the items? Their layout does not count. -/
def HasItems (text : String) (items : List Code.Tree) : Prop :=
  ∃ read, readFile text = some read ∧ formatFile read = formatFile items

/-- Do the items of a file read as items with the same texts? -/
def readsBack (items : List Code.Tree) : Bool :=
  match lexChars ('\n' :: (fileTexts items).flatMap String.toList) with
  | some ts =>
    match parseFile ts with
    | .ok read => fileTexts read == fileTexts items
    | .error _ => false
  | none => false

theorem HasItems.of_readsBack {items : List Code.Tree} (h : readsBack items = true) :
    HasItems ("\n" ++ formatFile items) items := by
  have htext : ("\n" ++ formatFile items).toList =
      '\n' :: (fileTexts items).flatMap String.toList := by
    simp [formatFile]
  unfold readsBack at h
  split at h
  · rename_i ts hlex
    split at h
    · rename_i read hread
      refine ⟨read, ?_, congrArg String.join (eq_of_beq h)⟩
      rw [readFile, lex, htext, hlex, Option.bind_some, hread]
      rfl
    · cases h
  · cases h

namespace Schema

variable {s : Schema} {c : Config}

/-- What follows the first line of the package, with the line feed before it. -/
def laterLines (s : Schema) : List Char := s.package.toList.dropWhile (· != '\n')

theorem laterLines_eq_nil : s.laterLines = [] ↔ '\n' ∉ s.package.toList := by
  rw [laterLines, List.dropWhile_eq_nil_iff]
  constructor
  · intro h hm
    simpa using h _ hm
  · intro h c hc
    simp only [bne_iff_ne, ne_eq]
    rintro rfl
    exact h hc

theorem toList_header (s : Schema) (code : String) : (s.header ++ code).toList =
    "// @generated by dtogen. Do not edit.\n".toList ++ ((if s.package.isEmpty then [] else
      "// Package: ".toList ++ (s.package.toList ++ "\n".toList)) ++
        ("\n".toList ++ code.toList)) := by
  -- the texts are variables here, so that rewriting does not look into them
  have happ : ∀ (a b e : String) (c : Bool),
      (a ++ (if c then "" else b ++ s.package ++ e) ++ e ++ code).toList =
        a.toList ++ ((if c then [] else b.toList ++ (s.package.toList ++ e.toList)) ++
          (e.toList ++ code.toList)) := by
    intro a b e c
    cases c <;> simp
  exact happ ..

/-- The header is read as the later lines of the package. -/
theorem lex_header (s : Schema) (code : String) :
    lex (s.header ++ code) = lexPlain (s.laterLines ++ ("\n\n".toList ++ code.toList)) := by
  have hfirst : "// @generated by dtogen. Do not edit.\n".toList =
      "// ".toList ++ ("@generated by dtogen. Do not edit.".toList ++ "\n".toList) := by decide
  have hsecond : "// Package: ".toList = "// ".toList ++ "Package: ".toList := by decide
  have hend : "\n\n".toList = "\n".toList ++ "\n".toList := by decide
  have hskip : ∀ cs, lexPlain ("\n".toList ++ cs) = lexPlain cs := fun cs => by
    simp [lexPlain_newline]
  have hline : ∀ cs, ("\n".toList ++ cs).dropWhile (· != '\n') = "\n".toList ++ cs := by simp
  have hmark : ∀ cs, ("// ".toList ++ cs).head? ≠ some '\ufeff' := by simp
  rw [lex, toList_header, hfirst, List.append_assoc, lexChars_eq_lexPlain (hmark _),
    lexPlain_comment, List.append_assoc, List.dropWhile_append_of_pos (List.all_eq_true.1 (by decide)),
    hline, hskip, hend]
  by_cases hp : s.package.isEmpty = true
  · rw [if_pos hp, laterLines, String.isEmpty_iff.1 hp, List.append_assoc]
    exact (hskip _).symm
  · rw [if_neg hp, hsecond]
    simp only [List.append_assoc]
    rw [lexPlain_comment, List.dropWhile_append_of_pos (List.all_eq_true.1 (by decide)),
      List.dropWhile_append]
    split
    · rename_i h
      rw [laterLines, List.isEmpty_iff.1 h, hline]
      rfl
    · rfl

theorem head?_laterLines (s : Schema) (cs : List Char) :
    (s.laterLines ++ ("\n\n".toList ++ cs)).head? = some '\n' := by
  cases h : s.laterLines with
  | nil => simp
  | cons d ds =>
    have hd := List.head?_dropWhile_not (· != '\n') s.package.toList
    rw [← laterLines, h] at hd
    simpa using hd

theorem readFile_header (s : Schema) (code : String) :
    readFile (s.header ++ code) = readFile (String.ofList s.laterLines ++ "\n\n" ++ code) := by
  have hmark : (s.laterLines ++ ("\n\n".toList ++ code.toList)).head? ≠ some '\ufeff' := by
    rw [head?_laterLines]
    decide
  have htext : ∀ e : String, (String.ofList s.laterLines ++ e ++ code).toList =
      s.laterLines ++ (e.toList ++ code.toList) := by simp
  rw [readFile, readFile, lex_header, lex, htext, lexChars_eq_lexPlain hmark]

/-- The header of a package of a single line adds nothing. -/
theorem readFile_header_of_line (h : '\n' ∉ s.package.toList) (code : String) :
    readFile (s.header ++ code) = readFile ("\n" ++ code) := by
  have hend : "\n\n".toList ++ code.toList = '\n' :: '\n' :: code.toList := by simp
  have htext : ("\n" ++ code).toList = '\n' :: code.toList := by simp
  have hmark : ('\n' :: code.toList).head? ≠ some '\ufeff' := by simp
  rw [readFile, readFile, lex_header, laterLines_eq_nil.2 h, List.nil_append, hend, lexPlain_newline,
    lex, htext, lexChars_eq_lexPlain hmark]

end Schema

/-- The text of a file reads as its formatted items behind the later lines of the package. If the
package is a single line, the file has its items and nothing else. -/
theorem generate_reads {s : Schema} {c : Config} {text : String}
    (h : (s.generate c).result = .ok text) :
    ∃ ts items, (s.generateTokens c).result = .ok ts ∧ parseFile ts = .ok items ∧
      readFile text = readFile (String.ofList s.laterLines ++ "\n\n" ++ formatFile items) ∧
      ('\n' ∉ s.package.toList → readFile text = readFile ("\n" ++ formatFile items) ∧
        (HasItems ("\n" ++ formatFile items) items → HasItems text items)) := by
  obtain ⟨ts, items, hts, hitems, rfl⟩ := Schema.generate_eq_ok.1 h
  refine ⟨ts, items, hts, hitems, s.readFile_header _, fun hp => ?_⟩
  have hread := Schema.readFile_header_of_line hp (formatFile items)
  exact ⟨hread, fun ⟨read, hr, hf⟩ => ⟨read, hread.trans hr, hf⟩⟩

/-- A cart of a shop. -/
def cart : Schema := ⟨"shop", [⟨⟨.struct, "Cart", [.stored "size" (some "u32")]⟩, []⟩]⟩

/-- The file of the cart has its five items. -/
theorem generate_reads_of_cart :
    ∃ text ts items, (cart.generate .default).result = .ok text ∧
      (cart.generateTokens .default).result = .ok ts ∧ parseFile ts = .ok items ∧
      items.length = 5 ∧ readFile text = readFile ("\n" ++ formatFile items) ∧
      HasItems text items := by
  obtain ⟨text, h⟩ := exists_eq_ok (x := (cart.generate .default).result) (by decide +kernel)
  obtain ⟨ts, items, hts, hitems, -, hline⟩ := generate_reads h
  have hback : ((cart.generateTokens .default).result.toOption.bind fun ts =>
      (parseFile ts).toOption.map fun items => (items.length, readsBack items)) = some (5, true) := by
    decide +kernel
  simp only [hts, hitems, Except.toOption, Option.bind_some, Option.map_some, Option.some.injEq,
    Prod.mk.injEq] at hback
  obtain ⟨hread, hhas⟩ := hline (by decide)
  exact ⟨text, ts, items, h, hts, hitems, hback.1, hread, hhas (.of_readsBack hback.2)⟩

/-- The second line of a package is code. -/
example : (readFile (Schema.header ⟨"shop\nstruct Cart;", []⟩)).map List.length = some 1 := by
  decide +kernel

end Courier
