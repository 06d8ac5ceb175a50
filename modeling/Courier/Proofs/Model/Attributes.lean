import Courier.Proofs.Model.Elements
import Courier.Proofs.Xml.Tags

/-!
Tags with malformed attributes. The reader takes such a tag for the one that is left without them.
-/
namespace Courier
open Xml

namespace Xml

/-! ## Attributes written anew -/

/-- A quote that can stand around the value. -/
def Attribute.quote (a : Attribute) : Char := if '"' ∈ a.raw then '\'' else '"'

def Attribute.written (a : Attribute) : List Char :=
  ' ' :: (a.key.toList ++ '=' :: a.quote :: (a.raw ++ [a.quote]))

/-- A tag without its malformed attributes. -/
def Tag.cleaned (t : Tag) : Tag := ⟨t.name, t.attributes.flatMap Attribute.written⟩

def Event.cleaned : Event → Event
  | .start tag => .start tag.cleaned
  | .empty tag => .empty tag.cleaned
  | e => e

def Document.cleaned (d : Document) : Document := ⟨d.events.map Event.cleaned, d.fault⟩

/-- Attributes that can stand behind some others: their keys are new and their values quotable. -/
inductive Clean : List String → List Attribute → Prop
  | nil {seen} : Clean seen []
  | cons {seen a as} : IsKey a.key → a.key ∉ seen → a.quote ∉ a.raw → Clean (a.key :: seen) as →
      Clean seen (a :: as)

variable {seen : List String} {as : List Attribute} {cs : List Char}

theorem Clean.anti {more : List String} (h : Clean more as) (hs : seen ⊆ more) : Clean seen as := by
  induction h generalizing seen with
  | nil => exact .nil
  | cons hk hn hq _ ih => exact .cons hk (fun hm => hn (hs hm)) hq (ih (List.cons_subset_cons _ hs))

theorem isQuote_quote (a : Attribute) : isQuote a.quote := by
  unfold Attribute.quote
  split <;> decide

theorem Clean.attributesFrom (h : Clean seen as) :
    attributesFrom seen (as.flatMap Attribute.written) = as.map .ok := by
  induction h with
  | nil => exact attributesFrom_space (List.forall_mem_nil _)
  | @cons seen a as hk hn hq _ ih =>
    have hs : AllSpace [' '] := by simp [AllSpace, isSpace]
    have hw : (a :: as).flatMap Attribute.written = [' '] ++ (a.key.toList ++
        '=' :: a.quote :: (a.raw ++ a.quote :: as.flatMap Attribute.written)) := by
      simp [Attribute.written]
    rw [hw, attributesFrom_cons hs hk hn (isQuote_quote a) hq, ih]
    rfl

theorem not_mem_of_quotedBy {quote : Char} {a b : List Char}
    (h : quotedBy quote cs = some (a, b)) : quote ∉ a := by
  induction cs generalizing a with
  | nil => cases h
  | cons c cs ih =>
    rw [quotedBy] at h
    split at h
    · cases h
      exact List.not_mem_nil
    · rename_i hc
      obtain ⟨⟨x, y⟩, hx, hab⟩ := Option.map_eq_some_iff.1 h
      cases hab
      exact fun hm => (List.mem_cons.1 hm).elim (fun he => hc he.symm) (ih hx)

theorem quote_not_mem {key : String} {quote : Char} {raw : List Char} (hq : isQuote quote)
    (h : quote ∉ raw) : Attribute.quote ⟨key, raw⟩ ∉ raw := by
  have hq : quote = '"' ∨ quote = '\'' := by simpa [isQuote] using hq
  unfold Attribute.quote
  split
  · rename_i hm
    rcases hq with rfl | rfl
    · exact absurd hm h
    · exact h
  · assumption

theorem isKey_of_dropWhile {k : Char} {r : List Char} (h : cs.dropWhile isSpace = k :: r) :
    IsKey (String.ofList (k :: r.takeWhile inKey)) := by
  refine ⟨k, r.takeWhile inKey, String.toList_ofList, ?_, fun c => List.mem_takeWhile_imp⟩
  simpa [h] using List.head?_dropWhile_not isSpace cs

/-- The attributes that are read of a tag are clean, whatever stands between them. -/
theorem clean_attributesFrom (seen : List String) (cs : List Char) :
    Clean seen ((attributesFrom seen cs).filterMap Except.toOption) := by
  fun_induction attributesFrom seen cs with
  | case1 | case2 | case4 | case6 => exact .nil
  | case3 _ _ _ _ _ _ _ _ _ ih => exact ih
  | case5 seen cs k r hk key v _ hn q w _ hq value rest hv ih =>
    exact .cons (isKey_of_dropWhile hk) (by simpa using hn)
      (quote_not_mem hq (not_mem_of_quotedBy hv)) ih
  | case7 seen cs k r hk key v _ _ q w _ _ ih =>
    -- the name of a malformed attribute counts as seen, but the attribute itself is gone
    exact ih.anti (List.subset_cons_self ..)
  | case8 _ _ _ _ _ _ _ _ _ ih => exact ih

theorem attributesFrom_cleaned (tag : Tag) :
    attributesFrom [] tag.cleaned.rest = tag.attributes.map .ok :=
  (clean_attributesFrom [] tag.rest).attributesFrom

theorem attributes_cleaned (tag : Tag) : tag.cleaned.attributes = tag.attributes := by
  rw [Tag.attributes, attributesFrom_cleaned, List.filterMap_map]
  exact List.filterMap_some

end Xml

/-! ## The reader -/

namespace Reading

theorem openSchema_cleaned (tag : Tag) : openSchema tag.cleaned = openSchema tag := by
  rw [openSchema, values, attributes_cleaned, openSchema, values]

theorem openModel_cleaned (tag : Tag) : openModel tag.cleaned = openModel tag := by
  rw [openModel, attributes_cleaned, openModel]

theorem member_cleaned (tag : Tag) : member tag.cleaned = member tag := by
  rw [member, values, attributes_cleaned, member, values]
  rfl

theorem label_cleaned (tag : Tag) : label tag.cleaned = label tag := by
  rw [label, attributes_cleaned, label]

theorem step_cleaned (r : Reading) (e : Xml.Event) : step r e.cleaned = step r e := by
  cases e with
  | start tag | empty tag =>
    simp only [Event.cleaned, step, openSchema_cleaned, openModel_cleaned, member_cleaned,
      label_cleaned]
    rfl
  | _ => rfl

end Reading

theorem readDocument_cleaned (d : Document) : readDocument d.cleaned = readDocument d := by
  simp only [readDocument, Document.cleaned, List.foldlM_map, Reading.step_cleaned]

/-- A text is read as the document in which each tag has lost its malformed attributes and kept all
else. So one of them is never the reason for an error. -/
theorem readSchema_cleaned (text : String) :
    (readSchema text).result = readDocument (Document.ofText text).cleaned ∧
    ∀ tag : Tag, tag.cleaned.name = tag.name ∧
      attributesFrom [] tag.cleaned.rest =
        ((attributesFrom [] tag.rest).filterMap Except.toOption).map .ok := by
  refine ⟨?_, fun tag => ⟨rfl, attributesFrom_cleaned tag⟩⟩
  rw [result_readSchema, readDocument_cleaned]

/-- A schema with a type that does not stand in quotes. -/
def bareType : String :=
  "<dtoSchema package=\"p\"><model name=\"A\"><property name=\"x\" type=u8/></model></dtoSchema>"

/-- The type is lost, and nothing tells. -/
theorem readSchema_cleaned_of_bareType :
    readDocument (Document.ofText bareType).cleaned =
      .ok ⟨"p", [⟨⟨.classType, "A", [.stored "x" none]⟩, []⟩]⟩ ∧
    (readSchema bareType).result = .ok ⟨"p", [⟨⟨.classType, "A", [.stored "x" none]⟩, []⟩]⟩ ∧
    attributesFrom [] " name=\"x\" type=u8".toList =
      [.ok ⟨"name", ['x']⟩, .error .unquoted] ∧
    attributesFrom [] (Tag.cleaned ⟨"property", " name=\"x\" type=u8".toList⟩).rest =
      [.ok ⟨"name", ['x']⟩] := by
  have tag : attributesFrom [] " name=\"x\" type=u8".toList =
      [.ok ⟨"name", ['x']⟩, .error .unquoted] := by
    decide +kernel
  have read : (readSchema bareType).result =
      .ok ⟨"p", [⟨⟨.classType, "A", [.stored "x" none]⟩, []⟩]⟩ := by
    decide +kernel
  obtain ⟨same, drops⟩ := readSchema_cleaned bareType
  refine ⟨same.symm.trans read, read, tag, ?_⟩
  rw [(drops ⟨"property", " name=\"x\" type=u8".toList⟩).2, tag]
  rfl

end Courier
