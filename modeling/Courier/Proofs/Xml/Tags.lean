import Courier.Xml.Event
import Mathlib.Data.List.Infix
import Mathlib.Data.List.TakeWhile

/-!
Tags as they are written. Values stand in quotes, with entities for the characters that mean
something in markup, and attributes in any order.
-/
namespace Courier.Xml

/-! ## Values -/

def escapeChar : Char → List Char
  | '&' => "&amp;".toList
  | '<' => "&lt;".toList
  | '>' => "&gt;".toList
  | '"' => "&quot;".toList
  | '\'' => "&apos;".toList
  | c => [c]

/-- A value with entities for the characters that mean something in markup. -/
def escape (cs : List Char) : List Char := cs.flatMap escapeChar

theorem escape_cons (c : Char) (cs : List Char) : escape (c :: cs) = escapeChar c ++ escape cs :=
  List.flatMap_cons ..

theorem unescapeFrom_cons {start size : Nat} {c : Char} {cs : List Char} (h : c ≠ '&') :
    unescapeFrom start size (c :: cs) =
      unescapeFrom (start + c.utf8Size) size cs >>= fun ds => .ok (c :: ds) := by
  rw [unescapeFrom.eq_def]
  split
  · simp_all
  · simp_all
  · simp_all
    rfl

theorem unescapeFrom_entity {start size : Nat} {name rest : List Char} {c : Char}
    (hn : name.all inName) (hc : predefined name = some c) (hh : name.head? ≠ some '#') :
    unescapeFrom start size ('&' :: (name ++ ';' :: rest)) =
      unescapeFrom (start + 2 + byteSize name) size rest >>= fun ds => .ok (c :: ds) := by
  have hn : ∀ c ∈ name, inName c := List.all_eq_true.1 hn
  have ht : (name ++ ';' :: rest).takeWhile inName = name := by
    rw [List.takeWhile_append_of_pos hn, List.takeWhile_cons_of_neg (by decide), List.append_nil]
  have hd : (name ++ ';' :: rest).dropWhile inName = ';' :: rest := by
    rw [List.dropWhile_append_of_pos hn, List.dropWhile_cons_of_neg (by decide)]
  rw [unescapeFrom.eq_def]
  simp only [ht]
  split
  · rename_i r h
    rw [hd] at h
    cases h
    split
    · simp at hh
    · rw [hc]; rfl
  · rename_i h
    exact absurd hd (h _)

theorem unescapeFrom_escape (cs : List Char) :
    ∀ start size, unescapeFrom start size (escape cs) = .ok cs := by
  induction cs with
  | nil =>
    intro start size
    rw [escape, List.flatMap_nil, unescapeFrom]
  | cons c cs ih =>
    intro start size
    rw [escape_cons]
    have entity : ∀ name, escapeChar c = '&' :: (name ++ [';']) → name.all inName →
        predefined name = some c → name.head? ≠ some '#' →
        unescapeFrom start size (escapeChar c ++ escape cs) = .ok (c :: cs) := by
      intro name he hn hc hh
      rw [he, List.cons_append, List.append_assoc, List.singleton_append,
        unescapeFrom_entity hn hc hh, ih]
      rfl
    by_cases h₁ : c = '&'
    · subst h₁
      exact entity "amp".toList rfl (by decide) (by decide) (by decide)
    by_cases h₂ : c = '<'
    · subst h₂
      exact entity "lt".toList rfl (by decide) (by decide) (by decide)
    by_cases h₃ : c = '>'
    · subst h₃
      exact entity "gt".toList rfl (by decide) (by decide) (by decide)
    by_cases h₄ : c = '"'
    · subst h₄
      exact entity "quot".toList rfl (by decide) (by decide) (by decide)
    by_cases h₅ : c = '\''
    · subst h₅
      exact entity "apos".toList rfl (by decide) (by decide) (by decide)
    have he : escapeChar c = [c] := by
      unfold escapeChar
      split <;> first | contradiction | rfl
    rw [he, List.singleton_append, unescapeFrom_cons h₁, ih]
    rfl

theorem unescape_escape (cs : List Char) : unescape (escape cs) = .ok cs :=
  unescapeFrom_escape cs _ _

/-- No quote is left in a value, so any can stand around it. -/
theorem not_mem_escape {q : Char} (hq : isQuote q) (cs : List Char) : q ∉ escape cs := by
  intro h
  obtain ⟨c, -, hc⟩ := List.mem_flatMap.1 h
  have hq : q = '"' ∨ q = '\'' := by simpa [isQuote] using hq
  unfold escapeChar at hc
  split at hc
  case h_6 =>
    cases List.mem_singleton.1 hc
    rcases hq with rfl | rfl <;> contradiction
  all_goals
    rcases hq with rfl | rfl <;> exact absurd hc (by decide)

/-! ## Tags -/

/-- A word of letters, such as the names of elements and attributes. -/
def IsWord (s : String) : Prop := s.toList ≠ [] ∧ ∀ c ∈ s.toList, c.isAlpha

instance (s : String) : Decidable (IsWord s) :=
  decidable_of_iff (s.toList ≠ [] ∧ s.toList.all Char.isAlpha) (by simp [IsWord])

def AllSpace (cs : List Char) : Prop := ∀ c ∈ cs, isSpace c

theorem ne_of_isAlpha {c d : Char} (h : c.isAlpha) (hd : d.isAlpha = false) : c ≠ d := by
  rintro rfl
  rw [h] at hd
  cases hd

theorem isSpace_of_isAlpha {c : Char} (h : c.isAlpha) : isSpace c = false := by
  simp [isSpace, ne_of_isAlpha h (show ' '.isAlpha = false by decide),
    ne_of_isAlpha h (show '\t'.isAlpha = false by decide),
    ne_of_isAlpha h (show '\r'.isAlpha = false by decide),
    ne_of_isAlpha h (show '\n'.isAlpha = false by decide)]

theorem isQuote_of_isAlpha {c : Char} (h : c.isAlpha) : isQuote c = false := by
  simp [isQuote, ne_of_isAlpha h (show '"'.isAlpha = false by decide),
    ne_of_isAlpha h (show '\''.isAlpha = false by decide)]

theorem isQuote_of_isSpace {c : Char} (h : isSpace c) : isQuote c = false := by
  have h : ((c = ' ' ∨ c = '\t') ∨ c = '\r') ∨ c = '\n' := by simpa [isSpace] using h
  rcases h with ((rfl | rfl) | rfl) | rfl <;> decide

/-- Text that does not end the tag it stands in. -/
def InTag (cs : List Char) : Prop :=
  ∀ rest content behind, tagText none rest = .ok (content, behind) →
    tagText none (cs ++ rest) = .ok (cs ++ content, behind)

namespace InTag

theorem append {as bs : List Char} (ha : InTag as) (hb : InTag bs) : InTag (as ++ bs) := by
  intro rest content behind h
  rw [List.append_assoc, List.append_assoc]
  exact ha _ _ _ (hb _ _ _ h)

theorem plain {cs : List Char} (h : ∀ c ∈ cs, c ≠ '>' ∧ isQuote c = false) : InTag cs := by
  intro rest content behind hr
  induction cs with
  | nil => exact hr
  | cons c cs ih =>
    obtain ⟨⟨h₁, h₂⟩, h⟩ := List.forall_mem_cons.1 h
    rw [List.cons_append, tagText]
    simp only [h₁, h₂, if_false, Bool.false_eq_true, ih h]
    rfl

theorem quoted {q : Char} {cs : List Char} (hq : isQuote q) (h : q ∉ cs) :
    InTag (q :: (cs ++ [q])) := by
  intro rest content behind hr
  have hin : ∀ ds, q ∉ ds →
      tagText (some q) (ds ++ q :: rest) = .ok (ds ++ q :: content, behind) := by
    intro ds hd
    induction ds with
    | nil =>
      rw [List.nil_append, tagText]
      simp only [if_true, hr]
      rfl
    | cons d ds ih =>
      obtain ⟨hne, hd⟩ := not_or.1 fun h => hd (List.mem_cons.2 h)
      rw [List.cons_append, tagText]
      simp only [if_neg (Ne.symm hne), ih hd]
      rfl
  have hne : q ≠ '>' := by
    rintro rfl
    exact absurd hq (by decide)
  rw [List.cons_append, tagText]
  simp only [if_neg hne, if_pos hq]
  rw [List.append_assoc, List.singleton_append, hin cs h]
  simp

theorem tagText {cs : List Char} (h : InTag cs) (rest : List Char) :
    tagText none (cs ++ '>' :: rest) = .ok (cs, rest) := by
  rw [h ('>' :: rest) [] rest rfl, List.append_nil]

end InTag

theorem IsWord.inTag {s : String} (h : IsWord s) : InTag s.toList :=
  .plain fun c hc => ⟨ne_of_isAlpha (h.2 c hc) (by decide), isQuote_of_isAlpha (h.2 c hc)⟩

theorem AllSpace.inTag {space : List Char} (h : AllSpace space) : InTag space := by
  refine .plain fun c hc => ⟨?_, isQuote_of_isSpace (h c hc)⟩
  rintro rfl
  exact absurd (h _ hc) (by decide)

/-- Attributes as they are written: white space, the key, and the value in quotes. -/
inductive WritesAttributes : List (String × String) → List Char → Prop
  | nil {space} : AllSpace space → WritesAttributes [] space
  | cons {key value kvs space quote cs} : space ≠ [] → AllSpace space → isQuote quote →
      WritesAttributes kvs cs → WritesAttributes ((key, value) :: kvs)
        (space ++ (key.toList ++ '=' :: quote :: (escape value.toList ++ quote :: cs)))

theorem dropWhile_isSpace {space : List Char} (h : AllSpace space) (cs : List Char) :
    (space ++ cs).dropWhile isSpace = cs.dropWhile isSpace :=
  List.dropWhile_append_of_pos h

theorem quotedBy_append {quote : Char} {cs : List Char} (h : quote ∉ cs) (rest : List Char) :
    quotedBy quote (cs ++ quote :: rest) = some (cs, rest) := by
  induction cs with
  | nil => simp [quotedBy]
  | cons c cs ih =>
    obtain ⟨hne, h⟩ := not_or.1 fun hm => h (List.mem_cons.2 hm)
    rw [List.cons_append, quotedBy, if_neg (Ne.symm hne), ih h]
    rfl

theorem attributesFrom_space {seen : List String} {space : List Char} (h : AllSpace space) :
    attributesFrom seen space = [] := by
  have hd : space.dropWhile isSpace = [] := by
    rw [List.dropWhile_eq_nil_iff]
    exact h
  rw [attributesFrom.eq_def]
  split
  · rfl
  · rename_i h
    rw [hd] at h
    cases h

/-- A key that an attribute can have. -/
def IsKey (key : String) : Prop :=
  ∃ k ks, key.toList = k :: ks ∧ isSpace k = false ∧ ∀ c ∈ ks, inKey c

theorem IsWord.isKey {key : String} (h : IsWord key) : IsKey key := by
  obtain ⟨k, ks, hkey⟩ := List.exists_cons_of_ne_nil h.1
  have hall : ∀ c ∈ k :: ks, c.isAlpha := hkey ▸ h.2
  refine ⟨k, ks, hkey, isSpace_of_isAlpha (hall k (List.mem_cons_self ..)), fun c hc => ?_⟩
  have ha := hall c (List.mem_cons_of_mem _ hc)
  simp [inKey, isSpace_of_isAlpha ha, ne_of_isAlpha ha (show '='.isAlpha = false by decide)]

/-- An attribute by what the reader meets: the beginning of a key, the equals sign, and the quote. -/
theorem attributesFrom_of_parts {seen : List String} {k quote : Char}
    {cs r v w raw rest : List Char} (hcs : cs.dropWhile isSpace = k :: r)
    (hr : (r.dropWhile inKey).dropWhile isSpace = '=' :: v)
    (hv : v.dropWhile isSpace = quote :: w) (hq : isQuote quote)
    (hw : quotedBy quote w = some (raw, rest))
    (hseen : String.ofList (k :: r.takeWhile inKey) ∉ seen) :
    attributesFrom seen cs = .ok ⟨String.ofList (k :: r.takeWhile inKey), raw⟩ ::
      attributesFrom (String.ofList (k :: r.takeWhile inKey) :: seen) rest := by
  rw [attributesFrom.eq_def]
  split
  · rename_i h
    cases hcs.symm.trans h
  · rename_i h
    cases hcs.symm.trans h
    simp only
    split
    · rename_i h
      cases hr.symm.trans h
    · rename_i h
      cases hr.symm.trans h
      rw [if_neg (by simpa using hseen)]
      split
      · rename_i h
        cases hv.symm.trans h
      · rename_i h
        cases hv.symm.trans h
        rw [if_pos hq]
        split
        · rename_i h
          cases hw.symm.trans h
          rfl
        · rename_i h
          cases hw.symm.trans h
    · rename_i h
      cases hr.symm.trans h
      contradiction

theorem attributesFrom_cons {seen : List String} {key : String} {quote : Char}
    {space raw rest : List Char} (hs : AllSpace space) (hk : IsKey key) (hseen : key ∉ seen)
    (hq : isQuote quote) (hr : quote ∉ raw) :
    attributesFrom seen (space ++ (key.toList ++ '=' :: quote :: (raw ++ quote :: rest))) =
      .ok ⟨key, raw⟩ :: attributesFrom (key :: seen) rest := by
  obtain ⟨k, ks, hkey, hhead, hkeys⟩ := hk
  have hquote : isSpace quote = false := by
    cases h : isSpace quote with
    | false => rfl
    | true => rw [isQuote_of_isSpace h] at hq; cases hq
  have hbegin : (space ++ (key.toList ++ '=' :: quote :: (raw ++ quote :: rest))).dropWhile isSpace =
      k :: (ks ++ '=' :: quote :: (raw ++ quote :: rest)) := by
    rw [dropWhile_isSpace hs, hkey, List.cons_append, List.dropWhile_cons_of_neg]
    simp [hhead]
  have hname : (ks ++ '=' :: quote :: (raw ++ quote :: rest)).takeWhile inKey = ks := by
    rw [List.takeWhile_append_of_pos hkeys, List.takeWhile_cons_of_neg (by decide), List.append_nil]
  have hequals : ((ks ++ '=' :: quote :: (raw ++ quote :: rest)).dropWhile inKey).dropWhile isSpace =
      '=' :: quote :: (raw ++ quote :: rest) := by
    rw [List.dropWhile_append_of_pos hkeys, List.dropWhile_cons_of_neg (by decide),
      List.dropWhile_cons_of_neg (by decide)]
  have hvalue : (quote :: (raw ++ quote :: rest)).dropWhile isSpace =
      quote :: (raw ++ quote :: rest) := by
    rw [List.dropWhile_cons_of_neg (by simp [hquote])]
  have hof : String.ofList (k :: ks) = key := by rw [← hkey, String.ofList_toList]
  refine Eq.trans (attributesFrom_of_parts hbegin hequals hvalue hq (quotedBy_append hr rest) ?_) ?_
  · rwa [hname, hof]
  · rw [hname, hof]

namespace WritesAttributes

variable {kvs : List (String × String)} {cs : List Char}

theorem attributesFrom (h : WritesAttributes kvs cs) (hk : ∀ kv ∈ kvs, IsWord kv.1) :
    ∀ seen, (∀ kv ∈ kvs, kv.1 ∉ seen) → (kvs.map Prod.fst).Nodup →
      Xml.attributesFrom seen cs = kvs.map fun kv => .ok ⟨kv.1, escape kv.2.toList⟩ := by
  induction h with
  | nil hs =>
    intro seen _ _
    exact attributesFrom_space hs
  | @cons key value kvs space quote cs _ hs hq _ ih =>
    intro seen hseen hd
    obtain ⟨hkey, hk⟩ := List.forall_mem_cons.1 hk
    obtain ⟨hn, hseen⟩ := List.forall_mem_cons.1 hseen
    rw [List.map_cons, List.nodup_cons] at hd
    rw [attributesFrom_cons hs hkey.isKey hn hq (not_mem_escape hq _), ih hk (key :: seen) ?_ hd.2,
      List.map_cons]
    intro kv hkv hm
    rcases List.mem_cons.1 hm with he | hm
    · exact hd.1 (List.mem_map.2 ⟨kv, hkv, he⟩)
    · exact hseen kv hkv hm

theorem inTag (h : WritesAttributes kvs cs) (hk : ∀ kv ∈ kvs, IsWord kv.1) : InTag cs := by
  induction h with
  | nil hs => exact hs.inTag
  | @cons key value kvs space quote cs _ hs hq _ ih =>
    obtain ⟨hkey, hk⟩ := List.forall_mem_cons.1 hk
    have hword : InTag (key.toList ++ ['=']) :=
      hkey.inTag.append (.plain (List.forall_mem_singleton.2 ⟨by decide, by decide⟩))
    have h := hs.inTag.append (hword.append
      ((InTag.quoted hq (not_mem_escape hq value.toList)).append (ih hk)))
    simpa using h

/-- Attributes stand apart from what is in front of them. -/
theorem head (h : WritesAttributes kvs cs) : ∀ c, cs.head? = some c → isSpace c := by
  cases h with
  | nil hs => exact fun c hc => hs c (List.mem_of_head? hc)
  | cons hne hs _ _ =>
    intro c hc
    rw [List.head?_append_of_ne_nil _ hne] at hc
    exact hs c (List.mem_of_head? hc)

theorem last (h : WritesAttributes kvs cs) : cs.getLast? ≠ some '/' := by
  induction h with
  | nil hs =>
    intro hc
    exact absurd (hs _ (List.mem_of_getLast? hc)) (by decide)
  | @cons key value kvs space quote cs _ _ hq _ ih =>
    intro hc
    cases cs with
    | nil =>
      simp only [← List.append_assoc, ← List.cons_append, List.getLast?_append] at hc
      simp at hc
      subst hc
      exact absurd hq (by decide)
    | cons c cs =>
      refine ih ?_
      simpa [List.getLast?_append, List.getLast?_cons] using hc

end WritesAttributes

/-- The text of a tag: its name, and its attributes in any order. -/
def WritesTag (name : String) (kvs : List (String × String)) (cs : List Char) : Prop :=
  ∃ written attributes, List.Perm written kvs ∧ WritesAttributes written attributes ∧
    cs = name.toList ++ attributes

/-- The tag has the name, and the attributes in some order. -/
structure Tag.Says (t : Tag) (name : String) (kvs : List (String × String)) : Prop where
  name : t.name = name
  attributes : ∃ written : List (String × String), written.Perm kvs ∧
    t.attributes = written.map fun kv => ⟨kv.1, escape kv.2.toList⟩

/-- A name and keys that can be written. -/
structure Writable (name : String) (kvs : List (String × String)) : Prop where
  name : IsWord name
  keys : ∀ kv ∈ kvs, IsWord kv.1
  nodup : (kvs.map Prod.fst).Nodup

theorem writable_of_keys (name : String) (keys : List String) {kvs : List (String × String)}
    (he : kvs.map Prod.fst = keys) (h : IsWord name ∧ keys.Nodup ∧ ∀ key ∈ keys, IsWord key) :
    Writable name kvs := by
  subst he
  exact ⟨h.1, fun kv hkv => h.2.2 _ (List.mem_map_of_mem hkv), h.2.1⟩

namespace WritesTag

variable {name : String} {kvs : List (String × String)} {cs : List Char}

theorem ofText (h : WritesTag name kvs cs) (hw : Writable name kvs) :
    (Tag.ofText cs).Says name kvs := by
  obtain ⟨written, attributes, hp, ha, rfl⟩ := h
  have hname : ∀ c ∈ name.toList, (!isSpace c) = true := by
    intro c hc
    rw [isSpace_of_isAlpha (hw.name.2 c hc)]
    rfl
  have hhead : attributes.takeWhile (fun c => !isSpace c) = [] ∧
      attributes.dropWhile (fun c => !isSpace c) = attributes := by
    cases attributes with
    | nil => exact ⟨rfl, rfl⟩
    | cons c cs => simp [ha.head c rfl]
  have ht : Tag.ofText (name.toList ++ attributes) = ⟨name, attributes⟩ := by
    rw [Tag.ofText, List.takeWhile_append_of_pos hname, List.dropWhile_append_of_pos hname,
      hhead.1, hhead.2, List.append_nil, String.ofList_toList]
  rw [ht]
  refine ⟨rfl, written, hp, ?_⟩
  have hk : ∀ kv ∈ written, IsWord kv.1 := fun kv hkv => hw.keys kv (hp.mem_iff.1 hkv)
  have hd : (written.map Prod.fst).Nodup := (hp.map Prod.fst).nodup_iff.2 hw.nodup
  rw [Tag.attributes, ha.attributesFrom hk [] (fun _ _ h => by cases h) hd, List.filterMap_map]
  exact List.filterMap_eq_map_iff_forall_eq_some.2 fun _ _ => rfl

theorem inTag (h : WritesTag name kvs cs) (hw : Writable name kvs) : InTag cs := by
  obtain ⟨written, attributes, hp, ha, rfl⟩ := h
  exact hw.name.inTag.append (ha.inTag fun kv hkv => hw.keys kv (hp.mem_iff.1 hkv))

theorem head (h : WritesTag name kvs cs) (hw : Writable name kvs) :
    ∃ c r, cs = c :: r ∧ c.isAlpha := by
  obtain ⟨written, attributes, hp, ha, rfl⟩ := h
  obtain ⟨c, r, hr⟩ := List.exists_cons_of_ne_nil hw.name.1
  exact ⟨c, r ++ attributes, by rw [hr, List.cons_append], hw.name.2 c (hr ▸ List.mem_cons_self ..)⟩

theorem last (h : WritesTag name kvs cs) (hw : Writable name kvs) : cs.getLast? ≠ some '/' := by
  obtain ⟨written, attributes, hp, ha, rfl⟩ := h
  intro hc
  rw [List.getLast?_append] at hc
  cases hl : attributes.getLast? with
  | some c =>
    rw [hl, Option.some_or] at hc
    exact ha.last (hl.trans hc)
  | none =>
    rw [hl, Option.none_or] at hc
    exact absurd (hw.name.2 _ (List.mem_of_getLast? hc)) (by decide)

end WritesTag

end Courier.Xml
