import Courier.Model.Extract
import Courier.Proofs.Result

/-!
What extraction gives for any declaration: its fields and nested names, or the first thing that is
wrong with it. The kind is looked at before the arguments, and these before the members.
-/
namespace Courier

variable {d : Declaration} {name model : String} {e : ExtractError} {as : List Argument}

/-! ## Lists of strings -/

/-- The value is an array of nothing but strings. -/
def ArgumentValue.IsStringList (v : ArgumentValue) : Prop :=
  ∃ names : List String, v = .list (names.map .text)

/-- What keeps a value from being an array of strings: the first element that is no string, or the
value itself if it is no array. -/
def ArgumentValue.Offence : ArgumentValue → ArgumentValue → Prop
  | .list es, v => ∃ (names : List String) (after : List ArgumentValue),
      es = names.map .text ++ v :: after ∧ ∀ name, v ≠ .text name
  | w, v => v = w

/-- The strings of a value that is an array. -/
def ArgumentValue.strings : ArgumentValue → List String
  | .list es => es.filterMap fun
    | .text name => some name
    | _ => none
  | _ => []

theorem strings_map_text (names : List String) :
    (ArgumentValue.list (names.map .text)).strings = names := by
  simp [ArgumentValue.strings, List.filterMap_map]

theorem offence_text_cons {es : List ArgumentValue} {v : ArgumentValue} :
    (ArgumentValue.list (.text name :: es)).Offence v ↔ (ArgumentValue.list es).Offence v := by
  constructor
  · rintro ⟨_ | ⟨first, names⟩, after, hes, hv⟩
    · exact absurd (List.cons.inj hes).1.symm (hv _)
    · exact ⟨names, after, (List.cons.inj hes).2, hv⟩
  · rintro ⟨names, after, rfl, hv⟩
    exact ⟨name :: names, after, rfl, hv⟩

theorem offence_cons {w v : ArgumentValue} {es : List ArgumentValue} (hw : ∀ name, w ≠ .text name) :
    (ArgumentValue.list (w :: es)).Offence v ↔ v = w := by
  constructor
  · rintro ⟨_ | ⟨first, names⟩, after, hes, -⟩
    · exact (List.cons.inj hes).1.symm
    · exact absurd (List.cons.inj hes).1 (hw _)
  · rintro rfl
    exact ⟨[], es, rfl, hw⟩

theorem stringElements_text (value : String) (es : List ArgumentValue) :
    stringElements name (.text value :: es) = (stringElements name es).map (value :: ·) := by
  rw [stringElements]
  cases stringElements name es <;> rfl

theorem stringElements_eq_ok {es : List ArgumentValue} {names : List String} :
    stringElements name es = .ok names ↔ es = names.map .text := by
  induction es generalizing names with
  | nil => cases names <;> simp [stringElements]
  | cons w es ih =>
    cases w with
    | text value =>
      rw [stringElements_text]
      cases names with
      | nil => cases stringElements name es <;> simp [Except.map]
      | cons first names =>
        rw [List.map_cons, List.cons.injEq, ← ih]
        cases stringElements name es <;> simp [Except.map]
    | _ => cases names <;> simp [stringElements]

theorem stringElements_eq_error {es : List ArgumentValue} :
    stringElements name es = .error e ↔
      ∃ v, (ArgumentValue.list es).Offence v ∧ e = .invalidNestedList name v.display := by
  induction es with
  | nil => simp [stringElements, ArgumentValue.Offence]
  | cons w es ih =>
    cases w with
    | text value =>
      simp only [offence_text_cons, ← ih, stringElements_text]
      cases stringElements name es <;> simp [Except.map]
    | _ => simp [stringElements, offence_cons, eq_comm]

/-! ## Nested names -/

theorem listedNames_eq_ok {a : Argument} {names : List String} :
    listedNames name a = .ok names ↔ a.value = .list (names.map .text) := by
  rw [listedNames]
  cases a.value <;> simp [stringElements_eq_ok]

theorem listedNames_eq_error {a : Argument} :
    listedNames name a = .error e ↔
      ∃ v, a.value.Offence v ∧ e = .invalidNestedList name v.display := by
  rw [listedNames]
  cases a.value with
  | list es => exact stringElements_eq_error
  | _ => simp [ArgumentValue.Offence, eq_comm]

/-- All lists of nested names are arrays of strings. -/
def ListStrings (as : List Argument) : Prop :=
  ∀ a ∈ as, a.isNestedList = true → a.value.IsStringList

/-- What is wrong with the first list of nested names that is no array of strings. -/
def FirstOffence (as : List Argument) (v : ArgumentValue) : Prop :=
  ∃ before a after, as = before ++ a :: after ∧ ListStrings before ∧ a.isNestedList = true ∧
    a.value.Offence v

/-- The strings of all lists of nested names, one list after the other. -/
def listedStrings (as : List Argument) : List String :=
  (as.filter (·.isNestedList)).flatMap (·.value.strings)

theorem allListedNames_eq_ok {names : List String} :
    allListedNames name as = .ok names ↔ ListStrings as ∧ names = listedStrings as := by
  induction as generalizing names with
  | nil => simp [allListedNames, ListStrings, listedStrings, @eq_comm _ []]
  | cons a as ih =>
    rw [allListedNames]
    cases ha : a.isNestedList with
    | false => simp [ih, ListStrings, listedStrings, ha]
    | true =>
      simp only [if_true, bind_eq_ok, listedNames_eq_ok, ih, ListStrings, List.forall_mem_cons, ha,
        true_implies, listedStrings, List.filter_cons, List.flatMap_cons]
      constructor
      · rintro ⟨first, hfirst, rest, ⟨has, rfl⟩, h⟩
        cases h
        exact ⟨⟨⟨first, hfirst⟩, has⟩, by rw [hfirst, strings_map_text]⟩
      · rintro ⟨⟨⟨first, hfirst⟩, has⟩, rfl⟩
        exact ⟨first, hfirst, _, ⟨has, rfl⟩, by rw [hfirst, strings_map_text]; rfl⟩

theorem firstOffence_cons {a : Argument} {v : ArgumentValue} : FirstOffence (a :: as) v ↔
    (a.isNestedList = true ∧ a.value.Offence v) ∨
      ((a.isNestedList = true → a.value.IsStringList) ∧ FirstOffence as v) := by
  constructor
  · rintro ⟨_ | ⟨b, before⟩, c, after, has, hb, hc, hv⟩
    · obtain ⟨rfl, rfl⟩ := List.cons.inj has
      exact .inl ⟨hc, hv⟩
    · obtain ⟨rfl, rfl⟩ := List.cons.inj has
      obtain ⟨ha, hb⟩ := List.forall_mem_cons.1 hb
      exact .inr ⟨ha, before, c, after, rfl, hb, hc, hv⟩
  · rintro (⟨ha, hv⟩ | ⟨ha, before, c, after, rfl, hb, hc, hv⟩)
    · exact ⟨[], a, as, rfl, List.forall_mem_nil _, ha, hv⟩
    · exact ⟨a :: before, c, after, rfl, List.forall_mem_cons.2 ⟨ha, hb⟩, hc, hv⟩

theorem allListedNames_eq_error : allListedNames name as = .error e ↔
    ∃ v, FirstOffence as v ∧ e = .invalidNestedList name v.display := by
  induction as with
  | nil => simp [allListedNames, FirstOffence]
  | cons a as ih =>
    rw [allListedNames]
    cases ha : a.isNestedList with
    | false => simp [ih, firstOffence_cons, ha]
    | true =>
      have hrest : ∀ first, (do return first ++ (← allListedNames name as)) = .error e ↔
          ∃ v, FirstOffence as v ∧ e = .invalidNestedList name v.display := fun first => by
        rw [← ih]
        cases allListedNames name as <;> simp [bind, Except.bind, pure, Except.pure]
      simp only [if_true, bind_eq_error, listedNames_eq_error, listedNames_eq_ok, hrest,
        firstOffence_cons, ha, true_and, true_implies, or_and_right, exists_or]
      refine or_congr_right ?_
      simp only [ArgumentValue.IsStringList, exists_and_right, and_assoc, exists_and_left]

/-- A list of nested names is an array of strings unless it has an offence. -/
theorem not_listStrings : ¬ListStrings as ↔ ∃ v, FirstOffence as v := by
  have herror := fun e => @allListedNames_eq_error "" e as
  have hok := fun names => @allListedNames_eq_ok "" as names
  cases h : allListedNames "" as with
  | ok names =>
    have hs := (hok names).1 h
    refine iff_of_false (not_not.2 hs.1) ?_
    rintro ⟨v, hv⟩
    have := (herror _).2 ⟨v, hv, rfl⟩
    rw [h] at this
    cases this
  | error e =>
    obtain ⟨v, hv, -⟩ := (herror e).1 h
    refine iff_of_true (fun hs => ?_) ⟨v, hv⟩
    have := (hok _).2 ⟨hs, rfl⟩
    rw [h] at this
    cases this

/-- Names are kept where they are given first. -/
theorem toList_foldl_insert (names : List String) (n : NestedNames) :
    (names.foldl NestedNames.insert n).toList =
      n.toList ++ (names.filter fun name => name ∉ n.toList).eraseDups := by
  induction names generalizing n with
  | nil => simp
  | cons name names ih =>
    rw [List.foldl_cons, ih]
    by_cases h : name ∈ n.toList
    · simp [NestedNames.insert, h]
    · simp only [NestedNames.insert, h, dif_neg, not_false_eq_true, List.append_assoc,
        List.filter_cons, decide_true, if_true, List.eraseDups_cons, List.filter_filter]
      congr 3
      ext a
      simp [and_comm, beq_eq_decide]

theorem toList_ofList (names : List String) : (NestedNames.ofList names).toList = names.eraseDups := by
  rw [NestedNames.ofList, toList_foldl_insert]
  simp [NestedNames.empty]

/-! ## Fields -/

/-- The field that a member declares: a stored one with a type. -/
def Member.field? : Member → Option Field
  | .stored name (some type) => some ⟨name, type⟩
  | _ => none

/-- The fields among some members, in order. -/
def declaredFields (ms : List Member) : List Field := ms.filterMap Member.field?

/-- Names without repetition, none of which was seen before. -/
def Fresh (seen : List String) (fs : List Field) : Prop :=
  (fs.map (·.name)).Nodup ∧ ∀ f ∈ fs, f.name ∉ seen

/-- The first field whose name was seen before or is that of a field before it. -/
def FirstRepeat (seen : List String) (fs : List Field) (f : Field) : Prop :=
  ∃ before after, fs = before ++ f :: after ∧ Fresh seen before ∧
    (f.name ∈ seen ∨ f.name ∈ before.map (·.name))

variable {seen : List String} {f g : Field} {fs : List Field} {m : Member} {ms : List Member}

theorem fresh_cons : Fresh seen (f :: fs) ↔ f.name ∉ seen ∧ Fresh (f.name :: seen) fs := by
  rw [Fresh, Fresh, List.map_cons, List.nodup_cons, List.forall_mem_cons]
  simp only [List.mem_cons, not_or, List.mem_map, not_exists, not_and]
  constructor
  · rintro ⟨⟨hf, hn⟩, hs, hfs⟩
    exact ⟨hs, hn, fun g hg => ⟨hf g hg, hfs g hg⟩⟩
  · rintro ⟨hs, hn, hfs⟩
    exact ⟨⟨fun g hg => (hfs g hg).1, hn⟩, hs, fun g hg => (hfs g hg).2⟩

theorem firstRepeat_cons : FirstRepeat seen (f :: fs) g ↔
    f.name ∈ seen ∧ g = f ∨ f.name ∉ seen ∧ FirstRepeat (f.name :: seen) fs g := by
  constructor
  · rintro ⟨_ | ⟨first, before⟩, after, hfs, hb, hg⟩
    · obtain ⟨rfl, rfl⟩ := List.cons.inj hfs
      exact .inl ⟨by simpa using hg, rfl⟩
    · obtain ⟨rfl, rfl⟩ := List.cons.inj hfs
      obtain ⟨hs, hb⟩ := fresh_cons.1 hb
      refine .inr ⟨hs, before, after, rfl, hb, ?_⟩
      rw [List.map_cons, List.mem_cons] at hg
      rw [List.mem_cons]
      tauto
  · rintro (⟨hs, rfl⟩ | ⟨hs, before, after, rfl, hb, hg⟩)
    · exact ⟨[], fs, rfl, ⟨List.nodup_nil, List.forall_mem_nil _⟩, .inl hs⟩
    · refine ⟨f :: before, after, rfl, fresh_cons.2 ⟨hs, hb⟩, ?_⟩
      rw [List.mem_cons] at hg
      rw [List.map_cons, List.mem_cons]
      tauto

theorem declaredFields_stored (name type : String) (ms : List Member) :
    declaredFields (.stored name (some type) :: ms) = ⟨name, type⟩ :: declaredFields ms := rfl

theorem declaredFields_other (h : ∀ name type, m = .stored name (some type) → False) :
    declaredFields (m :: ms) = declaredFields ms := by
  rw [declaredFields, List.filterMap_cons_none]
  · rfl
  · unfold Member.field?
    split
    · exact (h _ _ rfl).elim
    · rfl

theorem fieldsFrom_eq_ok : (fieldsFrom model seen ms).result = .ok fs ↔
    fs = declaredFields ms ∧ Fresh seen fs := by
  fun_induction fieldsFrom model seen ms generalizing fs with
  | case1 seen => simp +contextual [declaredFields, Fresh, eq_comm]
  | case2 seen name type ms h =>
    refine iff_of_false nofun ?_
    rintro ⟨rfl, hf⟩
    exact (fresh_cons.1 hf).1 (by simpa using h)
  | case3 seen name type ms h ih =>
    rw [Traced.result_bind, bind_eq_ok]
    constructor
    · rintro ⟨rest, hr, h'⟩
      obtain ⟨rfl, hf⟩ := ih.1 hr
      cases h'
      exact ⟨rfl, fresh_cons.2 ⟨by simpa using h, hf⟩⟩
    · rintro ⟨rfl, hf⟩
      exact ⟨_, ih.2 ⟨rfl, (fresh_cons.1 hf).2⟩, rfl⟩
  | case4 seen m ms h ih =>
    rw [declaredFields_other h, Traced.result_bind]
    exact ih

theorem fieldsFrom_eq_error : (fieldsFrom model seen ms).result = .error e ↔
    ∃ f, FirstRepeat seen (declaredFields ms) f ∧ e = .duplicateField model f.name := by
  fun_induction fieldsFrom model seen ms with
  | case1 seen =>
    refine iff_of_false nofun ?_
    rintro ⟨f, ⟨before, after, h, -⟩, -⟩
    simp [declaredFields] at h
  | case2 seen name type ms h =>
    have hs : name ∈ seen := by simpa using h
    simp [declaredFields_stored, firstRepeat_cons, hs, eq_comm]
  | case3 seen name type ms h ih =>
    have hs : name ∉ seen := by simpa using h
    simp only [declaredFields_stored, firstRepeat_cons, hs, false_and, not_false_eq_true, true_and,
      false_or, ← ih]
    rw [Traced.result_bind, bind_eq_error]
    simp
  | case4 seen m ms h ih =>
    rw [declaredFields_other h, Traced.result_bind]
    exact ih

/-- Only the fields among the members are looked at. -/
theorem fieldsFrom_congr {ns : List Member} (h : declaredFields ms = declaredFields ns) :
    (fieldsFrom model seen ms).result = (fieldsFrom model seen ns).result := by
  cases hr : (fieldsFrom model seen ns).result with
  | ok fs => exact fieldsFrom_eq_ok.2 (h ▸ fieldsFrom_eq_ok.1 hr)
  | error e => exact fieldsFrom_eq_error.2 (h ▸ fieldsFrom_eq_error.1 hr)

/-! ## Extraction -/

theorem extract_result (d : Declaration) (as : List Argument) : (extract d as).result =
    if d.kind.isClassLike then do
      let nested ← nestedNames d.name as
      let fields ← (fieldsFrom d.name [] d.members).result
      .ok ⟨d.name, fields, nested⟩
    else .error (.unsupportedKind d.name d.kind.tag) := by
  rw [extract]
  cases d.kind.isClassLike with
  | false => rfl
  | true =>
    simp only [Bool.not_true, Bool.false_eq_true, if_false, if_true, Traced.result_bind,
      Traced.result_ofExcept, Traced.result_log, Traced.result_pure, ok_bind]

theorem isClassLike_iff {k : DeclarationKind} :
    k.isClassLike = true ↔ k = .classType ∨ k = .struct := by
  cases k <;> decide

theorem nestedNames_eq_ok {nested : NestedNames} : nestedNames name as = .ok nested ↔
    ListStrings as ∧ nested.toList = (listedStrings as).eraseDups := by
  have hext : ∀ n : NestedNames, n = nested ↔ nested.toList = n.toList := by
    rintro ⟨l, hl⟩
    cases nested
    simp [eq_comm]
  rw [nestedNames, bind_eq_ok]
  constructor
  · rintro ⟨names, hn, h⟩
    obtain ⟨hs, rfl⟩ := allListedNames_eq_ok.1 hn
    cases h
    exact ⟨hs, toList_ofList _⟩
  · rintro ⟨hs, h⟩
    refine ⟨_, allListedNames_eq_ok.2 ⟨hs, rfl⟩, ?_⟩
    rw [← toList_ofList] at h
    exact congrArg Except.ok ((hext _).2 h)

theorem nestedNames_eq_error : nestedNames name as = .error e ↔
    ∃ v, FirstOffence as v ∧ e = .invalidNestedList name v.display := by
  rw [nestedNames, bind_eq_error, ← allListedNames_eq_error]
  exact or_iff_left fun ⟨_, _, h⟩ => nomatch h

/-- Only the lists of nested names are looked at among the arguments. -/
theorem allListedNames_filter (name : String) (as : List Argument) :
    allListedNames name (as.filter (·.isNestedList)) = allListedNames name as := by
  induction as with
  | nil => rfl
  | cons a as ih =>
    cases ha : a.isNestedList with
    | false => simpa [allListedNames, ha] using ih
    | true => simp [allListedNames, ha, ih]

theorem extract_eq_error : (extract d as).result = .error e ↔
    ¬(d.kind = .classType ∨ d.kind = .struct) ∧ e = .unsupportedKind d.name d.kind.tag ∨
    (d.kind = .classType ∨ d.kind = .struct) ∧
      ((∃ v, FirstOffence as v ∧ e = .invalidNestedList d.name v.display) ∨
        ListStrings as ∧ ∃ f, FirstRepeat [] (declaredFields d.members) f ∧
          e = .duplicateField d.name f.name) := by
  rw [extract_result, ← isClassLike_iff]
  cases hk : d.kind.isClassLike with
  | false => simp [eq_comm]
  | true =>
    have hlast : ∀ x, (Except.ok x : Except ExtractError Extracted) ≠ .error e := nofun
    simp only [if_true, bind_eq_error, nestedNames_eq_error, nestedNames_eq_ok,
      fieldsFrom_eq_error, hlast, and_false, exists_false, or_false, not_true, false_and,
      false_or, true_and]
    refine or_congr_right ⟨?_, ?_⟩
    · rintro ⟨nested, ⟨hs, -⟩, hf⟩
      exact ⟨hs, hf⟩
    · rintro ⟨hs, hf⟩
      exact ⟨_, ⟨hs, toList_ofList _⟩, hf⟩

theorem extract_eq_ok {x : Extracted} : (extract d as).result = .ok x ↔
    (d.kind = .classType ∨ d.kind = .struct) ∧ ListStrings as ∧
      ((declaredFields d.members).map (·.name)).Nodup ∧ x.name = d.name ∧
      x.fields = declaredFields d.members ∧ x.nested.toList = (listedStrings as).eraseDups := by
  rw [extract_result, ← isClassLike_iff]
  cases hk : d.kind.isClassLike with
  | false => simp
  | true =>
    simp only [if_true, bind_eq_ok, nestedNames_eq_ok, fieldsFrom_eq_ok, true_and]
    constructor
    · rintro ⟨nested, ⟨hs, hn⟩, fields, ⟨rfl, hf⟩, h⟩
      cases h
      exact ⟨hs, hf.1, rfl, rfl, hn⟩
    · obtain ⟨name, fields, nested⟩ := x
      rintro ⟨hs, hf, rfl, rfl, hn⟩
      exact ⟨nested, ⟨hs, hn⟩, _, ⟨rfl, hf, fun _ _ => List.not_mem_nil⟩, rfl⟩

/-- Members that are no fields and arguments that list no nested names make no difference. -/
theorem extract_congr {ms : List Member} {bs : List Argument}
    (hm : declaredFields ms = declaredFields d.members)
    (hb : bs.filter (·.isNestedList) = as.filter (·.isNestedList)) :
    (extract { d with members := ms } bs).result = (extract d as).result := by
  have hn : nestedNames d.name bs = nestedNames d.name as := by
    rw [nestedNames, nestedNames, ← allListedNames_filter, hb, allListedNames_filter]
  rw [extract_result, extract_result]
  simp only [hn, fieldsFrom_congr hm]

/-- The first thing that is wrong decides why extraction fails: the kind, the first list of nested
names that is no array of strings, or the first field whose name was given before. Where nothing is
wrong, the fields are those of the members that are stored with a type, and the nested names those of
all lists together. Other members and arguments make no difference. -/
theorem extract_outcome (d : Declaration) (as : List Argument) :
    (∀ e, (extract d as).result = .error e ↔
      ¬(d.kind = .classType ∨ d.kind = .struct) ∧ e = .unsupportedKind d.name d.kind.tag ∨
      (d.kind = .classType ∨ d.kind = .struct) ∧
        ((∃ v, FirstOffence as v ∧ e = .invalidNestedList d.name v.display) ∨
          ListStrings as ∧ ∃ f, FirstRepeat [] (declaredFields d.members) f ∧
            e = .duplicateField d.name f.name)) ∧
    (∀ x, (extract d as).result = .ok x ↔ (d.kind = .classType ∨ d.kind = .struct) ∧
      ListStrings as ∧ ((declaredFields d.members).map (·.name)).Nodup ∧ x.name = d.name ∧
      x.fields = declaredFields d.members ∧ x.nested.toList = (listedStrings as).eraseDups) ∧
    (¬ListStrings as ↔ ∃ v, FirstOffence as v) ∧
    ∀ ms bs, declaredFields ms = declaredFields d.members →
      bs.filter (·.isNestedList) = as.filter (·.isNestedList) →
      (extract { d with members := ms } bs).result = (extract d as).result :=
  ⟨fun _ => extract_eq_error, fun _ => extract_eq_ok, not_listStrings,
    fun _ _ => extract_congr⟩

end Courier
