import Courier.Files.Store
import Courier.Proofs.Result
import Mathlib.Data.List.Infix
import Mathlib.Tactic.SplitIfs

/-!
What the operations on files change. Directories never cease to be directories, so a path that leads
somewhere goes on leading there; a file is saved by writing it and making the directories above it.
-/
namespace Courier.Files

/-- The paths to the directory that contains the last step, and to those above it. -/
def Path.above (p : Path) : List Path :=
  match p.parent? with
  | none => []
  | some parent => parent.steps.inits.map fun names => ⟨parent.absolute, names, false⟩

namespace Store

variable {s s' s'' : Store} {p q : Place} {e : Entry}

/-! ## Entries -/

@[simp] theorem current_put (s : Store) (p : Place) (e : Entry) : (s.put p e).current = s.current := rfl

theorem entry_put_self (h : s.entry? p ≠ some .directory) : Store.entry? (s.put p e) p = some e := by
  have hp : p.isPrefixOf s.current = false := by
    rw [Bool.eq_false_iff]
    intro hp
    exact h (if_pos hp)
  unfold entry?
  rw [current_put, hp]
  simp [put]

theorem entry_put_ne (h : q ≠ p) : Store.entry? (s.put p e) q = s.entry? q := by
  have hf : ∀ es : List (Place × Entry),
      (es.filter (·.1 != p)).find? (·.1 == q) = es.find? (·.1 == q) := by
    intro es
    rw [List.find?_filter]
    congr
    funext x
    grind
  have hpq : (p == q) = false := beq_eq_false_iff_ne.2 h.symm
  unfold entry?
  rw [current_put]
  simp only [put, List.find?_cons, hpq, hf]

theorem checkDirectory_eq_ok : s.checkDirectory p = .ok () ↔ s.entry? p = some .directory := by
  unfold checkDirectory
  split <;> simp_all

theorem readText_eq_ok {path : Path} {text : String} (h : s.read path = .ok text.toUTF8) :
    s.readText path = .ok text := by
  have hutf : String.fromUTF8? text.toUTF8 = some text := dif_pos text.isValidUTF8
  refine bind_eq_ok.2 ⟨_, h, ?_⟩
  rw [hutf]

/-! ## Growth -/

/-- All directories stay directories. -/
structure Grows (s s' : Store) : Prop where
  current : s'.current = s.current
  directory : ∀ p, s.entry? p = some .directory → s'.entry? p = some .directory

theorem grows_put (h : s.entry? p ≠ some .directory) : s.Grows (s.put p e) where
  current := rfl
  directory q hq := by
    rw [entry_put_ne, hq]
    rintro rfl
    exact h hq

theorem Grows.follow (h : s.Grows s') {names : List String} (hf : s.follow p names = .ok q) :
    s'.follow p names = .ok q := by
  induction names generalizing p with
  | nil => exact hf
  | cons n ns ih =>
    obtain ⟨⟨⟩, hd, hf⟩ := bind_eq_ok.1 hf
    have hd' := checkDirectory_eq_ok.2 (h.directory p (checkDirectory_eq_ok.1 hd))
    refine bind_eq_ok.2 ⟨(), hd', ?_⟩
    split_ifs at hf ⊢ <;> exact ih hf

theorem Grows.place (h : s.Grows s') {path : Path} (hp : s.place path = .ok q) :
    s'.place path = .ok q := by
  unfold Store.place at hp ⊢
  rw [h.current]
  split_ifs at hp ⊢ <;> exact h.follow hp

/-! ## Making directories -/

/-- Nothing changes but that directories come to be where there was nothing, each at the place that
one of some paths leads to. -/
structure Makes (paths : List Path) (s s' : Store) : Prop where
  current : s'.current = s.current
  entry : ∀ p, s'.entry? p = s.entry? p ∨
    s.entry? p = none ∧ s'.entry? p = some .directory ∧ ∃ path ∈ paths, s'.place path = .ok p

variable {paths : List Path} {path : Path}

theorem Makes.refl (paths : List Path) (s : Store) : s.Makes paths s := ⟨rfl, fun _ => .inl rfl⟩

theorem Makes.grows (h : s.Makes paths s') : s.Grows s' where
  current := h.current
  directory p hp := by
    rcases h.entry p with he | ⟨hn, -, -⟩
    · rw [he, hp]
    · rw [hp] at hn
      cases hn

theorem Makes.mono {others : List Path} (h : s.Makes paths s') (hp : ∀ p ∈ paths, p ∈ others) :
    s.Makes others s' where
  current := h.current
  entry p := (h.entry p).imp_right fun ⟨hn, hd, path, hm, hl⟩ => ⟨hn, hd, path, hp path hm, hl⟩

theorem Makes.trans (h : s.Makes paths s') (h' : s'.Makes paths s'') : s.Makes paths s'' where
  current := h'.current.trans h.current
  entry p := by
    rcases h.entry p with he | ⟨hn, hd, path, hm, hl⟩
    · rw [← he]
      exact h'.entry p
    · exact .inr ⟨hn, h'.grows.directory p hd, path, hm, h'.grows.place hl⟩

theorem makes_of_makeDirectory (h : s.makeDirectory path = .ok s') (hp : path ∈ paths) :
    s.Makes paths s' := by
  obtain ⟨p, hl, h⟩ := bind_eq_ok.1 h
  split at h
  · rename_i hc
    have hn : s.entry? p = none := by simpa using (Bool.and_eq_true_iff.1 hc).2
    have hd : s.entry? p ≠ some .directory := by simp [hn]
    cases h
    refine ⟨rfl, fun q => ?_⟩
    by_cases hq : q = p
    · subst hq
      exact .inr ⟨hn, entry_put_self hd, path, hp, (grows_put hd).place hl⟩
    · exact .inl (entry_put_ne hq)
  · cases h

/-- The paths that the first steps of a path make up. -/
def beginnings (absolute : Bool) (steps : List String) : List Path :=
  steps.inits.map fun names => ⟨absolute, names, false⟩

theorem makeAll_makes (s : Store) (absolute : Bool) (steps : List String) :
    s.Makes (beginnings absolute steps.reverse) (s.makeAll absolute steps).2 := by
  induction steps with
  | nil => exact .refl _ s
  | cons step before ih =>
    have hself : (⟨absolute, (step :: before).reverse, false⟩ : Path) ∈
        beginnings absolute (step :: before).reverse :=
      List.mem_map.2 ⟨_, (List.mem_inits _ _).2 (List.prefix_refl _), rfl⟩
    have hup : ∀ p ∈ beginnings absolute before.reverse,
        p ∈ beginnings absolute (step :: before).reverse := by
      intro p hp
      obtain ⟨names, hn, rfl⟩ := List.mem_map.1 hp
      refine List.mem_map.2 ⟨names, (List.mem_inits _ _).2 ?_, rfl⟩
      rw [List.reverse_cons]
      exact ((List.mem_inits _ _).1 hn).trans (List.prefix_append ..)
    have hrest := ih.mono hup
    cases hd : s.makeDirectory ⟨absolute, (step :: before).reverse, false⟩ with
    | ok s' =>
      simp only [makeAll, hd]
      exact makes_of_makeDirectory hd hself
    | error f =>
      cases f with
      | notFound =>
        rcases hb : s.makeAll absolute before with ⟨_ | _, s'⟩
        · simp only [makeAll, hd, hb]
          rwa [hb] at hrest
        · rw [hb] at hrest
          cases hd' : s'.makeDirectory ⟨absolute, (step :: before).reverse, false⟩ with
          | ok s'' =>
            simp only [makeAll, hd, hb, hd']
            exact hrest.trans (makes_of_makeDirectory hd' hself)
          | error f =>
            simp only [makeAll, hd, hb, hd']
            exact hrest
      | _ =>
        simp only [makeAll, hd]
        exact .refl _ s

/-! ## Saving a file -/

theorem write_eq_ok {bytes : ByteArray} (h : s.write path bytes = .ok s') :
    ∃ p, s.place path = .ok p ∧ s.entry? p ≠ some .directory ∧ s' = s.put p (.file bytes) := by
  obtain ⟨p, hp, h⟩ := bind_eq_ok.1 h
  refine ⟨p, hp, ?_⟩
  dsimp only at h
  split at h
  · cases h
  split at h
  · cases h
  · rename_i hd
    cases h
    exact ⟨hd, rfl⟩

theorem makeDirectories_above (s : Store) {parent : Path} (h : path.parent? = some parent) :
    s.Makes path.above (s.makeDirectories parent).2 := by
  have hm := s.makeAll_makes parent.absolute parent.steps.reverse
  rw [List.reverse_reverse] at hm
  rw [Path.above, h]
  exact hm

/-- A file has its bytes at the place that its path leads to; beside it nothing changes but that
missing directories above it are made. -/
structure Saves (path : Path) (bytes : ByteArray) (s s' : Store) : Prop where
  current : s'.current = s.current
  file : ∃ p, s'.place path = .ok p ∧ s'.entry? p = some (.file bytes) ∧
    ∀ q, q ≠ p → s'.entry? q = s.entry? q ∨
      s.entry? q = none ∧ s'.entry? q = some .directory ∧ ∃ a ∈ path.above, s'.place a = .ok q

theorem saves_of_save {bytes : ByteArray} (h : s.save path bytes = (.ok (), s')) :
    s.Saves path bytes s' := by
  obtain ⟨made, hm, hw⟩ : ∃ made, s.Makes path.above made ∧ made.write path bytes = .ok s' := by
    unfold save at h
    cases hp : path.parent? with
    | none =>
      rw [hp] at h
      refine ⟨s, .refl _ s, ?_⟩
      simp only at h
      split at h <;> simp_all
    | some parent =>
      refine ⟨_, s.makeDirectories_above hp, ?_⟩
      rw [hp] at h
      simp only at h
      split at h
      · cases h
      · split at h <;> simp_all
  obtain ⟨p, hl, hd, rfl⟩ := write_eq_ok hw
  have hg : made.Grows (made.put p (.file bytes)) := grows_put hd
  refine ⟨hm.current, p, hg.place hl, entry_put_self hd, fun q hq => ?_⟩
  rw [entry_put_ne hq]
  exact (hm.entry q).imp_right fun ⟨hn, hdir, a, ha, hla⟩ => ⟨hn, hdir, a, ha, hg.place hla⟩

end Store

end Courier.Files
