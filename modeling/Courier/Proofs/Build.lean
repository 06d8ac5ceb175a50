import Courier.Build
import Courier.Proofs.Files.Store
import Courier.Proofs.Generation.Pairs

/-!
A build is all or nothing. As long as the code is not there nothing is written; a build that
succeeds leaves the code in its output file and touches nothing else.
-/
namespace Courier
open Files

variable {b : Build} {directory : Option String} {s : Store} {out code : String} {e : GenerateError}

theorem generateFrom_eq_ok {document : String} {c : Config} :
    (generateFrom document c).result = .ok code ↔
      ∃ schema, (readSchema document).result = .ok schema ∧ (schema.generate c).result = .ok code := by
  rw [generateFrom, Traced.result_bind, bind_eq_ok]
  simp only [Traced.result_mapError, Except.mapError_eq_ok]

theorem generateFrom_eq_error {document : String} {c : Config} :
    (generateFrom document c).result = .error e ↔
      (∃ fault, (readSchema document).result = .error fault ∧ e = .parse fault) ∨
      ∃ schema, (readSchema document).result = .ok schema ∧ (schema.generate c).result = .error e := by
  rw [generateFrom, Traced.result_bind, Traced.result_mapError]
  cases (readSchema document).result with
  | error fault =>
    change (Except.error (.parse fault) : Except GenerateError String) = _ ↔ _
    simp [eq_comm]
  | ok schema =>
    change (schema.generate c).result = _ ↔ _
    simp

theorem generateFromFile_eq_ok {path : String} :
    (generateFromFile path s).result = .ok code ↔ ∃ document,
      s.readText (.ofText path) = .ok document ∧ (generateFrom document .default).result = .ok code := by
  rw [generateFromFile, Traced.result_bind, bind_eq_ok]
  simp only [Traced.result_ofExcept, Except.mapError_eq_ok]

namespace Build

/-! ## Before anything is written -/

/-- What keeps a build from having code to write: it has no output path, its schema file has no
text, the text is no schema, or there is no code for the schema. -/
inductive Fails (b : Build) (directory : Option String) (s : Store) : GenerateError → Prop
  | path {e : GenerateError} (h : b.outputPath directory = .error e) : Fails b directory s e
  | file {out : String} {fault : FileFault} (ho : b.outputPath directory = .ok out)
      (h : s.readText (.ofText b.schema) = .error fault) : Fails b directory s (.file fault)
  | document {out document : String} {fault : ParseError} (ho : b.outputPath directory = .ok out)
      (hd : s.readText (.ofText b.schema) = .ok document)
      (h : (readSchema document).result = .error fault) : Fails b directory s (.parse fault)
  | code {out document : String} {schema : Schema} {e : GenerateError}
      (ho : b.outputPath directory = .ok out) (hd : s.readText (.ofText b.schema) = .ok document)
      (hs : (readSchema document).result = .ok schema)
      (h : (schema.generate b.config).result = .error e) : Fails b directory s e

theorem outputPath_eq_ok : b.outputPath directory = .ok out ↔ b.output = some out ∨
    b.output = none ∧ ∃ d stem, directory = some d ∧ fileStem? b.schema = some stem ∧
      out = join d (stem ++ "_dto.rs") := by
  unfold outputPath
  cases b.output with
  | some path => simp
  | none =>
    cases directory with
    | none => simp
    | some d => cases fileStem? b.schema <;> simp [eq_comm]

theorem plan_eq_ok : (b.plan directory s).result = .ok (out, code) ↔
    b.outputPath directory = .ok out ∧ ∃ document, s.readText (.ofText b.schema) = .ok document ∧
      (generateFrom document b.config).result = .ok code := by
  simp only [plan, Traced.result_bind, bind_eq_ok, Traced.result_ofExcept, Except.mapError_eq_ok,
    Traced.result_pure, Except.ok.injEq, Prod.mk.injEq]
  constructor
  · rintro ⟨_, ho, document, hd, _, hc, rfl, rfl⟩
    exact ⟨ho, document, hd, hc⟩
  · rintro ⟨ho, document, hd, hc⟩
    exact ⟨out, ho, document, hd, code, hc, rfl, rfl⟩

theorem Fails.plan (h : b.Fails directory s e) : (b.plan directory s).result = .error e := by
  simp only [Build.plan, Traced.result_bind, Traced.result_ofExcept]
  cases h with
  | path h =>
    rw [h]
    rfl
  | file ho h =>
    rw [ho, h]
    rfl
  | document ho hd h =>
    have hg := generateFrom_eq_error (c := b.config).2 (.inl ⟨_, h, rfl⟩)
    rw [ho, hd]
    simp [Except.mapError, hg]
    rfl
  | code ho hd hs h =>
    have hg := generateFrom_eq_error.2 (.inr ⟨_, hs, h⟩)
    rw [ho, hd]
    simp [Except.mapError, hg]
    rfl

/-- A build that has no code fails in one of these ways. -/
theorem fails_of_plan (h : (b.plan directory s).result = .error e) : b.Fails directory s e := by
  simp only [Build.plan, Traced.result_bind, Traced.result_ofExcept] at h
  cases ho : b.outputPath directory with
  | error e' =>
    rw [ho] at h
    cases h
    exact .path ho
  | ok out =>
    cases hd : s.readText (.ofText b.schema) with
    | error fault =>
      rw [ho, hd] at h
      cases h
      exact .file ho hd
    | ok document =>
      rw [ho, hd] at h
      cases hg : (generateFrom document b.config).result with
      | ok code => simp [Except.mapError, hg] at h
      | error e' =>
        simp [Except.mapError, hg] at h
        cases h
        rcases generateFrom_eq_error.1 hg with ⟨fault, hf, rfl⟩ | ⟨schema, hs, hc⟩
        · exact .document ho hd hf
        · exact .code ho hd hs hc

/-! ## Runs -/

theorem Fails.run (h : b.Fails directory s e) :
    b.run directory s = ⟨.error e, (b.plan directory s).events, "", s⟩ := by
  simp only [Build.run, h.plan]

theorem run_eq_ok (h : (b.run directory s).result = .ok out) :
    ∃ code, (b.plan directory s).result = .ok (out, code) ∧
      s.save (.ofText out) code.toUTF8 = (.ok (), (b.run directory s).store) ∧
      (b.run directory s).printed = b.announcement := by
  cases hp : (b.plan directory s).result with
  | error e =>
    simp only [Build.run, hp] at h
    cases h
  | ok planned =>
    obtain ⟨path, code⟩ := planned
    rcases hs : s.save (.ofText path) code.toUTF8 with ⟨_ | _, s'⟩
    · simp only [Build.run, hp, hs] at h
      cases h
    · simp only [Build.run, hp, hs, Except.ok.injEq] at h
      subst h
      refine ⟨code, rfl, ?_, ?_⟩ <;> simp only [Build.run, hp, hs]

theorem run_eq_error (h : (b.run directory s).result = .error e) :
    b.Fails directory s e ∨ ∃ out code fault, (b.plan directory s).result = .ok (out, code) ∧
      s.save (.ofText out) code.toUTF8 = (.error fault, (b.run directory s).store) ∧
      e = .file fault ∧ (b.run directory s).printed = "" := by
  cases hp : (b.plan directory s).result with
  | error e' =>
    simp only [Build.run, hp, Except.error.injEq] at h
    exact .inl (h ▸ fails_of_plan hp)
  | ok planned =>
    obtain ⟨path, code⟩ := planned
    rcases hs : s.save (.ofText path) code.toUTF8 with ⟨fault | _, s'⟩
    · simp only [Build.run, hp, hs, Except.error.injEq] at h
      refine .inr ⟨path, code, fault, rfl, ?_, h.symm, ?_⟩ <;> simp only [Build.run, hp, hs]
    · simp only [Build.run, hp, hs] at h
      cases h

/-- A build that cannot come to its code changes no file and prints nothing, and after that only
the saving of the code can fail. A build that succeeds has in its output file exactly the code for
the schema in its schema file, has changed nothing else, and has announced the schema file if it was
to do so. -/
theorem run_all_or_nothing (b : Build) (directory : Option String) (s : Store) :
    (∀ e, b.Fails directory s e →
      (b.run directory s).result = .error e ∧ (b.run directory s).store = s ∧
      (b.run directory s).printed = "") ∧
    (∀ e, (b.run directory s).result = .error e →
      b.Fails directory s e ∨ ∃ out code fault, (b.plan directory s).result = .ok (out, code) ∧
        s.save (.ofText out) code.toUTF8 = (.error fault, (b.run directory s).store) ∧
        e = .file fault ∧ (b.run directory s).printed = "") ∧
    ∀ out, (b.run directory s).result = .ok out →
      (b.output = some out ∨ b.output = none ∧ ∃ d stem, directory = some d ∧
        fileStem? b.schema = some stem ∧ out = join d (stem ++ "_dto.rs")) ∧
      (∃ document schema code, s.readText (.ofText b.schema) = .ok document ∧
        (readSchema document).result = .ok schema ∧ (schema.generate b.config).result = .ok code ∧
        (b.config = .default → (generateFromFile b.schema s).result = .ok code) ∧
        s.Saves (.ofText out) code.toUTF8 (b.run directory s).store) ∧
      (b.run directory s).printed =
        if b.announces then "cargo:rerun-if-changed=" ++ b.schema ++ "\n" else "" := by
  refine ⟨fun e h => ?_, fun e h => ?_, fun out h => ?_⟩
  · simp only [h.run, and_self]
  · exact run_eq_error h
  · obtain ⟨code, hp, hs, hprinted⟩ := run_eq_ok h
    obtain ⟨hout, document, hd, hg⟩ := plan_eq_ok.1 hp
    obtain ⟨schema, hr, hc⟩ := generateFrom_eq_ok.1 hg
    refine ⟨outputPath_eq_ok.1 hout, ⟨document, schema, code, hd, hr, hc, ?_, Store.saves_of_save hs⟩, ?_⟩
    · intro hdefault
      rw [hdefault] at hg
      exact generateFromFile_eq_ok.2 ⟨document, hd, hg⟩
    · exact hprinted

/-- The schema of a shop in which there is a cart. -/
def shopText : String :=
  "<dtoSchema package=\"shop\"><model name=\"Cart\" kind=\"struct\">" ++
    "<property name=\"size\" type=\"u32\"/></model></dtoSchema>"

def shop : Schema := ⟨"shop", [⟨⟨.struct, "Cart", [.stored "size" (some "u32")]⟩, []⟩]⟩

/-- A place to work in, with the schema of the shop. -/
def workshop : Store := ⟨["work"], [(["work", "shop.xml"], .file shopText.toUTF8)]⟩

theorem run_all_or_nothing_of_workshop :
    (((ofSchema "shop.xml").run none workshop).store = workshop ∧
      ((ofSchema "shop.xml").run none workshop).printed = "") ∧
    ∃ code, (shop.generate .default).result = .ok code ∧
      workshop.Saves (.ofText "gen/shop_dto.rs") code.toUTF8
        ((ofSchema "shop.xml").run (some "gen") workshop).store ∧
      ((ofSchema "shop.xml").run (some "gen") workshop).printed =
        "cargo:rerun-if-changed=shop.xml\n" := by
  constructor
  · obtain ⟨-, hstore, hprinted⟩ :=
      (run_all_or_nothing (ofSchema "shop.xml") none workshop).1 _ (.path rfl)
    exact ⟨hstore, hprinted⟩
  · have hread : workshop.readText (.ofText "shop.xml") = .ok shopText := Store.readText_eq_ok rfl
    have hschema : (readSchema shopText).result = .ok shop := by decide +kernel
    obtain ⟨code, hcode⟩ := exists_eq_ok (x := (shop.generate .default).result) (by decide +kernel)
    have hplan : ((ofSchema "shop.xml").plan (some "gen") workshop).result =
        .ok ("gen/shop_dto.rs", code) :=
      plan_eq_ok.2 ⟨by decide +kernel, _, hread, generateFrom_eq_ok.2 ⟨_, hschema, hcode⟩⟩
    have hok : ((ofSchema "shop.xml").run (some "gen") workshop).result = .ok "gen/shop_dto.rs" := by
      simp only [Build.run, hplan]
      rfl
    obtain ⟨-, ⟨document, schema, code, hd, hr, hc, -, hs⟩, hprinted⟩ :=
      (run_all_or_nothing (ofSchema "shop.xml") (some "gen") workshop).2.2 _ hok
    obtain rfl := Except.ok.inj (hread.symm.trans hd)
    obtain rfl := Except.ok.inj (hschema.symm.trans hr)
    exact ⟨code, hc, hs, hprinted⟩

end Build

end Courier
