import SolarBill.CommandLine
import SolarBill.Proofs.Data.Directory
import SolarBill.Proofs.Session.Bill

/-!
# What the program prints

A session that is started with a catalogue and coefficients and then given a plan holds their
compiled bill, whatever the plan is (`Session.loaded_bill`).  So the program prints the compiled bill
of the files that it loads, or the reason why it cannot load them; on a file tree that is one
equation (`run_onTree`).
-/

namespace SolarBill

namespace CommandLine

open DataDirectory

section

variable {m : Type → Type} [Monad m]

/-- The plan, the catalogue and the coefficients of a data directory. -/
def loaded (files : Files m) (env : Environment) (path : String) :
    Op m (Plan × Catalog × Coefficients) := do
  let directory ← openAt files path
  let coefficients ← directory.loadCoefficients files env
  let catalog ← directory.loadCatalog files
  let plan ← directory.loadPlan files coefficients
  return (plan, catalog, coefficients)

/-- The compiled bill of the files in a data directory. -/
def compileLoaded (files : Files m) (env : Environment) (path : String) : Op m Bill := do
  let directory ← openAt files path
  let coefficients ← directory.loadCoefficients files env
  let catalog ← directory.loadCatalog files
  let plan ← directory.loadPlan files coefficients
  return compile plan catalog coefficients

/-- The bill of the session is the compiled one. -/
theorem billOf_eq (files : Files m) (env : Environment) (path : String) :
    billOf files env path = compileLoaded files env path := by
  simp only [billOf, compileLoaded, Session.loaded_bill]

/-- Compiling what is loaded needs nothing but what is loaded. -/
theorem compileLoaded_eq [LawfulMonad m] (files : Files m) (env : Environment) (path : String) :
    compileLoaded files env path =
      (loaded files env path >>= fun inputs => pure (compile inputs.1 inputs.2.1 inputs.2.2)) := by
  simp only [compileLoaded, loaded, bind_assoc, pure_bind]

end

/-! ### On a file tree -/

/-- Compiling on a file tree: load, and compile what was loaded. -/
theorem onTree_compileLoaded (env : Environment) (path : String) (t : FileTree) :
    onTree (compileLoaded FileTree.files env path) t =
      match onTree (loaded FileTree.files env path) t with
      | (.ok (plan, catalog, coefficients), s) => (.ok (compile plan catalog coefficients), s)
      | (.error e, s) => (.error e, s) := by
  rw [compileLoaded_eq, onTree_bind]
  cases onTree (loaded FileTree.files env path) t with
  | mk inputs s => cases inputs <;> rfl

/-- The program on a file tree: what is printed, and the tree that is left behind. -/
theorem run_onTree (env : Environment) (arguments : List String) (t : FileTree) :
    run FileTree.files env arguments t =
      match FileTree.files.ensureDirectory "logs" t with
      | (false, s) => (.error "Failed to create log directory: logs", s)
      | (true, s) =>
        match onTree (loaded FileTree.files env (directoryOf arguments)) s with
        | (.ok (plan, catalog, coefficients), s) =>
          (.ok (Yaml.render (compile plan catalog coefficients).encode), s)
        | (.error e, s) => (.error e.message, s) := by
  rw [run, billOf_eq, printing, logDirectory]
  cases hlogs : FileTree.files.ensureDirectory "logs" t with
  | mk made s =>
    rw [FileTree.bind_eq hlogs]
    cases made with
    | false => rfl
    | true =>
      have hbill := onTree_compileLoaded env (directoryOf arguments) s
      simp only
      generalize onTree (loaded FileTree.files env (directoryOf arguments)) s = inputs at hbill ⊢
      rcases inputs with ⟨e | ⟨plan, catalog, coefficients⟩, s⟩
      · exact FileTree.bind_eq hbill
      · exact FileTree.bind_eq hbill

/-- The inputs are loaded one after the other, the plan last. -/
theorem onTree_loaded {env : Environment} {path : String} {t s₁ s₂ s₃ s : FileTree}
    {k : Coefficients} {c : Catalog} {plan : Except DataError Plan}
    (hopen : FileTree.files.ensureDirectory path t = (true, s₁))
    (hcoefficients : onTree (loadCoefficients FileTree.files ⟨path⟩ env) s₁ = (.ok k, s₂))
    (hcatalog : onTree (loadCatalog FileTree.files ⟨path⟩) s₂ = (.ok c, s₃))
    (hplan : onTree (loadPlan FileTree.files ⟨path⟩ k) s₃ = (plan, s)) :
    onTree (loaded FileTree.files env path) t = (plan.map fun p => (p, c, k), s) := by
  have hdirectory : onTree (openAt FileTree.files path) t = (.ok ⟨path⟩, s₁) := by
    rw [openAt, onTree_bind, onTree_liftM _ hopen]
    rfl
  rw [loaded, onTree_bind, hdirectory]
  simp only
  rw [onTree_bind, hcoefficients]
  simp only
  rw [onTree_bind, hcatalog]
  simp only
  rw [onTree_bind, hplan]
  cases plan <;> rfl

/-- A directory that holds the documents of a catalogue and of coefficients: with the plan these are
the inputs, the coefficients after their check. -/
theorem onTree_loaded_saved {path : String} {t : FileTree} {c : Catalog} {k checked : Coefficients}
    {plan : Except DataError Plan} (hdirectory : (t.place? path).any t.has = true)
    (hcoefficients : t.HasText (pathOf ⟨path⟩ .coefficients) (Yaml.render k.encode))
    (hk : SettingsLayer.Carries k.encode) (hchecked : k.checked = .ok checked)
    (hcatalog : t.HasText (pathOf ⟨path⟩ .catalog) (Yaml.render c.encode))
    (hc : Yaml.Carries c.encode) (hkeyed : c.Keyed)
    (hplan : onTree (loadPlan FileTree.files ⟨path⟩ checked) t = (plan, t)) :
    onTree (loaded FileTree.files [] path) t = (plan.map fun p => (p, c, checked), t) := by
  have hloadCoefficients : onTree (loadCoefficients FileTree.files ⟨path⟩ []) t =
      (.ok checked, t) := by
    rw [onTree_loadCoefficients hcoefficients, (coefficientsOf_render hk ⟨path⟩).1 checked hchecked]
  have hloadCatalog : onTree (loadCatalog FileTree.files ⟨path⟩) t = (.ok c, t) :=
    onTree_loadFile hcatalog _
      (Yaml.read?_render hc fun _ => Catalog.decode_eq Yaml.Node.reader_faithful hkeyed)
  exact onTree_loaded (FileTree.ensureDirectory_of_has hdirectory) hloadCoefficients hloadCatalog
    hplan

/-! ### The data of a heat pump -/

/-- The names of the files in a directory called `data`. -/
theorem names_pathOf_data (f : DataFile) :
    FileTree.names (pathOf ⟨"data"⟩ f) = ["data", f.fileName] := by
  rw [FileTree.names, String.splitOn, if_neg (by decide +kernel),
    splitOnAux_skip 4 (by cases f <;> decide +kernel), String.splitOnAux,
    if_neg (by cases f <;> decide +kernel), if_pos (by cases f <;> decide +kernel)]
  simp only
  rw [if_pos (by cases f <;> decide +kernel),
    splitOnAux_skip f.fileName.length (by cases f <;> decide +kernel), String.splitOnAux,
    if_pos (by cases f <;> decide +kernel)]
  cases f <;> decide +kernel

/-- Both directories are called by a single name. -/
theorem names_directory {path : String} (h : path = "logs" ∨ path = "data") :
    FileTree.names path = [path] := by
  rw [FileTree.names, String.splitOn, if_neg (by decide),
    splitOnAux_skip 4 (by rcases h with rfl | rfl <;> decide), String.splitOnAux,
    if_pos (by rcases h with rfl | rfl <;> decide)]
  rcases h with rfl | rfl <;> decide

/-- The data files lie in the data directory. -/
theorem place_pathOf_data {t : FileTree} (h : t.hasDirectory ["data"] = true) (f : DataFile) :
    t.place? (pathOf ⟨"data"⟩ f) = some [f.fileName, "data"] := by
  rw [FileTree.place?, names_pathOf_data, if_neg (by cases f <;> decide +kernel),
    FileTree.follow?_name rfl (by decide), FileTree.follow?_name h (by cases f <;> decide)]
  rfl

/-- Both directories lie in the root. -/
theorem place_directory {path : String} (h : path = "logs" ∨ path = "data") (t : FileTree) :
    t.place? path = some [path] := by
  rw [FileTree.place?, names_directory h, if_neg (by rcases h with rfl | rfl <;> decide),
    FileTree.follow?_name rfl (by rcases h with rfl | rfl <;> decide)]
  rfl

/-- A directory that is not there yet is made. -/
theorem ensureDirectory_new {path : String} (h : path = "logs" ∨ path = "data") {t : FileTree}
    (hnew : t.has [path] = false) :
    FileTree.files.ensureDirectory path t = (true, t.put [path] none) := by
  have hplace : (t.place? path).any t.has = false := by
    rw [place_directory h]
    exact hnew
  have hname : ¬ (path == "" || path == ".") = true ∧ ¬ (path == "..") = true := by
    rcases h with rfl | rfl <;> decide
  have hroot : ¬ (!t.hasDirectory []) = true := Bool.false_ne_true
  have hmade : (t.put [path] none).hasDirectory [path] = true := by
    rw [FileTree.hasDirectory, FileTree.lookup_put, if_pos rfl]
    rfl
  rw [FileTree.ensureDirectory_missing hplace, FileTree.makeDirectory, names_directory h,
    FileTree.makeFrom, if_neg hroot, if_neg hname.1, if_neg hname.2]
  simp only [hnew, Bool.false_eq_true, if_false, FileTree.makeFrom, hmade]

/-- The document of the plan. -/
def pumpText : String :=
  Yaml.render DataDirectory.pumpPlan.encode

/-- The files of the heat pump, with a text of the plan or a directory in its place. -/
def pumpTree (plan : Option String) : FileTree where
  entries :=
    [(["logs"], none), (["data"], none),
      (["coefficients.yaml", "data"], some (Yaml.render DataDirectory.pumpCoefficients.encode)),
      (["catalog.yaml", "data"], some (Yaml.render DataDirectory.pumpCatalog.encode)),
      (["configuration.yaml", "data"], plan)]

/-- The tree has the texts of its entries. -/
theorem pumpTree_hasText {plan : Option String} {f : DataFile} {text : String}
    (h : (pumpTree plan).entries.lookup [f.fileName, "data"] = some (some text)) :
    (pumpTree plan).HasText (pathOf ⟨"data"⟩ f) text := by
  have hplace := place_pathOf_data (t := pumpTree plan) rfl f
  constructor
  · rw [hplace, Option.any_some, FileTree.has, h]
    rfl
  · rw [hplace, Option.bind_some, FileTree.text?, h]
    rfl

/-- Both directories are there. -/
theorem pumpTree_directory (plan : Option String) {path : String}
    (h : path = "logs" ∨ path = "data") :
    ((pumpTree plan).place? path).any (pumpTree plan).has = true := by
  rw [place_directory h, Option.any_some]
  rcases h with rfl | rfl <;> rfl

/-- What is loaded from the files of the heat pump. -/
theorem onTree_loaded_pump {text : Option String} {plan : Except DataError Plan}
    (hplan : ∀ defaults, onTree (loadPlan FileTree.files ⟨"data"⟩ defaults) (pumpTree text) =
      (plan, pumpTree text)) :
    ∃ checked, DataDirectory.pumpCoefficients.checked = .ok checked ∧
      onTree (loaded FileTree.files [] "data") (pumpTree text) =
        (plan.map fun p => (p, DataDirectory.pumpCatalog, checked), pumpTree text) := by
  obtain ⟨hkeyed, hcatalog, -, hcoefficients⟩ := DataDirectory.pump_carries
  exact ⟨_, DataDirectory.pump_checked, onTree_loaded_saved (pumpTree_directory text (.inr rfl))
    (pumpTree_hasText rfl) hcoefficients DataDirectory.pump_checked (pumpTree_hasText rfl) hcatalog
    hkeyed (hplan _)⟩

/-- The plan is loaded when its text is there. -/
theorem onTree_loaded_pumpPlan :
    ∃ checked, DataDirectory.pumpCoefficients.checked = .ok checked ∧
      onTree (loaded FileTree.files [] "data") (pumpTree (some pumpText)) =
        (.ok (DataDirectory.pumpPlan, DataDirectory.pumpCatalog, checked),
          pumpTree (some pumpText)) := by
  have htext : (pumpTree (some pumpText)).HasText (pathOf ⟨"data"⟩ .plan)
      (Yaml.render DataDirectory.pumpPlan.encode) := pumpTree_hasText rfl
  exact onTree_loaded_pump fun _ => onTree_loadFile htext _
    (Yaml.read?_render DataDirectory.pump_carries.2.2.1
      (Plan.readsBack Yaml.Node.reader_faithful DataDirectory.pumpPlan))

/-- A directory in the place of the plan is there, but cannot be read. -/
theorem onTree_loaded_pumpDirectory :
    onTree (loaded FileTree.files [] "data") (pumpTree none) =
      (.error (.read .plan (pathOf ⟨"data"⟩ .plan)), pumpTree none) := by
  have hplace := place_pathOf_data (t := pumpTree none) rfl .plan
  have hexists : FileTree.files.pathExists (pathOf ⟨"data"⟩ .plan) (pumpTree none) =
      (true, pumpTree none) := by
    refine congrArg (·, _) ?_
    rw [hplace]
    decide
  have hread : FileTree.files.read? (pathOf ⟨"data"⟩ .plan) (pumpTree none) =
      (none, pumpTree none) := by
    refine congrArg (·, _) ?_
    rw [hplace]
    decide
  obtain ⟨checked, -, hload⟩ := onTree_loaded_pump
    fun _ => onTree_loadFile_unreadable hexists hread _ _
  exact hload

/-- A directory without data files: the inputs are the preset plan, no material and the built-in
coefficients. -/
theorem onTree_loaded_missing {t₀ t : FileTree}
    (hopen : FileTree.files.ensureDirectory "data" t₀ = (true, t))
    (hdirectory : t.hasDirectory ["data"] = true)
    (hmissing : ∀ f : DataFile, t.has [f.fileName, "data"] = false) (env : Environment) :
    ∃ s, onTree (loaded FileTree.files env "data") t₀ =
      (.ok (.preset .builtin, .empty, .builtin), s) := by
  let place : FilePlace := [DataFile.coefficients.fileName, "data"]
  let text := Yaml.render Coefficients.builtin.encode
  have hexists (f : DataFile) : FileTree.files.pathExists (pathOf ⟨"data"⟩ f) t = (false, t) := by
    refine congrArg (·, t) ?_
    rw [place_pathOf_data hdirectory, Option.any_some, hmissing]
  have hfile : t.hasDirectory place = false := by
    by_contra hnot
    have hhas := FileTree.has_of_hasDirectory (Bool.of_not_eq_false hnot)
    rw [hmissing] at hhas
    exact Bool.false_ne_true hhas
  have hwrite : t.write (pathOf ⟨"data"⟩ .coefficients) text = (true, t.put place (some text)) := by
    rw [FileTree.write, place_pathOf_data hdirectory]
    refine if_neg ?_
    rw [hfile, List.tail_cons, hdirectory]
    decide
  -- The file that was written hides neither of the others.
  have hafter (f : DataFile) (hf : f ≠ .coefficients) :
      FileTree.files.pathExists (pathOf ⟨"data"⟩ f) (t.put place (some text)) =
        (false, t.put place (some text)) := by
    have hput : (t.put place (some text)).hasDirectory ["data"] = true := by
      rw [FileTree.hasDirectory_put hfile, hdirectory]
    have hne : [f.fileName, "data"] ≠ place := by
      cases f <;> first | exact absurd rfl hf | decide
    refine congrArg (·, _) ?_
    rw [place_pathOf_data hput, Option.any_some, FileTree.has, FileTree.lookup_put, if_neg hne]
    exact hmissing f
  exact ⟨_, onTree_loaded hopen
    (onTree_loadCoefficients_missing (hexists .coefficients) hwrite env)
    (onTree_loadFile_missing (hafter .catalog (by decide)) _ _)
    (onTree_loadFile_missing (hafter .plan (by decide)) _ _)⟩

end CommandLine

namespace Session

open CommandLine DataDirectory

/-- **The bill is the compiled one.**  In every reachable session the bill is equal, and compares
equal, to what the plan, the catalogue and the coefficients compile to.  The program prints the
document of the compiled bill of the files it loads, or says why there is no directory for the log
files or why they cannot be loaded; on a file tree that is known to the last character. -/
theorem bill_is_compiled :
    (∀ s : Session, Reachable s →
      s.workspace.bill = compile s.workspace.plan s.workspace.catalog s.workspace.coefficients ∧
      (s.workspace.bill ==
        compile s.workspace.plan s.workspace.catalog s.workspace.coefficients) = true) ∧
    (∀ {m : Type → Type} [Monad m] (files : Files m) (env : Environment) (arguments : List String),
      run files env arguments = do
        if ← files.ensureDirectory "logs" then
          match ← (compileLoaded files env (directoryOf arguments)).run with
          | .ok bill => return .ok (Yaml.render bill.encode)
          | .error e => return .error e.message
        else
          return .error "Failed to create log directory: logs") ∧
    ∀ (env : Environment) (arguments : List String) (t : FileTree),
      run FileTree.files env arguments t =
        match FileTree.files.ensureDirectory "logs" t with
        | (false, s) => (.error "Failed to create log directory: logs", s)
        | (true, s) =>
          match onTree (loaded FileTree.files env (directoryOf arguments)) s with
          | (.ok (plan, catalog, coefficients), s) =>
            (.ok (Yaml.render (compile plan catalog coefficients).encode), s)
          | (.error e, s) => (.error e.message, s) := by
  refine ⟨?_, ?_, run_onTree⟩
  · intro s h
    have hbill := h.bill_eq
    rw [Workspace.compiled] at hbill
    rw [hbill]
    exact ⟨rfl, Bill.beq_self (compile_pos _ _ _)⟩
  · intro m _ files env arguments
    rw [run, billOf_eq, printing]
    rfl

/-- Starting over with the built-in coefficients; and printing the bill of the heat pump, the fault
of its plan when there is a directory in its place, and the bill of a place where there is nothing
yet, which is the one of the preset plan. -/
theorem bill_is_compiled_pump :
    (Reachable ((start .empty .builtin).step .reset).1 ∧
      ((start .empty .builtin).step .reset).1.workspace.bill =
        compile (.preset .builtin) .empty .builtin) ∧
    (∃ checked, DataDirectory.pumpCoefficients.checked = .ok checked ∧
      run FileTree.files [] ["--debug", "data"] (pumpTree (some pumpText)) =
        (.ok (Yaml.render (compile DataDirectory.pumpPlan DataDirectory.pumpCatalog
          checked).encode), pumpTree (some pumpText))) ∧
    run FileTree.files [] ["data"] (pumpTree none) =
      (.error "Failed to read configuration: data/configuration.yaml", pumpTree none) ∧
    ∃ s, run FileTree.files [] ["data", "elsewhere"] {} =
      (.ok ("lines:\n- material_id: SPD-DC-1000\n  quantity: 1.0\n  description: SPD-DC-1000\n" ++
        "  category: ''\n  is_configured: true\n  is_manual: false\nwarnings: []\n"), s) := by
  obtain ⟨hsessions, -, htrees⟩ := bill_is_compiled
  have hdirectory : directoryOf ["--debug", "data"] = "data" ∧ directoryOf ["data"] = "data" ∧
      directoryOf ["data", "elsewhere"] = "data" := by
    decide +kernel
  refine ⟨?_, ?_, ?_, ?_⟩
  · have hreach : Reachable ((start .empty .builtin).step .reset).1 :=
      (Reachable.start .empty .builtin {}).step .reset
    refine ⟨hreach, ((hsessions _ hreach).1).trans ?_⟩
    simp only [step, reset, announce_workspace, start_workspace]
    rfl
  · obtain ⟨checked, hchecked, hload⟩ := onTree_loaded_pumpPlan
    refine ⟨checked, hchecked, ?_⟩
    rw [htrees, FileTree.ensureDirectory_of_has (pumpTree_directory _ (.inl rfl)), hdirectory.1]
    simp only
    rw [hload]
  · have hmessage : (DataError.read .plan (pathOf ⟨"data"⟩ .plan)).message =
        "Failed to read configuration: data/configuration.yaml" := by
      decide +kernel
    rw [htrees, FileTree.ensureDirectory_of_has (pumpTree_directory _ (.inl rfl)), hdirectory.2.1]
    simp only
    rw [onTree_loaded_pumpDirectory, ← hmessage]
  · have hlogs : FileTree.files.ensureDirectory "logs" {} = (true, ⟨[(["logs"], none)]⟩) :=
      ensureDirectory_new (.inl rfl) rfl
    have hdata : FileTree.files.ensureDirectory "data" ⟨[(["logs"], none)]⟩ =
        (true, ⟨[(["logs"], none), (["data"], none)]⟩) :=
      ensureDirectory_new (.inr rfl) (by decide)
    obtain ⟨s, hload⟩ := onTree_loaded_missing hdata (by decide)
      (fun f => by cases f <;> decide) []
    have hprinted : Yaml.render (compile (.preset .builtin) .empty .builtin).encode =
        "lines:\n- material_id: SPD-DC-1000\n  quantity: 1.0\n  description: SPD-DC-1000\n" ++
          "  category: ''\n  is_configured: true\n  is_manual: false\nwarnings: []\n" := by
      decide +kernel
    refine ⟨s, ?_⟩
    rw [htrees, hlogs, hdirectory.2.2]
    simp only
    rw [hload, ← hprinted]

end Session

end SolarBill
