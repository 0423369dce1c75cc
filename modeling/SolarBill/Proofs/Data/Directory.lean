import SolarBill.DataDirectory
import SolarBill.Files.Tree
import SolarBill.Proofs.Data.Document
import SolarBill.Proofs.Data.Records
import SolarBill.Proofs.Data.Settings

/-!
# What is saved is loaded

The data directory keeps what is saved in it.  A file that takes a text gives it back
(`FileTree.read_after_write`), a document gives back the tree that it carries, and a tree the record
that it was made of.  So catalogue and plan are loaded as they were saved, and coefficients as they
are after their check, or not at all if they fail it (`stored_data_kept`).
-/

namespace SolarBill

namespace FileTree

variable {t : FileTree} {p q : FilePlace}

/-! ### Writing and reading -/

/-- Leaving out the entries of one place. -/
theorem lookup_filter_ne (entries : List (FilePlace × Option String)) (p q : FilePlace) :
    (entries.filter fun e => e.1 != p).lookup q = if q = p then none else entries.lookup q := by
  induction entries with
  | nil => rw [List.filter_nil, List.lookup_nil, ite_self]
  | cons e rest ih =>
      rw [List.filter_cons]
      by_cases hp : e.1 = p
      · rw [if_neg (by rw [bne_iff_ne, not_not]; exact hp), ih]
        by_cases hq : q = p
        · rw [if_pos hq, if_pos hq]
        · rw [if_neg hq, if_neg hq, List.lookup_cons, hp, beq_eq_false_iff_ne.mpr hq]
      · rw [if_pos (bne_iff_ne.mpr hp), List.lookup_cons, List.lookup_cons, ih]
        by_cases hq : q = e.1
        · have hne : q ≠ p := hq ▸ hp
          rw [beq_iff_eq.mpr hq, if_neg hne, if_neg hne]
        · rw [beq_eq_false_iff_ne.mpr hq]

/-- Putting an entry in its place changes this place only. -/
theorem lookup_put (t : FileTree) (p q : FilePlace) (entry : Option String) :
    (t.put p entry).entries.lookup q = if q = p then some entry else t.entries.lookup q := by
  rw [put, List.lookup_append, lookup_filter_ne]
  by_cases hq : q = p
  · rw [if_pos hq, if_pos hq, hq, Option.none_or, List.lookup_cons_self]
  · rw [if_neg hq, if_neg hq, List.lookup_cons, beq_eq_false_iff_ne.mpr hq, List.lookup_nil,
      Option.or_none]

/-- A file in a place that is no directory leaves the directories as they are. -/
theorem hasDirectory_put (h : t.hasDirectory p = false) (text : String) (q : FilePlace) :
    (t.put p (some text)).hasDirectory q = t.hasDirectory q := by
  rw [hasDirectory, Bool.or_eq_false_iff] at h
  rw [hasDirectory, hasDirectory, lookup_put]
  by_cases hq : q = p
  · rw [if_pos hq, hq, h.2]
    rfl
  · rw [if_neg hq]

/-- Following names looks at directories only. -/
theorem follow?_congr {s t : FileTree} (h : ∀ q, s.hasDirectory q = t.hasDirectory q)
    (place : FilePlace) (names : List String) : s.follow? place names = t.follow? place names := by
  induction names generalizing place with
  | nil => rfl
  | cons name rest ih => rw [follow?, follow?, h, ih, ih, ih]

/-- A directory is there. -/
theorem has_of_hasDirectory (h : t.hasDirectory p = true) :
    t.has p = true := by
  rw [hasDirectory, Bool.or_eq_true, beq_iff_eq] at h
  rw [has, Bool.or_eq_true]
  exact h.imp_right fun hmark => by rw [hmark, Option.isSome_some]

/-- A name that stands for itself leads from a directory into it. -/
theorem follow?_name {place : FilePlace} (h : t.hasDirectory place = true)
    {name : String} (hname : name ∉ ["", ".", ".."]) (rest : List String) :
    t.follow? place (name :: rest) = t.follow? (name :: place) rest := by
  simp only [List.mem_cons, List.not_mem_nil, or_false, not_or] at hname
  obtain ⟨hempty, hpoint, hpoints⟩ := hname
  rw [follow?, h, beq_eq_false_iff_ne.mpr hempty, beq_eq_false_iff_ne.mpr hpoint,
    beq_eq_false_iff_ne.mpr hpoints]
  rfl

/-- A path takes a file: it leads to a place in a directory where there is no directory. -/
def Accepts (t : FileTree) (path : String) : Prop :=
  ∃ p, t.place? path = some p ∧ t.hasDirectory p = false ∧ t.hasDirectory p.tail = true

/-- Where a path takes no file, nothing is written. -/
theorem write_of_not_accepts {path : String} (h : ¬ t.Accepts path) (text : String) :
    t.write path text = (false, t) := by
  rw [write]
  cases hplace : t.place? path with
  | none => rfl
  | some p =>
      refine if_pos ?_
      rw [Bool.or_eq_true, Bool.not_eq_true']
      by_contra hnot
      rw [not_or, Bool.not_eq_true, Bool.not_eq_false] at hnot
      exact h ⟨p, hplace, hnot.1, hnot.2⟩

/-- A tree has a text at a path. -/
structure HasText (t : FileTree) (path text : String) : Prop where
  pathExists : (t.place? path).any t.has = true
  text?_eq : (t.place? path).bind t.text? = some text

/-- One operation after another. -/
theorem bind_eq {α β : Type} {op : StateM FileTree α} {next : α → StateM FileTree β} {a : α}
    {s : FileTree} (h : op t = (a, s)) : (op >>= next) t = next a s := by
  change (match op t with | (a, s) => next a s) = _
  rw [h]

/-- Something that is there is not created. -/
theorem ensureDirectory_of_has {path : String}
    (h : (t.place? path).any t.has = true) : files.ensureDirectory path t = (true, t) := by
  have hexists : files.pathExists path t = (true, t) := congrArg (·, t) h
  rw [Files.ensureDirectory, bind_eq hexists]
  rfl

/-- What is not there is created as a directory. -/
theorem ensureDirectory_missing {path : String}
    (h : (t.place? path).any t.has = false) :
    files.ensureDirectory path t = t.makeDirectory path := by
  have hexists : files.pathExists path t = (false, t) := congrArg (·, t) h
  rw [Files.ensureDirectory, bind_eq hexists]
  rfl

namespace HasText

variable {path text : String}

/-- A text that is there is something that is there. -/
theorem pathExists_eq (h : t.HasText path text) : files.pathExists path t = (true, t) :=
  congrArg (·, t) h.pathExists

/-- It is read. -/
theorem read?_eq (h : t.HasText path text) : files.read? path t = (some text, t) :=
  congrArg (·, t) h.text?_eq

/-- It is a file. -/
theorem isFile_eq (h : t.HasText path text) : files.isFile path t = (true, t) := by
  change (((t.place? path).bind t.text?).isSome, t) = _
  rw [h.text?_eq, Option.isSome_some]

end HasText

/-- **What is written is there.** -/
theorem read_after_write {path : String} (h : t.Accepts path) (text : String) :
    ∃ s, t.write path text = (true, s) ∧ s.HasText path text := by
  obtain ⟨p, hplace, hfile, hdirectory⟩ := h
  refine ⟨t.put p (some text), ?_, ?_⟩
  · rw [write, hplace]
    change (if (t.hasDirectory p || !t.hasDirectory p.tail) = true then _ else _) = _
    rw [hfile, hdirectory]
    rfl
  · have hsame : (t.put p (some text)).place? path = some p := by
      rw [place?, follow?_congr (hasDirectory_put hfile text)]
      exact hplace
    have hlookup : (t.put p (some text)).entries.lookup p = some (some text) := by
      rw [lookup_put, if_pos rfl]
    constructor
    · rw [hsame, Option.any_some, has, hlookup, Option.isSome_some, Bool.or_true]
    · rw [hsame, Option.bind_some, text?, hlookup]
      rfl

end FileTree

namespace DataDirectory

variable {t : FileTree} {α : Type}

/-! ### Operations on a file tree -/

/-- What an operation does on a file tree. -/
def onTree (op : Op (StateM FileTree) α) (t : FileTree) : Except DataError α × FileTree :=
  op.run t

/-- One operation after another: the second one starts in the tree that the first one leaves, unless
that fails. -/
theorem onTree_bind {β : Type} (op : Op (StateM FileTree) α) (next : α → Op (StateM FileTree) β)
    (t : FileTree) :
    onTree (op >>= next) t =
      match onTree op t with
      | (.ok a, s) => onTree (next a) s
      | (.error e, s) => (.error e, s) := by
  change (match op.run t with | (r, s) => ExceptT.bindCont next r s) = _
  rw [onTree]
  cases op.run t with
  | mk r s => cases r <;> rfl

/-- A failure is caught in the tree that it leaves behind. -/
theorem onTree_tryCatch (op : Op (StateM FileTree) α) (handle : DataError → Op (StateM FileTree) α)
    (t : FileTree) :
    onTree (tryCatch op handle) t =
      match onTree op t with
      | (.ok a, s) => (.ok a, s)
      | (.error e, s) => onTree (handle e) s := by
  have hcatch : (tryCatch op handle).run = op.run >>= fun r =>
      (match r with | .ok a => pure a | .error e => handle e : Op (StateM FileTree) α).run := by
    change ExceptT.run (ExceptT.tryCatch op handle) = _
    rw [ExceptT.tryCatch, ExceptT.run_mk]
    refine congrArg (op.run >>= ·) (funext fun r => ?_)
    cases r <;> rfl
  rw [onTree, hcatch, onTree]
  cases h : op.run t with
  | mk r s =>
      rw [FileTree.bind_eq h]
      cases r <;> rfl

/-- An operation that cannot fail. -/
theorem onTree_liftM (op : StateM FileTree α) {a : α} {s : FileTree} (h : op t = (a, s)) :
    onTree (liftM op) t = (.ok a, s) := by
  have hlift : ∀ op : StateM FileTree α, onTree (liftM op) t = (.ok (op t).1, (op t).2) :=
    fun _ => rfl
  rw [hlift, h]

/-- A value that may be missing leaves the tree alone. -/
theorem onTree_orFail (a : Option α) (e : DataError) (t : FileTree) :
    onTree (orFail a e) t = (a.elim (.error e) .ok, t) := by
  cases a <;> rfl

/-- Saving writes the document, and fails if that cannot be written. -/
theorem onTree_save {d : DataDirectory} {f : DataFile} {value : Datum} {ok : Bool} {s : FileTree}
    (h : t.write (d.pathOf f) (Yaml.render value) = (ok, s)) :
    onTree (save FileTree.files d f value) t =
      (if ok then .ok () else .error (.write f (d.pathOf f)), s) := by
  have hwrite : FileTree.files.write (d.pathOf f) (Yaml.render value) t = (ok, s) := h
  rw [save, onTree_bind, onTree_liftM _ hwrite]
  cases ok <;> rfl

/-- A file that holds a readable text is loaded from it, and loading changes nothing. -/
theorem onTree_loadFile {d : DataDirectory} {f : DataFile} {text : String}
    (htext : t.HasText (d.pathOf f) text) (missing : α)
    {decode : Reader Yaml.Node → Yaml.Node → Option α} {a : α}
    (hread : Yaml.read? decode text = some a) :
    onTree (loadFile FileTree.files d f missing decode) t = (.ok a, t) := by
  rw [loadFile, onTree_bind, onTree_liftM _ htext.pathExists_eq]
  simp only [if_pos]
  rw [onTree_bind, onTree_liftM _ htext.read?_eq]
  simp only
  rw [onTree_bind, onTree_orFail]
  simp only [Option.elim]
  rw [onTree_orFail, hread]
  rfl

/-- A file that is not there is loaded as what stands for it, and loading changes nothing. -/
theorem onTree_loadFile_missing {d : DataDirectory} {f : DataFile}
    (hmissing : FileTree.files.pathExists (d.pathOf f) t = (false, t)) (missing : α)
    (decode : Reader Yaml.Node → Yaml.Node → Option α) :
    onTree (loadFile FileTree.files d f missing decode) t = (.ok missing, t) := by
  rw [loadFile, onTree_bind, onTree_liftM _ hmissing]
  rfl

/-- A file that is there and cannot be read is not loaded. -/
theorem onTree_loadFile_unreadable {d : DataDirectory} {f : DataFile}
    (hexists : FileTree.files.pathExists (d.pathOf f) t = (true, t))
    (hread : FileTree.files.read? (d.pathOf f) t = (none, t)) (missing : α)
    (decode : Reader Yaml.Node → Yaml.Node → Option α) :
    onTree (loadFile FileTree.files d f missing decode) t =
      (.error (.read f (d.pathOf f)), t) := by
  rw [loadFile, onTree_bind, onTree_liftM _ hexists]
  simp only [if_pos]
  rw [onTree_bind, onTree_liftM _ hread]
  rfl

/-- The coefficients of a layer of settings with an environment on top. -/
def coefficientsOf (d : DataDirectory) (env : Environment) :
    Option SettingsLayer → Except DataError Coefficients
  | none => .error (.read .coefficients (d.pathOf .coefficients))
  | some layer =>
    match Coefficients.decode Settings.reader (settingsOf [layer, .ofEnvironment variableStart env])
    with
    | none => .error (.parse .coefficients (d.pathOf .coefficients))
    | some c =>
      match c.checked with
      | .ok c => .ok c
      | .error fault => .error (.unusable (d.pathOf .coefficients) fault)

/-- The settings of a file that is there are those of its text. -/
theorem settingsOfFile?_eq {path text : String} (htext : t.HasText path text) :
    settingsOfFile? FileTree.files path t = (SettingsLayer.ofDocument? text, t) := by
  have hfound : settingsFile? FileTree.files path t = (some path, t) := by
    rw [settingsFile?, List.findM?, FileTree.bind_eq htext.isFile_eq]
    rfl
  rw [settingsOfFile?, FileTree.bind_eq hfound]
  change (FileTree.files.read? path >>= fun text? =>
    pure (text?.bind SettingsLayer.ofDocument?)) t = _
  rw [FileTree.bind_eq htext.read?_eq, Option.bind_some]
  rfl

/-- Coefficients are read from the settings of their file, and reading changes nothing. -/
theorem onTree_readCoefficients {d : DataDirectory} {text : String}
    (htext : t.HasText (d.pathOf .coefficients) text) (env : Environment) :
    onTree (readCoefficients FileTree.files d env) t =
      (coefficientsOf d env (SettingsLayer.ofDocument? text), t) := by
  have hlayer := settingsOfFile?_eq htext
  generalize SettingsLayer.ofDocument? text = layer at hlayer ⊢
  rw [readCoefficients, onTree_bind, onTree_liftM _ hlayer]
  simp only
  rw [onTree_bind, onTree_orFail]
  cases layer with
  | none => rfl
  | some layer =>
      rw [coefficientsOf]
      simp only [Option.elim]
      rw [onTree_bind, onTree_orFail]
      generalize Coefficients.decode Settings.reader _ = c
      cases c with
      | none => rfl
      | some c =>
          simp only [Option.elim]
          cases c.checked <;> rfl

/-- Coefficients are loaded from the file that holds them, and loading changes nothing. -/
theorem onTree_loadCoefficients {d : DataDirectory} {text : String}
    (htext : t.HasText (d.pathOf .coefficients) text) (env : Environment) :
    onTree (loadCoefficients FileTree.files d env) t =
      (coefficientsOf d env (SettingsLayer.ofDocument? text), t) := by
  rw [loadCoefficients, onTree_bind, onTree_liftM _ htext.pathExists_eq]
  exact onTree_readCoefficients htext env

/-- Where there are no coefficients the built-in ones are used, also if they cannot be written. -/
theorem onTree_loadCoefficients_missing {d : DataDirectory}
    (hmissing : FileTree.files.pathExists (d.pathOf .coefficients) t = (false, t)) {ok : Bool}
    {s : FileTree}
    (hwrite : t.write (d.pathOf .coefficients) (Yaml.render Coefficients.builtin.encode) = (ok, s))
    (env : Environment) :
    onTree (loadCoefficients FileTree.files d env) t = (.ok .builtin, s) := by
  have hsave : onTree (tryCatch (saveCoefficients FileTree.files d .builtin) fun _ => pure ()) t =
      (.ok (), s) := by
    rw [onTree_tryCatch, saveCoefficients, onTree_save hwrite]
    cases ok <;> rfl
  rw [loadCoefficients, onTree_bind, onTree_liftM _ hmissing]
  simp only [Bool.false_eq_true, if_false]
  rw [onTree_bind, hsave]
  rfl

/-! ### An empty tree -/

/-- Characters that are no slash belong to one name. -/
theorem splitOnAux_skip {s : String} {b : String.Pos.Raw} {r : List String} (n : Nat)
    {i : String.Pos.Raw}
    (h : ∀ k < n, ((·.next s)^[k] i).atEnd s = false ∧ (((·.next s)^[k] i).get s == '/') = false) :
    String.splitOnAux s "/" b i 0 r = String.splitOnAux s "/" b ((·.next s)^[n] i) 0 r := by
  have hslash : String.Pos.Raw.get "/" 0 = '/' := by
    decide
  induction n with
  | zero => rfl
  | succ n ih =>
      obtain ⟨hend, hget⟩ := h n (Nat.lt_succ_self n)
      rw [ih fun k hk => h k (Nat.lt_succ_of_lt hk), String.splitOnAux,
        if_neg (by rw [hend]; decide), hslash, if_neg (by rw [hget]; decide),
        Function.iterate_succ_apply']
      rfl

/-- Without a name for the directory the path of a file is the name of the file. -/
theorem names_pathOf (f : DataFile) : FileTree.names (pathOf ⟨""⟩ f) = [f.fileName] := by
  rw [FileTree.names, String.splitOn, if_neg (by decide),
    splitOnAux_skip f.fileName.length (by cases f <;> decide), String.splitOnAux,
    if_pos (by cases f <;> decide)]
  cases f <;> decide

/-- In an empty tree there is a place for every file. -/
theorem accepts_pathOf (f : DataFile) : FileTree.Accepts {} (pathOf ⟨""⟩ f) := by
  refine ⟨[f.fileName], ?_, by cases f <;> decide, rfl⟩
  rw [FileTree.place?, names_pathOf]
  cases f <;> decide

/-! ### Saving and loading -/

/-- Where a file is taken, it holds the document that is saved. -/
theorem save_of_accepts {d : DataDirectory} {f : DataFile} (h : t.Accepts (d.pathOf f))
    (value : Datum) :
    ∃ s, onTree (save FileTree.files d f value) t = (.ok (), s) ∧
      s.HasText (d.pathOf f) (Yaml.render value) := by
  obtain ⟨s, hwrite, htext⟩ := FileTree.read_after_write h (Yaml.render value)
  exact ⟨s, onTree_save hwrite, htext⟩

/-- Where no file is taken, saving fails and changes nothing. -/
theorem save_of_not_accepts {d : DataDirectory} {f : DataFile} (h : ¬ t.Accepts (d.pathOf f))
    (value : Datum) :
    onTree (save FileTree.files d f value) t = (.error (.write f (d.pathOf f)), t) :=
  onTree_save (FileTree.write_of_not_accepts h _)

/-- **A file is loaded as it was saved**, if its document carries the value. -/
theorem load_saved {d : DataDirectory} {f : DataFile} (h : t.Accepts (d.pathOf f)) {value : Datum}
    (hcarries : Yaml.Carries value) {decode : Reader Yaml.Node → Yaml.Node → Option α} {a : α}
    (hdecode : ∀ n, Yaml.Node.Holds value n → decode Yaml.Node.reader n = some a) :
    ∃ s, onTree (save FileTree.files d f value) t = (.ok (), s) ∧
      ∀ missing, onTree (loadFile FileTree.files d f missing decode) s = (.ok a, s) := by
  obtain ⟨s, hsave, htext⟩ := save_of_accepts h value
  refine ⟨s, hsave, ?_⟩
  intro missing
  exact onTree_loadFile htext missing (Yaml.read?_render hcarries hdecode)

/-- What the settings of saved coefficients are made into: the coefficients as they are after their
check, or an error if they do not pass it. -/
theorem coefficientsOf_render {k : Coefficients} (hcarries : SettingsLayer.Carries k.encode)
    (d : DataDirectory) :
    (∀ c, k.checked = .ok c →
      coefficientsOf d [] (SettingsLayer.ofDocument? (Yaml.render k.encode)) = .ok c) ∧
    ∀ fault, k.checked = .error fault →
      ∃ e, coefficientsOf d [] (SettingsLayer.ofDocument? (Yaml.render k.encode)) = .error e := by
  have hread := hcarries.readable
  have hfaithful := hcarries.faithful
  generalize SettingsLayer.ofDocument? (Yaml.render k.encode) = layer? at hread hfaithful ⊢
  cases layer? with
  | none =>
      refine ⟨?_, fun _ _ => ⟨_, rfl⟩⟩
      intro c hc
      have husable := (Coefficients.checked_eq_ok_iff.mp hc).1
      exact absurd (hread (Coefficients.finite_encode husable)) Bool.false_ne_true
  | some layer =>
      have hlayer := hfaithful layer rfl
      have hsettings : settingsOf [layer, .ofEnvironment variableStart []] = k.encode :=
        Coefficients.settingsOf_encode k hlayer
      have hdecode := Coefficients.readsBack Settings.reader_faithful k _ rfl
      rw [coefficientsOf, hsettings, hdecode]
      constructor
      · intro c hc
        simp only [hc]
      · intro fault hfault
        simp only [hfault]
        exact ⟨_, rfl⟩

/-- **What is stored is kept.**  Whatever reader finds in its values what the trees hold that they
stand for reads every plan, coefficient set, catalogue and bill back as it was written, and the
readers of trees, documents and settings are such readers.  So a catalogue or a plan is loaded from a
data directory as it was saved there, and coefficients are loaded without an environment as they are
after their check, or not at all if they fail it. -/
theorem stored_data_kept (p : Plan) (k : Coefficients) {c : Catalog} (hkeyed : c.Keyed) (b : Bill) :
    (∀ {ν : Type} (r : Reader ν) (Holds : Datum → ν → Prop), r.Faithful Holds → ∀ v,
      (Holds p.encode v → Plan.decode r v = some p) ∧
      (Holds k.encode v → Coefficients.decode r v = some k) ∧
      (Holds c.encode v → Catalog.decode r v = some c) ∧
      (Holds b.encode v → Bill.decode r v = some b)) ∧
    (Datum.reader.Faithful Eq ∧ Yaml.Node.reader.Faithful Yaml.Node.Holds ∧
      Settings.reader.Faithful Eq) ∧
    ∀ (t : FileTree) (d : DataDirectory),
      (Yaml.Carries c.encode → t.Accepts (d.pathOf .catalog) →
        ∃ s, onTree (saveCatalog FileTree.files d c) t = (.ok (), s) ∧
          onTree (loadCatalog FileTree.files d) s = (.ok c, s)) ∧
      (Yaml.Carries p.encode → t.Accepts (d.pathOf .plan) →
        ∃ s, onTree (savePlan FileTree.files d p) t = (.ok (), s) ∧
          ∀ defaults, onTree (loadPlan FileTree.files d defaults) s = (.ok p, s)) ∧
      (SettingsLayer.Carries k.encode → t.Accepts (d.pathOf .coefficients) →
        ∃ s loaded, onTree (saveCoefficients FileTree.files d k) t = (.ok (), s) ∧
          onTree (loadCoefficients FileTree.files d []) s = (loaded, s) ∧
          (∀ checked, k.checked = .ok checked → loaded = .ok checked) ∧
          ∀ fault, k.checked = .error fault → ∃ e, loaded = .error e) := by
  refine ⟨?_, ⟨Datum.reader_faithful, Yaml.Node.reader_faithful, Settings.reader_faithful⟩, ?_⟩
  · intro ν r Holds h v
    exact ⟨Plan.readsBack h p v, Coefficients.readsBack h k v, Catalog.decode_eq h hkeyed,
      Bill.readsBack h b v⟩
  · intro t d
    refine ⟨?_, ?_, ?_⟩
    · intro hcarries haccepts
      obtain ⟨s, hsave, hload⟩ := load_saved haccepts hcarries
        fun _ => Catalog.decode_eq Yaml.Node.reader_faithful hkeyed
      exact ⟨s, hsave, hload _⟩
    · intro hcarries haccepts
      obtain ⟨s, hsave, hload⟩ := load_saved haccepts hcarries
        (Plan.readsBack Yaml.Node.reader_faithful p)
      exact ⟨s, hsave, fun defaults => hload _⟩
    · intro hcarries haccepts
      obtain ⟨s, hsave, htext⟩ := save_of_accepts haccepts k.encode
      obtain ⟨hok, herror⟩ := coefficientsOf_render hcarries d
      exact ⟨s, _, hsave, onTree_loadCoefficients htext [], hok, herror⟩

/-! ### A heat pump -/

/-- A heat pump whose attributes look like what they are not. -/
def pumpCatalog : Catalog :=
  .ofList
    [{ id := "HP-1"
       description := "Heat pump"
       price := some 12.5
       attributes :=
         [("width", .text "1,5"), ("three_phase", .text "true"), ("poles", .text "12"),
           ("rcd", .flag true), ("current", .number 16.0)] }]

/-- A plan with the pump as its backup, and a cable whose name looks like none. -/
def pumpPlan : Plan where
  roof := some .tile
  layout := { portrait := [10, 0] }
  options := { backup := some ⟨"HP-1", 1⟩ }
  overrides := { backup := { cable := some "null" } }

/-- Coefficients with two buckets, the larger one first. -/
def pumpCoefficients : Coefficients where
  version := "1.0"
  mountingRatio := 1.5
  dc := { connectorPairsPerString := 2.0, cableLengthPerString := 25.0 }
  ac := { cableLengthPerDevice := 15.0 }
  sizing := [⟨4.0, 25.0, 25.0, none, none⟩, ⟨1.5, 16.0, 16.0, none, none⟩]
  grounding := { multiplier := 1.0 }
  labels := { quantity := 1.0 }

/-- The documents of the pump carry what they stand for. -/
theorem pump_carries :
    pumpCatalog.Keyed ∧ Yaml.Carries pumpCatalog.encode ∧ Yaml.Carries pumpPlan.encode ∧
      SettingsLayer.Carries pumpCoefficients.encode := by
  refine ⟨?_, Catalog.carries_encode (by decide +kernel), Plan.carries_encode (by decide +kernel),
    Coefficients.carries_encode (by decide +kernel)⟩
  unfold Catalog.Keyed Material.Keyed
  decide

/-- The check sorts the buckets and finds no fault. -/
theorem pump_checked :
    pumpCoefficients.checked = .ok
      { pumpCoefficients with sizing := Coefficients.sortBuckets pumpCoefficients.sizing } := by
  have hfault : pumpCoefficients.fault?.isNone = true := by
    decide
  rw [Coefficients.checked, Option.isNone_iff_eq_none.mp hfault]

/-- Saving and loading the catalogue, the plan and the coefficients. -/
theorem stored_data_kept_pump :
    pumpCatalog.Keyed ∧ Yaml.Carries pumpCatalog.encode ∧ Yaml.Carries pumpPlan.encode ∧
      SettingsLayer.Carries pumpCoefficients.encode ∧
      Catalog.decode Datum.reader pumpCatalog.encode = some pumpCatalog ∧
      (∃ s, onTree (saveCatalog FileTree.files ⟨""⟩ pumpCatalog) {} = (.ok (), s) ∧
        onTree (loadCatalog FileTree.files ⟨""⟩) s = (.ok pumpCatalog, s)) ∧
      (∃ s, onTree (savePlan FileTree.files ⟨""⟩ pumpPlan) {} = (.ok (), s) ∧
        onTree (loadPlan FileTree.files ⟨""⟩ .builtin) s = (.ok pumpPlan, s)) ∧
      ∃ s checked, pumpCoefficients.checked = .ok checked ∧
        onTree (saveCoefficients FileTree.files ⟨""⟩ pumpCoefficients) {} = (.ok (), s) ∧
        onTree (loadCoefficients FileTree.files ⟨""⟩ []) s = (.ok checked, s) := by
  obtain ⟨hkeyed, hcatalog, hplan, hcoefficients⟩ := pump_carries
  obtain ⟨hread, ⟨htrees, -, -⟩, hfiles⟩ :=
    stored_data_kept pumpPlan pumpCoefficients hkeyed { lines := [], warnings := [] }
  obtain ⟨hkept, hplanKept, hcoefficientsKept⟩ := hfiles {} ⟨""⟩
  obtain ⟨sp, hsavePlan, hloadPlan⟩ := hplanKept hplan (accepts_pathOf .plan)
  obtain ⟨sk, loaded, hsave, hload, hok, -⟩ :=
    hcoefficientsKept hcoefficients (accepts_pathOf .coefficients)
  refine ⟨hkeyed, hcatalog, hplan, hcoefficients, (hread _ _ htrees _).2.2.1 rfl,
    hkept hcatalog (accepts_pathOf .catalog), ⟨sp, hsavePlan, hloadPlan .builtin⟩,
    ⟨sk, _, pump_checked, hsave, ?_⟩⟩
  rw [hload, hok _ pump_checked]

end DataDirectory

end SolarBill
