import PrecompiledHeaders.Proofs.DigestValues
import PrecompiledHeaders.Proofs.FileTable
import PrecompiledHeaders.Proofs.Holdings
import PrecompiledHeaders.Proofs.Paths
import PrecompiledHeaders.Proofs.TaskKeys
/-! Building one task. With known files and a store that can be read, the plan is a function of
what the store holds and of the state of the files, and the name of an artifact tells which task it
is of. -/
namespace PrecompiledHeaders

/-! ### What is digested -/

theorem Text.Utf8.length_encode_of_ascii {cs : List Char} (h : ∀ c ∈ cs, c.toNat < 128) :
    (encode (String.ofList cs)).length = cs.length := by
  have hbytes : ∀ c ∈ cs, (String.utf8EncodeChar c).length = 1 := by
    intro c hc
    have hv : c.toNat ≤ 127 := Nat.le_of_lt_succ (h c hc)
    simp [String.utf8EncodeChar, hv]
  rw [encode_ofList, List.length_flatMap, List.map_congr_left hbytes]
  simp

theorem length_encode_digest (bytes : List UInt8) :
    (Text.Utf8.encode (digest bytes)).length = 64 := by
  rw [← String.ofList_toList (s := digest bytes),
    Text.Utf8.length_encode_of_ascii fun c hc => (isHex_digest hc).ne.2.2, length_digest]

/-- The digest tells these apart. -/
def Apart (inputs : List (List UInt8)) : Prop :=
  ∀ x ∈ inputs, ∀ y ∈ inputs, digest x = digest y → x = y

theorem Apart.mono {xs ys : List (List UInt8)} (h : Apart ys) (hs : xs ⊆ ys) : Apart xs :=
  fun x hx y hy => h x (hs hx) y (hs hy)

theorem apart_of_nodup {inputs : List (List UInt8)} (h : (inputs.map digest).Nodup) :
    Apart inputs := List.inj_on_of_nodup_map h

theorem Apart.collisionFree {inputs : List (List UInt8)} (h : Apart inputs) {texts : List String}
    (ht : texts.map Text.Utf8.encode ⊆ inputs) : CollisionFree texts := fun _ hx _ hy hd =>
  Text.Utf8.encode_injective
    (h _ (ht (List.mem_map_of_mem hx)) _ (ht (List.mem_map_of_mem hy)) hd)

theorem Task.contentJson_inj {s s' : Scope} {is is' : List String} {x x' : Settings}
    (h : contentJson s is x = contentJson s' is' x') : s = s' ∧ is = is' ∧ x = x' := by
  simp only [contentJson, Settings.pathFields, Settings.languageFields, List.cons_append,
    List.nil_append, Json.object.injEq, List.cons.injEq, Prod.mk.injEq, Json.text.injEq, true_and,
    and_true] at h
  obtain ⟨hs, hi, ht, hm, hsp, hpp, hl, hv, he⟩ := h
  have hscope : s = s' := by
    cases s <;> cases s' <;> first | rfl | (revert hs; decide)
  have htext : Function.Injective Json.text := fun _ _ ht => Json.text.inj ht
  exact ⟨hscope, List.map_injective_iff.mpr htext (Json.list.inj hi),
    Settings.eq_of_fields ht hm (by simp only [Settings.pathFields, hsp, hpp])
      (by simp only [Settings.languageFields, hl, hv, he])⟩

theorem Task.plain_contentJson (s : Scope) (is : List String) (x : Settings) :
    (contentJson s is x).Plain := by
  simp [contentJson, Settings.toolchainField, Settings.macrosField, Settings.pathFields,
    Settings.languageFields, Json.ofTexts, Json.ofNat, MacroDefinition.toJson, SearchPath.toJson,
    Extensions.toJson]

def Task.contentText (t : Task) (s : Scope) (files : FileTable) : String :=
  (contentJson s (files.names t.includes) t.settings).compact

/-- Every file the task names has a path. -/
def Task.Known (t : Task) (files : FileTable) : Prop := files.Knows (t.includes ++ t.sources)

namespace Build

section

variable {W : Type} [World W]

/-- What the name of a task's artifact digests, the content's own digest being part of it. -/
def input (files : FileTable) (w : W) (s : Scope) (t : Task) (base : Option FilePath) :
    List UInt8 :=
  fingerprintBytes w (digestText (t.contentText s files)) (files.names t.sources) base

def print (files : FileTable) (w : W) (s : Scope) (t : Task) (base : Option FilePath) : String :=
  digest (input files w s t base)

def job (dir : FilePath) (files : FileTable) (w : W) (s : Scope) (t : Task)
    (base : Option FilePath) : Job :=
  jobFor dir (t.key s) s t (files.names t.includes) (print files w s t base) base

/-- All that is digested to plan a build. -/
def digested (files : FileTable) (w : W) (s : Scope) (t : Task) (base : Option FilePath) :
    List (List UInt8) :=
  [Text.Utf8.encode (t.contentText s files), input files w s t base]

/-- Artifacts of one name are of one task, up to its members and sources. -/
theorem print_inj {files : FileTable} {v w : W} {s s' : Scope} {t t' : Task}
    {base base' : Option FilePath} {inputs : List (List UInt8)} (hd : Apart inputs)
    (h : digested files v s t base ⊆ inputs) (h' : digested files w s' t' base' ⊆ inputs)
    (ht : t.Known files) (ht' : t'.Known files)
    (he : print files v s t base = print files w s' t' base') :
    s = s' ∧ t.mergeKey = t'.mergeKey := by
  have hbytes : input files v s t base = input files w s' t' base' :=
    hd _ (h (by simp [digested])) _ (h' (by simp [digested])) he
  -- both start with 64 digits
  have hcontent : digestText (t.contentText s files) = digestText (t'.contentText s' files) := by
    have htake := congrArg (List.take 64) hbytes
    simp only [input, fingerprintBytes, digestText, List.append_assoc] at htake
    rw [List.take_left' (length_encode_digest _), List.take_left' (length_encode_digest _)] at htake
    exact Text.Utf8.encode_injective htake
  have htext : t.contentText s files = t'.contentText s' files := Text.Utf8.encode_injective
    (hd _ (h (by simp [digested])) _ (h' (by simp [digested])) hcontent)
  obtain ⟨hs, hi, hx⟩ := Task.contentJson_inj (Json.compact_injective
    (Task.plain_contentJson _ _ _) (Task.plain_contentJson _ _ _) htext)
  have hincludes : t.includes = t'.includes :=
    (ht.mono (List.subset_append_left _ _)).names_inj (ht'.mono (List.subset_append_left _ _)) hi
  exact ⟨hs, by rw [Task.mergeKey, Task.mergeKey, hincludes, hx]⟩

/-- Only time stamps of sources and of the base matter. -/
theorem fingerprintBytes_congr {v w : W} {sources : List String} {base : Option FilePath}
    (hsources : ∀ p ∈ sources, World.modified? v ⟨p⟩ = World.modified? w ⟨p⟩)
    (hbase : ∀ p, base = some p → World.modified? v p = World.modified? w p) (content : String) :
    fingerprintBytes v content sources base = fingerprintBytes w content sources base := by
  have hfiles : sources.flatMap (fun p => fileBytes v ⟨p⟩) =
      sources.flatMap (fun p => fileBytes w ⟨p⟩) := by
    refine List.flatMap_congr fun p hp => ?_
    rw [fileBytes, fileBytes, hsources p hp]
  have hlast : baseBytes v base = baseBytes w base := by
    cases base with
    | none => rfl
    | some p => rw [baseBytes, baseBytes, fileBytes, fileBytes, hbase p rfl]
  rw [fingerprintBytes, fingerprintBytes, hfiles, hlast]

theorem input_congr {files : FileTable} {v w : W} {s : Scope} {t : Task} {base : Option FilePath}
    (hsources : ∀ p ∈ files.names t.sources, World.modified? v ⟨p⟩ = World.modified? w ⟨p⟩)
    (hbase : ∀ p, base = some p → World.modified? v p = World.modified? w p) :
    input files v s t base = input files w s t base := fingerprintBytes_congr hsources hbase _

theorem fingerprint_of_stamps {files : FileTable} {v w : W} {s : Scope} {t : Task}
    {base : Option FilePath}
    (hsources : ∀ f ∈ t.sources, ∀ p, files.path? f = some p →
      World.modified? v ⟨p⟩ = World.modified? w ⟨p⟩)
    (hbase : ∀ p, base = some p → World.modified? v p = World.modified? w p) :
    fingerprint ⟨v, files⟩ s t base = fingerprint ⟨w, files⟩ s t base := by
  rw [fingerprint, fingerprint]
  dsimp only
  cases hids : files.resolveAll t.sources with
  | error id => rfl
  | ok sources =>
    have hstamps : ∀ p ∈ sources, World.modified? v ⟨p⟩ = World.modified? w ⟨p⟩ := by
      intro p hp
      obtain ⟨f, hf, hpath⟩ := (FileTable.resolveAll_eq_ok.mp hids).mem_iff.mp hp
      exact hsources f hf p hpath
    simp only [fingerprintBytes_congr hstamps hbase]

theorem print_congr {files : FileTable} {v w : W} {s : Scope} {t : Task} {base : Option FilePath}
    (h : input files v s t base = input files w s t base) :
    print files v s t base = print files w s t base := congrArg digest h

theorem slash_not_mem_key (t : Task) (s : Scope) : '/' ∉ (t.key s).hex.toList :=
  slash_not_mem_digest _

theorem ends_job (dir : FilePath) (files : FileTable) (w : W) (s : Scope) (t : Task)
    (base : Option FilePath) :
    (job dir files w s t base).headerPath.Ends (headerName s (t.key s)) ∧
      (job dir files w s t base).outputPath.Ends
        (outputName s (t.key s) (print files w s t base)) :=
  ⟨ends_headerPath (slash_not_mem_key t s),
    ends_outputPath (slash_not_mem_key t s) (slash_not_mem_digest _)⟩

end

end Build

/-! ### Plans -/

/-- The header that a build in this scope is on top of. -/
def Holdings.base (h : Holdings) : Scope → Task → Option FilePath
  | .system, _ => none
  | .project, t => t.members.head?.bind (h.header · .system)

namespace Build

variable {W : Type} [Workshop W] {store : ArtifactStore} {w : W} {h : Holdings}

theorem baseOf_eq (hs : store.Shows w h) (s : Scope) (t : Task) :
    baseOf store w s t = .ok (h.base s t) := by
  cases s with
  | system => rfl
  | project =>
    obtain ⟨members, _⟩ := t
    cases members with
    | nil => rfl
    | cons first _ => exact hs.header? first .system

theorem footing_empty (store : ArtifactStore) (w : W) (s : Scope) {t : Task}
    (hi : t.includes = []) : footing store w s t = .settled .empty := by
  rw [footing, hi]
  rfl

theorem footing_spec (hs : store.Shows w h) (s : Scope) {t : Task} (hi : t.includes ≠ []) :
    footing store w s t = .upon (h.base s t) := by
  rw [footing, if_neg (by simpa using hi), baseOf_eq hs]

/-- The artifact that would be used again. -/
def ready? (files : FileTable) (w : W) (h : Holdings) (s : Scope) (t : Task)
    (base : Option FilePath) : Option FilePath :=
  (h.artifact (print files w s t base)).filter (World.hasFile w ·)

theorem fingerprint_eq {ws : Workspace W} {t : Task} (ht : t.Known ws.files) (s : Scope)
    (base : Option FilePath) : fingerprint ws s t base = .ok (print ws.files ws.world s t base) := by
  have hincludes := (ht.mono (List.subset_append_left _ _)).resolveAll
  have hsources := (ht.mono (List.subset_append_right _ _)).resolveAll
  simp only [fingerprint, Task.contentDigest, hincludes, hsources]
  rfl

theorem plan_spec {ws : Workspace W} (hs : store.Shows ws.world h) (dir : FilePath) (s : Scope)
    {t : Task} (ht : t.Known ws.files) (base : Option FilePath) :
    plan dir store ws (t.key s) s t base = match ready? ws.files ws.world h s t base with
      | some path => .settled (.built path true)
      | none => .compile (job dir ws.files ws.world s t base) (print ws.files ws.world s t base) := by
  have hincludes := (ht.mono (List.subset_append_left _ _)).resolveAll
  have hready : reusable? store ws.world (print ws.files ws.world s t base) =
      .ok (ready? ws.files ws.world h s t base) := by
    rw [reusable?, hs.artifact?]
    rfl
  simp only [plan, tryPlan, fingerprint_eq ht, hready, bind, Except.bind, pure, Except.pure]
  cases ready? ws.files ws.world h s t base with
  | some path => rfl
  | none =>
    simp only [hincludes]
    rfl

end Build

/-! ### Compiler runs -/

def Job.paths (j : Job) : List FilePath := [j.headerPath, j.outputPath]

theorem ArtifactStore.ends_of_mem_documents {store : ArtifactStore} {d : FilePath}
    (h : d ∈ store.documents) : d.Ends ("artifacts" ++ ".json") := by
  cases store with
  | memory => exact absurd h List.not_mem_nil
  | file root =>
    obtain rfl := List.mem_singleton.mp h
    exact ends_documentPath root

/-- The file does not have the name of any system job's output, so no project task is built upon
it. -/
def FilePath.NeverBase (p : FilePath) : Prop :=
  ∃ name, p.Ends name ∧ ∀ k print, name ≠ Build.outputName .system k print

theorem ArtifactStore.neverBase {store : ArtifactStore} {d : FilePath} (h : d ∈ store.documents) :
    d.NeverBase :=
  ⟨_, ends_of_mem_documents h, fun _ _ => outputName_ne_json.symm⟩

namespace Job

variable {j : Job} {s : Scope} {k : TaskKey} {print : String}

theorem forall_mem_paths {P : FilePath → Prop} :
    (∀ p ∈ j.paths, P p) ↔ P j.headerPath ∧ P j.outputPath := by
  simp [paths]

theorem not_same_json (hj : j.headerPath.Ends (Build.headerName s k) ∧
    j.outputPath.Ends (Build.outputName s k print)) {d : FilePath} {name : String}
    (hd : d.Ends (name ++ ".json")) : ∀ p ∈ j.paths, ¬ p.same d :=
  forall_mem_paths.mpr ⟨FilePath.not_same_of_ends hj.1 hd headerName_ne_json,
    FilePath.not_same_of_ends hj.2 hd outputName_ne_json⟩

/-- Jobs write beside the store. -/
theorem beside (hj : j.headerPath.Ends (Build.headerName s k) ∧
    j.outputPath.Ends (Build.outputName s k print)) (store : ArtifactStore) :
    ∀ p ∈ j.paths, ∀ d ∈ store.documents, ¬ p.same d := fun p hp _ hd =>
  not_same_json hj (ArtifactStore.ends_of_mem_documents hd) p hp

theorem neverBase (hj : j.headerPath.Ends (Build.headerName .project k) ∧
    j.outputPath.Ends (Build.outputName .project k print)) : ∀ p ∈ j.paths, p.NeverBase :=
  forall_mem_paths.mpr ⟨⟨_, hj.1, fun _ _ => headerName_ne_outputName⟩,
    ⟨_, hj.2, fun _ _ => outputName_ne_of_scope (by decide)⟩⟩

end Job

/-- What comes of a job. -/
def Workshop.verdict {W : Type} [Workshop W] (w : W) (j : Job) : Outcome :=
  match Workshop.refusal w j with
  | some f => .failed f.message
  | none => .built j.outputPath false

namespace Build

variable {W : Type} [Workshop W] [LawfulWorkshop W] {store : ArtifactStore} {w : W} {h : Holdings}

/-- The store after a job. -/
def entered (h : Holdings) (print : String) : Outcome → Holdings
  | .built path _ => h.setArtifact print path
  | _ => h

@[simp] theorem header_entered (h : Holdings) (print : String) (outcome : Outcome) :
    (entered h print outcome).header = h.header := by
  cases outcome <;> rfl

theorem base_entered (h : Holdings) (print : String) (outcome : Outcome) (s : Scope) (t : Task) :
    (entered h print outcome).base s t = h.base s t := by
  cases s with
  | system => rfl
  | project => rw [Holdings.base, Holdings.base, header_entered]

omit [LawfulWorkshop W] in
/-- What a job puts on record is its own output. -/
theorem artifact_entered (w : W) (h : Holdings) (j : Job) (print k : String) :
    (entered h print (Workshop.verdict w j)).artifact k =
      if k = print ∧ Workshop.refusal w j = none then some j.outputPath else h.artifact k := by
  rw [Workshop.verdict]
  cases hr : Workshop.refusal w j with
  | some f => simp [entered]
  | none => simp [entered, Holdings.setArtifact, Function.update_apply]

/-- What a compiler run does to the store and to the world. -/
structure Compiled (store : ArtifactStore) (w : W) (h : Holdings) (j : Job) (print : String)
    (out : Outcome × ArtifactStore × W) : Prop where
  outcome : out.1 = Workshop.verdict w j
  documents : out.2.1.documents = store.documents
  shows : out.2.1.Shows out.2.2 (entered h print (Workshop.verdict w j))
  spares : Spares (store.documents ++ j.paths) w out.2.2
  log : Workshop.jobs out.2.2 = Workshop.jobs w ++ [j]
  output : LeavesOutputs W → Workshop.refusal w j = none →
    World.hasFile out.2.2 j.outputPath = true

theorem compile_spec (hs : store.Shows w h) {j : Job} (print : String)
    (hj : ∀ p ∈ j.paths, ∀ d ∈ store.documents, ¬ p.same d) :
    Compiled store w h j print (compile store w j print) := by
  have hresult := LawfulWorkshop.build_result w j
  have hspares := LawfulWorkshop.build_spares w j
  have hlog := LawfulWorkshop.build_jobs w j
  have houtput := fun hleaves : LeavesOutputs W => hleaves w j
  rw [compile]
  generalize World.build w j = out at hresult hspares hlog houtput
  obtain ⟨result, v⟩ := out
  dsimp only at hresult hspares hlog houtput
  have hv : store.Shows v h := hs.spared hspares hj
  cases hr : Workshop.refusal w j with
  | some f =>
    rw [hr] at hresult
    subst hresult
    have hverdict : Workshop.verdict w j = .failed f.message := by rw [Workshop.verdict, hr]
    exact ⟨hverdict.symm, rfl, by rw [hverdict]; exact hv,
      hspares.mono (List.subset_append_right _ _), hlog, fun _ h => by rw [hr] at h; cases h⟩
  | none =>
    rw [hr] at hresult
    subst hresult
    have hverdict : Workshop.verdict w j = .built j.outputPath false := by rw [Workshop.verdict, hr]
    have hput := hv.insertArtifact print j.outputPath
    dsimp only
    generalize store.insertArtifact v print j.outputPath = put at hput ⊢
    obtain ⟨answer, store', v'⟩ := put
    obtain ⟨hok, hdocs, hshows, hspares', hquiet⟩ := hput
    dsimp only at hok hdocs hshows hspares' hquiet
    subst hok
    have hbeside : ∀ d ∈ store.documents, ¬ d.same j.outputPath := fun d hd hsame =>
      hj _ (by simp [Job.paths]) d hd (FilePath.same_symm hsame)
    exact ⟨hverdict.symm, hdocs, by rw [hverdict]; exact hshows,
      (hspares.trans hspares').mono (by simp [Job.paths]), hquiet.2.trans hlog,
      fun hleaves _ => (hspares'.hasFile hbeside).trans (houtput hleaves hr)⟩

end Build

/-! ### An index in memory -/

/-- The index after a build. -/
def ArtifactIndex.entered (x : ArtifactIndex) (print : String) : Outcome → ArtifactIndex
  | .built path _ => x.insertArtifact print path
  | _ => x

/-- The index once the outcome is recorded for these parts. -/
def ArtifactIndex.recorded (x : ArtifactIndex) (parts : List PartId) (s : Scope) :
    Outcome → ArtifactIndex
  | .built path _ => x.setHeaders parts s path
  | _ => x.deleteHeaders parts s

@[simp] theorem ArtifactIndex.holdings_entered (x : ArtifactIndex) (print : String) (outcome : Outcome) :
    (x.entered print outcome).holdings = Build.entered x.holdings print outcome := by
  cases outcome with
  | built path _ => exact x.holdings_insertArtifact print path
  | empty => rfl
  | failed => rfl

@[simp] theorem ArtifactIndex.holdings_recorded (x : ArtifactIndex) (parts : List PartId) (s : Scope)
    (outcome : Outcome) :
    (x.recorded parts s outcome).holdings = x.holdings.assign parts s outcome.header? := by
  cases outcome with
  | built path _ => exact x.holdings_setHeaders parts s path
  | empty => exact x.holdings_deleteHeaders parts s
  | failed => exact x.holdings_deleteHeaders parts s

namespace Build

variable {W : Type} [Workshop W]

theorem record_memory (x : ArtifactIndex) (w : W) (s : Scope) (parts : List PartId)
    (outcome : Outcome) :
    record (.memory x) w s parts outcome = (.ok (), .memory (x.recorded parts s outcome), w) := by
  cases outcome <;> rfl

variable [LawfulWorkshop W]

/-- What was never built is compiled. -/
theorem run_memory {x : ArtifactIndex} {ws : Workspace W} {s : Scope} {t : Task}
    {base : Option FilePath} {content : String} (dir : FilePath) (ht : t.Known ws.files)
    (hi : t.includes ≠ []) (hbase : x.holdings.base s t = base)
    (hprint : print ws.files ws.world s t base = content)
    (hnew : x.holdings.artifact content = none) :
    let job := jobFor dir (t.key s) s t (ws.files.names t.includes) content base
    footing (.memory x) ws.world s t = .upon base ∧
    plan dir (.memory x) ws (t.key s) s t base = .compile job content ∧
    run dir (.memory x) ws (t.key s) s t =
      (Workshop.verdict ws.world job, .memory (x.entered content (Workshop.verdict ws.world job)),
        { ws with world := (World.build ws.world job).2 }) := by
  intro job
  have hshows : (ArtifactStore.memory x).Shows ws.world x.holdings := ⟨x, rfl, rfl⟩
  have hfooting := footing_spec hshows s hi
  have hplan := plan_spec hshows dir s ht base
  rw [hbase] at hfooting
  rw [ready?, hprint, hnew, Option.filter_none, Build.job, hprint] at hplan
  refine ⟨hfooting, hplan, ?_⟩
  simp only [run, hfooting, hplan]
  have hresult := LawfulWorkshop.build_result ws.world job
  rw [compile, Workshop.verdict]
  generalize World.build ws.world job = out at hresult ⊢
  obtain ⟨result, v⟩ := out
  dsimp only at hresult
  cases hr : Workshop.refusal ws.world job with
  | some f =>
    rw [hr] at hresult
    subst hresult
    rfl
  | none =>
    rw [hr] at hresult
    subst hresult
    rfl

end Build
end PrecompiledHeaders
