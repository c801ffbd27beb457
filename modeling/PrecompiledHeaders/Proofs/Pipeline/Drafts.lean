import PrecompiledHeaders.Proofs.Pipeline.Moves
import PrecompiledHeaders.Proofs.Pipeline.Aside
/-! Where headers come from. Whoever plans the build of a task draws up what its artifact is to be
called, upon the header that was looked up for it; every job, every artifact that is used again and
every outcome in somebody's hands goes back to such a draft. -/
namespace PrecompiledHeaders

/-- The fingerprint of an artifact, and the header that it is built upon. -/
structure Draft where
  print : String
  base : Option FilePath
  deriving DecidableEq, Repr

/-- The digits of the fingerprint that the file is called by. -/
def Draft.digits (d : Draft) : List Char := d.print.toList.take 16

/-- Files of artifacts upon different headers are called differently. -/
def Telling (ds : List Draft) : Prop := ∀ d ∈ ds, ∀ e ∈ ds, d.digits = e.digits → d.base = e.base

theorem telling_of_nodup {ds : List Draft} (h : (ds.map Draft.digits).Nodup) : Telling ds :=
  fun _ hd _ he hdigits => congrArg Draft.base (List.inj_on_of_nodup_map h hd he hdigits)

namespace Build

/-- The digits of a fingerprint are seen in the name of the file. -/
theorem digits_of_outputName {s s' : Scope} {k k' : TaskKey} {print print' : String}
    (hp : print.toList.length = 64) (hp' : print'.toList.length = 64)
    (h : outputName s k print = outputName s' k' print') :
    print.toList.take 16 = print'.toList.take 16 := by
  have hlist := congrArg String.toList h
  rw [toList_outputName, toList_outputName] at hlist
  have hsplit : ∀ a b c d : List Char, a ++ '-' :: (b ++ '-' :: (c ++ d)) =
      (a ++ '-' :: (b ++ ['-'])) ++ (c ++ d) := fun a b c d => by simp
  rw [hsplit s.text.toList, hsplit s'.text.toList] at hlist
  exact List.append_inj_left' (List.append_inj_right' hlist (by simp [hp, hp'])) rfl

section

variable {W : Type} [World W]

/-- The draft for a task upon `base`. -/
def drafts (ws : Workspace W) (s : Scope) (t : Task) (base : Option FilePath) : List Draft :=
  match fingerprint ws s t base with
  | .error _ => []
  | .ok print => [⟨print, base⟩]

/-- What is looked up is the header to build upon, unless there is nothing to build. -/
theorem of_footing {store : ArtifactStore} {w : W} {s : Scope} {t : Task} {footing : Footing}
    (h : Build.footing store w s t = footing) :
    (∃ base, footing = .upon base ∧ baseOf store w s t = .ok base) ∨
      ∃ outcome : Outcome, footing = .settled outcome ∧ outcome.header? = none := by
  subst h
  rw [Build.footing]
  split
  · exact Or.inr ⟨_, rfl, rfl⟩
  · cases baseOf store w s t with
    | ok base => exact Or.inl ⟨base, rfl, rfl⟩
    | error f => exact Or.inr ⟨_, rfl, rfl⟩

theorem digest_of_fingerprint {ws : Workspace W} {s : Scope} {t : Task} {base : Option FilePath}
    {print : String} (h : fingerprint ws s t base = .ok print) : ∃ bytes, print = digest bytes := by
  rw [fingerprint] at h
  split at h
  · cases h
  · split at h
    · cases h
    · exact ⟨_, (Except.ok.inj h).symm⟩

/-- A plan with the draft that it rests on. -/
inductive Planned (dir : FilePath) (store : ArtifactStore) (ws : Workspace W) (key : TaskKey)
    (s : Scope) (t : Task) (base : Option FilePath) : Plan → Prop
  | void {outcome : Outcome} (bare : outcome.header? = none) :
    Planned dir store ws key s t base (.settled outcome)
  | reuse {bytes : List UInt8} {path : FilePath}
      (drafted : ⟨digest bytes, base⟩ ∈ drafts ws s t base)
      (found : store.artifact? ws.world (digest bytes) = .ok (some path)) :
    Planned dir store ws key s t base (.settled (.built path true))
  | compile {bytes : List UInt8} {includes : List String}
      (drafted : ⟨digest bytes, base⟩ ∈ drafts ws s t base) :
    Planned dir store ws key s t base
      (.compile (jobFor dir key s t includes (digest bytes) base) (digest bytes))

theorem planned (dir : FilePath) (store : ArtifactStore) (ws : Workspace W) (key : TaskKey)
    (s : Scope) (t : Task) (base : Option FilePath) :
    Planned dir store ws key s t base (plan dir store ws key s t base) := by
  rw [plan, tryPlan]
  cases hprint : fingerprint ws s t base with
  | error f => exact .void rfl
  | ok print =>
    have hdraft : ⟨print, base⟩ ∈ drafts ws s t base := by
      rw [drafts, hprint]
      exact List.mem_singleton_self _
    obtain ⟨bytes, rfl⟩ := digest_of_fingerprint hprint
    simp only [bind, Except.bind, reusable?]
    cases hfound : store.artifact? ws.world (digest bytes) with
    | error f => exact .void rfl
    | ok found =>
      simp only [Except.map]
      cases hready : found.filter (World.hasFile ws.world ·) with
      | some path =>
        obtain ⟨rfl, _⟩ := Option.filter_eq_some_iff.mp hready
        exact .reuse hdraft hfound
      | none =>
        cases ws.files.resolveAll t.includes with
        | error id => exact .void rfl
        | ok includes => exact .compile hdraft

end

end Build

/-- The name of the job's output rests on the draft of this fingerprint. -/
structure Job.Authored (ds : List Draft) (j : Job) (print : String) : Prop where
  drafted : ⟨print, j.base⟩ ∈ ds
  whole : print.toList.length = 64
  output : ∃ s k, j.outputPath.Ends (Build.outputName s k print)

theorem Job.Authored.mono {ds ds' : List Draft} {j : Job} {print : String}
    (h : j.Authored ds print) (hs : ds ⊆ ds') : j.Authored ds' print :=
  ⟨hs h.drafted, h.whole, h.output⟩

/-- Jobs with one output are upon one header. -/
theorem Job.Authored.base_eq {ds : List Draft} {i j : Job} {print print' : String}
    (h : i.Authored ds print) (h' : j.Authored ds print') (ht : Telling ds)
    (ho : i.outputPath = j.outputPath) : i.base = j.base := by
  obtain ⟨s, k, hi⟩ := h.output
  obtain ⟨s', k', hj⟩ := h'.output
  rw [ho] at hi
  have hname : Build.outputName s k print = Build.outputName s' k' print' :=
    FilePath.Component.name.inj (Option.some.inj (hi.symm.trans hj))
  exact ht _ h.drafted _ h'.drafted (Build.digits_of_outputName h.whole h'.whole hname)

namespace Pipeline

section

variable {W : Type} [World W]

/-- Worker `i` takes up this task. -/
structure Claims (p : Pipeline W) (i : Nat) (s : Scope) (cl : Claimed) : Prop where
  worker : p.workers[i]? = some ⟨s, .idle⟩
  opened : p.closing = false
  claim : ∃ q, p.queue.claim s = some (cl, q)

/-- Worker `i` looks for the header that its task is to be built upon, and finds this. -/
structure Looks (p : Pipeline W) (i : Nat) (s : Scope) (cl : Claimed) (base : Option FilePath) :
    Prop where
  worker : p.workers[i]? = some ⟨s, .claimed cl⟩
  found : Build.baseOf p.artifacts p.workspace.world cl.scope cl.task = .ok base

/-- What is drawn up when a worker plans the build of its task. -/
def drafts (p : Pipeline W) : Occurrence W → List Draft
  | .step (.work i _ _) =>
    match p.workers[i]? with
    | some ⟨_, .based cl base⟩ => Build.drafts p.workspace cl.scope cl.task base
    | _ => []
  | _ => []

omit [World W] in
theorem Claims.scope {p : Pipeline W} {i : Nat} {s : Scope} {cl : Claimed} (h : p.Claims i s cl) :
    cl.scope = s := by
  obtain ⟨q, hq⟩ := h.claim
  obtain ⟨e, _, rfl, _⟩ := Queue.claim_eq_some hq
  rfl

theorem Claims.moves {p : Pipeline W} {i : Nat} {s : Scope} {cl : Claimed} (h : p.Claims i s cl)
    (waits permitted : Bool) : p.moves (.step (.work i waits permitted)) = [.claim s] := by
  simp only [Pipeline.moves, h.worker, h.opened]
  rfl

/-- What a worker has in hand that took up the task: the task alone, the header to build it upon, a
job, or what came of one of the jobs done by now. -/
inductive Drawn (looked : Option FilePath → Prop) (dir : FilePath) (cl : Claimed) (ds : List Draft)
    (made : List Job) : Stage → Prop
  | fresh : Drawn looked dir cl ds made (.claimed cl)
  | based {base : Option FilePath} (upon : looked base) : Drawn looked dir cl ds made (.based cl base)
  | job {base : Option FilePath} {bytes : List UInt8} {includes : List String} {waits : Bool}
      (upon : looked base) (drafted : ⟨digest bytes, base⟩ ∈ ds) :
    Drawn looked dir cl ds made (.compiling cl
      (Build.jobFor dir cl.key cl.scope cl.task includes (digest bytes) base) (digest bytes) waits)
  | void {outcome : Outcome} (bare : outcome.header? = none) :
    Drawn looked dir cl ds made (.ended cl outcome)
  | built {base : Option FilePath} {bytes : List UInt8} {j : Job} {reused : Bool} (upon : looked base)
      (drafted : ⟨digest bytes, base⟩ ∈ ds) (done : j ∈ made) (authored : j.Authored ds (digest bytes)) :
    Drawn looked dir cl ds made (.ended cl (.built j.outputPath reused))

omit [World W] in
theorem Drawn.mono {looked looked' : Option FilePath → Prop} {dir : FilePath} {cl : Claimed}
    {ds ds' : List Draft} {made made' : List Job} {stage : Stage}
    (h : Drawn looked dir cl ds made stage) (hl : ∀ base, looked base → looked' base) (hd : ds ⊆ ds')
    (hm : made ⊆ made') : Drawn looked' dir cl ds' made' stage := by
  cases h with
  | fresh => exact .fresh
  | based upon => exact .based (hl _ upon)
  | job upon drafted => exact .job (hl _ upon) (hd drafted)
  | void bare => exact .void bare
  | built upon drafted done authored =>
    exact .built (hl _ upon) (hd drafted) (hm done) (authored.mono hd)

omit [World W] in
/-- A job that was drawn up is done. -/
theorem Drawn.finished {looked : Option FilePath → Prop} {dir : FilePath} {cl : Claimed}
    {ds ds' : List Draft} {made made' : List Job} {job : Job} {print : String} {waits : Bool}
    (h : Drawn looked dir cl ds made (.compiling cl job print waits)) (hd : ds ⊆ ds')
    (done : job ∈ made') (authored : job.Authored ds' print) :
    Drawn looked dir cl ds' made' (.ended cl (.built job.outputPath false)) := by
  cases h with
  | job upon drafted => exact .built upon (hd drafted) done authored

/-- Worker `i` has held the task since it took it up after `pre`. -/
structure Since (o : Pipeline W) (pre mid : List (Occurrence W)) (i : Nat) (s : Scope)
    (cl : Claimed) : Prop where
  claims : (o.during pre).Claims i s cl
  key : cl.key = cl.task.key s
  unended : .finish cl.key ∉ (o.during pre).seen moves mid

/-- In the course of `mid`, after `pre`, worker `i` looked for the header to build its task upon. -/
def Looked (o : Pipeline W) (pre mid : List (Occurrence W)) (i : Nat) (s : Scope) (cl : Claimed)
    (base : Option FilePath) : Prop :=
  ∃ before waits permitted after, mid = before ++ .step (.work i waits permitted) :: after ∧
    (o.during (pre ++ before)).Looks i s cl base

theorem Looked.append {o : Pipeline W} {pre mid : List (Occurrence W)} {i : Nat} {s : Scope}
    {cl : Claimed} {base : Option FilePath} (h : o.Looked pre mid i s cl base)
    (more : List (Occurrence W)) : o.Looked pre (mid ++ more) i s cl base := by
  obtain ⟨before, waits, permitted, after, rfl, hlooks⟩ := h
  exact ⟨before, waits, permitted, after ++ more, by simp, hlooks⟩

/-- A worker's place in a run: it took up its task at a known point, and this is what it made of it. -/
def HeldSince (o : Pipeline W) (os : List (Occurrence W)) (made : List Job) (i : Nat) (s : Scope)
    (cl : Claimed) (stage : Stage) : Prop :=
  ∃ pre waits permitted mid, os = pre ++ .step (.work i waits permitted) :: mid ∧
    Since o pre (.step (.work i waits permitted) :: mid) i s cl ∧
    Drawn (Looked o pre (.step (.work i waits permitted) :: mid) i s cl) o.pchDir cl
      (o.seen drafts os) made stage

theorem during_snoc (o : Pipeline W) (os : List (Occurrence W)) (o' : Occurrence W) :
    o.during (os ++ [o']) = (o.during os).occur o' := during_append o os [o']

/-- A worker whose build does not end holds what it held, and may have come a step further. -/
theorem HeldSince.snoc {o : Pipeline W} {os : List (Occurrence W)} {made made' : List Job} {i : Nat}
    {s : Scope} {cl : Claimed} {stage stage' : Stage} {o' : Occurrence W}
    (h : HeldSince o os made i s cl stage) (hf : .finish cl.key ∉ (o.during os).moves o')
    (hnext : ∀ looked : Option FilePath → Prop,
      (∀ base waits permitted, (o.during os).Looks i s cl base → o' = .step (.work i waits permitted) →
        looked base) →
      Drawn looked o.pchDir cl (o.seen drafts os) made stage →
      Drawn looked o.pchDir cl (o.seen drafts (os ++ [o'])) made' stage') :
    HeldSince o (os ++ [o']) made' i s cl stage' := by
  obtain ⟨pre, waits, permitted, mid, hos, hsince, hdrawn⟩ := h
  refine ⟨pre, waits, permitted, mid ++ [o'], by rw [hos]; simp, ⟨hsince.claims, hsince.key, ?_⟩, ?_⟩
  · rw [← List.cons_append, seen_snoc, ← during_append, ← hos]
    exact fun hmem => (List.mem_append.mp hmem).elim hsince.unended hf
  · rw [← List.cons_append]
    refine hnext _ (fun base waits' permitted' hlooks ho => ?_)
      (hdrawn.mono (fun base hl => hl.append _) (List.Subset.refl _) (List.Subset.refl _))
    exact ⟨_, waits', permitted', [], by rw [ho], hos ▸ hlooks⟩

end

variable {W : Type} [Workshop W]

/-- Where all that there is at the end of a run from `o` comes from: the jobs that were done, the
artifacts that the store holds, and what the workers have in their hands. -/
structure Provenance (o : Pipeline W) (os : List (Occurrence W)) (h : Holdings) : Prop where
  dir : (o.during os).pchDir = o.pchDir
  shows : (o.during os).artifacts.Shows (o.during os).workspace.world h
  jobs : ∀ j ∈ Workshop.jobs (o.during os).workspace.world, ∃ print,
    j.Authored (o.seen drafts os) print
  artifacts : ∀ print path, h.artifact print = some path →
    ∃ j ∈ Workshop.jobs (o.during os).workspace.world, j.outputPath = path ∧
      j.Authored (o.seen drafts os) print
  hands : ∀ i s stage cl, (o.during os).workers[i]? = some ⟨s, stage⟩ →
    stage.claimed? = some cl →
    HeldSince o os (Workshop.jobs (o.during os).workspace.world) i s cl stage

/-- What `o` does to the headers on record: the parts that are removed lose theirs, and those that an
ended build speaks for get what came of it. What was compiled stays in the log. -/
structure Turns (p : Pipeline W) (o : Occurrence W) (h h' : Holdings) : Prop where
  kept : ∀ x s, x ∉ p.losing o → (∀ e ∈ p.endings o, e.finished.retracted = false →
    e.finished.scope = s → x ∉ e.finished.members) → h'.header x s = h.header x s
  recorded : ∀ e ∈ p.endings o, e.finished.retracted = false → ∀ x ∈ e.finished.members,
    h'.header x e.finished.scope = e.outcome.header?
  log : Workshop.jobs p.workspace.world ⊆ Workshop.jobs (p.occur o).workspace.world

variable {o p : Pipeline W} {os : List (Occurrence W)} {o' : Occurrence W} {h h' : Holdings}
  {i j : Nat} {s : Scope} {stage : Stage} {cl : Claimed}

omit [Workshop W] in
theorem getElem?_setStage_of_ne (p : Pipeline W) (hij : i ≠ j) (stage : Stage) :
    (p.setStage i stage).workers[j]? = p.workers[j]? := by
  show (p.workers.modify i _)[j]? = _
  rw [List.getElem?_modify]
  cases p.workers[j]? <;> simp [hij]

omit [Workshop W] in
/-- Two workers do not hold one key. -/
theorem key_ne_of_held (hn : (p.held.map (·.key)).Nodup) {v w : Worker}
    {c d : Claimed} (hi : p.workers[i]? = some v) (hj : p.workers[j]? = some w) (hij : i ≠ j)
    (hc : v.stage.claimed? = some c) (hd : w.stage.claimed? = some d) : c.key ≠ d.key := by
  obtain ⟨others, hperm, _⟩ := exchange hi .idle
  obtain ⟨hold, hnew⟩ := hperm Stage.claimed?
  have hmem : d ∈ onHand Stage.claimed? others := by
    have hstill := getElem?_setStage_of_ne p hij .idle
    exact hnew.mem_iff.mp (List.mem_filterMap.mpr ⟨w, List.mem_of_getElem? (hstill.trans hj), hd⟩)
  have hkeys := (hold.map (·.key)).nodup_iff.mp hn
  rw [hc, Option.toList_some, List.singleton_append, List.map_cons] at hkeys
  exact fun hk => (List.nodup_cons.mp hkeys).1 (hk ▸ List.mem_map_of_mem hmem)

/-- The coordinator calls the merger or takes reports, and does no more. -/
theorem mem_movesOf {event : Event} {e : Move} (h : e ∈ p.movesOf event) :
    (∃ c, e = .call c) ∨ e = .reported := by
  have hhands : ∀ (q : Pipeline W) parts, e ∈ q.handsIn parts → ∃ c, e = .call c := by
    intro q parts he
    rw [handsIn] at he
    split at he
    · exact ⟨_, List.mem_singleton.mp he⟩
    · exact absurd he List.not_mem_nil
  have hagain : ∀ (q : Pipeline W) ids, e ∈ q.handsInAgain ids → ∃ c, e = .call c := by
    intro q ids he
    rw [handsInAgain] at he
    cases hparts : ids.filterMap (q.parts[·]?) with
    | nil =>
      rw [hparts] at he
      exact absurd he List.not_mem_nil
    | cons part parts =>
      rw [hparts] at he
      exact hhands q _ he
  cases event with
  | addParts => exact Or.inl (hhands _ _ h)
  | removeParts => exact Or.inl ⟨_, List.mem_singleton.mp h⟩
  | updateUnsaved | removeUnsaved | filesChanged => exact Or.inl (hagain _ _ h)
  | taskFinished => exact Or.inr (List.mem_singleton.mp h)
  | shutdown => exact absurd h List.not_mem_nil

/-- Only the worker with the build in its hands ends it. -/
theorem finish_mem_moves {k : TaskKey} (h : .finish k ∈ p.moves o') :
    ∃ i waits permitted s c outcome, o' = .step (.work i waits permitted) ∧
      p.workers[i]? = some ⟨s, .ended c outcome⟩ ∧ c.key = k := by
  cases o' with
  | step step =>
    cases step with
    | coordinate =>
      rw [moves] at h
      split at h
      · rcases mem_movesOf h with ⟨_, he⟩ | he <;> cases he
      · exact absurd h List.not_mem_nil
    | work i waits permitted =>
      rw [moves] at h
      split at h
      · split at h
        · exact absurd h List.not_mem_nil
        · exact Move.noConfusion (List.mem_singleton.mp h)
      · rename_i s c outcome hw
        exact ⟨i, waits, permitted, s, c, outcome, rfl, hw,
          (Move.finish.inj (List.mem_singleton.mp h)).symm⟩
      · exact absurd h List.not_mem_nil
  | send | change | number | close => exact absurd h List.not_mem_nil

/-- Only idle workers claim. -/
theorem claim_mem_moves (h : .claim s ∈ p.moves o') :
    ∃ i waits permitted, o' = .step (.work i waits permitted) ∧
      p.workers[i]? = some ⟨s, .idle⟩ ∧ p.closing = false := by
  cases o' with
  | step step =>
    cases step with
    | coordinate =>
      rw [moves] at h
      split at h
      · rcases mem_movesOf h with ⟨_, he⟩ | he <;> cases he
      · exact absurd h List.not_mem_nil
    | work i waits permitted =>
      rw [moves] at h
      split at h
      · rename_i scope hw
        split at h
        · exact absurd h List.not_mem_nil
        · rename_i hopen
          obtain rfl := Move.claim.inj (List.mem_singleton.mp h)
          exact ⟨i, waits, permitted, rfl, hw, Bool.eq_false_iff.mpr hopen⟩
      · exact Move.noConfusion (List.mem_singleton.mp h)
      · exact absurd h List.not_mem_nil
  | send | change | number | close => exact absurd h List.not_mem_nil

end Pipeline
end PrecompiledHeaders
